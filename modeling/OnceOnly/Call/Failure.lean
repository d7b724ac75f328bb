import OnceOnly.Time
import OnceOnly.Wire.Status

/-!
Why a call did not succeed.
-/

namespace OnceOnly

inductive CallError where
  /-- Nothing is known of whether the server ran the call. -/
  | timedOut (method remote : String) (timeout : Duration)
  /-- The server answered with an error. -/
  | remote (status : ErrorStatus)
  | featureNotSupported (features : List String)
  | network (text : String)
  | aborted (text : String)
  | invalidResponse (text : String)
deriving DecidableEq, Repr

namespace CallError

def text : CallError → String
  | timedOut method peer timeout => s!"{method} RPC to {peer} timed out after {timeout.text}"
  | remote status => "Remote error: " ++ status.text
  | featureNotSupported features =>
    "Server does not support required features: " ++ Text.list (features.map Text.quote)
  | network text => "Network error: " ++ text
  | aborted text => "Call aborted: " ++ text
  | invalidResponse text => "Invalid response: " ++ text

def isTimedOut : CallError → Bool
  | timedOut .. => true
  | _ => false

def remote? : CallError → Option ErrorStatus
  | remote status => some status
  | _ => none

end CallError

end OnceOnly
