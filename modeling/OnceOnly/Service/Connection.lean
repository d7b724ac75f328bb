import OnceOnly.Endpoint
import OnceOnly.Total

/-!
Connections from a server's side: who is at the other end, whether they are still there, and the
responses that wait to be written. Responses to those who left are queued all the same.
-/

namespace OnceOnly

/-- A response frame in slices: everything up to the body, the message, the sidecars. -/
structure OutboundResponse where
  callId : Int32
  slices : List Bytes
deriving DecidableEq, Repr

def OutboundResponse.size (r : OutboundResponse) : Nat := total List.length r.slices

def OutboundResponse.frame (r : OutboundResponse) : Bytes := r.slices.flatten

structure Connection where
  remote : Address
  credentials : Credentials
  alive : Bool
  queue : List OutboundResponse

namespace Connection

def start (remote : Address) (credentials : Credentials) : Connection :=
  ⟨remote, credentials, true, []⟩

def enqueue (c : Connection) (r : OutboundResponse) : Connection :=
  { c with queue := c.queue ++ [r] }

/-- The oldest response, and the connection without it. -/
def take (c : Connection) : Option (OutboundResponse × Connection) :=
  match c.queue with
  | [] => none
  | r :: rest => some (r, { c with queue := rest })

end Connection

end OnceOnly
