import OnceOnly.Endpoint

/-!
Why building, reading or using a frame or a call is refused, by cause; the wording is in one
function per kind of cause.
-/

namespace OnceOnly

/-- Why bytes are no encoding of a value. -/
inductive CodecProblem where
  /-- A fixed-size item runs past the end. -/
  | endOfInput
  /-- The content of a string runs past the end. -/
  | stringOverrun
  | notUtf8 (fault : Utf8.Fault)
  | notBool (found : UInt8)
  | notOptionTag (found : UInt8)
  | noVariant (found : UInt32) (variants : Nat)
deriving DecidableEq, Repr

def CodecProblem.text : CodecProblem → String
  | .endOfInput => "io error: unexpected end of file"
  | .stringOverrun => "io error: "
  | .notUtf8 fault => "string is not valid utf8: " ++ fault.text
  | .notBool found => s!"invalid u8 while decoding bool, expected 0 or 1, found {found.toNat}"
  | .notOptionTag found => s!"tag for enum is not valid, found {found.toNat}"
  | .noVariant found variants =>
    s!"invalid value: integer \x60{found.toNat}\x60, expected variant index 0 <= i < {variants}"

/-- Why bytes are no frame, or offsets no division of a body. -/
inductive FrameProblem where
  | shorterThanLengths (size : Nat)
  | otherSize (declared carried : Nat)
  | headerOverrun (header size : Nat)
  | offsetBeyondBody (offset body : Nat)
  | sidecarSpan (index start stop body : Nat)
deriving DecidableEq, Repr

def FrameProblem.text : FrameProblem → String
  | .shorterThanLengths size => s!"frame of {size} bytes is shorter than its length prefix"
  | .otherSize declared carried => s!"frame declares {declared} bytes but carries {carried}"
  | .headerOverrun header size => s!"header of {header} bytes overruns a {size} byte frame"
  | .offsetBeyondBody offset body => s!"sidecar offset {offset} beyond body of {body} bytes"
  | .sidecarSpan index start stop body =>
    s!"sidecar {index} spans {start}..{stop} in a body of {body} bytes"

/-- Why an operation does not fit the state of what it is applied to. A call or a controller's
call is named by its text at the time. -/
inductive StateProblem where
  | callIdAssigned (method : Method)
  | noCallId (method : Method)
  | callIdInFlight (id : Int32)
  | controllerUsed (call : String)
  | callInFlight (call : String)
  | noSuccessfulCall
  | notAnError (call : Int32)
  | alreadyAnswered (call : String)
deriving DecidableEq, Repr

def StateProblem.text : StateProblem → String
  | .callIdAssigned method => s!"call id already assigned to {method.text} RPC"
  | .noCallId method => s!"{method.text} RPC serialized before a call id was assigned"
  | .callIdInFlight id => s!"call id {id.toInt} is still in flight"
  | .controllerUsed call => s!"controller already used for {call}; reset it first"
  | .callInFlight call => s!"cannot reset controller while {call} is in flight"
  | .noSuccessfulCall => "sidecars are only available after a successful call"
  | .notAnError call => s!"response to call {call.toInt} is not an error"
  | .alreadyAnswered call => s!"{call}: sidecar added after the response was sent"

inductive Problem where
  | invalidFrame (cause : FrameProblem)
  | messageTooLarge (size limit : Nat)
  | tooManySidecars (most : Nat)
  | sidecarOutOfRange (index count : Nat)
  | codec (cause : CodecProblem)
  | illegalState (cause : StateProblem)
deriving DecidableEq, Repr

def Problem.text : Problem → String
  | .invalidFrame cause => "Invalid frame: " ++ cause.text
  | .messageTooLarge size limit =>
    s!"Message too large: {size} bytes exceeds the limit of {limit} bytes"
  | .tooManySidecars most => s!"Too many sidecars: at most {most} are allowed"
  | .sidecarOutOfRange index count => s!"Sidecar index {index} out of range ({count} sidecars)"
  | .codec cause => "Codec error: " ++ cause.text
  | .illegalState cause => "Illegal state: " ++ cause.text

end OnceOnly
