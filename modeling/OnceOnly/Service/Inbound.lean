import OnceOnly.Service.Connection
import OnceOnly.Service.Timing
import OnceOnly.Settings.Calls
import OnceOnly.Wire.Body
import OnceOnly.Wire.Headers

/-!
One received request. The message and every sidecar are spans of the bytes it arrived in. It is
answered once; a success carries the sidecars attached before it, an error none.
-/

namespace OnceOnly

structure Inbound where
  remote : Address
  header : RequestHeader
  transfer : Bytes
  message : Span
  sidecars : List Span
  /-- The size that a response frame may have. -/
  limit : Nat
  timing : Timing
  /-- The sidecars of the response. -/
  attached : List Bytes
  responded : Bool

namespace Inbound

/-- Reads a whole request frame that came from `remote`. -/
def parse (remote : Address) (bs : Bytes) (settings : CallSettings) (now : Instant) :
    Except Problem Inbound := do
  let frame ← Frame.parse RequestHeader.codec bs settings.limit
  let layout ← Body.layout frame frame.header.sidecarOffsets
  pure
    { remote
      header := frame.header
      transfer := bs
      message := layout.message
      sidecars := layout.sidecars
      limit := settings.limit
      timing := ⟨now, none, none⟩
      attached := []
      responded := false }

def text (i : Inbound) : String :=
  s!"Call {i.header.method.text} from {i.remote.text} (call id {i.header.callId.toInt}" ++
    match i.header.requestId with
    | some id => s!", request id {id.text})"
    | none => ")"

def request (i : Inbound) : Bytes := i.message.of i.transfer

def sidecar (i : Inbound) (index : Nat) : Except Problem Bytes :=
  match i.sidecars[index]? with
  | some s => .ok (s.of i.transfer)
  | none => .error (.sidecarOutOfRange index i.sidecars.length)

/-- The required features that are not supported. -/
def unsupported (i : Inbound) (supported : List UInt32) : List UInt32 :=
  i.header.requiredFeatures.filter fun f => !supported.contains f

/-- How long the caller waits. -/
def timeout (i : Inbound) : Option Duration :=
  i.header.timeoutMillis.map fun ms => .ofMillis ms.toNat

/-- The caller has stopped waiting. -/
def callerGone (i : Inbound) (now : Instant) : Bool :=
  match i.timeout with
  | some t => decide (i.timing.received.add t ≤ now)
  | none => false

/-! ## Marks -/

def receivedAgain (i : Inbound) (now : Instant) : Inbound :=
  { i with timing := { i.timing with received := now } }

def handlingStarted (i : Inbound) (now : Instant) : Inbound :=
  { i with timing := { i.timing with handled := some now } }

/-! ## The answer -/

/-- Attaches a sidecar to the response, and answers its index. -/
def attach (i : Inbound) (sidecar : Bytes) : Except Problem (Inbound × Nat) :=
  if i.responded then .error (.illegalState (.alreadyAnswered i.text))
  else if Body.maxSidecars ≤ i.attached.length then .error (.tooManySidecars Body.maxSidecars)
  else .ok ({ i with attached := i.attached ++ [sidecar] }, i.attached.length)

/-- The frame of a response. -/
def encodeResponse (i : Inbound) (isError : Bool) (message : Bytes) (sidecars : List Bytes) :
    Except Problem OutboundResponse := do
  let offsets ← Body.offsets message.length sidecars
  let header : ResponseHeader := ⟨i.header.callId, isError, offsets⟩
  let front ← Frame.encodePrefix (ResponseHeader.codec.encode header)
    (Body.size message sidecars) i.limit
  pure ⟨i.header.callId, front :: message :: sidecars⟩

/-- Answering a call that was answered is a mistake of the caller's, in these words. -/
def answeredTwice (i : Inbound) : String := i.text ++ ": response already sent"

/-- Answers the call: the response to be queued, none if it does not fit a frame. The call counts
as answered either way. Nothing at all comes of a second answer. -/
def respond (i : Inbound) (isError : Bool) (message : Bytes) (now : Instant) :
    Option (Inbound × Option OutboundResponse) :=
  if i.responded then none
  else
    let sidecars := if isError then [] else i.attached
    let answered := { i with
      responded := true
      attached := []
      timing := { i.timing with completed := some now } }
    some (answered, (i.encodeResponse isError message sidecars).toOption)

def succeed (i : Inbound) (message : Bytes) (now : Instant) :
    Option (Inbound × Option OutboundResponse) :=
  i.respond false message now

def fail (i : Inbound) (status : ErrorStatus) (now : Instant) :
    Option (Inbound × Option OutboundResponse) :=
  i.respond true (ErrorStatus.codec.encode status) now

end Inbound

end OnceOnly
