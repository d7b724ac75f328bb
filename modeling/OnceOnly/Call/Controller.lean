import OnceOnly.Call.Registry
import OnceOnly.Settings.Calls

/-!
A caller's handle: it collects the settings of a call, starts it, and shows what became of it. It
drives one call at a time, and is reset before the next.
-/

namespace OnceOnly

structure Controller where
  timeout : Option Duration
  deadline : Option Instant
  features : SortedSet UInt32
  requestId : Option RequestId
  sidecars : List Bytes
  call : Option CallRef

namespace Controller

variable {κ : Type}

def start : Controller := ⟨none, none, ∅, none, [], none⟩

def ofSettings (s : CallSettings) : Controller := { start with timeout := s.defaultTimeout }

def setTimeout (c : Controller) (timeout : Duration) : Controller :=
  { c with timeout := some timeout, deadline := none }

def setDeadline (c : Controller) (deadline : Instant) : Controller :=
  { c with timeout := none, deadline := some deadline }

/-- The time that is left for a call; none when the deadline has passed. -/
def timeLeft (c : Controller) (now : Instant) : Option Duration :=
  match c.deadline with
  | some deadline => some (deadline.since now)
  | none => c.timeout

def setRequestId (c : Controller) (id : RequestId) : Controller := { c with requestId := some id }

def require (c : Controller) (feature : UInt32) : Controller :=
  { c with features := SortedSet.add c.features feature }

/-- Attaches a sidecar, and answers its index. -/
def addSidecar (c : Controller) (sidecar : Bytes) : Except Problem (Controller × Nat) :=
  if Body.maxSidecars ≤ c.sidecars.length then .error (.tooManySidecars Body.maxSidecars)
  else .ok ({ c with sidecars := c.sidecars ++ [sidecar] }, c.sidecars.length)

/-- What a call started now is started with. -/
def options (c : Controller) (now : Instant) : CallOptions where
  timeout := c.timeLeft now
  deadline := c.deadline
  requestId := c.requestId
  features := c.features
  sidecars := c.sidecars

/-- Starts a call, which takes the sidecars along. `held` is the call that the controller holds
already, `ref` the place of the new one. -/
def startCall (c : Controller) (held : Option (Call κ)) (ref : CallRef) (conn : ConnectionId)
    (method : Method) (request : Bytes) (callback : κ) (now : Instant) :
    Except Problem (Controller × Call κ) :=
  match held with
  | some call => .error (.illegalState (.controllerUsed call.text))
  | none =>
    .ok ({ c with sidecars := [], call := some ref },
      .start conn method (c.options now) request callback now)

/-- Clears everything, unless the call that is held is unfinished. -/
def reset (held : Option (Call κ)) : Except Problem Controller :=
  match held with
  | some call =>
    if call.isFinished then .ok start else .error (.illegalState (.callInFlight call.text))
  | none => .ok start

/-- The response of a call that succeeded. -/
def success? (held : Option (Call κ)) : Option Response :=
  match held with
  | some call => if call.phase = .finishedSuccess then call.response else none
  | none => none

def responseSidecar (held : Option (Call κ)) (index : Nat) : Except Problem Bytes :=
  match success? held with
  | some r => r.sidecar index
  | none => .error (.illegalState .noSuccessfulCall)

def instantText (t : Instant) : String :=
  Text.record "Instant"
    [("tv_sec", toString (t.nanos / 1000000000)), ("tv_nsec", toString (t.nanos % 1000000000))]

def debugText (c : Controller) (held : Option (Call κ)) : String :=
  Text.record "RpcController"
    [("timeout", Text.option (c.timeout.map Duration.text)),
      ("deadline", Text.option (c.deadline.map instantText)),
      ("required_server_features", Text.braces (c.features.keys.map fun f => toString f.toNat)),
      ("request_id", Text.option (c.requestId.map RequestId.debugText)),
      ("outbound_sidecars", Text.list (c.sidecars.map Text.quoteBytes)),
      ("call", Text.option (held.map Call.debugText))]

end Controller

end OnceOnly
