import OnceOnly.Call.Failure
import OnceOnly.Call.Phase
import OnceOnly.Call.Response
import OnceOnly.Keyed.SortedMap

/-!
One attempt at a remote call, from its caller's side. The first move into a terminal phase takes
the callback out of the call and hands it over with the outcome; it runs after the move, so a call
is finished once and its callback runs once. `κ` is the type of callbacks.
-/

namespace OnceOnly

/-- What a call is started with. -/
structure CallOptions where
  timeout : Option Duration
  /-- Comes before the timeout in saying when the call is due. -/
  deadline : Option Instant
  requestId : Option RequestId
  /-- Application features that the server must support. -/
  features : SortedSet UInt32
  sidecars : List Bytes

/-- The message of a successful response, or why there is none. -/
abbrev CallOutcome := Except CallError Bytes

structure Call (κ : Type) where
  conn : ConnectionId
  method : Method
  options : CallOptions
  request : Bytes
  started : Instant
  id : Option Int32
  phase : CallPhase
  status : Option CallError
  response : Option Response
  /-- The frame up to the body, once it was encoded. -/
  encoded : Option Bytes
  callback : Option κ

namespace Call

variable {κ : Type}

def start (conn : ConnectionId) (method : Method) (options : CallOptions) (request : Bytes)
    (callback : κ) (now : Instant) : Call κ :=
  { conn, method, options, request
    started := now
    id := none
    phase := .ready
    status := none
    response := none
    encoded := none
    callback := some callback }

/-- When the call is due, if ever. -/
def deadline (c : Call κ) : Option Instant :=
  c.options.deadline.or (c.options.timeout.map c.started.add)

def isFinished (c : Call κ) : Bool := c.phase.isTerminal

def text (c : Call κ) : String :=
  s!"RPC call {c.method.text} -> {c.conn.text}" ++
    (match c.id with
    | some id => s!" (call id {id.toInt})"
    | none => "") ++ s!" [{c.phase.name}]"

def debugText (c : Call κ) : String :=
  Text.record "OutboundCall"
    [("conn_id", c.conn.debugText), ("remote_method", c.method.debugText),
      ("call_id", Text.option (c.id.map fun id => toString id.toInt)),
      ("state", c.phase.debugText)]

/-- Gives the call its id, which is done once. -/
def assignId (c : Call κ) (id : Int32) : Except Problem (Call κ) :=
  match c.id with
  | some _ => .error (.illegalState (.callIdAssigned c.method))
  | none => .ok { c with id := some id }

/-! ## Moves -/

/-- The outcome of a finished call. A status is always there unless the call succeeded. -/
def outcome (c : Call κ) : CallOutcome :=
  match c.phase with
  | .finishedSuccess => .ok ((c.response.map Response.message).getD [])
  | _ => .error (c.status.getD (.aborted "call finished without a status"))

/-- A call after it was asked to move on, and the callback that has to run now. -/
structure Move (κ : Type) where
  call : Call κ
  transition : Transition
  fired : Option (κ × CallOutcome)

/-- Moves the call on and makes the changes that belong to the move, if the table allows it. -/
def moveTo (c : Call κ) (next : CallPhase) (change : Call κ → Call κ) : Move κ :=
  if c.phase.isTerminal then ⟨c, .alreadyTerminal c.phase, none⟩
  else if !c.phase.canMoveTo next then ⟨c, .rejected c.phase next, none⟩
  else
    let moved := { change c with phase := next }
    if next.isTerminal then
      ⟨{ moved with callback := none }, .applied, moved.callback.map fun k => (k, moved.outcome)⟩
    else ⟨moved, .applied, none⟩

def queued (c : Call κ) : Move κ := c.moveTo .onOutboundQueue fun c => c

def sending (c : Call κ) : Move κ := c.moveTo .sending fun c => c

def sent (c : Call κ) : Move κ := c.moveTo .sent fun c => c

def fail (c : Call κ) (status : CallError) : Move κ :=
  c.moveTo .finishedError fun c => { c with status := some status }

def timeoutError (c : Call κ) : CallError :=
  .timedOut c.method.text c.conn.remote.text (c.options.timeout.getD .zero)

/-- Gives up waiting. -/
def timeOut (c : Call κ) : Move κ :=
  c.moveTo .timedOut fun c => { c with status := some c.timeoutError }

/-- Finishes the call with a response. -/
def respond (c : Call κ) (r : Response) : Move κ :=
  if r.isSuccess then c.moveTo .finishedSuccess fun c => { c with response := some r }
  else
    let status := match r.errorStatus with
      | .ok status => CallError.remote status
      | .error problem => .invalidResponse problem.text
    c.moveTo .finishedError fun c => { c with status := some status, response := some r }

def isDue (c : Call κ) (now : Instant) : Bool :=
  match c.deadline with
  | some deadline => decide (deadline ≤ now)
  | none => false

/-- Gives up waiting if the call is due. -/
def checkDeadline (c : Call κ) (now : Instant) : Option (Move κ) :=
  if c.isDue now then some c.timeOut else none

/-- What the server must support for this call. -/
def requiredFeatures (c : Call κ) : List Feature :=
  if c.options.features.isEmpty then [] else [.applicationFeatureFlags]

/-- The names of what the server lacks. -/
def missingFeatures (c : Call κ) (server : List Feature) : List String :=
  (c.requiredFeatures.filter fun f => !server.contains f).map Feature.name

/-- Fails the call if the server lacks something that it requires. -/
def checkFeatures (c : Call κ) (server : List Feature) : Option (CallError × Move κ) :=
  match c.missingFeatures server with
  | [] => none
  | missing =>
    let error := CallError.featureNotSupported missing
    some (error, c.fail error)

/-! ## Sending -/

/-- The longest timeout that a header can say. -/
def maxTimeoutMillis : Nat := 4294967295

def header (c : Call κ) (id : Int32) (offsets : List UInt32) : RequestHeader where
  callId := id
  method := c.method
  timeoutMillis := c.options.timeout.map fun t => .ofNat (min t.toMillis maxTimeoutMillis)
  requiredFeatures := c.options.features.keys
  requestId := c.options.requestId
  sidecarOffsets := offsets

/-- The frame up to the body. -/
def encodeHeader (c : Call κ) (id : Int32) (limit : Nat) : Except Problem Bytes := do
  let offsets ← Body.offsets c.request.length c.options.sidecars
  Frame.encodePrefix (RequestHeader.codec.encode (c.header id offsets))
    (Body.size c.request c.options.sidecars) limit

/-- The slices of the call's frame. The frame up to the body is encoded, and held to the limit,
until it has been encoded once; from then on it is kept. -/
def serialize (c : Call κ) (limit : Nat) : Call κ × Except Problem (List Bytes) :=
  match c.id with
  | none => (c, .error (.illegalState (.noCallId c.method)))
  | some id =>
    let encoded : Except Problem Bytes := match c.encoded with
      | some bs => .ok bs
      | none => c.encodeHeader id limit
    match encoded with
    | .error problem => (c, .error problem)
    | .ok bs =>
      let slices := bs :: c.request :: c.options.sidecars
      ({ c with encoded := some bs },
        if Body.maxSlices < slices.length then .error (.tooManySidecars Body.maxSidecars)
        else .ok slices)

end Call

end OnceOnly
