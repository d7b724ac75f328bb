import OnceOnly.Scenario.Step

/-!
The state of a scenario: all objects of both sides, by name, and what was counted. Calls,
connections, received calls, contexts, budgets and memories of requests outlive their names as long
as others hold them, so they are kept in lists and named by their places. A registry that is
replaced is kept for the steps that still work on it.
-/

namespace OnceOnly.Scenario

/-- What runs when a call finishes. -/
inductive Callback where
  | record (call : String) (script : List Step)
  | channel (call : CallRef)
  | discard

/-- The receiving end of a channel, which holds one outcome at most. -/
structure Receiver where
  /-- The call that the outcome is of; there is none if the call was not started. -/
  call : Option CallRef
  pending : Option CallOutcome

/-- Where an answer to an attempt goes. -/
inductive Place where
  | context (ref : Nat)
  | inbound (ref : Nat)
deriving DecidableEq, Repr

/-- A place made for one attempt. -/
structure Context where
  name : String
  reachable : Bool
  /-- Counts as reachable whatever is said. -/
  always : Bool
  script : List Step

/-- A received call and the connection it came on. -/
structure Arrival where
  inbound : Inbound
  conn : Nat
  bare : Bool

structure NamedConnection where
  name : String
  conn : Connection

/-- A memory of requests, and the place of the budget that it charges. -/
structure Server where
  dedup : Dedup Place
  budget : Nat

/-- The place of a memory among all memories made so far. -/
abbrev ServerRef := Nat

/-- The place of a registry among all registries made so far. -/
abbrev RegistryRef := Nat

/-- What steps under way hold. -/
structure Held where
  calls : List CallRef
  servers : List ServerRef

structure Metrics where
  /-- Counters, and the numbers of samples of histograms. -/
  counts : SortedMap String Nat
  gauges : SortedMap String Int

namespace Metrics

def count (m : Metrics) (name : String) (n : Nat) : Metrics :=
  { m with counts := m.counts.insert name ((m.counts.get? name).getD 0 + n) }

/-- Sets a gauge. It keeps the double next to the value, and shows it as a word as far as one
reaches. -/
def setGauge (m : Metrics) (name : String) (value : Int) : Metrics :=
  { m with gauges := m.gauges.insert name (min (asDouble value) Int64.maxValue.toInt) }

end Metrics

structure World where
  clock : Instant
  settings : CallSettings
  exchange : Exchange Callback
  /-- The registries before the one in use. -/
  retired : List Registry
  callNames : SortedMap String CallRef
  receivers : SortedMap String Receiver
  controllers : SortedMap String Controller
  issuers : SortedMap String Issuer
  frames : SortedMap String Bytes
  ids : SortedMap String RequestId
  connections : List NamedConnection
  connectionNames : SortedMap String Nat
  arrivals : List Arrival
  inboundNames : SortedMap String Nat
  budgets : List Budget
  budgetNames : SortedMap String Nat
  servers : List Server
  serverNames : SortedMap String ServerRef
  contexts : List Context
  contextNames : SortedMap String Nat
  metrics : Metrics

namespace World

def start : World where
  clock := ⟨0⟩
  settings := .standard
  exchange := .start CallSettings.standard.limit
  retired := []
  callNames := ∅
  receivers := ∅
  controllers := ∅
  issuers := ∅
  frames := ∅
  ids := ∅
  connections := []
  connectionNames := ∅
  arrivals := []
  inboundNames := ∅
  budgets := []
  budgetNames := ∅
  servers := []
  serverNames := ∅
  contexts := []
  contextNames := ∅
  metrics := ⟨∅, ∅⟩

/-- Every step reads a later clock: a session takes time, if only a little. -/
def tick (w : World) : World := { w with clock := ⟨w.clock.nanos + 1⟩ }

def count (w : World) (name : String) (n : Nat) : World :=
  { w with metrics := w.metrics.count name n }

/-! ## Arguments -/

def frame? (w : World) : FrameArg → Option Bytes
  | .stored name => w.frames.get? name
  | .literal bytes => some bytes

def id? (w : World) : IdArg → Option RequestId
  | .stored name later => w.ids.get? name >>= fun id => (id.laterAttempt later).toOption
  | .literal id => some id

def storeFrame (w : World) (name : Option String) (frame : Bytes) : World :=
  match name with
  | some name => { w with frames := w.frames.insert name frame }
  | none => w

/-! ## Registries -/

/-- The registry in use. -/
def registryRef (w : World) : RegistryRef := w.retired.length

/-- The caller's side, with the registry at the given place. -/
def exchangeAt (w : World) (ref : RegistryRef) : Exchange Callback :=
  match w.retired[ref]? with
  | some registry => { w.exchange with registry }
  | none => w.exchange

/-- Puts a caller's side back, with its registry at the given place. -/
def setExchange (w : World) (ref : RegistryRef) (x : Exchange Callback) : World :=
  if ref < w.registryRef then
    { w with
      retired := w.retired.set ref x.registry
      exchange := { x with registry := w.exchange.registry } }
  else { w with exchange := x }

/-- The caller's side, with the given registry or the one in use. -/
def exchangeOf (w : World) : Option RegistryRef → Exchange Callback
  | some ref => w.exchangeAt ref
  | none => w.exchange

def setExchangeOf (w : World) (ref : Option RegistryRef) (x : Exchange Callback) : World :=
  match ref with
  | some ref => w.setExchange ref x
  | none => { w with exchange := x }

/-- Takes new settings, and a new registry by them. -/
def renew (w : World) (settings : CallSettings) : World :=
  { w with
    settings
    retired := w.retired ++ [w.exchange.registry]
    exchange.registry := .start settings.limit }

/-! ## Calls -/

def namedCall? (w : World) (name : String) : Option (CallRef × Call Callback) := do
  let ref ← w.callNames.get? name
  let call ← w.exchange.call? ref
  pure (ref, call)

/-- The call that a controller holds. -/
def heldCall? (w : World) (c : Controller) : Option (Call Callback) := c.call >>= w.exchange.call?

/-- Somebody holds the call: a name, a controller, the registry, or a step under way. -/
def isAlive (w : World) (held : Held) (ref : CallRef) : Bool :=
  w.callNames.values.contains ref || w.controllers.values.any (fun c => c.call == some ref) ||
    w.exchange.registry.calls.values.contains ref || held.calls.contains ref

/-- Opens a channel of that name for the outcome of `call`, if there is to be one. -/
def openChannel (w : World) (name : String) (kind : CallbackKind) (call : Option CallRef) : World :=
  match kind with
  | .channel => { w with receivers := w.receivers.insert name ⟨call, none⟩ }
  | _ => w

/-- Adds a call under a name. -/
def addCall (w : World) (name : String) (call : Call Callback) (kind : CallbackKind) : World :=
  let ref := w.exchange.nextRef
  { w.openChannel name kind (some ref) with
    exchange := w.exchange.add call
    callNames := w.callNames.insert name ref }

/-- The callback of the next call. -/
def callback (w : World) (name : String) (kind : CallbackKind) (script : List Step) : Callback :=
  match kind with
  | .record => .record name script
  | .channel => .channel w.exchange.nextRef
  | .discard => .discard

/-- Hands an outcome to whoever still receives for the call. -/
def send (w : World) (ref : CallRef) (outcome : CallOutcome) : World :=
  { w with
    receivers := w.receivers.filterMap fun _ r =>
      some (if r.call = some ref then { r with pending := some outcome } else r) }

/-! ## Budgets -/

/-- Charges a budget, and shows its consumption if there was anything to charge. Says whether the
charge overflowed. -/
def chargeOne (w : World) (budget : Nat) (bytes : Int) : World × Bool :=
  match w.budgets[budget]? with
  | none => (w, false)
  | some b =>
    match b.charge? bytes with
    | .error b => ({ w with budgets := w.budgets.set budget b }, true)
    | .ok b =>
      let gauge := "rpc.memory_budget.bytes\x7bbudget=" ++ b.id ++ "\x7d"
      let metrics := if bytes = 0 then w.metrics else w.metrics.setGauge gauge b.consumption
      ({ w with budgets := w.budgets.set budget b, metrics }, false)

/-- Charges in order up to the first charge that overflows, and says how many went through before
it. -/
def charge (w : World) (budget : Nat) : List Int → World × Option Nat
  | [] => (w, none)
  | bytes :: rest =>
    match w.chargeOne budget bytes with
    | (w, true) => (w, some 0)
    | (w, false) =>
      let (w, done) := w.charge budget rest
      (w, done.map (· + 1))

/-- Charges in order whatever overflows, and says whether anything did. -/
def settle (w : World) (budget : Nat) : List Int → World × Bool
  | [] => (w, false)
  | bytes :: rest =>
    let (w, overflowed) := w.chargeOne budget bytes
    let (w, later) := w.settle budget rest
    (w, overflowed || later)

def budget? (w : World) (name : String) : Option Budget :=
  w.budgetNames.get? name >>= fun i => w.budgets[i]?

/-! ## Memories of requests -/

def server? (w : World) (name : String) : Option (ServerRef × Server) := do
  let ref ← w.serverNames.get? name
  let s ← w.servers[ref]?
  pure (ref, s)

/-- The budget of a memory. -/
def budgetOf (w : World) (s : Server) : Budget :=
  (w.budgets[s.budget]?).getD (.ofLimit "" none)

/-- Gives the bytes of a memory back once nothing holds it: no name, and no step under way. Says
whether that overflowed. -/
def release (w : World) (held : Held) (ref : ServerRef) : World × Bool :=
  if w.serverNames.values.contains ref || held.servers.contains ref then (w, false)
  else
    match w.servers[ref]? with
    | none => (w, false)
    | some s => w.settle s.budget s.dedup.release

/-! ## Received calls -/

def connection? (w : World) (ref : Nat) : Option Connection :=
  (w.connections[ref]?).map NamedConnection.conn

def arrivalAlive (w : World) (a : Arrival) : Bool :=
  a.bare || ((w.connection? a.conn).map Connection.alive).getD false

def arrivalUser (w : World) (a : Arrival) : Credentials :=
  if a.bare then ⟨none⟩ else ((w.connection? a.conn).map Connection.credentials).getD ⟨none⟩

/-- The caller can still be answered. -/
def arrivalReachable (w : World) (a : Arrival) : Bool :=
  w.arrivalAlive a && !a.inbound.callerGone w.clock

def arrival? (w : World) (name : String) : Option (Nat × Arrival) := do
  let ref ← w.inboundNames.get? name
  let a ← w.arrivals[ref]?
  pure (ref, a)

def setInbound (w : World) (ref : Nat) (i : Inbound) : World :=
  { w with arrivals := w.arrivals.modify ref fun a => { a with inbound := i } }

def reachable (w : World) : Place → Bool
  | .context ref => (w.contexts[ref]?).any fun c => c.always || c.reachable
  | .inbound ref => (w.arrivals[ref]?).any w.arrivalReachable

/-- Attempts that wait, over all memories. -/
def waiting (w : World) : Nat :=
  total (fun s => total (fun c => total (fun r => r.waiting.length) c.records.map.values)
    s.dedup.clients.map.values) w.servers

end World

end OnceOnly.Scenario
