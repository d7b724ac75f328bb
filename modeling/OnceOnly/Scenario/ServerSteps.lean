import OnceOnly.Scenario.Answer

/-!
The steps on a server's side: connections, received calls, budgets, the memory of requests.
-/

namespace OnceOnly.Scenario

/-! ## Connections -/

def startConnection (w : World) (name : String) (remote : Address) (credentials : Credentials) :
    Started :=
  answered { w with
    connections := w.connections ++ [⟨name, .start remote credentials⟩]
    connectionNames := w.connectionNames.insert name w.connections.length } .nothing

def setConnection (w : World) (ref : Nat) (c : Connection) : World :=
  { w with connections := w.connections.modify ref fun n => { n with conn := c } }

def onConnection (w : World) (ref : Nat) (c : Connection) : ConnectionStep → Started
  | .setAlive alive => answered (setConnection w ref { c with alive }) .nothing
  | .take store =>
    match c.take with
    | some (response, c) =>
      answered ((setConnection w ref c).storeFrame store response.frame) (.taken response)
    | none => answered w .nothing

def connectionStep (w : World) (name : String) (step : ConnectionStep) : Started :=
  found w name (w.connectionNames.get? name) fun ref =>
    found w name (w.connection? ref) fun c => onConnection w ref c step

/-! ## Received calls -/

/-- Hands an answer to a received call. -/
def answerInbound (w : World) (ref : Nat) (a : Dedup.Answer) : Started :=
  (w, [.deliver [⟨.inbound ref, a⟩] none .nothing])

/-- Reads a request that came on a connection, by the settings that are given or else those of the
scenario. -/
def parseInbound (w : World) (name conn : String) (frame : FrameArg) (json : Option String)
    (bare : Bool) : Started :=
  let settings := (json.map CallSettings.ofJson).getD (.ok w.settings)
  configured w settings fun settings =>
    found w conn (w.connectionNames.get? conn) fun connRef =>
      found w conn (w.connection? connRef) fun c =>
        found w "frame" (w.frame? frame) fun bytes =>
          accepted w (Inbound.parse c.remote bytes settings w.clock) fun inbound =>
            answered { w with
              arrivals := w.arrivals ++ [⟨inbound, connRef, bare⟩]
              inboundNames := w.inboundNames.insert name w.arrivals.length } (.text inbound.text)

def onInbound (w : World) (ref : Nat) (a : Arrival) (step : InboundStep) : Started :=
  let i := a.inbound
  match step with
  | .info =>
    answered w (.inbound i (w.arrivalUser a) (w.arrivalAlive a) (w.arrivalReachable a)
      (i.callerGone w.clock))
  | .unsupported supported => answered w (.features (i.unsupported supported))
  | .attach sidecar =>
    accepted w (i.attach sidecar) fun (i, index) => answered (w.setInbound ref i) (.number index)
  | .received => answered (w.setInbound ref (i.receivedAgain w.clock)) (.flag true)
  | .started =>
    let w := w.setInbound ref (i.handlingStarted w.clock)
    answered (w.count "rpc.inbound.queue_time_seconds" 1) .nothing
  | .succeed message => answerInbound w ref (.success message)
  | .fail status => answerInbound w ref (.failure status)

def inboundStep (w : World) (name : String) (step : InboundStep) : Started :=
  found w name (w.arrival? name) fun (ref, a) => onInbound w ref a step

/-! ## Budgets -/

def budgetStep (w : World) (name : String) (step : BudgetStep) : Started :=
  let shown (w : World) : Started := found w name (w.budget? name) fun b => answered w (.budget b)
  match step with
  | .start limit =>
    answered { w with
      budgets := w.budgets ++ [.ofLimit name limit]
      budgetNames := w.budgetNames.insert name w.budgets.length } .nothing
  | .consume bytes =>
    found w name (w.budgetNames.get? name) fun ref =>
      match w.chargeOne ref bytes with
      | (w, true) => answered w (.overflow .add)
      | (w, false) => shown w
  | .info => shown w

/-! ## The memory of requests -/

/-- Drops a memory, which gives its bytes back unless a step under way holds it. Says whether that
overflowed. -/
def dropServer (w : World) (held : Held) (name : String) : World × Bool :=
  match w.serverNames.get? name with
  | none => (w, false)
  | some ref => { w with serverNames := w.serverNames.erase name }.release held ref

/-- Answers, unless the step overflowed. -/
def answeredUnless (w : World) (overflowed : Bool) (a : Answer) : Started :=
  answered w (if overflowed then .overflow .add else a)

def dropServerStep (w : World) (held : Held) (name : String) : Started :=
  let (dropped, overflowed) := dropServer w held name
  answeredUnless dropped overflowed (.flag (w.serverNames.contains name))

def addServer (w : World) (held : Held) (name : String) (budget : Nat) (settings : DedupSettings) :
    Started :=
  let (w, overflowed) := dropServer w held name
  let s : Server := ⟨.start settings, budget⟩
  answeredUnless { w with
    servers := w.servers ++ [s]
    serverNames := w.serverNames.insert name w.servers.length } overflowed
    (.dedup (w.budgetOf s) settings)

/-- Starts a memory on a budget of that name, or on a budget of its own. -/
def startServer (w : World) (held : Held) (name json : String) (budget : Option String) : Started :=
  configured w (DedupSettings.ofJson json) fun settings =>
    match budget with
    | some b => found w b (w.budgetNames.get? b) fun ref => addServer w held name ref settings
    | none =>
      let own := Budget.ofLimit "result-tracker" (settings.memoryLimit.map Int64.toInt)
      addServer { w with budgets := w.budgets ++ [own] } held name w.budgets.length settings

def setServer (w : World) (ref : ServerRef) (s : Server) (dedup : Dedup Place) : World :=
  { w with servers := w.servers.set ref { s with dedup } }

/-- Counts a collection that is finished, and shows the bytes that are left. -/
def collectedTo (w : World) (evicted : Nat) (bytes : Int) : World :=
  let w := w.count "rpc.result_tracker.evicted" evicted
  { w with metrics := w.metrics.setGauge "rpc.result_tracker.memory_bytes" bytes }

/-- Makes the change of an operation to a memory and charges it. An operation whose charges overflow
comes to what is left of it after so many of them, and to no more. -/
def change (w : World) (ref : ServerRef) (s : Server) (dedup : Dedup Place) (charges : List Int)
    (left : Nat → Dedup.Remains Place) (next : World → Started) : Started :=
  match w.charge s.budget charges with
  | (w, none) => next (setServer w ref s dedup)
  | (charged, some done) =>
    let remains := left done
    let (settled, _) := (setServer charged ref s remains.dedup).settle s.budget remains.settled
    let counted := match remains.finished with
      | some first =>
        collectedTo settled first.evicted ((w.budgetOf s).chargeAll first.charges).consumption
      | none => settled
    answered counted (.overflow .add)

/-- Who is tracked, with a place for it in the world. -/
def trackArg (w : World) (script : List Step) : TrackArg → Option (World × RequestId × Place)
  | .attempt id name reachable always => do
    let id ← w.id? id
    let ref := w.contexts.length
    pure ({ w with
      contexts := w.contexts ++ [⟨name, reachable, always, script⟩]
      contextNames := w.contextNames.insert name ref }, id, .context ref)
  | .inbound name => do
    let (ref, a) ← w.arrival? name
    let id ← a.inbound.header.requestId
    pure (w, id, .inbound ref)

def trackStep (w : World) (name : String) (who : TrackArg) (takeOver : Bool)
    (script : List Step) : Started :=
  found w name (w.server? name) fun (ref, s) =>
    found w name (trackArg w script who) fun (w, id, place) =>
      let e := Dedup.track w.reachable w.clock s.dedup id place takeOver
      let left (done : Nat) :=
        Dedup.trackUntil done w.reachable w.clock s.dedup id place takeOver
      change w ref s e.dedup e.charges left fun w =>
        let w := w.count ("rpc.result_tracker.track\x7bstate=" ++ e.result.name ++ "\x7d") 1
        let w := if e.result = .completed then w.count "rpc.result_tracker.replays" 1 else w
        (w, [.deliver e.replies (some ref) (.phase e.result)])

/-- Why a report was not taken, if it was not. -/
def rejection : Dedup.Verdict → Option Dedup.ReportError
  | .rejected error => some error
  | _ => none

/-- What a report comes to. A mistake of the caller's ends it. -/
def reportStep (w : World) (ref : ServerRef) (s : Server)
    (e : Dedup.Effect Place Dedup.Verdict) (left : Nat → Dedup.Remains Place)
    (counted : Option String) : Started :=
  change w ref s e.dedup e.charges left fun w =>
    match e.result.misuse? with
    | some text => answered w (.misuse text)
    | none =>
      let w := match counted with
        | some metric => w.count metric 1
        | none => w
      (w, [.deliver e.replies (some ref) (.reported (rejection e.result))])

/-- What collecting comes to. -/
def sweepStep (w : World) (ref : ServerRef) (s : Server) (e : Dedup.Sweep (Dedup Place))
    (left : Nat → Dedup.Remains Place) (a : Answer) : Started :=
  change w ref s e.rest e.charges left fun w =>
    answered (collectedTo w e.evicted (w.budgetOf s).consumption) a

/-- What a collection of the requests that are selected comes to. -/
def sweepBy (w : World) (ref : ServerRef) (s : Server) (force : Dedup.Candidate → Bool)
    (a : Dedup.Sweep (Dedup Place) → Answer) : Started :=
  let e := Dedup.sweep w.clock force s.dedup
  sweepStep w ref s e (fun done => Dedup.sweepUntil done w.clock force s.dedup) (a e)

/-- One scheduled collection; its two passes read the clock one after the other. -/
def collected (w : World) (s : Server) : Dedup.Sweep (Dedup Place) :=
  Dedup.collect w.clock w.tick.clock s.dedup (w.budgetOf s)

def collectedUntil (w : World) (s : Server) (done : Nat) : Dedup.Remains Place :=
  Dedup.collectUntil done w.clock w.tick.clock s.dedup

/-- A scheduled collection in the background. Nothing that happens there is counted or shown. -/
def backgroundStep (w : World) (ref : ServerRef) (s : Server) : Started :=
  let e := collected w s
  let (charged, broken) := w.charge s.budget e.charges
  let dedup := match broken with
    | none => e.rest
    | some done => (collectedUntil w s done).dedup
  answered { setServer charged ref s dedup with metrics := w.metrics } (.number dedup.recordCount)

def elapsed (_ : Duration) : String := "<elapsed>"

def onServer (w : World) (name : String) (ref : ServerRef) (s : Server) (step : DedupStep) :
    Started :=
  match step with
  | .complete id response =>
    found w name (w.id? id) fun id =>
      reportStep w ref s (Dedup.complete w.clock s.dedup id response)
        (fun done => Dedup.completeUntil done w.clock s.dedup id response) none
  | .fail id status =>
    found w name (w.id? id) fun id =>
      reportStep w ref s (Dedup.fail w.clock s.dedup id status)
        (fun done => Dedup.failUntil done w.clock s.dedup id status)
        (some "rpc.result_tracker.failures")
  | .isDriver id => found w name (w.id? id) fun id => answered w (.flag (s.dedup.isDriver id))
  | .sweep => sweepBy w ref s (fun _ => false) fun e => .number e.evicted
  | .collect =>
    let e := collected w s
    sweepStep w ref s e (collectedUntil w s) (.number e.evicted)
  | .sweepWith selection footprints =>
    sweepBy w ref s (fun c => selection.any fun s => s.matches c) fun e =>
      .swept e.evicted e.offered footprints
  | .background records =>
    if s.dedup.recordCount = records then answered w (.number records)
    else backgroundStep w ref s
  | .query client seq =>
    answered w (.request
      ((s.dedup.record? client seq).map fun r => (r.phase, r.waiting.length))
      (s.dedup.staleBefore? client) (s.dedup.outstanding client))
  | .bytes => answered w (.usage (w.budgetOf s))
  | .exceeded => answered w (.exceeded (w.budgetOf s))
  | .text => answered w (.text (s.dedup.text elapsed w.clock (w.budgetOf s).consumption))
  | .debugText => answered w (.text (s.dedup.debugText (w.budgetOf s).consumption))

def dedupStep (w : World) (name : String) (step : DedupStep) : Started :=
  found w name (w.server? name) fun (ref, s) => onServer w name ref s step

end OnceOnly.Scenario
