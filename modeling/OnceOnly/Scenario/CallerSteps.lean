import OnceOnly.Scenario.Answer

/-!
The steps on a caller's side: issuers, controllers, calls, the calls that wait.
-/

namespace OnceOnly.Scenario

/-! ## Issuers -/

def setIssuer (w : World) (name : String) (i : Issuer) (a : Answer) : Started :=
  answered { w with issuers := w.issuers.insert name i }
    (.issuer a i.firstIncomplete i.outstanding.size)

def storeId (w : World) (name : Option String) (id : RequestId) : World :=
  match name with
  | some name => { w with ids := w.ids.insert name id }
  | none => w

/-- Goes on with what was issued, unless the numbers ran out. -/
def issued {α : Type} (w : World) (x : Except Overflow α) (next : α → Started) : Started :=
  match x with
  | .ok a => next a
  | .error overflow => answered w (.overflow overflow)

def issuerStep (w : World) (name : String) (step : IssuerStep) : Started :=
  let onIssuer := found w name (w.issuers.get? name)
  match step with
  | .start client => setIssuer w name (.start client) (.text client)
  | .newSeq => onIssuer fun i =>
    issued w i.newSeq fun (i, seq) => setIssuer w name i (.number seq.toInt)
  | .newRequest store => onIssuer fun i =>
    issued w i.newRequest fun (i, id) => setIssuer (storeId w store id) name i (.id id)
  | .complete seq => onIssuer fun i => setIssuer w name (i.complete seq) .nothing
  | .info => onIssuer fun i => setIssuer w name i .nothing

/-! ## Controllers -/

def setController (w : World) (name : String) (c : Controller) (a : Answer) : Started :=
  answered { w with controllers := w.controllers.insert name c } a

def onController (w : World) (name : String) (c : Controller) : ControllerStep → Started
  | .setTimeout timeout => setController w name (c.setTimeout timeout) .nothing
  | .setDeadline deadline => setController w name (c.setDeadline deadline) .nothing
  | .timeLeft false => answered w (.timeLeft (c.timeLeft w.clock))
  | .timeLeft true => answered w (.coarseTimeLeft (c.timeLeft w.clock))
  | .setRequestId id =>
    found w name (w.id? id) fun id => setController w name (c.setRequestId id) .nothing
  | .require feature =>
    setController w name (c.require feature) (.features (c.require feature).features.keys)
  | .addSidecar sidecar =>
    accepted w (c.addSidecar sidecar) fun (c, index) => setController w name c (.number index)
  | .sidecar index =>
    accepted w (Controller.responseSidecar (w.heldCall? c) index) fun sidecar =>
      answered w (.bytes sidecar)
  | .reset =>
    accepted w (Controller.reset (w.heldCall? c)) fun c => setController w name c .nothing
  | .debugText => answered w (.text (c.debugText (w.heldCall? c)))
  | .info => answered w (.controller c (w.heldCall? c))

def controllerStep (w : World) (name : String) (step : ControllerStep) : Started :=
  found w name (w.controllers.get? name) fun c => onController w name c step

/-- Starts a controller, with the timeout of settings if they are given. -/
def startController (w : World) (name : String) : Option String → Started
  | none => setController w name .start .nothing
  | some json =>
    configured w (CallSettings.ofJson json) fun s => setController w name (.ofSettings s) .nothing

def dropController (w : World) (name : String) : Started :=
  answered { w with controllers := w.controllers.erase name } (.flag (w.controllers.contains name))

/-- Starts a call by a controller. The channel is open before the call is. -/
def startCall (w : World) (controller name : String) (target : Target) (kind : CallbackKind)
    (script : List Step) : Started :=
  found w controller (w.controllers.get? controller) fun c =>
    let w := w.openChannel name kind none
    accepted w (c.startCall (w.heldCall? c) w.exchange.nextRef target.conn target.method
      target.request (w.callback name kind script) w.clock) fun (c, call) =>
        setController (w.addCall name call kind) controller c (.text call.text)

/-! ## Calls -/

/-- Starts a call without a controller. -/
def newCall (w : World) (name : String) (target : Target) (options : OptionsArg)
    (kind : CallbackKind) (script : List Step) : Started :=
  let start (requestId : Option RequestId) : Started :=
    let options : CallOptions :=
      { timeout := options.timeout
        deadline := options.deadline
        requestId
        features := .ofList options.features
        sidecars := options.sidecars }
    let call := Call.start target.conn target.method options target.request
      (w.callback name kind script) w.clock
    answered (w.addCall name call kind) (.text call.text)
  match options.requestId with
  | none => start none
  | some id => found w name (w.id? id) fun id => start (some id)

/-- What follows a move: the callback, and the count if a call has timed out. -/
def followUp (m : Call.Move Callback) : List Task :=
  (m.fired.map fun f => Task.notify f.1 f.2).toList ++
    if m.transition.isApplied ∧ m.call.phase = .timedOut then [.countTimeout] else []

def phaseOf (w : World) (ref : CallRef) : CallPhase :=
  ((w.exchange.call? ref).map Call.phase).getD .ready

/-- Moves a call on; `a` answers from the phase after all that follows. -/
def moveCall (w : World) (ref : CallRef) (call : Call Callback)
    (f : Call Callback → Call.Move Callback) (a : Transition → CallPhase → Answer) : Started :=
  let m := f call
  ({ w with exchange := w.exchange.setCall ref m.call },
    followUp m ++ [.answer fun w => a m.transition (phaseOf w ref)])

/-- The instant that a call is asked about. -/
def TimeArg.at (call : Call Callback) : TimeArg → Instant
  | .instant t => t
  | .afterStart d => call.started.add d

def onCall (w : World) (ref : CallRef) (call : Call Callback) : CallStep → Started
  | .assignId id =>
    accepted w (call.assignId id) fun call =>
      answered { w with exchange := w.exchange.setCall ref call } (.number id.toInt)
  | .queued => moveCall w ref call Call.queued .transition
  | .sending => moveCall w ref call Call.sending .transition
  | .sent => moveCall w ref call Call.sent .transition
  | .timeOut => moveCall w ref call Call.timeOut .transition
  | .fail error => moveCall w ref call (·.fail error) .transition
  | .respond frame limit =>
    found w "frame" (w.frame? frame) fun bytes =>
      accepted w (Response.parse bytes limit) fun response =>
        moveCall w ref call (·.respond response) .transition
  | .checkDeadline time =>
    match call.checkDeadline (time.at call) with
    | none => answered w (.deadline false call.phase)
    | some m => moveCall w ref call (fun _ => m) fun t phase => .deadline t.isApplied phase
  | .checkFeatures server =>
    match call.checkFeatures server with
    | none => answered w (.checked none call.phase)
    | some (error, m) => moveCall w ref call (fun _ => m) fun _ phase => .checked (some error) phase
  | .serialize limit store =>
    let (call, slices) := call.serialize limit
    let w := { w with exchange := w.exchange.setCall ref call }
    accepted w slices fun slices => answered (w.storeFrame store slices.flatten) (.slices slices)
  | .debugText => answered w (.text call.debugText)
  | .info => answered w (.call call)

def callStep (w : World) (name : String) (step : CallStep) : Started :=
  found w name (w.namedCall? name) fun (ref, call) => onCall w ref call step

/-- Takes what there is in the channel of that name. Something may still come while somebody holds
the call and its callback has not run. -/
def receive (w : World) (held : Held) (name : String) : Started :=
  found w name (w.receivers.get? name) fun r =>
    match r.pending with
    | some outcome =>
      answered { w with receivers := w.receivers.insert name { r with pending := none } }
        (.received (.outcome outcome))
    | none =>
      let waits (ref : CallRef) := (w.exchange.call? ref).any fun call => call.callback.isSome
      let mayCome := r.call.any fun ref => waits ref && w.isAlive held ref
      answered w (.received (if mayCome then .empty else .disconnected))

def holdStep (w : World) (held : Held) (name : String) : HoldStep → Started
  | .drop =>
    answered { w with callNames := w.callNames.erase name } (.flag (w.callNames.contains name))
  | .receive => receive w held name
  | .forgetReceiver =>
    answered { w with receivers := w.receivers.erase name } (.flag (w.receivers.contains name))

/-! ## Calls that wait -/

def deadlinesSized (a : Answer) (w : World) : Answer := .sized a w.exchange.deadlines.size

/-- Takes the calls that are due. Those that nobody holds are gone; the others are held until all
have been gone through. -/
def expire (w : World) (held : Held) (now : Instant) (registry : Option RegistryRef) : Started :=
  let (due, exchange) := w.exchange.takeDue now
  let due := due.filter (w.isAlive held)
  ({ w with exchange }, [.goThrough (.expire now due) due 0 registry])

/-- The text of the call that waits under an id. -/
def registeredText (w : World) (id : Int32) : Answer :=
  match w.exchange.registry.get? id >>= w.exchange.call? with
  | some call => .text call.text
  | none => .nothing

/-- Answers, with the number of calls that wait in the registry in use. -/
def registrySized (w : World) (a : Answer) : Task := .answerSized a w.registryRef

def registryStep (w : World) (held : Held) : RegistryStep → Started
  | .register name =>
    found w name (w.namedCall? name) fun (ref, call) =>
      let (exchange, id) := w.exchange.register ref call
      accepted { w with exchange } id fun id =>
        ({ w with exchange }, [registrySized w (.number id.toInt)])
  | .get id => (w, [registrySized w (registeredText w id)])
  | .remove id =>
    ({ w with exchange.registry := w.exchange.registry.remove id },
      [registrySized w (registeredText w id)])
  | .handle frame =>
    found w "frame" (w.frame? frame) fun bytes =>
      accepted w (w.exchange.handleFrame bytes) fun (exchange, m) =>
        ({ w with exchange }, (m.map followUp).getD [] ++
          [registrySized w (.flag (m.any fun m => m.transition.isApplied))])
  | .abort error =>
    (w, [.goThrough (.abort error w.exchange.registry.calls.keys) [] 0 (some w.registryRef)])
  | .expire now => expire w held now (some w.registryRef)
  | .reap =>
    let exchange := w.exchange.reap
    ({ w with exchange },
      [registrySized w (.number (w.exchange.registry.size - exchange.registry.size))])
  | .info => (w, [registrySized w .nothing])

/-- The name of a call with that deadline. -/
def nameOfDue (w : World) (due : Instant) : Answer :=
  let isDue (ref : CallRef) := (w.exchange.call? ref >>= Call.deadline) == some due
  match w.callNames.toList.find? fun e => isDue e.2 with
  | some (name, _) => .text name
  | none => .text "dropped call"

def deadlineStep (w : World) (held : Held) : DeadlineStep → Started
  | .schedule name =>
    found w name (w.namedCall? name) fun (ref, call) =>
      let (exchange, taken) := w.exchange.schedule ref call
      ({ w with exchange }, [.answer (deadlinesSized (.flag taken))])
  | .expire now => expire w held now none
  | .next =>
    let a := match w.exchange.deadlines.next? with
      | some due => nameOfDue w due
      | none => .nothing
    (w, [.answer (deadlinesSized a)])
  | .info => (w, [.answer (deadlinesSized .nothing)])

end OnceOnly.Scenario
