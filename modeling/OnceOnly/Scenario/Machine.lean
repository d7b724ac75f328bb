import OnceOnly.Scenario.CallerSteps
import OnceOnly.Scenario.ServerSteps

/-!
Runs a step to its end. A step makes its change at once and leaves tasks; callbacks and replies run
between them, and the scripts that they carry run as steps of their own, to the end, before the
tasks that were left. Every script runs once, so a step comes to an end.
-/

namespace OnceOnly.Scenario

/-- Makes the change of a step. `held` is what steps under way hold. -/
def perform (w : World) (held : Held) : Step → Started
  | .settings json =>
    configured w (CallSettings.ofJson json) fun settings => answered (w.renew settings) .nothing
  | .metrics gauges =>
    answered w (.numbers (w.metrics.counts.toList.map (fun e => (e.1, (e.2 : Int))) ++
      if gauges then w.metrics.gauges.toList else []))
  | .issuer name step => issuerStep w name step
  | .controller name step => controllerStep w name step
  | .call name step => callStep w name step
  | .hold name step => holdStep w held name step
  | .registry step => registryStep w held step
  | .deadlines step => deadlineStep w held step
  | .connection name step => connectionStep w name step
  | .inbound name step => inboundStep w name step
  | .budget name step => budgetStep w name step
  | .setReachable name reachable =>
    found w name (w.contextNames.get? name) fun ref =>
      answered { w with contexts := w.contexts.modify ref fun c => { c with reachable } } .nothing
  | .dedup name step => dedupStep w name step
  | .newCall name target options kind script => newCall w name target options kind script
  | .startCall controller name target kind script =>
    startCall w controller name target kind script
  | .track name who takeOver script => trackStep w name who takeOver script
  | .startController name json => startController w name json
  | .dropController name => dropController w name
  | .startConnection name remote credentials => startConnection w name remote credentials
  | .parse name conn frame json bare => parseInbound w name conn frame json bare
  | .startDedup name json budget => startServer w held name json budget
  | .dropDedup name => dropServerStep w held name

/-- A step under way. -/
structure Machine where
  world : World
  agenda : List Task
  events : List Event
  answer : Answer

namespace Machine

def start (w : World) (step : Step) : Machine :=
  let (world, agenda) := perform w.tick ⟨[], []⟩ step
  ⟨world, agenda, [], .nothing⟩

/-- Puts tasks before those that are left. -/
def push (m : Machine) (tasks : List Task) : Machine := { m with agenda := tasks ++ m.agenda }

def tell (m : Machine) (e : Event) : Machine := { m with events := m.events ++ [e] }

def notify (m : Machine) (outcome : CallOutcome) : Callback → Machine
  | .record name script => (m.tell (.callback name outcome)).push (script.map .run)
  | .channel ref => { m with world := m.world.send ref outcome }
  | .discard => m

/-- Delivers a reply to a place made for an attempt. -/
def replyToContext (m : Machine) (ref : Nat) (a : Dedup.Answer) : Machine :=
  match m.world.contexts[ref]? with
  | none => m
  | some c =>
    let contexts := m.world.contexts.set ref { c with script := [] }
    let m := ({ m with world := { m.world with contexts } }).tell (.reply c.name a)
    m.push (c.script.map .run)

/-- Queues the response to a received call, if there is one. -/
def enqueue (m : Machine) (conn : Nat) : Option OutboundResponse → Machine
  | none => m
  | some r =>
    match m.world.connections[conn]? with
    | none => m
    | some n =>
      let connections := m.world.connections.set conn { n with conn := n.conn.enqueue r }
      ({ m with world := { m.world with connections } }).tell (.queued n.name r)

/-- Lets go of a memory whose replies are delivered or lost. -/
def release (m : Machine) : Option ServerRef → Machine
  | some ref =>
    let (world, overflowed) := m.world.release (heldBy m.world m.agenda) ref
    { m with world, answer := if overflowed then .overflow .add else m.answer }
  | none => m

/-- Delivers a reply to a received call. A second one is a mistake, which ends the delivery. -/
def replyToInbound (m : Machine) (ref : Nat) (a : Dedup.Answer)
    (rest : List (Dedup.Reply Place)) (server : Option ServerRef) (answer : Answer) : Machine :=
  match m.world.arrivals[ref]? with
  | none => m
  | some arrival =>
    let i := arrival.inbound
    let responded := match a with
      | .success message => i.succeed message m.world.clock
      | .failure status => i.fail status m.world.clock
    match responded with
    | none => { m with answer := .misuse i.answeredTwice }.release server
    | some (i, response) =>
      let world := (m.world.setInbound ref i).count "rpc.inbound.processing_time_seconds" 1
      (({ m with world }).enqueue arrival.conn response).push [.deliver rest server answer]

/-- Carries out one task. -/
def carryOut (m : Machine) : Task → Machine
  | .run step =>
    let (world, tasks) := perform m.world.tick (heldBy m.world m.agenda) step
    ({ m with world }).push (tasks ++ [Task.conclude])
  | .notify callback outcome => m.notify outcome callback
  | .countTimeout => { m with world := m.world.count "rpc.outbound.timeouts" 1 }
  | .goThrough left held count registry =>
    let exchange := m.world.exchangeOf registry
    match exchange.proceed left with
    | some (left, exchange, move) =>
      let finished := if move.any fun v => v.transition.isApplied then 1 else 0
      ({ m with world := m.world.setExchangeOf registry exchange }).push
        ((move.map followUp).getD [] ++ [Task.goThrough left held (count + finished) registry])
    | none =>
      match registry with
      | some ref =>
        let exchange := exchange.finish left
        { m with
          world := m.world.setExchange ref exchange
          answer := .sized (.number count) exchange.registry.size }
      | none => { m with answer := deadlinesSized (.number count) m.world }
  | .deliver [] server answer => { m with answer }.release server
  | .deliver (r :: rest) server answer =>
    match r.context with
    | .context ref => (m.push [.deliver rest server answer]).replyToContext ref r.answer
    | .inbound ref => m.replyToInbound ref r.answer rest server answer
  | .answer answer => { m with answer := answer m.world }
  | .answerSized answer registry =>
    { m with answer := .sized answer (m.world.exchangeAt registry).registry.size }
  | .conclude => m.tell (.nested m.answer)

/-- Carries out tasks until none is left. -/
def run : (fuel : Nat) → Machine → Machine
  | 0, m => m
  | fuel + 1, m =>
    match m.agenda with
    | [] => m
    | task :: agenda => run fuel ({ m with agenda }.carryOut task)

end Machine

namespace World

/-- The steps of the script that a call may still run. -/
def scriptSize (c : Call Callback) : Nat :=
  match c.callback with
  | some (.record _ script) => countAll script
  | _ => 0

/-- The steps of the scripts that may still run. -/
def pending (w : World) : Nat :=
  total scriptSize w.exchange.calls + total (fun c => countAll c.script) w.contexts

/-- No more tasks come of a step: each of the steps that may run leaves a few, and a few for every
call or attempt that waits. -/
def mostTasks (w : World) (step : Step) : Nat :=
  let steps := step.count + w.pending
  let waiting := steps + w.exchange.deadlines.size + w.exchange.registry.size + w.waiting + 1
  (steps + 1) * (4 * waiting + 8)

/-- Runs a step and the scripts it sets off: the world after it, what was told, and the answer. -/
def step (w : World) (s : Step) : World × List Event × Answer :=
  let m := (Machine.start w s).run (w.mostTasks s)
  (m.world, m.events, m.answer)

end World

end OnceOnly.Scenario
