import OnceOnly.Scenario.World

/-!
What a step answers, and what is told of while it runs.
-/

namespace OnceOnly.Scenario

/-- What there is in a call's channel. -/
inductive Reception where
  | outcome (outcome : CallOutcome)
  /-- Nothing yet. -/
  | empty
  /-- Nothing, and nothing will come. -/
  | disconnected

/-- The answer of a step. -/
inductive Answer where
  | nothing
  /-- The step names something that does not exist. -/
  | unknown (name : String)
  | flag (b : Bool)
  | number (n : Int)
  | numbers (ns : List (String × Int))
  | features (features : List UInt32)
  | text (s : String)
  | bytes (bs : Bytes)
  | slices (slices : List Bytes)
  | id (id : RequestId)
  | timeLeft (left : Option Duration)
  /-- Whether there is a limit to the time, and any time left. -/
  | coarseTimeLeft (left : Option Duration)
  | problem (problem : Problem)
  | mismatch (mismatch : Settings.Mismatch)
  /-- The step is a mistake of its caller's. -/
  | misuse (text : String)
  | overflow (overflow : Overflow)
  /-- An answer, and the state of an issuer after it. -/
  | issuer (answer : Answer) (first : SeqNo) (outstanding : Nat)
  /-- An answer, and how many calls wait after it. -/
  | sized (answer : Answer) (size : Nat)
  | controller (controller : Controller) (call : Option (Call Callback))
  | call (call : Call Callback)
  | transition (transition : Transition) (phase : CallPhase)
  | deadline (fired : Bool) (phase : CallPhase)
  | checked (error : Option CallError) (phase : CallPhase)
  | received (reception : Reception)
  | taken (response : OutboundResponse)
  | inbound (inbound : Inbound) (user : Credentials) (alive reachable gone : Bool)
  | budget (budget : Budget)
  | usage (budget : Budget)
  | exceeded (budget : Budget)
  | dedup (budget : Budget) (settings : DedupSettings)
  | phase (phase : Dedup.Phase)
  | reported (error : Option Dedup.ReportError)
  | swept (evicted : Nat) (offered : List Dedup.Candidate) (footprints : Bool)
  | request (phase : Option (Dedup.Phase × Nat)) (staleBefore : Option SeqNo) (outstanding : Nat)

/-- What is told of while a step runs. -/
inductive Event where
  | callback (call : String) (outcome : CallOutcome)
  | reply (context : String) (answer : Dedup.Answer)
  | queued (conn : String) (response : OutboundResponse)
  /-- The answer of a step of a script, after all that the step told. -/
  | nested (answer : Answer)

/-- What is left to be done of a step, in order. -/
inductive Task where
  /-- A step of a script. -/
  | run (step : Step)
  | notify (callback : Callback) (outcome : CallOutcome)
  | countTimeout
  /-- Goes through calls, of which `count` have been finished; none of `held` is dropped meanwhile. A
  registry, if one is given, sees the end of it. -/
  | goThrough (left : Exchange.Underway) (held : List CallRef) (count : Nat)
      (registry : Option RegistryRef)
  /-- Delivers the replies of a memory, if one is given, and answers. A reply that is a mistake
  loses those after it. -/
  | deliver (replies : List (Dedup.Reply Place)) (server : Option ServerRef) (answer : Answer)
  | answer (answer : World → Answer)
  /-- Answers, with the number of calls that wait in a registry. -/
  | answerSized (answer : Answer) (registry : RegistryRef)
  /-- Ends a step of a script. -/
  | conclude

/-- The registry that a task is about. -/
def Task.registry? : Task → Option RegistryRef
  | .goThrough _ _ _ registry => registry
  | .answerSized _ registry => some registry
  | _ => none

/-- The calls that a task holds, itself or by its registry. -/
def Task.calls (w : World) (t : Task) : List CallRef :=
  (match t with
    | .goThrough _ held _ _ => held
    | _ => []) ++
  match t.registry? with
  | some registry => (w.exchangeAt registry).registry.calls.values
  | none => []

def Task.server? : Task → Option ServerRef
  | .deliver _ server _ => server
  | _ => none

/-- What the tasks hold that are left. -/
def heldBy (w : World) (tasks : List Task) : Held :=
  ⟨tasks.flatMap (Task.calls w), tasks.filterMap Task.server?⟩

/-- A step's immediate change, and what is left of it. -/
abbrev Started := World × List Task

/-- A step that is done at once. -/
def answered (w : World) (a : Answer) : Started := (w, [.answer fun _ => a])

/-- Goes on with what a name stands for, if anything. -/
def found {α : Type} (w : World) (name : String) (a : Option α) (next : α → Started) : Started :=
  match a with
  | some a => next a
  | none => answered w (.unknown name)

/-- Goes on with a value, or answers why there is none. -/
def accepted {α : Type} (w : World) (a : Except Problem α) (next : α → Started) : Started :=
  match a with
  | .ok a => next a
  | .error problem => answered w (.problem problem)

/-- Goes on with settings that were read from JSON. -/
def configured {α : Type} (w : World) (a : Except Settings.Mismatch α) (next : α → Started) :
    Started :=
  match a with
  | .ok a => next a
  | .error mismatch => answered w (.mismatch mismatch)

end OnceOnly.Scenario
