import OnceOnly.Call.Registry

/-!
A caller's side as a whole: the calls started so far, those of them that wait for a response, and
those that wait for their deadline. A callback that is due is handed back with the change; it runs
after it, and may change the exchange itself.
-/

namespace OnceOnly

structure Exchange (κ : Type) where
  calls : List (Call κ)
  registry : Registry
  deadlines : Deadlines

namespace Exchange

variable {κ : Type}

def start (limit : Nat) : Exchange κ := ⟨[], .start limit, .empty⟩

def call? (x : Exchange κ) (ref : CallRef) : Option (Call κ) := x.calls[ref]?

def isFinished (x : Exchange κ) (ref : CallRef) : Bool := (x.call? ref).all Call.isFinished

/-- The place of the next call. -/
def nextRef (x : Exchange κ) : CallRef := x.calls.length

def add (x : Exchange κ) (call : Call κ) : Exchange κ := { x with calls := x.calls ++ [call] }

def setCall (x : Exchange κ) (ref : CallRef) (call : Call κ) : Exchange κ :=
  { x with calls := x.calls.set ref call }

/-- Moves one call on. -/
def move (x : Exchange κ) (ref : CallRef) (f : Call κ → Call.Move κ) :
    Exchange κ × Option (Call.Move κ) :=
  match x.call? ref with
  | none => (x, none)
  | some call => (x.setCall ref (f call).call, some (f call))

/-! ## Waiting for a response -/

/-- Gives a call the next id, under which it waits. -/
def register (x : Exchange κ) (ref : CallRef) (call : Call κ) : Exchange κ × Except Problem Int32 :=
  let (registry, call, id) := x.registry.register ref call
  ({ x.setCall ref call with registry }, id)

/-- Takes the call that waits under an id, and moves it on. Nothing comes of an id that nobody
waits under. -/
def settle (x : Exchange κ) (id : Int32) (f : Call κ → Call.Move κ) :
    Exchange κ × Option (Call.Move κ) :=
  match x.registry.get? id with
  | none => (x, none)
  | some ref => { x with registry := x.registry.remove id }.move ref f

/-- A response goes to the call that waits for it. -/
def handle (x : Exchange κ) (r : Response) : Exchange κ × Option (Call.Move κ) :=
  x.settle r.callId fun call => call.respond r

/-- The same of a response in a frame. -/
def handleFrame (x : Exchange κ) (frame : Bytes) :
    Except Problem (Exchange κ × Option (Call.Move κ)) := do
  let r ← Response.parse frame x.registry.limit
  return x.handle r

/-- Gives up on the call that waits under an id. -/
def abort (x : Exchange κ) (error : CallError) (id : Int32) : Exchange κ × Option (Call.Move κ) :=
  x.settle id fun call => call.fail error

/-- Stops waiting for the calls that are finished. -/
def reap (x : Exchange κ) : Exchange κ := { x with registry := x.registry.reap x.isFinished }

/-! ## Waiting for a deadline -/

/-- Has a call time out at its deadline. A call without a deadline is not taken. -/
def schedule (x : Exchange κ) (ref : CallRef) (call : Call κ) : Exchange κ × Bool :=
  match call.deadline with
  | none => (x, false)
  | some due => ({ x with deadlines := x.deadlines.schedule due ref }, true)

/-- Takes the calls that are due, the earliest first. -/
def takeDue (x : Exchange κ) (now : Instant) : List CallRef × Exchange κ :=
  let (due, deadlines) := x.deadlines.takeDue now
  (due, { x with deadlines })

/-- Times a call out if it is due. -/
def checkDeadline (x : Exchange κ) (now : Instant) (ref : CallRef) :
    Exchange κ × Option (Call.Move κ) :=
  match x.call? ref with
  | none => (x, none)
  | some call =>
    match call.checkDeadline now with
    | none => (x, none)
    | some m => (x.setCall ref m.call, some m)

/-! ## Going through calls -/

/-- What is left of an operation that goes through calls one after the other. -/
inductive Underway where
  /-- Gives up on the calls that wait under these ids. -/
  | abort (error : CallError) (ids : List Int32)
  /-- Times out those of these calls that are due. -/
  | expire (now : Instant) (due : List CallRef)

/-- Goes on to the next call, if there is one: what is left then, and the change. -/
def proceed (x : Exchange κ) :
    Underway → Option (Underway × Exchange κ × Option (Call.Move κ))
  | .abort error (id :: ids) => some (.abort error ids, x.abort error id)
  | .expire now (ref :: due) => some (.expire now due, x.checkDeadline now ref)
  | .abort _ [] | .expire _ [] => none

/-- What follows the last call: the registry stops waiting for those that have timed out. -/
def finish (x : Exchange κ) : Underway → Exchange κ
  | .abort .. => x
  | .expire .. => x.reap

end Exchange

end OnceOnly
