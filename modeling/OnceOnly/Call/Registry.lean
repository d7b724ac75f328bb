import OnceOnly.Call.Basic

/-!
Calls that wait for a response on one connection, by call id, and calls that wait for their
deadline. Both hold references: calls are shared with whoever started them.
-/

namespace OnceOnly

/-- The place of a call among all calls started so far. -/
abbrev CallRef := Nat

structure Registry where
  /-- How many ids were drawn so far. -/
  drawn : Nat
  calls : SortedMap Int32 CallRef
  limit : Nat

namespace Registry

variable {κ : Type}

def start (limit : Nat) : Registry := ⟨0, ∅, limit⟩

/-- How many ids there are. -/
def idCount : Nat := 2147483648

/-- Ids count up from 0 and start again after the largest one. -/
def nextId (r : Registry) : Int32 := .ofNat (r.drawn % idCount)

/-- Draws an id for a call and waits for its response. The id is spent also when the call cannot
take it. -/
def register (r : Registry) (ref : CallRef) (call : Call κ) :
    Registry × Call κ × Except Problem Int32 :=
  let id := r.nextId
  let r := { r with drawn := r.drawn + 1 }
  if r.calls.contains id then (r, call, .error (.illegalState (.callIdInFlight id)))
  else
    match call.assignId id with
    | .error problem => (r, call, .error problem)
    | .ok call => ({ r with calls := r.calls.insert id ref }, call, .ok id)

def get? (r : Registry) (id : Int32) : Option CallRef := r.calls.get? id

def remove (r : Registry) (id : Int32) : Registry := { r with calls := r.calls.erase id }

def size (r : Registry) : Nat := r.calls.size

/-- Stops waiting for the finished calls. -/
def reap (r : Registry) (isFinished : CallRef → Bool) : Registry :=
  { r with calls := r.calls.filterMap fun _ ref => if isFinished ref then none else some ref }

end Registry

/-- Calls by deadline, the earliest first; of equal deadlines the one that was scheduled first. -/
structure Deadlines where
  entries : List (Instant × CallRef)

namespace Deadlines

def empty : Deadlines := ⟨[]⟩

def size (q : Deadlines) : Nat := q.entries.length

def place (due : Instant) (ref : CallRef) : List (Instant × CallRef) → List (Instant × CallRef)
  | [] => [(due, ref)]
  | e :: es => if e.1 ≤ due then e :: place due ref es else (due, ref) :: e :: es

def schedule (q : Deadlines) (due : Instant) (ref : CallRef) : Deadlines :=
  ⟨place due ref q.entries⟩

def next? (q : Deadlines) : Option Instant := q.entries.head?.map (·.1)

/-- The calls due at `now`, the earliest first, and the queue without them. -/
def takeDue (q : Deadlines) (now : Instant) : List CallRef × Deadlines :=
  ((q.entries.takeWhile fun e => decide (e.1 ≤ now)).map (·.2),
    ⟨q.entries.dropWhile fun e => decide (e.1 ≤ now)⟩)

end Deadlines

end OnceOnly
