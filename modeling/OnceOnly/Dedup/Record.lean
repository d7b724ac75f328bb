import OnceOnly.Ledger.ChargedMap
import OnceOnly.RequestId
import OnceOnly.Time
import OnceOnly.Wire.Status

/-!
What a server remembers of one request: how far it has come, which attempt drives it, the cached
response, and the attempts that wait for the outcome in the order of their arrival.
-/

namespace OnceOnly.Dedup

inductive Phase where
  /-- Nobody drives the request; the next attempt will. -/
  | fresh
  | inProgress
  /-- The response is cached. -/
  | completed
  /-- In progress, below the client's low-water mark: no retries will come. -/
  | stale
deriving DecidableEq, Repr

def Phase.name : Phase → String
  | .fresh => "NEW"
  | .inProgress => "IN_PROGRESS"
  | .completed => "COMPLETED"
  | .stale => "STALE"

/-- What an attempt is told. -/
inductive Answer where
  | success (response : Bytes)
  | failure (status : ErrorStatus)
deriving DecidableEq, Repr

/-- An answer on its way to where it was asked for. -/
structure Reply (χ : Type) where
  context : χ
  answer : Answer
deriving Repr

/-- An attempt that waits for an outcome. -/
structure Waiter (χ : Type) where
  context : χ
  attempt : AttemptNo
deriving Repr

structure Record (χ : Type) where
  phase : Phase
  /-- The attempt whose report counts; `noSeqNo` while there is none. -/
  driver : AttemptNo
  updated : Instant
  response : Option Bytes
  waiting : List (Waiter χ)
  /-- The places that the queue takes up, filled or not. -/
  capacity : Nat
deriving Repr

variable {χ : Type}

instance : Footprint (Record χ) where
  footprint r := 88 + (r.response.map List.length).getD 0 + 24 * r.capacity

/-- The places of a queue of `length` filled ones after one more: a full queue doubles. -/
def grown (capacity length : Nat) : Nat :=
  if length < capacity then capacity else max 4 (2 * capacity)

/-- The places of a queue that was empty, after so many more. -/
def regrown : Nat → Nat
  | 0 => 0
  | n + 1 => grown (regrown n) n

namespace Record

/-- The first attempt drives, and waits for itself. -/
def start (attempt : AttemptNo) (context : χ) (now : Instant) : Record χ :=
  ⟨.inProgress, attempt, now, none, [⟨context, attempt⟩], 1⟩

def enqueue (r : Record χ) (context : χ) (attempt : AttemptNo) (now : Instant) : Record χ :=
  { r with
    waiting := r.waiting ++ [⟨context, attempt⟩]
    capacity := grown r.capacity r.waiting.length
    updated := now }

/-- Some entry of the driver can still be answered. -/
def driverReachable (reachable : χ → Bool) (r : Record χ) : Bool :=
  r.waiting.any fun w => w.attempt == r.driver && reachable w.context

/-- A reporting attempt answers its own entries, and those of all others once the record is
completed under it. -/
def answers (r : Record χ) (attempt : AttemptNo) (w : Waiter χ) : Bool :=
  w.attempt == attempt || (r.phase == .completed && r.driver == attempt)

def handled (r : Record χ) (attempt : AttemptNo) : List (Waiter χ) :=
  r.waiting.filter (r.answers attempt)

/-- The record without the entries that `attempt` answers; the others move to a new queue. -/
def dropHandled (r : Record χ) (attempt : AttemptNo) : Record χ :=
  let kept := r.waiting.filter fun w => !r.answers attempt w
  { r with waiting := kept, capacity := regrown kept.length }

/-- The queue emptied in place. -/
def drained (r : Record χ) : Record χ := { r with waiting := [] }

def repliesTo (ws : List (Waiter χ)) (answer : Answer) : List (Reply χ) :=
  ws.map fun w => ⟨w.context, answer⟩

/-- Another attempt arrives: the record after it, the replies it causes, and what it is told. It
drives if nobody does, or, with `takeOver`, if its number is higher than that of a driver that
cannot be answered any more. -/
def join (reachable : χ → Bool) (now : Instant) (r : Record χ) (attempt : AttemptNo) (context : χ)
    (takeOver : Bool) : Record χ × List (Reply χ) × Phase :=
  match r.phase with
  | .completed =>
    match r.response with
    | some response => (r, [⟨context, .success response⟩], .completed)
    | none => (r, [], .completed)
  | .inProgress =>
    let joined := r.enqueue context attempt now
    if takeOver && decide (r.driver < attempt) && !r.driverReachable reachable then
      ({ joined with driver := attempt }, [], .fresh)
    else (joined, [], .inProgress)
  | .fresh =>
    ({ r.enqueue context attempt now with phase := .inProgress, driver := attempt }, [], .fresh)
  | .stale => (r.enqueue context attempt now, [], .stale)

/-- The driver's response is cached and goes to everyone who waits. -/
def complete (now : Instant) (r : Record χ) (attempt : AttemptNo) (response : Bytes) :
    Record χ × List (Reply χ) :=
  let r := { r with phase := .completed, response := some response, updated := now }
  (r.dropHandled attempt, repliesTo (r.handled attempt) (.success response))

/-- The driver's failure goes to its own entries and frees the record, which stays while others
wait. A stale record has no retries coming: all who wait are told, and it goes. The last part says
whether it goes. -/
def fail (now : Instant) (r : Record χ) (attempt : AttemptNo) (status : ErrorStatus) :
    Record χ × List (Reply χ) × Bool :=
  if r.phase = .stale then (r.drained, repliesTo r.waiting (.failure status), true)
  else
    let freed := { r.dropHandled attempt with phase := .fresh, driver := noSeqNo, updated := now }
    (freed, repliesTo (r.handled attempt) (.failure status), freed.waiting.isEmpty)

def text (r : Record χ) : String :=
  s!"{r.phase.name} (driver attempt {r.driver.toInt}, {r.waiting.length} waiting" ++
    match r.response with
    | some response => s!", {response.length} byte response)"
    | none => ")"

end Record

end OnceOnly.Dedup
