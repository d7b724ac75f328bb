import OnceOnly.Ledger.Budget
import OnceOnly.Ledger.ChargedMap

/-!
Charged maps together with their budgets, counted in words of 64 bits. Every count of an operation
has a word, or the operation overflows there: what it did before stays done. A footprint of 2 ^ 63
or more is counted as the word that looks the same.
-/

namespace OnceOnly

/-- A map and the budget that it charges. -/
structure Account (κ α : Type) [LT κ] where
  map : ChargedMap κ α
  budget : Budget

/-- What is done with an account, up to an overflow. -/
abbrev Counting (κ α : Type) [LT κ] (β : Type) := ExceptT Overflow (StateM (Account κ α)) β

namespace Account

variable {κ α : Type} [LT κ]

/-- Charges the budget alone. -/
def consume (bytes : Int) : Counting κ α Unit := do
  let a ← get
  match a.budget.charge? bytes with
  | .ok budget => set { a with budget }
  | .error budget =>
    set { a with budget }
    throw .add

/-- Counts bytes for the map, then for the budget. -/
def charge (bytes : Int) : Counting κ α Unit := do
  let charged ← wordOr .add ((← get).map.charged + bytes)
  modify fun a => { a with map := { a.map with charged } }
  consume bytes

/-- Takes bytes off the budget's count. -/
def giveBack (bytes : Int) : Counting κ α Unit := do
  consume (← wordOr .negate (-bytes))

/-- Gives the bytes of the map back when it is dropped. -/
def release : Counting κ α Unit := do
  giveBack (← get).map.charged

/-- The entries. -/
def entries : Counting κ α (SortedMap κ α) := return (← get).map.map

/-- Changes the entries without counting. -/
def modifyEntries (f : SortedMap κ α → SortedMap κ α) : Counting κ α Unit :=
  modify fun a => { a with map := { a.map with map := f a.map.map } }

variable [Footprint κ] [Footprint α]

/-- The bytes of an entry. -/
def entryBytes (k : κ) (a : α) : Except Overflow Int :=
  (sizeSum (footprint k) (footprint a)).map fun n => asWord n

/-- The bytes by which an entry grows when its value `a` becomes `b`. -/
def growth (a b : α) : Except Overflow Int :=
  wordOr .subtract (asWord (footprint b) - asWord (footprint a))

variable [DecidableLT κ]

omit [Footprint κ] [Footprint α] in
def get? (k : κ) : Counting κ α (Option α) := return (← entries).get? k

/-- Takes an entry out, and answers its value. -/
def erase (k : κ) : Counting κ α (Option α) := do
  match ← get? k with
  | none => pure none
  | some a =>
    modifyEntries (·.erase k)
    charge (← wordOr .negate (-(← entryBytes k a)))
    pure (some a)

variable [StrictKey κ]

/-- Puts `a` at `k`, and answers what was there. -/
def insert (k : κ) (a : α) : Counting κ α (Option α) := do
  let bytes ← entryBytes k a
  let previous ← erase k
  charge bytes
  modifyEntries (·.insert k a)
  pure previous

/-- Edits the value at `k` in place, and answers what becomes of it. -/
def edit (k : κ) (f : α → α) : Counting κ α (Option α) := do
  match ← get? k with
  | none => pure none
  | some a =>
    modifyEntries (·.insert k (f a))
    charge (← growth a (f a))
    pure (some (f a))

/-- Puts `a` at `k` unless something is there. -/
def insertNew (k : κ) (a : α) : Counting κ α Unit := do
  match ← get? k with
  | some _ => pure ()
  | none =>
    charge (← entryBytes k a)
    modifyEntries (·.insert k a)

/-- Edits the value at `k`, which is `a` unless something is there, and answers what becomes of it
and whether it is new. -/
def getOrInsert (k : κ) (a : α) (f : α → α) : Counting κ α (Bool × α) := do
  let isNew := (← get? k).isNone
  insertNew k a
  let held ← edit k f
  pure (isNew, held.getD a)

/-- Visits the given entries: each is edited, and taken out if it is not to be kept then. `change`
is the change of bytes so far; it is charged with those that follow. -/
def retainFrom (visit : κ → α → α × Except Overflow Bool) (change : Int) :
    List (κ × α) → Counting κ α Int
  | [] => pure change
  | (k, a) :: rest => do
    let (b, keep) := visit k a
    modifyEntries (·.insert k b)
    if ← keep then
      let grown ← growth a b
      retainFrom visit (← wordOr .add (change + grown)) rest
    else
      let gone ← wordOr .add (asWord (footprint k) + asWord (footprint a))
      let change ← wordOr .subtract (change - gone)
      modifyEntries (·.erase k)
      retainFrom visit change rest

/-- Visits every entry, edits it and takes it out if it is not to be kept then; charges all at
once. -/
def retain (visit : κ → α → α × Except Overflow Bool) : Counting κ α Unit := do
  charge (← retainFrom visit 0 (← entries).toList)

end Account

end OnceOnly
