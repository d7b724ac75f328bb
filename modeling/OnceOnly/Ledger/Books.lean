import OnceOnly.Ledger.Account

/-!
Named maps on named budgets. A map keeps the budget it was made on, also when another budget takes
the name.
-/

namespace OnceOnly.Ledger

/-- A map, and the place of its budget among all budgets made so far. -/
structure Sheet (κ α : Type) [LT κ] where
  budget : Nat
  map : ChargedMap κ α

structure Books (κ α : Type) [LT κ] where
  budgets : List Budget
  budgetNames : SortedMap String Nat
  sheets : SortedMap String (Sheet κ α)

/-- What an operation answers: its result, or the overflow that ended it, or nothing if a name is
not known. -/
abbrev Outcome (β : Type) := Option (Except Overflow β)

namespace Books

variable {κ α β : Type} [LT κ]

def empty : Books κ α := ⟨[], ∅, ∅⟩

def budget? (b : Books κ α) (name : String) : Option Budget :=
  b.budgetNames.get? name >>= fun i => b.budgets[i]?

/-- Runs an operation on a map and the budget at a place: the map after it, and what it answers. -/
def execute (b : Books κ α) (place : Nat) (map : ChargedMap κ α) (op : Counting κ α β) :
    Books κ α × ChargedMap κ α × Outcome β :=
  match b.budgets[place]? with
  | none => (b, map, none)
  | some budget =>
    let (result, a) := op.run.run ⟨map, budget⟩
    ({ b with budgets := b.budgets.set place a.budget }, a.map, some result)

def newBudget (b : Books κ α) (name : String) (budget : Budget) : Books κ α :=
  { b with
    budgets := b.budgets ++ [budget]
    budgetNames := b.budgetNames.insert name b.budgets.length }

/-- Runs an operation on a budget that no map takes part in. -/
def onBudget (b : Books κ α) (name : String) (op : Counting κ α β) : Books κ α × Outcome β :=
  match b.budgetNames.get? name with
  | none => (b, none)
  | some place =>
    let (b, _, outcome) := b.execute place .empty op
    (b, outcome)

/-- Drops the map of that name, which gives its bytes back. -/
def dropMap (b : Books κ α) (name : String) : Books κ α × Outcome Unit :=
  match b.sheets.get? name with
  | none => (b, none)
  | some s =>
    let (b, _, outcome) := b.execute s.budget s.map Account.release
    ({ b with sheets := b.sheets.erase name }, outcome)

/-- Makes an empty map on the budget of that name. A map that has its name is dropped. -/
def newMap (b : Books κ α) (name budget : String) : Books κ α × Outcome Unit :=
  match b.budgetNames.get? budget with
  | none => (b, none)
  | some place =>
    let (b, dropped) := b.dropMap name
    ({ b with sheets := b.sheets.insert name ⟨place, .empty⟩ }, some (dropped.getD (.ok ())))

/-- Runs an operation on the map of that name. -/
def onMap (b : Books κ α) (name : String) (op : Counting κ α β) : Books κ α × Outcome β :=
  match b.sheets.get? name with
  | none => (b, none)
  | some s =>
    let (b, map, outcome) := b.execute s.budget s.map op
    ({ b with sheets := b.sheets.insert name { s with map } }, outcome)

end Books

end OnceOnly.Ledger
