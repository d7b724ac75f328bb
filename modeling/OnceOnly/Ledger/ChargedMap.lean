import OnceOnly.Keyed.SortedMap
import OnceOnly.Total

/-!
Ordered maps that account for the bytes of their entries. Every operation answers the charges it
makes, in order; the map's own count is their sum, and equals the footprints of its entries.
-/

namespace OnceOnly

/-- The bytes that a value is taken to occupy. -/
class Footprint (α : Type) where
  footprint : α → Nat

export Footprint (footprint)

instance : Footprint Int64 := ⟨fun _ => 8⟩

instance : Footprint String := ⟨fun s => 24 + s.utf8ByteSize⟩

structure ChargedMap (κ α : Type) [LT κ] where
  map : SortedMap κ α
  charged : Int

namespace ChargedMap

variable {κ α : Type} [LT κ]

def empty : ChargedMap κ α := ⟨∅, 0⟩

def size (m : ChargedMap κ α) : Nat := m.map.size

def isEmpty (m : ChargedMap κ α) : Bool := m.map.isEmpty

def toList (m : ChargedMap κ α) : List (κ × α) := m.map.toList

/-- What goes back to the budget when the map is dropped. -/
def release (m : ChargedMap κ α) : List Int := [-m.charged]

variable [Footprint κ] [Footprint α]

def entryFootprint (k : κ) (a : α) : Int := footprint k + footprint a

/-- How the footprint of an entry changes when its value becomes `b`, or when it goes. -/
def entryChange (k : κ) (a : α) : Option α → Int
  | some b => footprint b - footprint a
  | none => -entryFootprint k a

/-- Keeps the entries that `f` answers, each with its answer, and charges all changes at once. -/
def filterMap (f : κ → α → Option α) (m : ChargedMap κ α) : ChargedMap κ α × List Int :=
  let change := balance (fun e => entryChange e.1 e.2 (f e.1 e.2)) m.map.toList
  (⟨m.map.filterMap f, m.charged + change⟩, [change])

variable [DecidableLT κ]

omit [Footprint κ] [Footprint α] in
def get? (m : ChargedMap κ α) (k : κ) : Option α := m.map.get? k

omit [Footprint κ] [Footprint α] in
def contains (m : ChargedMap κ α) (k : κ) : Bool := m.map.contains k

def erase (m : ChargedMap κ α) (k : κ) : ChargedMap κ α × List Int :=
  match m.get? k with
  | none => (m, [])
  | some a => (⟨m.map.erase k, m.charged - entryFootprint k a⟩, [-entryFootprint k a])

variable [StrictKey κ]

/-- Puts `a` at `k`; what was there is given back first. -/
def insert (m : ChargedMap κ α) (k : κ) (a : α) : ChargedMap κ α × List Int :=
  let (m, refund) := m.erase k
  (⟨m.map.insert k a, m.charged + entryFootprint k a⟩, refund ++ [entryFootprint k a])

/-- Puts `a` at `k` unless something is there. -/
def insertNew (m : ChargedMap κ α) (k : κ) (a : α) : ChargedMap κ α × List Int :=
  match m.get? k with
  | some _ => (m, [])
  | none => (⟨m.map.insert k a, m.charged + entryFootprint k a⟩, [entryFootprint k a])

/-- Makes `b` of the value at `k`, and charges the difference. -/
def update (m : ChargedMap κ α) (k : κ) (b : α) : ChargedMap κ α × List Int :=
  match m.get? k with
  | none => (m, [])
  | some a =>
    let change := entryChange k a (some b)
    (⟨m.map.insert k b, m.charged + change⟩, [change])

end ChargedMap

end OnceOnly
