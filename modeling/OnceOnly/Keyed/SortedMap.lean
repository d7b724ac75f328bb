/-!
Finite maps and sets kept in strictly increasing key order. The order is part of the type, so
two maps with the same look-ups are equal and every traversal visits the keys from the least up.
-/

namespace OnceOnly

/-- A strict linear order: what a key needs for its place in a map to be determined. -/
class StrictKey (κ : Type) [LT κ] : Prop where
  irrefl (a : κ) : ¬ a < a
  trans {a b c : κ} : a < b → b < c → a < c
  connex (a b : κ) : a < b ∨ a = b ∨ b < a

instance {κ : Type} [LE κ] [LT κ] [Std.IsLinearOrder κ] [Std.LawfulOrderLT κ] : StrictKey κ where
  irrefl _ := Std.lt_irrefl
  trans := Std.lt_trans
  connex := Std.lt_trichotomy

namespace Entries

variable {κ α β : Type} [LT κ]

/-- The keys strictly increase. -/
abbrev Sorted (xs : List (κ × α)) : Prop := xs.Pairwise fun a b => a.1 < b.1

variable [DecidableLT κ]

/-- Puts `a` at key `k`, in place of what was there. -/
def insert (k : κ) (a : α) : List (κ × α) → List (κ × α)
  | [] => [(k, a)]
  | x :: xs =>
    if k < x.1 then (k, a) :: x :: xs
    else if x.1 < k then x :: insert k a xs
    else (k, a) :: xs

/-- Takes key `k` out. -/
def erase (k : κ) : List (κ × α) → List (κ × α)
  | [] => []
  | x :: xs => if x.1 < k then x :: erase k xs else if k < x.1 then x :: xs else xs

/-- The value at key `k`. -/
def lookup (k : κ) : List (κ × α) → Option α
  | [] => none
  | x :: xs => if x.1 < k then lookup k xs else if k < x.1 then none else some x.2

omit [DecidableLT κ] in
/-- Keeps the entries that `f` answers, each with its answer. -/
def filterMap (f : κ → α → Option β) (xs : List (κ × α)) : List (κ × β) :=
  xs.filterMap fun x => (f x.1 x.2).map (x.1, ·)

theorem mem_insert {k : κ} {a : α} {y : κ × α} {xs : List (κ × α)} (h : y ∈ insert k a xs) :
    y = (k, a) ∨ y ∈ xs := by
  fun_induction insert k a xs <;> grind

theorem mem_erase {k : κ} {y : κ × α} {xs : List (κ × α)} (h : y ∈ erase k xs) : y ∈ xs := by
  fun_induction erase k xs <;> grind

theorem sorted_insert [StrictKey κ] (k : κ) (a : α) {xs : List (κ × α)} (h : Sorted xs) :
    Sorted (insert k a xs) := by
  fun_induction insert k a xs with
  | case1 => exact List.pairwise_singleton _ _
  | case2 x xs hlt =>
    refine h.cons fun y hy => ?_
    rcases List.mem_cons.1 hy with rfl | hy
    · exact hlt
    · exact StrictKey.trans hlt (List.rel_of_pairwise_cons h hy)
  | case3 x xs _ hlt ih =>
    refine (ih h.of_cons).cons fun y hy => ?_
    rcases mem_insert hy with rfl | hy
    · exact hlt
    · exact List.rel_of_pairwise_cons h hy
  | case4 x xs hge hle =>
    have hk : k = x.1 := (StrictKey.connex k x.1).resolve_left hge |>.resolve_right hle
    exact h.of_cons.cons fun y hy => hk ▸ List.rel_of_pairwise_cons h hy

theorem sorted_erase (k : κ) {xs : List (κ × α)} (h : Sorted xs) : Sorted (erase k xs) := by
  fun_induction erase k xs with
  | case1 => exact h
  | case2 x xs _ ih =>
    exact (ih h.of_cons).cons fun y hy => List.rel_of_pairwise_cons h (mem_erase hy)
  | case3 => exact h
  | case4 => exact h.of_cons

omit [DecidableLT κ] in
theorem sorted_filterMap (f : κ → α → Option β) {xs : List (κ × α)} (h : Sorted xs) :
    Sorted (filterMap f xs) := by
  refine List.Pairwise.filterMap _ (fun x y hxy u hu v hv => ?_) h
  obtain ⟨_, _, rfl⟩ := Option.map_eq_some_iff.1 hu
  obtain ⟨_, _, rfl⟩ := Option.map_eq_some_iff.1 hv
  exact hxy

end Entries

/-- A map whose entries stand in strictly increasing key order. -/
structure SortedMap (κ α : Type) [LT κ] where
  entries : List (κ × α)
  sorted : Entries.Sorted entries

namespace SortedMap

variable {κ α β : Type} [LT κ]

instance : EmptyCollection (SortedMap κ α) := ⟨⟨[], .nil⟩⟩

instance : Inhabited (SortedMap κ α) := ⟨∅⟩

/-- The entries, from the least key up. -/
def toList (m : SortedMap κ α) : List (κ × α) := m.entries

def size (m : SortedMap κ α) : Nat := m.entries.length

def isEmpty (m : SortedMap κ α) : Bool := m.entries.isEmpty

def keys (m : SortedMap κ α) : List κ := m.entries.map (·.1)

def values (m : SortedMap κ α) : List α := m.entries.map (·.2)

variable [DecidableLT κ]

def get? (m : SortedMap κ α) (k : κ) : Option α := Entries.lookup k m.entries

def contains (m : SortedMap κ α) (k : κ) : Bool := (m.get? k).isSome

def erase (m : SortedMap κ α) (k : κ) : SortedMap κ α :=
  ⟨Entries.erase k m.entries, Entries.sorted_erase k m.sorted⟩

omit [DecidableLT κ] in
def filterMap (f : κ → α → Option β) (m : SortedMap κ α) : SortedMap κ β :=
  ⟨Entries.filterMap f m.entries, Entries.sorted_filterMap f m.sorted⟩

variable [StrictKey κ]

def insert (m : SortedMap κ α) (k : κ) (a : α) : SortedMap κ α :=
  ⟨Entries.insert k a m.entries, Entries.sorted_insert k a m.sorted⟩

end SortedMap

/-- A set of keys in increasing order. -/
abbrev SortedSet (κ : Type) [LT κ] := SortedMap κ Unit

namespace SortedSet

variable {κ : Type} [LT κ] [DecidableLT κ] [StrictKey κ]

def add (s : SortedSet κ) (k : κ) : SortedSet κ := s.insert k ()

def ofList (ks : List κ) : SortedSet κ := ks.foldl add ∅

end SortedSet

end OnceOnly
