import OnceOnly.Proofs.Account

/-!
# The reference: maps that count nothing and sums of any size

What operations on named maps and budgets come to, apart from any width of numbers. Keys and values
are of any types; maps of several types are maps of their sums.
-/

namespace OnceOnly.Ledger

open List ChargedMap

variable {κ α : Type} [LT κ]

/-! ## One map -/

/-- What is done with a map. -/
inductive Act (κ α : Type) where
  | insert (k : κ) (v : α)
  | erase (k : κ)
  | edit (k : κ) (f : α → α)
  | getOrInsert (k : κ) (v : α) (f : α → α)
  /-- Each visit edits an entry and says whether to keep it. An entry is visited once, so that what
  is done with it can depend on all visits before. -/
  | retain (visit : κ → α → α × Bool)

namespace Act

variable [DecidableLT κ] [StrictKey κ]

/-- On an ordered map that counts nothing. -/
def plain : Act κ α → SortedMap κ α → SortedMap κ α
  | insert k v, m => m.insert k v
  | erase k, m => m.erase k
  | edit k f, m =>
    match m.get? k with
    | none => m
    | some v => m.insert k (f v)
  | getOrInsert k v f, m => m.insert k (f ((m.get? k).getD v))
  | retain visit, m => m.filterMap (Account.kept visit)

variable [Footprint κ] [Footprint α]

/-- On a map and its budget, counted with words. -/
def run : Act κ α → Counting κ α Unit
  | insert k v => discard (Account.insert k v)
  | erase k => discard (Account.erase k)
  | edit k f => discard (Account.edit k f)
  | getOrInsert k v f => discard (Account.getOrInsert k v f)
  | retain visit => Account.retain fun k v => ((visit k v).1, .ok (visit k v).2)

/-- On a map with a count of any size: the map after it, and every single charge. -/
def exact : Act κ α → ChargedMap κ α → ChargedMap κ α × List Int
  | insert k v, m => m.insert k v
  | erase k, m => m.erase k
  | edit k f, m =>
    match m.get? k with
    | none => (m, [])
    | some v => m.update k (f v)
  | getOrInsert k v f, m =>
    let made := m.insertNew k v
    let held := made.1.update k (f ((m.get? k).getD v))
    (held.1, made.2 ++ held.2)
  | retain visit, m => m.filterMap (Account.kept visit)

theorem exact_booked (act : Act κ α) (m : ChargedMap κ α) :
    m.Booked (act.exact m).2 (act.exact m).1 := by
  cases act with
  | insert k v => exact m.insert_booked k v
  | erase k => exact m.erase_booked k
  | edit k f =>
      simp only [exact]
      split
      · exact Booked.refl m
      · exact m.update_booked k _
  | getOrInsert k v f => exact (m.insertNew_booked k v).trans (update_booked _ k _)
  | retain visit => exact m.filterMap_booked (Account.kept visit)

theorem exact_map (act : Act κ α) (m : ChargedMap κ α) :
    (act.exact m).1.map = act.plain m.map := by
  classical
  cases act with
  | insert k v => exact m.insert_map k v
  | erase k => exact m.erase_map k
  | edit k f =>
      have hget : m.map.get? k = m.get? k := rfl
      cases hk : m.get? k with
      | none => simp only [exact, plain, hget, hk]
      | some v => simpa only [exact, plain, hget, hk] using update_map hk (f v)
  | getOrInsert k v f =>
      have hget : m.map.get? k = m.get? k := rfl
      have hk : (m.insertNew k v).1.get? k = some ((m.get? k).getD v) := by
        simp [get?_insertNew]
      simp only [exact, plain, hget, update_map hk, insertNew_map, SortedMap.insert_insert]
  | retain visit => rfl

theorem run_ends {m : ChargedMap κ α} {b : Budget} (act : Act κ α) (h : Account.Sound ⟨m, b⟩)
    (hr : Account.Room ⟨m, b⟩ (act.exact m).2) :
    act.run.Ends ⟨m, b⟩ () ⟨(act.exact m).1, b.chargeAll (act.exact m).2⟩ := by
  cases act with
  | insert k v => exact (Account.insert_ends h hr).map _
  | erase k => exact (Account.erase_ends h hr).map _
  | edit k f =>
      cases hk : m.get? k with
      | none =>
          simp only [exact, hk]
          exact (Account.edit_missing_ends hk f).map _
      | some v =>
          simp only [exact, hk] at hr ⊢
          exact (Account.edit_ends h hk f hr).map _
  | getOrInsert k v f => exact (Account.getOrInsert_ends h f hr).map _
  | retain visit => exact Account.retain_ends visit h hr

end Act

/-! ## Maps and budgets by name -/

inductive Operation (κ α : Type) where
  | newBudget (name id : String) (limit : Option Int)
  | consume (budget : String) (bytes : Int)
  /-- Takes bytes off the count. -/
  | giveBack (budget : String) (bytes : Int)
  /-- Also in the place of a map of that name, which is dropped. -/
  | newMap (name budget : String)
  | dropMap (name : String)
  | onMap (name : String) (act : Act κ α)

/-- What was charged to a budget by itself, and the count after every single charge so far. -/
structure Tally where
  direct : Int
  counts : List Int

/-- Ordered maps that count nothing, each with the place of its budget, and sums of any size. -/
structure Reference (κ α : Type) [LT κ] where
  tallies : List Tally
  budgetNames : SortedMap String Nat
  maps : SortedMap String (Nat × SortedMap κ α)

/-- Charges to the budget at a place. -/
structure Posting where
  place : Nat
  /-- The count of the map that makes them; zero if there is none. -/
  counted : Int
  charges : List Int
  /-- What is charged by no map. -/
  direct : Int

namespace Reference

def empty : Reference κ α := ⟨[], ∅, ∅⟩

variable [Footprint κ] [Footprint α]

/-- The bytes of the maps on the budget at a place. -/
def held (place : Nat) (maps : SortedMap String (Nat × SortedMap κ α)) : Int :=
  balance (fun e => if e.2.1 = place then bytesOf e.2.2.toList else 0) maps.toList

/-- What the budget at a place is charged: directly, and for the maps on it. -/
def consumption (p : Reference κ α) (place : Nat) : Int :=
  ((p.tallies[place]?).map Tally.direct).getD 0 + held place p.maps

/-- A map that counts what is there. -/
def tallied (m : SortedMap κ α) : ChargedMap κ α := ⟨m, bytesOf m.toList⟩

/-- What goes back when the map of that name is dropped. -/
def release? (p : Reference κ α) (name : String) : Option Posting :=
  (p.maps.get? name).map fun s => ⟨s.1, bytesOf s.2.toList, [-bytesOf s.2.toList], 0⟩

/-- Notes the counts that charges lead to. -/
def post (p : Reference κ α) (q : Posting) : List Tally :=
  p.tallies.modify q.place fun t =>
    ⟨t.direct + q.direct, t.counts ++ counts (p.consumption q.place) q.charges⟩

/-! ### What charges come to -/

/-- One map and the others. -/
theorem held_eq (place : Nat) (maps : SortedMap String (Nat × SortedMap κ α)) (name : String) :
    held place maps =
      ((maps.get? name).map fun s => if s.1 = place then bytesOf s.2.toList else 0).getD 0 +
        held place (maps.erase name) :=
  maps.balance_toList _ name

theorem held_insert (place : Nat) (maps : SortedMap String (Nat × SortedMap κ α)) (name : String)
    (s : Nat × SortedMap κ α) : held place (maps.insert name s) =
      (if s.1 = place then bytesOf s.2.toList else 0) + held place (maps.erase name) :=
  maps.balance_insert _ name s

section Replace

variable {maps : SortedMap String (Nat × SortedMap κ α)} {name : String} {home : Nat}
  {m : SortedMap κ α}

theorem held_erase (h : maps.get? name = some (home, m)) (place : Nat) :
    held place (maps.erase name) =
      held place maps + if home = place then -bytesOf m.toList else 0 := by
  have hheld := held_eq place maps name
  simp only [h, Option.map_some, Option.getD_some] at hheld
  by_cases hplace : home = place
  · simp only [hplace, ite_true] at hheld ⊢
    omega
  · simp only [hplace, ite_false] at hheld ⊢
    omega

theorem held_replace (h : maps.get? name = some (home, m)) (m' : SortedMap κ α) (place : Nat) :
    held place (maps.insert name (home, m')) =
      held place maps + if home = place then bytesOf m'.toList - bytesOf m.toList else 0 := by
  rw [held_insert, held_erase h]
  by_cases hplace : home = place
  · simp only [hplace, ite_true]
    omega
  · simp only [hplace, ite_false]
    omega

end Replace

/-- The charges of a posting come to what is charged directly and what changes in the maps. -/
theorem consumption_post {p p' : Reference κ α} {q : Posting} (hq : q.place < p.tallies.length)
    (ht : p'.tallies = p.post q)
    (hm : ∀ place, held place p'.maps =
      held place p.maps + if q.place = place then net q.charges - q.direct else 0) (place : Nat) :
    p'.consumption place = p.consumption place + if q.place = place then net q.charges else 0 := by
  have hplace := hm place
  simp only [consumption, ht, post, getElem?_modify]
  by_cases hp : q.place = place
  · subst hp
    have hget : p.tallies[q.place]? = some p.tallies[q.place] := getElem?_eq_getElem hq
    simp only [ite_true] at hplace
    simp only [hget, ite_true, Option.map_some, Option.map_eq_map, Option.getD_some]
    omega
  · simp only [hp, ite_false, Int.add_zero] at hplace
    simp only [hp, ite_false, Option.map_eq_map, Option.map_id', hplace, Int.add_zero]

/-- No map is on a budget that comes after all others. -/
theorem held_eq_zero {place : Nat} {maps : SortedMap String (Nat × SortedMap κ α)}
    (h : ∀ name s, maps.get? name = some s → s.1 < place) : held place maps = 0 := by
  refine balance_eq_zero fun e he => ?_
  have hlt := h e.1 e.2 (SortedMap.mem_toList_iff.mp he)
  simp [Nat.ne_of_lt hlt]

@[simp] theorem post_length (p : Reference κ α) (q : Posting) :
    (p.post q).length = p.tallies.length :=
  length_modify ..

/-! ### Operations -/

variable [DecidableLT κ] [StrictKey κ]

/-- What is done with a map changes what is held by what it charges. -/
theorem held_act {maps : SortedMap String (Nat × SortedMap κ α)} {name : String} {home : Nat}
    {m : SortedMap κ α} (h : maps.get? name = some (home, m)) (act : Act κ α) (place : Nat) :
    held place (maps.insert name (home, act.plain m)) =
      held place maps + if home = place then net (act.exact (tallied m)).2 else 0 := by
  have hbytes : bytesOf (act.exact (tallied m)).1.map.toList =
      bytesOf m.toList + net (act.exact (tallied m)).2 :=
    (act.exact_booked (tallied m)).bytes_eq
  have hmap : (act.exact (tallied m)).1.map = act.plain m := act.exact_map (tallied m)
  rw [held_replace h, ← hmap, hbytes, Int.add_comm (bytesOf _), Int.add_sub_cancel]

/-- What an operation charges, if anything. -/
def posting? (p : Reference κ α) : Operation κ α → Option Posting
  | .newBudget .. => none
  | .consume budget bytes =>
    (p.budgetNames.get? budget).map fun place => ⟨place, 0, [bytes], bytes⟩
  | .giveBack budget bytes =>
    (p.budgetNames.get? budget).map fun place => ⟨place, 0, [-bytes], -bytes⟩
  | .newMap name budget => if p.budgetNames.contains budget then p.release? name else none
  | .dropMap name => p.release? name
  | .onMap name act =>
    (p.maps.get? name).map fun s => ⟨s.1, bytesOf s.2.toList, (act.exact (tallied s.2)).2, 0⟩

/-- The tallies after an operation. -/
def noted (p : Reference κ α) (op : Operation κ α) : List Tally :=
  match p.posting? op with
  | none => p.tallies
  | some q => p.post q

def step (p : Reference κ α) (op : Operation κ α) : Reference κ α :=
  let tallies := p.noted op
  match op with
  | .newBudget name _ _ =>
    { p with
      tallies := tallies ++ [⟨0, []⟩]
      budgetNames := p.budgetNames.insert name tallies.length }
  | .newMap name budget =>
    match p.budgetNames.get? budget with
    | none => p
    | some place => { p with tallies, maps := p.maps.insert name (place, ∅) }
  | .dropMap name => { p with tallies, maps := p.maps.erase name }
  | .onMap name act =>
    match p.maps.get? name with
    | none => p
    | some (place, m) => { p with tallies, maps := p.maps.insert name (place, act.plain m) }
  | _ => { p with tallies }

def run (p : Reference κ α) (ops : List (Operation κ α)) : Reference κ α := ops.foldl step p

/-- A word holds every amount that is charged directly, and every count that an operation leads to:
the budget's and the map's. -/
def Fits (p : Reference κ α) (op : Operation κ α) : Prop :=
  ∀ q ∈ p.posting? op,
    InWords q.counted q.charges ∧ InWords (p.consumption q.place) q.charges

instance (p : Reference κ α) (op : Operation κ α) : Decidable (p.Fits op) :=
  inferInstanceAs (Decidable (∀ q ∈ p.posting? op, _ ∧ _))

/-- Every operation of a run fits where it is made. -/
def FitsAll (p : Reference κ α) : List (Operation κ α) → Prop
  | [] => True
  | op :: ops => p.Fits op ∧ (p.step op).FitsAll ops

instance decidableFitsAll (p : Reference κ α) :
    (ops : List (Operation κ α)) → Decidable (p.FitsAll ops)
  | [] => .isTrue trivial
  | op :: ops => @instDecidableAnd _ _ _ (decidableFitsAll (p.step op) ops)

@[simp] theorem noted_length (p : Reference κ α) (op : Operation κ α) :
    (p.noted op).length = p.tallies.length := by
  rw [noted]
  split <;> simp

end Reference

end OnceOnly.Ledger
