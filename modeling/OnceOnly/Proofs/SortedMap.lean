import OnceOnly.Ledger.ChargedMap

/-! # Laws of ordered maps -/

namespace OnceOnly

variable {κ α β : Type} [LT κ]

theorem StrictKey.eq_of_not_lt [StrictKey κ] {a b : κ} (hab : ¬ a < b) (hba : ¬ b < a) : a = b :=
  ((StrictKey.connex a b).resolve_left hab).resolve_right hba

/-! ## Entries -/

namespace Entries

omit [LT κ] in
theorem mem_filterMap {f : κ → α → Option β} {xs : List (κ × α)} {k : κ} {b : β} :
    (k, b) ∈ filterMap f xs ↔ ∃ a, (k, a) ∈ xs ∧ f k a = some b := by
  simp only [filterMap, List.mem_filterMap, Option.map_eq_some_iff, Prod.mk.injEq, Prod.exists]
  constructor
  · rintro ⟨l, a, hm, _, hf, rfl, rfl⟩
    exact ⟨a, hm, hf⟩
  · rintro ⟨a, hm, hf⟩
    exact ⟨k, a, hm, b, hf, rfl, rfl⟩

variable [DecidableLT κ] [StrictKey κ]

/-- In increasing order a key stands with the one value that is found for it. -/
theorem mem_iff_lookup {k : κ} {a : α} {xs : List (κ × α)} (h : Sorted xs) :
    (k, a) ∈ xs ↔ lookup k xs = some a := by
  fun_induction lookup k xs with
  | case1 => simp
  | case2 x xs hlt ih =>
      have hne : (k, a) ≠ x := by
        rintro rfl
        exact StrictKey.irrefl _ hlt
      simpa [hne] using ih h.of_cons
  | case3 x xs _ hlt =>
      simp only [List.mem_cons, reduceCtorEq, iff_false, not_or]
      refine ⟨?_, ?_⟩
      · rintro rfl
        exact StrictKey.irrefl _ hlt
      · intro hm
        have hx := List.rel_of_pairwise_cons h hm
        exact StrictKey.irrefl _ (StrictKey.trans hlt hx)
  | case4 x xs hge hle =>
      have hk : k = x.1 := StrictKey.eq_of_not_lt hle hge
      have hn : (k, a) ∉ xs := by
        intro hm
        exact StrictKey.irrefl _ (hk ▸ List.rel_of_pairwise_cons h hm)
      simp only [List.mem_cons, hn, or_false, Option.some.injEq]
      constructor
      · rintro rfl
        rfl
      · rintro rfl
        rw [hk]

theorem lookup_insert_self (k : κ) (a : α) (xs : List (κ × α)) :
    lookup k (insert k a xs) = some a := by
  have hk := StrictKey.irrefl k
  fun_induction insert k a xs <;> simp_all [lookup]

theorem lookup_insert_of_ne {k l : κ} (h : l ≠ k) (a : α) (xs : List (κ × α)) :
    lookup l (insert k a xs) = lookup l xs := by
  fun_induction insert k a xs with
  | case1 =>
      rcases StrictKey.connex k l with hl | hl | hl
      · simp [lookup, hl]
      · exact absurd hl.symm h
      · simp [lookup, hl]
  | case2 x xs hlt =>
      rcases StrictKey.connex k l with hl | hl | hl
      · simp [lookup, hl]
      · exact absurd hl.symm h
      · have hx : l < x.1 := StrictKey.trans hl hlt
        have hn : ¬ x.1 < l := fun hg => StrictKey.irrefl l (StrictKey.trans hx hg)
        have hg : ¬ k < l := fun hg => StrictKey.irrefl l (StrictKey.trans hl hg)
        simp [lookup, hl, hg, hx, hn]
  | case3 x xs _ _ ih => simp [lookup, ih]
  | case4 x xs hge hle =>
      have hk : k = x.1 := StrictKey.eq_of_not_lt hge hle
      rcases StrictKey.connex k l with hl | hl | hl
      · simp [lookup, ← hk, hl]
      · exact absurd hl.symm h
      · have hg : ¬ k < l := fun hg => StrictKey.irrefl l (StrictKey.trans hl hg)
        simp [lookup, ← hk, hl, hg]

theorem insert_of_lookup {k : κ} {a : α} {xs : List (κ × α)} (h : lookup k xs = some a) :
    insert k a xs = xs := by
  fun_induction insert k a xs with
  | case1 => simp [lookup] at h
  | case2 x xs hlt =>
      have hn : ¬ x.1 < k := fun hg => StrictKey.irrefl k (StrictKey.trans hlt hg)
      simp [lookup, hlt, hn] at h
  | case3 x xs _ hlt ih =>
      simp only [lookup, hlt, ite_true] at h
      rw [ih h]
  | case4 x xs hge hle =>
      simp only [lookup, hge, hle, ite_false, Option.some.injEq] at h
      rw [StrictKey.eq_of_not_lt hge hle, ← h]

/-- An entry between those that come before it and those that come after. -/
theorem insert_between {k : κ} {a : α} {xs ys : List (κ × α)} (b : α)
    (h : Sorted (xs ++ (k, a) :: ys)) : insert k b (xs ++ (k, a) :: ys) = xs ++ (k, b) :: ys := by
  induction xs with
  | nil => simp [insert, StrictKey.irrefl]
  | cons x xs ih =>
      have hlt : x.1 < k := (List.pairwise_cons.mp h).1 (k, a) (by simp)
      have hn : ¬ k < x.1 := fun hg => StrictKey.irrefl k (StrictKey.trans hg hlt)
      simp [insert, hlt, hn, ih h.of_cons]

theorem erase_between {k : κ} {a : α} {xs ys : List (κ × α)} (h : Sorted (xs ++ (k, a) :: ys)) :
    erase k (xs ++ (k, a) :: ys) = xs ++ ys := by
  induction xs with
  | nil => simp [erase, StrictKey.irrefl]
  | cons x xs ih =>
      have hlt : x.1 < k := (List.pairwise_cons.mp h).1 (k, a) (by simp)
      simp [erase, hlt, ih h.of_cons]

theorem mem_erase_iff {k l : κ} {a : α} {xs : List (κ × α)} (h : Sorted xs) :
    (l, a) ∈ erase k xs ↔ l ≠ k ∧ (l, a) ∈ xs := by
  fun_induction erase k xs with
  | case1 => simp
  | case2 x xs hlt ih =>
      simp only [List.mem_cons, ih h.of_cons]
      constructor
      · rintro (rfl | ⟨hne, hm⟩)
        · exact ⟨fun he => StrictKey.irrefl k (he ▸ hlt), .inl rfl⟩
        · exact ⟨hne, .inr hm⟩
      · rintro ⟨hne, he | hm⟩
        · exact .inl he
        · exact .inr ⟨hne, hm⟩
  | case3 x xs _ hlt =>
      refine ⟨fun hm => ⟨?_, hm⟩, And.right⟩
      rintro rfl
      rcases List.mem_cons.mp hm with rfl | hm
      · exact StrictKey.irrefl _ hlt
      · exact StrictKey.irrefl _ (StrictKey.trans hlt (List.rel_of_pairwise_cons h hm))
  | case4 x xs hge hle =>
      have hk : x.1 = k := StrictKey.eq_of_not_lt hge hle
      simp only [List.mem_cons]
      constructor
      · intro hm
        refine ⟨?_, .inr hm⟩
        rintro rfl
        exact StrictKey.irrefl _ (hk ▸ List.rel_of_pairwise_cons h hm)
      · rintro ⟨hne, rfl | hm⟩
        · exact absurd hk hne
        · exact hm

/-- What is found at a key, and the entries without it, are all entries. -/
theorem perm_lookup_erase (k : κ) (xs : List (κ × α)) :
    xs.Perm (((lookup k xs).map (k, ·)).toList ++ erase k xs) := by
  fun_induction erase k xs with
  | case1 => simp [lookup]
  | case2 x xs hlt ih =>
      simp only [lookup, hlt, ite_true]
      exact (ih.cons x).trans List.perm_middle.symm
  | case3 x xs hge hlt => simp [lookup, hge, hlt]
  | case4 x xs hge hle =>
      have hk : x.1 = k := StrictKey.eq_of_not_lt hge hle
      simp [lookup, ← hk, StrictKey.irrefl]

theorem insert_perm (k : κ) (a : α) (xs : List (κ × α)) :
    (insert k a xs).Perm ((k, a) :: erase k xs) := by
  fun_induction insert k a xs with
  | case1 => simp [erase]
  | case2 x xs hlt =>
      have hn : ¬ x.1 < k := fun hg => StrictKey.irrefl k (StrictKey.trans hlt hg)
      simp [erase, hlt, hn]
  | case3 x xs _ hlt ih =>
      simp only [erase, hlt, ite_true]
      exact (ih.cons x).trans (.swap ..)
  | case4 x xs hge hle => simp [erase, hge, hle]

end Entries

/-! ## Maps -/

namespace SortedMap

@[simp] theorem toList_empty : (∅ : SortedMap κ α).toList = [] := rfl

@[simp] theorem toList_filterMap (f : κ → α → Option β) (m : SortedMap κ α) :
    (m.filterMap f).toList = m.toList.filterMap fun x => (f x.1 x.2).map (x.1, ·) := rfl

theorem ext_entries {m n : SortedMap κ α} (h : m.entries = n.entries) : m = n := by
  cases m
  cases n
  simp_all

theorem nodup_keys [StrictKey κ] (m : SortedMap κ α) : (m.toList.map (·.1)).Nodup := by
  refine List.pairwise_map.mpr (m.sorted.imp ?_)
  intro a b hlt he
  exact StrictKey.irrefl _ (he ▸ hlt)

theorem isEmpty_iff (m : SortedMap κ α) : m.isEmpty = true ↔ m.toList = [] := by
  simp [isEmpty, toList]

variable [DecidableLT κ]

@[simp] theorem get?_empty (k : κ) : (∅ : SortedMap κ α).get? k = none := rfl

variable [StrictKey κ]

theorem mem_toList_iff {m : SortedMap κ α} {k : κ} {a : α} :
    (k, a) ∈ m.toList ↔ m.get? k = some a :=
  Entries.mem_iff_lookup m.sorted

theorem get?_insert (m : SortedMap κ α) (k l : κ) (a : α) [Decidable (l = k)] :
    (m.insert k a).get? l = if l = k then some a else m.get? l := by
  split
  · rename_i h
    rw [h]
    exact Entries.lookup_insert_self k a m.entries
  · rename_i h
    exact Entries.lookup_insert_of_ne h a m.entries

theorem get?_erase (m : SortedMap κ α) (k l : κ) [Decidable (l = k)] :
    (m.erase k).get? l = if l = k then none else m.get? l := by
  have hm (a : α) : (m.erase k).get? l = some a ↔ l ≠ k ∧ m.get? l = some a := by
    rw [← mem_toList_iff, ← mem_toList_iff]
    exact Entries.mem_erase_iff m.sorted
  apply Option.ext
  intro a
  rw [hm]
  split <;> simp_all

theorem get?_filterMap (f : κ → α → Option β) (m : SortedMap κ α) (k : κ) :
    (m.filterMap f).get? k = m.get? k >>= f k := by
  apply Option.ext
  intro b
  rw [← mem_toList_iff]
  simp only [Option.bind_eq_bind, Option.bind_eq_some_iff, ← mem_toList_iff]
  exact Entries.mem_filterMap

theorem insert_of_get? {m : SortedMap κ α} {k : κ} {a : α} (h : m.get? k = some a) :
    m.insert k a = m := by
  simp only [insert, Entries.insert_of_lookup h]

theorem entries_insert_between {m : SortedMap κ α} {k : κ} {a : α} {xs ys : List (κ × α)} (b : α)
    (h : m.entries = xs ++ (k, a) :: ys) : (m.insert k b).entries = xs ++ (k, b) :: ys := by
  simp only [insert, h]
  exact Entries.insert_between b (h ▸ m.sorted)

theorem entries_erase_between {m : SortedMap κ α} {k : κ} {a : α} {xs ys : List (κ × α)}
    (h : m.entries = xs ++ (k, a) :: ys) : (m.erase k).entries = xs ++ ys := by
  simp only [erase, h]
  exact Entries.erase_between (h ▸ m.sorted)

theorem toList_perm (m : SortedMap κ α) (k : κ) :
    m.toList.Perm (((m.get? k).map (k, ·)).toList ++ (m.erase k).toList) :=
  Entries.perm_lookup_erase k m.entries

theorem toList_insert_perm (m : SortedMap κ α) (k : κ) (a : α) :
    (m.insert k a).toList.Perm ((k, a) :: (m.erase k).toList) :=
  Entries.insert_perm k a m.entries

theorem size_erase (m : SortedMap κ α) (k : κ) :
    m.size = (m.erase k).size + if m.contains k then 1 else 0 := by
  have hlength := (m.toList_perm k).length_eq
  rw [List.length_append] at hlength
  show m.toList.length = (m.erase k).toList.length + _
  rw [hlength, contains]
  cases m.get? k with
  | none => simp
  | some a => simp [Nat.add_comm]

/-- Maps with the same look-ups are equal. -/
theorem ext_get? {m n : SortedMap κ α} (h : ∀ k, m.get? k = n.get? k) : m = n := by
  have hnodup (m : SortedMap κ α) : m.entries.Nodup := by
    refine m.sorted.imp ?_
    rintro a _ hlt rfl
    exact StrictKey.irrefl _ hlt
  have hmem (x : κ × α) : x ∈ m.entries ↔ x ∈ n.entries := by
    have hm := mem_toList_iff (m := m) (k := x.1) (a := x.2)
    rw [h, ← mem_toList_iff] at hm
    exact hm
  have hperm := (List.perm_ext_iff_of_nodup (hnodup m) (hnodup n)).mpr hmem
  refine ext_entries (hperm.eq_of_pairwise ?_ m.sorted n.sorted)
  intro a b _ _ hab hba
  exact absurd (StrictKey.trans hab hba) (StrictKey.irrefl _)

theorem erase_of_get? {m : SortedMap κ α} {k : κ} (h : m.get? k = none) : m.erase k = m := by
  classical
  refine ext_get? fun l => ?_
  rw [get?_erase]
  split <;> simp_all

theorem insert_erase (m : SortedMap κ α) (k : κ) (a : α) :
    (m.erase k).insert k a = m.insert k a := by
  classical
  refine ext_get? fun l => ?_
  rw [get?_insert, get?_insert, get?_erase]
  split <;> simp_all

theorem insert_insert (m : SortedMap κ α) (k : κ) (a b : α) :
    (m.insert k a).insert k b = m.insert k b := by
  classical
  refine ext_get? fun l => ?_
  rw [get?_insert, get?_insert, get?_insert]
  split <;> rfl

theorem isEmpty_iff_get? {m : SortedMap κ α} : m.isEmpty = true ↔ ∀ k, m.get? k = none := by
  simp only [isEmpty_iff, List.eq_nil_iff_forall_not_mem, Prod.forall, mem_toList_iff,
    Option.eq_none_iff_forall_ne_some, ne_eq]

theorem not_isEmpty_of_get? {m : SortedMap κ α} {k : κ} {a : α} (h : m.get? k = some a) :
    m.isEmpty = false := by
  rw [← Bool.not_eq_true, isEmpty_iff]
  intro he
  have hm := mem_toList_iff.mpr h
  simp [he] at hm

theorem mem_keys {m : SortedMap κ α} {k : κ} : k ∈ m.keys ↔ m.contains k = true := by
  simp only [keys, contains, Option.isSome_iff_exists, ← mem_toList_iff, toList, List.mem_map]
  exact ⟨fun ⟨e, he, hk⟩ => ⟨e.2, hk ▸ he⟩, fun ⟨a, ha⟩ => ⟨(k, a), ha, rfl⟩⟩

/-- The first key is the least. -/
theorem not_lt_head {m : SortedMap κ α} {k l : κ} (hk : m.keys.head? = some k)
    (hl : m.contains l = true) : ¬ l < k := by
  have hsorted : m.keys.Pairwise (· < ·) := List.pairwise_map.mpr m.sorted
  have hmem : l ∈ m.keys := mem_keys.mpr hl
  cases hkeys : m.keys with
  | nil => simp [hkeys] at hk
  | cons first rest =>
      rw [hkeys] at hk hmem hsorted
      obtain rfl : first = k := by simpa using hk
      rcases List.mem_cons.mp hmem with rfl | hmem
      · exact StrictKey.irrefl l
      · intro hlt
        exact StrictKey.irrefl l (StrictKey.trans hlt (List.rel_of_pairwise_cons hsorted hmem))

end SortedMap

namespace SortedSet

variable [DecidableLT κ] [StrictKey κ]

theorem contains_add (s : SortedSet κ) (k l : κ) :
    (add s k).contains l = true ↔ l = k ∨ s.contains l = true := by
  classical
  simp only [add, SortedMap.contains, SortedMap.get?_insert]
  split <;> simp_all

theorem contains_addAll (xs : List α) (key : α → κ) (s : SortedSet κ) (l : κ) :
    (xs.foldl (fun s x => add s (key x)) s).contains l = true ↔
      (∃ x ∈ xs, key x = l) ∨ s.contains l = true := by
  induction xs generalizing s with
  | nil => simp
  | cons x xs ih =>
      simp only [List.foldl_cons, ih, contains_add, List.mem_cons, exists_eq_or_imp]
      grind

theorem contains_erase (s : SortedSet κ) (k l : κ) :
    (s.erase k).contains l = true ↔ l ≠ k ∧ s.contains l = true := by
  classical
  simp only [SortedMap.contains, SortedMap.get?_erase]
  split <;> simp_all

/-- Sets with the same members are equal. -/
theorem ext_contains {s t : SortedSet κ}
    (h : ∀ k, s.contains k = true ↔ t.contains k = true) : s = t := by
  refine SortedMap.ext_get? fun k => ?_
  have hk := h k
  simp only [SortedMap.contains] at hk
  cases hs : s.get? k <;> cases ht : t.get? k <;> simp_all

end SortedSet

/-! ## Maps that are charged -/

namespace ChargedMap

variable [Footprint κ] [Footprint α]

omit [Footprint κ] [Footprint α] in
theorem ext_map {m n : ChargedMap κ α} (hmap : m.map = n.map) (hcharged : m.charged = n.charged) :
    m = n := by
  cases m
  cases n
  simp_all

omit [Footprint κ] [Footprint α] in
@[simp] theorem toList_empty : (empty : ChargedMap κ α).toList = [] := rfl

@[simp] theorem toList_filterMap (f : κ → α → Option α) (m : ChargedMap κ α) :
    (m.filterMap f).1.toList = m.toList.filterMap fun x => (f x.1 x.2).map (x.1, ·) := rfl

/-- Entries that go without taking anything along leave everything behind. -/
theorem flatMap_filterMap {f : κ → α → Option α} {g : α → List β} {m : ChargedMap κ α}
    (h : ∀ x ∈ m.toList, ((f x.1 x.2).map g).getD [] = g x.2) :
    ((m.filterMap f).1.toList.flatMap fun x => g x.2) = m.toList.flatMap fun x => g x.2 := by
  rw [toList_filterMap]
  generalize m.toList = xs at h
  induction xs with
  | nil => rfl
  | cons x xs ih =>
      have hx := h x (by simp)
      have hxs := ih fun y hy => h y (List.mem_cons_of_mem _ hy)
      cases hf : f x.1 x.2 with
      | none => simpa [hf, hxs] using hx
      | some a => simpa [hf, hxs] using hx

variable [DecidableLT κ]

omit [Footprint κ] [Footprint α] in
@[simp] theorem get?_empty (k : κ) : (empty : ChargedMap κ α).get? k = none := rfl

variable [StrictKey κ]

omit [Footprint κ] [Footprint α] in
theorem mem_toList_iff {m : ChargedMap κ α} {k : κ} {a : α} :
    (k, a) ∈ m.toList ↔ m.get? k = some a :=
  SortedMap.mem_toList_iff

theorem get?_insert (m : ChargedMap κ α) (k l : κ) (a : α) [Decidable (l = k)] :
    (m.insert k a).1.get? l = if l = k then some a else m.get? l := by
  cases h : m.get? k with
  | none =>
      simp only [insert, erase, h]
      exact SortedMap.get?_insert m.map k l a
  | some b =>
      simp only [insert, erase, h]
      show ((m.map.erase k).insert k a).get? l = _
      rw [SortedMap.get?_insert, SortedMap.get?_erase]
      split
      · rfl
      · rfl

theorem get?_erase (m : ChargedMap κ α) (k l : κ) [Decidable (l = k)] :
    (m.erase k).1.get? l = if l = k then none else m.get? l := by
  cases h : m.get? k with
  | none => simp only [erase, h]; split <;> simp_all
  | some b => simp only [erase, h]; exact SortedMap.get?_erase m.map k l

/-- A key that is missing keeps missing. -/
theorem get?_update (m : ChargedMap κ α) (k l : κ) (a : α) [Decidable (l = k)] :
    (m.update k a).1.get? l = if l = k then (m.get? k).map fun _ => a else m.get? l := by
  cases h : m.get? k with
  | none => simp only [update, h]; split <;> simp_all
  | some b => simp only [update, h]; exact SortedMap.get?_insert m.map k l a

/-- To put what is there changes nothing. -/
theorem update_of_get? {m : ChargedMap κ α} {k : κ} {a : α} (h : m.get? k = some a) :
    m.update k a = (m, [0]) := by
  have hm : m.map.insert k a = m.map := SortedMap.insert_of_get? h
  simp [update, h, entryChange, hm]

theorem get?_insertNew (m : ChargedMap κ α) (k l : κ) (a : α) [Decidable (l = k)] :
    (m.insertNew k a).1.get? l = if l = k then some ((m.get? k).getD a) else m.get? l := by
  cases h : m.get? k with
  | none => simp only [insertNew, h]; exact SortedMap.get?_insert m.map k l a
  | some b => simp only [insertNew, h]; split <;> simp_all

theorem get?_filterMap (f : κ → α → Option α) (m : ChargedMap κ α) (k : κ) :
    (m.filterMap f).1.get? k = m.get? k >>= f k :=
  SortedMap.get?_filterMap f m.map k

/-! ### What the operations make of the entries -/

theorem erase_map (m : ChargedMap κ α) (k : κ) : (m.erase k).1.map = m.map.erase k := by
  cases h : m.get? k with
  | none => simp only [erase, h]; exact (SortedMap.erase_of_get? h).symm
  | some a => simp only [erase, h]

theorem insert_map (m : ChargedMap κ α) (k : κ) (a : α) :
    (m.insert k a).1.map = m.map.insert k a := by
  simp only [insert, erase_map, SortedMap.insert_erase]

theorem update_map {m : ChargedMap κ α} {k : κ} {a : α} (h : m.get? k = some a) (b : α) :
    (m.update k b).1.map = m.map.insert k b := by
  simp only [update, h]

theorem insertNew_map (m : ChargedMap κ α) (k : κ) (a : α) :
    (m.insertNew k a).1.map = m.map.insert k ((m.get? k).getD a) := by
  cases h : m.get? k with
  | none => simp only [insertNew, h, Option.getD_none]
  | some b => simp only [insertNew, h, Option.getD_some]; exact (SortedMap.insert_of_get? h).symm

/-! ### One entry and the others -/

/-- The entries away from a key. -/
def others (m : ChargedMap κ α) (k : κ) : List (κ × α) := (m.map.erase k).toList

omit [Footprint κ] [Footprint α] in
theorem toList_perm (m : ChargedMap κ α) (k : κ) :
    m.toList.Perm (((m.get? k).map (k, ·)).toList ++ m.others k) :=
  m.map.toList_perm k

omit [Footprint κ] [Footprint α] in
theorem toList_perm_cons {m : ChargedMap κ α} {k : κ} {a : α} (h : m.get? k = some a) :
    m.toList.Perm ((k, a) :: m.others k) := by
  simpa [h] using m.toList_perm k

theorem toList_erase_perm (m : ChargedMap κ α) (k : κ) :
    (m.erase k).1.toList.Perm (m.others k) := by
  cases h : m.get? k with
  | none => simpa [erase, h] using m.toList_perm k
  | some a => simp only [erase, h]; exact .refl _

theorem toList_update_perm {m : ChargedMap κ α} {k : κ} {a : α} (h : m.get? k = some a) (b : α) :
    (m.update k b).1.toList.Perm ((k, b) :: m.others k) := by
  simp only [update, h]
  exact m.map.toList_insert_perm k b

theorem toList_insert_perm {m : ChargedMap κ α} {k : κ} (h : m.get? k = none) (b : α) :
    (m.insert k b).1.toList.Perm ((k, b) :: m.others k) := by
  simp only [insert, erase, h]
  exact m.map.toList_insert_perm k b

theorem toList_insertNew_perm (m : ChargedMap κ α) (k : κ) (b : α) :
    (m.insertNew k b).1.toList.Perm ((k, (m.get? k).getD b) :: m.others k) := by
  cases h : m.get? k with
  | none => simp only [insertNew, h]; exact m.map.toList_insert_perm k b
  | some a => simpa [insertNew, h] using toList_perm_cons h

theorem others_insertNew_perm (m : ChargedMap κ α) (k : κ) (b : α) :
    ((m.insertNew k b).1.others k).Perm (m.others k) := by
  classical
  have hk : (m.insertNew k b).1.get? k = some ((m.get? k).getD b) := by simp [get?_insertNew]
  exact ((toList_perm_cons hk).symm.trans (m.toList_insertNew_perm k b)).cons_inv

end ChargedMap

end OnceOnly
