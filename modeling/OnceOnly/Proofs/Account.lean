import OnceOnly.Ledger.Account
import OnceOnly.Proofs.Charges

/-!
# Accounts: where words hold every count, a map is counted as if numbers had no bound

Footprints of 2 ^ 63 bytes or more count as other words. None occurs in a map whose bytes a word
holds, and of a value that a visit takes out only the footprint before the visit is counted.
-/

namespace OnceOnly

open List

/-! ## Words -/

theorem isWord_iff {n : Int} :
    IsWord n ↔ -9223372036854775808 ≤ n ∧ n ≤ 9223372036854775807 := by
  have hmin : Int64.minValue.toInt = -9223372036854775808 := by decide
  have hmax : Int64.maxValue.toInt = 9223372036854775807 := by decide
  rw [IsWord, hmin, hmax]

theorem wordOr_eq {n : Int} (overflow : Overflow) (h : IsWord n) : wordOr overflow n = .ok n :=
  if_pos h

theorem asWord_eq {n : Int} (h : IsWord n) : asWord n = n := by
  obtain ⟨hmin, hmax⟩ := isWord_iff.mp h
  exact Int64.toInt_ofInt_of_le (by omega) (by omega)

theorem sizeSum_eq {a b : Nat} (h : IsWord (a + b)) : sizeSum a b = .ok (a + b) := by
  have hmax := (isWord_iff.mp h).2
  have hlt : a + b < Nat.pow 2 64 := by
    rw [show Nat.pow 2 64 = 18446744073709551616 from rfl]
    omega
  exact if_pos hlt

/-- A word holds the last count. -/
theorem InWords.net {n : Int} {charges : List Int} (hw : InWords n charges) (hn : IsWord n) :
    IsWord (n + net charges) := by
  induction charges generalizing n with
  | nil => simpa using hn
  | cons bytes charges ih =>
      obtain ⟨hfirst, hrest⟩ := inWords_cons.mp hw
      have hlast := ih hrest hfirst
      rwa [net_cons, ← Int.add_assoc]

/-! ## Operations that run to their end -/

namespace Counting

variable {κ α β γ : Type} [LT κ]

/-- On the account `a` the operation answers `x` and leaves `a'`. -/
def Ends (op : Counting κ α β) (a : Account κ α) (x : β) (a' : Account κ α) : Prop :=
  op.run.run a = (.ok x, a')

variable {a a' a'' : Account κ α} {x : β} {y : γ}

theorem Ends.pure (x : β) (a : Account κ α) : Ends (pure x) a x a := rfl

theorem Ends.get (a : Account κ α) : Ends get a a a := rfl

theorem Ends.modify (f : Account κ α → Account κ α) (a : Account κ α) :
    Ends (modify f) a ⟨⟩ (f a) := rfl

theorem Ends.lift {e : Except Overflow β} (h : e = .ok x) (a : Account κ α) :
    Ends (liftM e) a x a := by
  rw [h]
  rfl

theorem Ends.bind {op : Counting κ α β} {f : β → Counting κ α γ} (h : op.Ends a x a')
    (hf : (f x).Ends a' y a'') : (op >>= f).Ends a y a'' := by
  simp only [Ends, ExceptT.run_bind, StateT.run_bind] at h hf ⊢
  rw [h]
  exact hf

theorem Ends.map {op : Counting κ α β} (h : op.Ends a x a') (f : β → γ) :
    (f <$> op).Ends a (f x) a' := by
  rw [map_eq_pure_bind]
  exact h.bind (.pure (f x) a')

end Counting

namespace Account

open Counting ChargedMap

variable {κ α : Type} [LT κ] {m : ChargedMap κ α} {b : Budget}

/-- Words hold every count that the charges lead to, the map's and the budget's. -/
structure Room (a : Account κ α) (charges : List Int) : Prop where
  map : InWords a.map.charged charges
  budget : InWords a.budget.consumption charges

theorem consume_ends {bytes : Int} (hp : b.Peaked) (hw : IsWord (b.consumption + bytes)) :
    (consume bytes).Ends ⟨m, b⟩ () ⟨m, b.charge bytes⟩ := by
  refine Ends.bind (Ends.get _) ?_
  simp only [hp.charge?_eq hw]
  exact Ends.modify _ _

theorem charge_ends {bytes : Int} (hp : b.Peaked) (hr : Room ⟨m, b⟩ [bytes]) :
    (charge bytes).Ends ⟨m, b⟩ () ⟨⟨m.map, m.charged + bytes⟩, b.charge bytes⟩ := by
  refine Ends.bind (Ends.get _) ?_
  refine Ends.bind (Ends.lift (wordOr_eq .add (inWords_cons.mp hr.map).1) _) ?_
  refine Ends.bind (Ends.modify _ _) ?_
  exact consume_ends hp (inWords_cons.mp hr.budget).1

theorem giveBack_ends {bytes : Int} (hp : b.Peaked) (hm : IsWord (-bytes))
    (hw : IsWord (b.consumption + -bytes)) :
    (giveBack bytes).Ends ⟨m, b⟩ () ⟨m, b.charge (-bytes)⟩ :=
  Ends.bind (Ends.lift (wordOr_eq .negate hm) _) (consume_ends hp hw)

theorem modifyEntries_ends (f : SortedMap κ α → SortedMap κ α) :
    (modifyEntries f).Ends ⟨m, b⟩ () ⟨⟨f m.map, m.charged⟩, b⟩ := rfl

theorem get?_ends [DecidableLT κ] (k : κ) : (get? k).Ends ⟨m, b⟩ (m.get? k) ⟨m, b⟩ := rfl

variable [Footprint κ] [Footprint α] {m' : ChargedMap κ α} {xs ys : List Int}

/-- Room for some charges and then, with these made, for others. -/
theorem room_append (hm : m.Booked xs m') :
    Room ⟨m, b⟩ (xs ++ ys) ↔ Room ⟨m, b⟩ xs ∧ Room ⟨m', b.chargeAll xs⟩ ys := by
  have hmap : InWords m.charged (xs ++ ys) ↔ _ := inWords_append
  have hbudget : InWords b.consumption (xs ++ ys) ↔ _ := inWords_append
  rw [← hm.charged_eq] at hmap
  rw [← Budget.chargeAll_consumption] at hbudget
  constructor
  · intro ⟨h₁, h₂⟩
    exact ⟨⟨(hmap.mp h₁).1, (hbudget.mp h₂).1⟩, (hmap.mp h₁).2, (hbudget.mp h₂).2⟩
  · intro ⟨h₁, h₂⟩
    exact ⟨hmap.mpr ⟨h₁.map, h₂.map⟩, hbudget.mpr ⟨h₁.budget, h₂.budget⟩⟩

/-- The map counts what is there, a word holds it, and the peak has seen the budget's count. -/
structure Sound (a : Account κ α) : Prop where
  balanced : a.map.Balanced
  word : IsWord a.map.charged
  peaked : a.budget.Peaked

theorem Sound.after {charges : List Int} (h : Sound ⟨m, b⟩) (hr : Room ⟨m, b⟩ charges)
    (hm : m.Booked charges m') : Sound ⟨m', b.chargeAll charges⟩ where
  balanced := hm.balanced h.balanced
  word := hm.charged_eq ▸ hr.map.net h.word
  peaked := h.peaked.chargeAll charges

/-! ### Footprints -/

omit [LT κ] in
/-- The parts of a footprint that a word holds are words. -/
theorem isWord_of_entryFootprint_le {k : κ} {v : α} {n : Int}
    (h : ChargedMap.entryFootprint k v ≤ n) (hn : IsWord n) :
    IsWord (footprint k) ∧ IsWord (footprint v) ∧ IsWord (ChargedMap.entryFootprint k v) := by
  have hmax := (isWord_iff.mp hn).2
  simp only [ChargedMap.entryFootprint, isWord_iff] at h ⊢
  omega

omit [LT κ] in
theorem entryBytes_eq {k : κ} {v : α} (h : IsWord (ChargedMap.entryFootprint k v)) :
    entryBytes k v = .ok (ChargedMap.entryFootprint k v) := by
  rw [ChargedMap.entryFootprint] at h ⊢
  rw [entryBytes, sizeSum_eq h]
  show Except.ok (asWord (footprint k + footprint v : Nat)) = _
  rw [Int.natCast_add, asWord_eq h]

omit [LT κ] [Footprint κ] in
theorem growth_eq {v w : α} (hv : IsWord (footprint v)) (hw : IsWord (footprint w)) :
    growth v w = .ok (footprint w - footprint v : Int) := by
  rw [growth, asWord_eq hv, asWord_eq hw]
  refine wordOr_eq .subtract (isWord_iff.mpr ?_)
  have hmax := (isWord_iff.mp hv).2
  have hmax' := (isWord_iff.mp hw).2
  omega

/-- A word holds the footprint of what a word has room for. -/
theorem Sound.isWord_of_room {k : κ} {v : α} (h : Sound ⟨m, b⟩)
    (hr : Room ⟨m, b⟩ [ChargedMap.entryFootprint k v]) :
    IsWord (ChargedMap.entryFootprint k v) := by
  have hsum := (inWords_cons.mp hr.map).1
  have hcharged : 0 ≤ m.charged := h.balanced ▸ m.bytes_nonneg
  have hnonneg := ChargedMap.entryFootprint_nonneg k v
  simp only [isWord_iff] at hsum ⊢
  omega

/-- A map that is dropped gives back what it holds. -/
theorem release_ends (h : Sound ⟨m, b⟩) (hw : InWords b.consumption m.release) :
    release.Ends ⟨m, b⟩ () ⟨m, b.chargeAll m.release⟩ := by
  have hneg : IsWord (-m.charged) := by
    have hcharged : 0 ≤ m.charged := h.balanced ▸ m.bytes_nonneg
    have hmax := (isWord_iff.mp h.word).2
    simp only [isWord_iff] at hmax ⊢
    omega
  refine Ends.bind (Ends.get _) ?_
  exact giveBack_ends h.peaked hneg (inWords_cons.mp hw).1

/-! ### The operations -/

variable [DecidableLT κ] [StrictKey κ] {k : κ} {v : α}

theorem Sound.isWord_of_get? (h : Sound ⟨m, b⟩) (hk : m.get? k = some v) :
    IsWord (footprint k) ∧ IsWord (footprint v) ∧ IsWord (ChargedMap.entryFootprint k v) :=
  isWord_of_entryFootprint_le (ChargedMap.entryFootprint_le_bytes hk) (h.balanced ▸ h.word)

theorem erase_ends (h : Sound ⟨m, b⟩) (hr : Room ⟨m, b⟩ (m.erase k).2) :
    (erase k).Ends ⟨m, b⟩ (m.get? k) ⟨(m.erase k).1, b.chargeAll (m.erase k).2⟩ := by
  refine Ends.bind (get?_ends k) ?_
  cases hk : m.get? k with
  | none =>
      simp only [ChargedMap.erase, hk]
      exact Ends.pure _ _
  | some v =>
      simp only [ChargedMap.erase, hk] at hr ⊢
      obtain ⟨-, -, hw⟩ := h.isWord_of_get? hk
      have hneg : IsWord (-ChargedMap.entryFootprint k v) := by
        have hnonneg := ChargedMap.entryFootprint_nonneg k v
        simp only [isWord_iff] at hw ⊢
        omega
      refine Ends.bind (modifyEntries_ends _) ?_
      refine Ends.bind (Ends.lift (entryBytes_eq hw) _) ?_
      refine Ends.bind (Ends.lift (wordOr_eq .negate hneg) _) ?_
      refine Ends.bind (charge_ends h.peaked ⟨hr.map, hr.budget⟩) ?_
      exact Ends.pure _ _

/-- The map with a fresh entry, and what the entry charges. -/
theorem insertNew_of_get? (hk : m.get? k = none) (v : α) :
    m.insertNew k v = (⟨m.map.insert k v, m.charged + ChargedMap.entryFootprint k v⟩,
      [ChargedMap.entryFootprint k v]) := by
  simp only [ChargedMap.insertNew, hk]

theorem insertNew_ends (h : Sound ⟨m, b⟩) (hr : Room ⟨m, b⟩ (m.insertNew k v).2) :
    (insertNew k v).Ends ⟨m, b⟩ () ⟨(m.insertNew k v).1, b.chargeAll (m.insertNew k v).2⟩ := by
  refine Ends.bind (get?_ends k) ?_
  cases hk : m.get? k with
  | some w =>
      simp only [ChargedMap.insertNew, hk]
      exact Ends.pure _ _
  | none =>
      rw [insertNew_of_get? hk] at hr ⊢
      refine Ends.bind (Ends.lift (entryBytes_eq (h.isWord_of_room hr)) _) ?_
      refine Ends.bind (charge_ends h.peaked hr) ?_
      exact modifyEntries_ends _

theorem insert_ends (h : Sound ⟨m, b⟩) (hr : Room ⟨m, b⟩ (m.insert k v).2) :
    (insert k v).Ends ⟨m, b⟩ (m.get? k) ⟨(m.insert k v).1, b.chargeAll (m.insert k v).2⟩ := by
  classical
  have hnone : (m.erase k).1.get? k = none := by simp [ChargedMap.get?_erase]
  rw [ChargedMap.insert_eq, insertNew_of_get? hnone] at hr ⊢
  obtain ⟨herased, hroom⟩ := (room_append (m.erase_booked k)).mp hr
  have hsound := h.after herased (m.erase_booked k)
  rw [Budget.chargeAll_append]
  refine Ends.bind (Ends.lift (entryBytes_eq (hsound.isWord_of_room hroom)) _) ?_
  refine Ends.bind (erase_ends h herased) ?_
  refine Ends.bind (charge_ends hsound.peaked hroom) ?_
  refine Ends.bind (modifyEntries_ends _) ?_
  exact Ends.pure _ _

/-- A word holds the footprint of a value that takes the place of another. -/
theorem Sound.isWord_of_change (h : Sound ⟨m, b⟩) (hk : m.get? k = some v) {w : α}
    (hr : Room ⟨m, b⟩ [(footprint w - footprint v : Int)]) : IsWord (footprint w) := by
  have hsum := (inWords_cons.mp hr.map).1
  have hle := ChargedMap.entryFootprint_le_bytes hk
  rw [← h.balanced] at hle
  simp only [ChargedMap.entryFootprint, isWord_iff] at hsum hle ⊢
  omega

omit [Footprint κ] in
theorem edit_missing_ends (hk : m.get? k = none) (f : α → α) :
    (edit k f).Ends ⟨m, b⟩ none ⟨m, b⟩ := by
  refine Ends.bind (get?_ends k) ?_
  rw [hk]
  exact Ends.pure _ _

theorem edit_ends (h : Sound ⟨m, b⟩) (hk : m.get? k = some v) (f : α → α)
    (hr : Room ⟨m, b⟩ (m.update k (f v)).2) :
    (edit k f).Ends ⟨m, b⟩ (some (f v))
      ⟨(m.update k (f v)).1, b.chargeAll (m.update k (f v)).2⟩ := by
  simp only [ChargedMap.update, hk, ChargedMap.entryChange] at hr ⊢
  have hgrowth := growth_eq (h.isWord_of_get? hk).2.1 (h.isWord_of_change hk hr)
  refine Ends.bind (get?_ends k) ?_
  rw [hk]
  refine Ends.bind (modifyEntries_ends _) ?_
  refine Ends.bind (Ends.lift hgrowth _) ?_
  refine Ends.bind (charge_ends h.peaked ⟨hr.map, hr.budget⟩) ?_
  exact Ends.pure _ _

theorem getOrInsert_ends (h : Sound ⟨m, b⟩) (f : α → α)
    (hr : Room ⟨m, b⟩ ((m.insertNew k v).2 ++
      ((m.insertNew k v).1.update k (f ((m.get? k).getD v))).2)) :
    (getOrInsert k v f).Ends ⟨m, b⟩ ((m.get? k).isNone, f ((m.get? k).getD v))
      ⟨((m.insertNew k v).1.update k (f ((m.get? k).getD v))).1,
        b.chargeAll ((m.insertNew k v).2 ++
          ((m.insertNew k v).1.update k (f ((m.get? k).getD v))).2)⟩ := by
  classical
  have hmade := m.insertNew_booked k v
  obtain ⟨hnew, hheld⟩ := (room_append hmade).mp hr
  have hk : (m.insertNew k v).1.get? k = some ((m.get? k).getD v) := by
    simp [ChargedMap.get?_insertNew]
  rw [Budget.chargeAll_append]
  refine Ends.bind (get?_ends k) ?_
  refine Ends.bind (insertNew_ends h hnew) ?_
  refine Ends.bind (edit_ends (h.after hnew hmade) hk f hheld) ?_
  exact Ends.pure _ _

/-! ### Visits -/

/-- What a visit leaves of an entry. -/
def kept (visit : κ → α → α × Bool) (k : κ) (v : α) : Option α :=
  if (visit k v).2 then some (visit k v).1 else none

/-- Words hold what is left to visit and what the visits leave of it, and with the change so far
they do as well. -/
structure Visitable (visit : κ → α → α × Bool) (change : Int) (ys : List (κ × α)) : Prop where
  before : IsWord (bytesOf ys)
  after : IsWord (bytesOf (Entries.filterMap (kept visit) ys))
  low : IsWord (change - bytesOf ys)
  high : IsWord (change + bytesOf (Entries.filterMap (kept visit) ys))

namespace Visitable

omit [LT κ] [DecidableLT κ] [StrictKey κ]

variable {visit : κ → α → α × Bool} {change : Int} {ys : List (κ × α)}

theorem bytesOf_filterMap_cons (visit : κ → α → α × Bool) (k : κ) (v : α) (ys : List (κ × α)) :
    bytesOf (Entries.filterMap (kept visit) ((k, v) :: ys)) = entryFootprint k v +
      entryChange k v (kept visit k v) + bytesOf (Entries.filterMap (kept visit) ys) := by
  cases h : kept visit k v with
  | none =>
      simp only [Entries.filterMap, filterMap_cons, h, Option.map_none, entryChange]
      omega
  | some w =>
      simp only [Entries.filterMap, filterMap_cons, h, Option.map_some, bytesOf_cons, entryChange,
        entryFootprint]
      omega

/-- The sums on the way stay between what is left to visit and what the visits leave of it. -/
theorem isWord_change (h : Visitable visit change ys) : IsWord change := by
  have hlow := (isWord_iff.mp h.low).1
  have hhigh := (isWord_iff.mp h.high).2
  have hbefore := bytesOf_nonneg ys
  have hafter := bytesOf_nonneg (Entries.filterMap (kept visit) ys)
  rw [isWord_iff]
  omega

theorem isWord_head (h : Visitable visit change ((k, v) :: ys)) :
    IsWord (footprint k) ∧ IsWord (footprint v) ∧ IsWord (entryFootprint k v) := by
  have hle : entryFootprint k v ≤ bytesOf ((k, v) :: ys) := by
    have hys := bytesOf_nonneg ys
    simp only [bytesOf_cons]
    omega
  exact isWord_of_entryFootprint_le hle h.before

theorem isWord_kept (h : Visitable visit change ((k, v) :: ys)) {w : α}
    (hw : kept visit k v = some w) : IsWord (footprint w) := by
  have hafter := h.after
  have hys := bytesOf_nonneg (Entries.filterMap (kept visit) ys)
  simp only [bytesOf_filterMap_cons, hw, entryChange, entryFootprint, isWord_iff] at hafter ⊢
  omega

theorem tail (h : Visitable visit change ((k, v) :: ys)) :
    Visitable visit (change + entryChange k v (kept visit k v)) ys := by
  obtain ⟨hbefore, hafter, hlow, hhigh⟩ := h
  have hys := bytesOf_nonneg ys
  have hrest := bytesOf_nonneg (Entries.filterMap (kept visit) ys)
  have hentry := entryFootprint_nonneg k v
  have hleft : 0 ≤ entryFootprint k v + entryChange k v (kept visit k v) := by
    cases kept visit k v <;> simp only [entryFootprint, entryChange] <;> omega
  simp only [bytesOf_filterMap_cons, bytesOf_cons, isWord_iff] at hbefore hafter hlow hhigh
  constructor <;> rw [isWord_iff] <;> omega

end Visitable

/-- The entries `xs` have been visited, with a change of `change` bytes, and `ys` are left. -/
theorem retainFrom_ends {visit : κ → α → α × Bool} {change : Int} {xs ys : List (κ × α)}
    {rest : SortedMap κ α} (hm : m.map.entries = xs ++ ys)
    (hrest : rest.entries = xs ++ Entries.filterMap (kept visit) ys)
    (h : Visitable visit change ys) :
    (retainFrom (fun k v => ((visit k v).1, .ok (visit k v).2)) change ys).Ends ⟨m, b⟩
      (change + balance (fun e => entryChange e.1 e.2 (kept visit e.1 e.2)) ys)
      ⟨⟨rest, m.charged⟩, b⟩ := by
  induction ys generalizing change xs m with
  | nil =>
      have hmap : m.map = rest := SortedMap.ext_entries (by rw [hm, hrest]; rfl)
      simp only [balance, Int.add_zero, ← hmap]
      exact Ends.pure _ _
  | cons y ys ih =>
      obtain ⟨k, v⟩ := y
      obtain ⟨hk, hv, hgone⟩ := h.isWord_head
      have hchange := h.tail.isWord_change
      have hedited := SortedMap.entries_insert_between (visit k v).1 hm
      refine Ends.bind (modifyEntries_ends _) ?_
      refine Ends.bind (Ends.lift rfl _) ?_
      cases hkeep : (visit k v).2 with
      | true =>
          have hkept : kept visit k v = some (visit k v).1 := by simp [kept, hkeep]
          have hleft : rest.entries =
              (xs ++ [(k, (visit k v).1)]) ++ Entries.filterMap (kept visit) ys := by
            simpa [Entries.filterMap, hkept] using hrest
          have htail := h.tail
          simp only [balance, hkept, entryChange, ← Int.add_assoc] at hchange htail ⊢
          refine Ends.bind (Ends.lift (growth_eq hv (h.isWord_kept hkept)) _) ?_
          refine Ends.bind (Ends.lift (wordOr_eq .add hchange) _) ?_
          exact ih (by simpa using hedited) hleft htail
      | false =>
          have hkept : kept visit k v = none := by simp [kept, hkeep]
          have hleft : rest.entries = xs ++ Entries.filterMap (kept visit) ys := by
            simpa [Entries.filterMap, hkept] using hrest
          have htail := h.tail
          have hsum : wordOr .add (asWord (footprint k) + asWord (footprint v)) =
              .ok (entryFootprint k v) := by
            rw [asWord_eq hk, asWord_eq hv]
            exact wordOr_eq .add hgone
          simp only [balance, hkept, entryChange, ← Int.add_assoc] at hchange htail ⊢
          refine Ends.bind (Ends.lift hsum _) ?_
          refine Ends.bind (Ends.lift (wordOr_eq .subtract hchange) _) ?_
          refine Ends.bind (modifyEntries_ends _) ?_
          exact ih (SortedMap.entries_erase_between hedited) hleft htail

theorem retain_ends (visit : κ → α → α × Bool) (h : Sound ⟨m, b⟩)
    (hr : Room ⟨m, b⟩ (m.filterMap (kept visit)).2) :
    (retain fun k v => ((visit k v).1, .ok (visit k v).2)).Ends ⟨m, b⟩ ()
      ⟨(m.filterMap (kept visit)).1, b.chargeAll (m.filterMap (kept visit)).2⟩ := by
  have hbooked := m.filterMap_booked (kept visit)
  have hsound := h.after hr hbooked
  have hvisit : Visitable visit 0 m.toList := by
    have hbefore : IsWord m.bytes := h.balanced ▸ h.word
    have hafter : IsWord (m.filterMap (kept visit)).1.bytes := hsound.balanced ▸ hsound.word
    refine ⟨hbefore, hafter, ?_, ?_⟩
    · have hbytes := m.bytes_nonneg
      rw [bytes, isWord_iff] at hbefore
      rw [bytes] at hbytes
      rw [isWord_iff]
      omega
    · rw [Int.zero_add]
      exact hafter
  have hend : (retainFrom (fun k v => ((visit k v).1, .ok (visit k v).2)) 0 m.map.toList).Ends
      ⟨m, b⟩ _ ⟨⟨m.map.filterMap (kept visit), m.charged⟩, b⟩ :=
    retainFrom_ends (nil_append _).symm (nil_append _).symm hvisit
  rw [Int.zero_add] at hend
  refine Ends.bind (x := m.map) rfl ?_
  refine Ends.bind hend ?_
  exact charge_ends h.peaked ⟨hr.map, hr.budget⟩

end Account

end OnceOnly
