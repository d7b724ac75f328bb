import OnceOnly.Issuer
import OnceOnly.Proofs.SortedMap

/-! # The issuer: its least outstanding number never goes down -/

namespace OnceOnly.Issuer

/-- Numbers are counted from zero, and those outstanding have been issued. -/
structure Valid (i : Issuer) : Prop where
  next : 0 ≤ i.next
  outstanding {seq : SeqNo} : i.outstanding.contains seq = true → 0 ≤ seq ∧ seq < i.next

variable {i i' : Issuer} {seq : SeqNo}

theorem start_valid (client : String) : (start client).Valid where
  next := by simp [start]
  outstanding h := by simp [start, SortedMap.contains] at h

theorem Valid.le_firstIncomplete_iff (h : i.Valid) (bound : SeqNo) :
    bound ≤ i.firstIncomplete ↔
      bound ≤ i.next ∧ ∀ seq, i.outstanding.contains seq = true → bound ≤ seq := by
  cases hk : i.outstanding.keys.head? with
  | none =>
      have hempty (seq : SeqNo) : i.outstanding.contains seq = false := by
        rw [← Bool.not_eq_true, ← SortedMap.mem_keys, List.head?_eq_none_iff.mp hk]
        simp
      simp [firstIncomplete, hk, hempty]
  | some least =>
      have hleast : i.outstanding.contains least = true :=
        SortedMap.mem_keys.mp (List.mem_of_mem_head? hk)
      have hnext := (h.outstanding hleast).2
      simp only [firstIncomplete, hk, Option.getD_some]
      constructor
      · intro hb
        refine ⟨by grind, fun seq hs => ?_⟩
        have hl := SortedMap.not_lt_head hk hs
        grind
      · intro hb
        exact hb.2 least hleast

theorem Valid.firstIncomplete_le (h : i.Valid) (hs : i.outstanding.contains seq = true) :
    i.firstIncomplete ≤ seq :=
  ((h.le_firstIncomplete_iff _).mp (Int64.le_refl _)).2 seq hs

theorem Valid.firstIncomplete_nonneg (h : i.Valid) : 0 ≤ i.firstIncomplete :=
  (h.le_firstIncomplete_iff 0).mpr ⟨h.next, fun _ hs => (h.outstanding hs).1⟩

/-! ## Issuing -/

theorem newSeq_ok (hn : i.newSeq = .ok (i', seq)) : seq = i.next ∧ i.next < i'.next ∧
    i'.client = i.client ∧ i'.outstanding = SortedSet.add i.outstanding i.next := by
  unfold newSeq wordOr at hn
  split at hn
  · rename_i hw
    simp only [Except.map, Except.ok.injEq, Prod.mk.injEq] at hn
    obtain ⟨rfl, rfl⟩ := hn
    refine ⟨rfl, ?_, rfl, rfl⟩
    have hmax := hw.2
    rw [Int64.toInt_maxValue] at hmax
    rw [Int64.lt_iff_toInt_lt, Int64.toInt_ofInt_of_le hw.1 (by omega)]
    omega
  · simp [Except.map] at hn

theorem newRequest_ok {id : RequestId} (hn : i.newRequest = .ok (i', id)) :
    i.newSeq = .ok (i', id.seq) ∧ id.client = i'.client ∧
      id.firstIncomplete = i'.firstIncomplete := by
  unfold newRequest at hn
  cases hs : i.newSeq with
  | error overflow => simp [hs, Except.map] at hn
  | ok issued =>
      simp only [hs, Except.map, Except.ok.injEq, Prod.mk.injEq] at hn
      obtain ⟨rfl, rfl⟩ := hn
      exact ⟨rfl, rfl, rfl⟩

theorem Valid.newSeq (h : i.Valid) (hn : i.newSeq = .ok (i', seq)) : i'.Valid := by
  obtain ⟨rfl, hlt, -, ho⟩ := newSeq_ok hn
  have h0 := h.next
  refine ⟨by grind, fun hs => ?_⟩
  rw [ho, SortedSet.contains_add] at hs
  rcases hs with rfl | hs
  · exact ⟨h0, hlt⟩
  · obtain ⟨hs0, hs⟩ := h.outstanding hs
    exact ⟨hs0, by grind⟩

/-- A number that is issued is not below those outstanding. -/
theorem Valid.firstIncomplete_newSeq (h : i.Valid) (hn : i.newSeq = .ok (i', seq)) :
    i'.firstIncomplete = i.firstIncomplete := by
  have hiff (bound : SeqNo) : bound ≤ i'.firstIncomplete ↔ bound ≤ i.firstIncomplete := by
    obtain ⟨-, hlt, -, ho⟩ := newSeq_ok hn
    rw [(h.newSeq hn).le_firstIncomplete_iff, h.le_firstIncomplete_iff, ho]
    simp only [SortedSet.contains_add]
    constructor
    · rintro ⟨-, hb⟩
      exact ⟨hb _ (.inl rfl), fun s hs => hb s (.inr hs)⟩
    · rintro ⟨hb, hs⟩
      refine ⟨by grind, ?_⟩
      rintro s (rfl | hc)
      · exact hb
      · exact hs s hc
  exact Int64.le_antisymm ((hiff _).mp (Int64.le_refl _)) ((hiff _).mpr (Int64.le_refl _))

/-! ## Completing -/

theorem Valid.complete (h : i.Valid) (seq : SeqNo) : (i.complete seq).Valid where
  next := h.next
  outstanding hs := h.outstanding ((SortedSet.contains_erase ..).mp hs).2

theorem Valid.firstIncomplete_le_complete (h : i.Valid) (seq : SeqNo) :
    i.firstIncomplete ≤ (i.complete seq).firstIncomplete := by
  have hi := (h.le_firstIncomplete_iff i.firstIncomplete).mp (Int64.le_refl _)
  refine ((h.complete seq).le_firstIncomplete_iff _).mpr ⟨hi.1, fun s hs => ?_⟩
  exact hi.2 s ((SortedSet.contains_erase ..).mp hs).2

end OnceOnly.Issuer
