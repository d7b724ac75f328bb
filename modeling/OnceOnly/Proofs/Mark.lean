import OnceOnly.Dedup.Sweep
import OnceOnly.Proofs.Record
import OnceOnly.Proofs.SortedMap

/-! # One client: what its low-water mark says, and what becomes of its records when the mark moves -/

namespace OnceOnly.Dedup

open List

variable {χ : Type}

theorem perm_append_right_comm (xs ys zs : List χ) : xs ++ ys ++ zs ~ xs ++ zs ++ ys := by
  simpa using perm_append_comm.append_left xs

theorem eq_singleton_of_mem {xs : List χ} {x : χ} (hlength : xs.length ≤ 1)
    (hx : x ∈ xs) : xs = [x] := by
  obtain ⟨y, rfl⟩ := length_eq_one_iff.mp (Nat.le_antisymm hlength (length_pos_of_mem hx))
  rw [mem_singleton.mp hx]

namespace Client

/-- What the mark says of a record. Below it a record is completed or goes on without retries, and
when the policy is to abandon early nothing goes on below it. -/
structure Placed (policy : StalePolicy) (c : Client χ) (seq : SeqNo) (r : Record χ) : Prop where
  valid : r.Valid
  below : seq < c.staleBefore → r.phase = .completed ∨ r.phase = .stale
  above : r.phase = .stale → seq < c.staleBefore ∧ policy = .alwaysComplete

structure Valid (policy : StalePolicy) (c : Client χ) : Prop where
  mark : 0 ≤ c.staleBefore
  placed {seq : SeqNo} {r : Record χ} : c.records.get? seq = some r → c.Placed policy seq r
  abandoned {seq : SeqNo} : c.abandoned.contains seq = true →
    seq < c.staleBefore ∧ c.records.get? seq = none ∧ policy = .abandonEarly

/-- The contexts that wait for one client's requests. -/
def contexts (c : Client χ) : List χ := c.records.toList.flatMap fun e => e.2.contexts

theorem start_valid (policy : StalePolicy) (now : Instant) :
    (start now : Client χ).Valid policy where
  mark := by simp [start]
  placed h := by simp [start] at h
  abandoned h := by simp [start, SortedMap.contains] at h

@[simp] theorem start_contexts (now : Instant) : (start now : Client χ).contexts = [] := rfl

/-! ## A new mark -/

section Advance

variable (name : String) (policy : StalePolicy) (c : Client χ) (mark : SeqNo)

theorem advance_of_le (h : mark ≤ c.staleBefore) : c.advance name policy mark = ⟨c, [], []⟩ := by
  simp [advance, h]

theorem advance_staleBefore : (c.advance name policy mark).client.staleBefore =
    if mark ≤ c.staleBefore then c.staleBefore else mark := by
  unfold advance
  split <;> rfl

theorem staleBefore_le_advance :
    c.staleBefore ≤ (c.advance name policy mark).client.staleBefore := by
  rw [advance_staleBefore]
  grind

theorem advance_get? (h : ¬ mark ≤ c.staleBefore) (seq : SeqNo) :
    (c.advance name policy mark).client.records.get? seq =
      c.records.get? seq >>= fun r =>
        if isReleased policy mark seq r then none else some (settled mark seq r) := by
  simp only [advance, h, ite_false]
  exact ChargedMap.get?_filterMap _ _ _

theorem advance_abandoned (h : ¬ mark ≤ c.staleBefore) (seq : SeqNo) :
    (c.advance name policy mark).client.abandoned.contains seq = true ↔
      (∃ r, c.records.get? seq = some r ∧ isAbandoned policy mark seq r) ∨
        c.abandoned.contains seq = true := by
  simp only [advance, h, ite_false, SortedSet.contains_addAll, List.mem_filter, Prod.exists]
  constructor
  · rintro (⟨s, r, ⟨hm, ha⟩, rfl⟩ | hs)
    · exact .inl ⟨r, ChargedMap.mem_toList_iff.mp hm, ha⟩
    · exact .inr hs
  · rintro (⟨r, hr, ha⟩ | hs)
    · exact .inl ⟨seq, r, ⟨ChargedMap.mem_toList_iff.mpr hr, ha⟩, rfl⟩
    · exact .inr hs

/-- What becomes of a record when the mark moves. -/
inductive Settled (policy : StalePolicy) (c' : Client χ) (seq : SeqNo) (r : Record χ) : Prop where
  | kept (hr : c'.records.get? seq = some r)
  | stale (hp : r.phase = .inProgress) (hs : seq < c'.staleBefore)
      (hr : c'.records.get? seq = some { r with phase := .stale })
  | released (hp : r.phase = .fresh) (hs : seq < c'.staleBefore) (hr : c'.records.get? seq = none)
  | abandoned (hp : r.phase = .inProgress) (hs : seq < c'.staleBefore)
      (hr : c'.records.get? seq = none) (ha : c'.abandoned.contains seq = true)

variable {name policy c mark} {seq : SeqNo} {r : Record χ}

theorem advance_settled (hr : c.records.get? seq = some r) :
    Settled policy (c.advance name policy mark).client seq r := by
  by_cases h : mark ≤ c.staleBefore
  · rw [advance_of_le name policy c mark h]
    exact .kept hr
  have hg := advance_get? name policy c mark h seq
  have hm : (c.advance name policy mark).client.staleBefore = mark := by
    simp [advance_staleBefore, h]
  by_cases hs : seq < mark
  · have hs' : seq < (c.advance name policy mark).client.staleBefore := by rw [hm]; exact hs
    cases hp : r.phase with
    | completed => exact .kept (by simp [hg, hr, isReleased, settled, hp])
    | stale => exact .kept (by simp [hg, hr, isReleased, settled, hp])
    | fresh => exact .released hp hs' (by simp [hg, hr, isReleased, hs, hp])
    | inProgress =>
        cases policy with
        | alwaysComplete =>
            exact .stale hp hs' (by simp [hg, hr, isReleased, settled, hs, hp])
        | abandonEarly =>
            refine .abandoned hp hs' (by simp [hg, hr, isReleased, hs, hp]) ?_
            refine (advance_abandoned name _ c mark h seq).mpr (.inl ⟨r, hr, ?_⟩)
            simp [isAbandoned, hs, hp]
  · exact .kept (by simp [hg, hr, isReleased, settled, hs])

theorem advance_get?_none (hr : c.records.get? seq = none) :
    (c.advance name policy mark).client.records.get? seq = none := by
  by_cases h : mark ≤ c.staleBefore
  · rw [advance_of_le name policy c mark h]
    exact hr
  · simp [advance_get? name policy c mark h, hr]

/-- A record that is there after the mark has moved was there before. -/
theorem advance_get?_some {r' : Record χ}
    (hr' : (c.advance name policy mark).client.records.get? seq = some r') :
    c.records.get? seq = some r' ∨
      ∃ r, c.records.get? seq = some r ∧ r.phase = .inProgress ∧ r' = { r with phase := .stale } ∧
        seq < (c.advance name policy mark).client.staleBefore := by
  cases hr : c.records.get? seq with
  | none => simp [advance_get?_none hr] at hr'
  | some r =>
      have hset : Settled policy (c.advance name policy mark).client seq r := advance_settled hr
      cases hset with
      | kept hk => exact .inl (hk.symm.trans hr')
      | stale hp hs hk =>
          exact .inr ⟨r, rfl, hp, (Option.some.inj (hk.symm.trans hr')).symm, hs⟩
      | released _ _ hk => simp [hk] at hr'
      | abandoned _ _ hk => simp [hk] at hr'

theorem abandoned_advance (ha : c.abandoned.contains seq = true) :
    (c.advance name policy mark).client.abandoned.contains seq = true := by
  by_cases h : mark ≤ c.staleBefore
  · rw [advance_of_le name policy c mark h]
    exact ha
  · exact (advance_abandoned name policy c mark h seq).mpr (.inr ha)

/-- Below the new mark a record is released, settled or was settled before. -/
private theorem settled_placed (h : ¬ mark ≤ c.staleBefore) (hr : c.Placed policy seq r)
    (hn : ¬ isReleased policy mark seq r) :
    (settled mark seq r).Valid ∧
      (seq < mark → (settled mark seq r).phase = .completed ∨ (settled mark seq r).phase = .stale) ∧
      ((settled mark seq r).phase = .stale → seq < mark ∧ policy = .alwaysComplete) := by
  have hmark : seq < c.staleBefore → seq < mark := by grind
  by_cases hs : seq < mark
  · cases hp : r.phase with
    | fresh => simp [isReleased, hs, hp] at hn
    | completed => simp [settled, hp, hr.valid]
    | stale =>
        have ha := (hr.above hp).2
        simp [settled, hp, hr.valid, hs, ha]
    | inProgress =>
        have hpol : policy = .alwaysComplete := by
          cases policy with
          | alwaysComplete => rfl
          | abandonEarly => simp [isReleased, hs, hp] at hn
        have hresp : r.response = none := by
          simpa [hp] using hr.valid.cached
        obtain ⟨w, hw, hd⟩ := hr.valid.driven (.inl hp)
        simp only [settled, hs, hp, and_self, ite_true, hpol]
        refine ⟨?_, by simp⟩
        constructor <;> simp [hresp]
        exact ⟨w, hw, hd⟩
  · have hstale : r.phase ≠ .stale := fun hp => hs (hmark (hr.above hp).1)
    simp [settled, hs, hr.valid, hstale]

theorem Valid.advance (hc : c.Valid policy) :
    (c.advance name policy mark).client.Valid policy := by
  by_cases h : mark ≤ c.staleBefore
  · rw [advance_of_le name policy c mark h]
    exact hc
  have hm : (c.advance name policy mark).client.staleBefore = mark := by
    simp [advance_staleBefore, h]
  have hlt : c.staleBefore < mark := by grind
  have h0 := hc.mark
  constructor
  · rw [hm]
    grind
  · intro seq r' hr'
    rw [advance_get? name policy c mark h] at hr'
    simp only [Option.bind_eq_bind, Option.bind_eq_some_iff] at hr'
    obtain ⟨r, hr, hn⟩ := hr'
    split at hn
    · simp at hn
    · rename_i hrel
      obtain rfl := Option.some.inj hn
      obtain ⟨hv, hb, ha⟩ := settled_placed h (hc.placed hr) hrel
      exact ⟨hv, by rw [hm]; exact hb, by rw [hm]; exact ha⟩
  · intro seq ha
    rw [advance_abandoned name policy c mark h] at ha
    rcases ha with ⟨r, hr, ha⟩ | ha
    · simp only [isAbandoned, Bool.and_eq_true, decide_eq_true_eq, beq_iff_eq] at ha
      obtain ⟨⟨hs, hp⟩, hpol⟩ := ha
      refine ⟨by rw [hm]; exact hs, ?_, hpol⟩
      rw [advance_get? name policy c mark h, hr]
      simp [isReleased, hs, hp, hpol]
    · obtain ⟨hs, hr, hpol⟩ := hc.abandoned ha
      exact ⟨by rw [hm]; grind, advance_get?_none hr, hpol⟩

/-- Those whom a new mark answers waited below it, and are told so. -/
theorem mem_advance_replies {reply : Reply χ}
    (hr : reply ∈ (c.advance name policy mark).replies) :
    ∃ seq r w, c.records.get? seq = some r ∧ w ∈ r.waiting ∧ seq < mark ∧
      reply = ⟨w.context, .failure (staleStatus name seq mark)⟩ := by
  by_cases h : mark ≤ c.staleBefore
  · simp [advance_of_le name policy c mark h] at hr
  · simp only [advance, h, ite_false, mem_flatMap, mem_filter, Record.repliesTo, mem_map] at hr
    obtain ⟨⟨seq, r⟩, ⟨hm, hrel⟩, w, hw, rfl⟩ := hr
    simp only [isReleased, Bool.and_eq_true, decide_eq_true_eq] at hrel
    exact ⟨seq, r, w, ChargedMap.mem_toList_iff.mp hm, hw, hrel.1, rfl⟩

private theorem flatMap_released (policy : StalePolicy) (mark : SeqNo)
    (xs : List (SeqNo × Record χ)) :
    (xs.filterMap fun e => ((if isReleased policy mark e.1 e.2 then none
        else some (settled mark e.1 e.2)).map (e.1, ·))).flatMap (fun e => e.2.contexts) ++
      (xs.filter fun e => isReleased policy mark e.1 e.2).flatMap (fun e => e.2.contexts) ~
      xs.flatMap fun e => e.2.contexts := by
  have hset (e : SeqNo × Record χ) : (settled mark e.1 e.2).contexts = e.2.contexts := by
    unfold settled
    split <;> rfl
  induction xs with
  | nil => simp
  | cons e xs ih =>
      by_cases hrel : isReleased policy mark e.1 e.2 = true
      · simp only [filterMap_cons, filter_cons, hrel, ite_true, Option.map_none, flatMap_cons]
        exact (perm_append_comm_assoc _ _ _).trans (ih.append_left _)
      · simp only [filterMap_cons, filter_cons, hrel, ite_false, Option.map_some, flatMap_cons,
          hset, Bool.false_eq_true, append_assoc]
        exact ih.append_left _

/-- Whoever waits in a record that is released is answered; all others go on waiting. -/
theorem advance_contexts :
    (c.advance name policy mark).client.contexts ++
      (c.advance name policy mark).replies.map Reply.context ~ c.contexts := by
  by_cases h : mark ≤ c.staleBefore
  · simp [advance_of_le name policy c mark h]
  · have hp := flatMap_released policy mark c.records.toList
    simpa [advance, h, contexts, List.map_flatMap, Record.repliesTo_contexts, Record.contexts]
      using hp

end Advance

end Client

end OnceOnly.Dedup
