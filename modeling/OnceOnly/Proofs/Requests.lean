import OnceOnly.Proofs.Mark

/-! # One client: arrivals, reports and collections -/

namespace OnceOnly.Dedup

open List

variable {χ : Type}

namespace Client

/-! ## Arrivals -/

section Arrive

variable {policy : StalePolicy} {c : Client χ} {id : RequestId} {context : χ} {now : Instant}

/-- All that an arrival can come to. -/
inductive Arrived (c : Client χ) (id : RequestId) (context : χ) (now : Instant) :
    Client χ → List (Reply χ) → Phase → Prop where
  | joined {r r' : Record χ} {replies : List (Reply χ)} {phase : Phase}
      (hr : c.records.get? id.seq = some r)
      (hj : Record.Joined r id.attempt context now r' replies phase) :
      Arrived c id context now { c with records := (c.records.update id.seq r').1 } replies phase
  | refused (hr : c.records.get? id.seq = none) (hs : id.seq < c.staleBefore) :
      Arrived c id context now c
        [⟨context, .failure (staleStatus id.client id.seq c.staleBefore)⟩] .stale
  | started (hr : c.records.get? id.seq = none) (hs : ¬ id.seq < c.staleBefore) :
      Arrived c id context now
        { c with records := (c.records.insert id.seq (.start id.attempt context now)).1 } [] .fresh

theorem arrive_arrived (hc : c.Valid policy) (reachable : χ → Bool) (takeOver : Bool) :
    Arrived c id context now (c.arrive reachable now id context takeOver).1.client
      (c.arrive reachable now id context takeOver).1.replies
      (c.arrive reachable now id context takeOver).2 := by
  cases hr : c.records.get? id.seq with
  | some r =>
      simp only [arrive, hr]
      exact .joined hr (Record.join_joined (hc.placed hr).valid reachable now _ _ takeOver)
  | none =>
      by_cases hs : id.seq < c.staleBefore
      · simp only [arrive, hr, hs, ite_true]
        exact .refused hr hs
      · simp only [arrive, hr, hs, ite_false]
        exact .started hr hs

variable {c' : Client χ} {replies : List (Reply χ)} {phase : Phase}

theorem Arrived.staleBefore_eq (ha : Arrived c id context now c' replies phase) :
    c'.staleBefore = c.staleBefore := by
  cases ha <;> rfl

theorem Arrived.abandoned_eq (ha : Arrived c id context now c' replies phase) :
    c'.abandoned = c.abandoned := by
  cases ha <;> rfl

theorem Arrived.get?_of_ne (ha : Arrived c id context now c' replies phase) {seq : SeqNo}
    (hne : seq ≠ id.seq) : c'.records.get? seq = c.records.get? seq := by
  cases ha with
  | joined => simp [ChargedMap.get?_update, hne]
  | refused => rfl
  | started => simp [ChargedMap.get?_insert, hne]

/-- An arrival is told of a response only from the cache. -/
theorem Arrived.success {context' : χ} {response : Bytes}
    (ha : Arrived c id context now c' replies phase)
    (hr : ⟨context', .success response⟩ ∈ replies) :
    context' = context ∧ ∃ r, c.records.get? id.seq = some r ∧ r.phase = .completed ∧
      r.response = some response := by
  cases ha with
  | @joined r _ _ _ hr' hj =>
      cases hj with
      | replayed _ hp hc =>
          simp only [mem_singleton, Reply.mk.injEq, Answer.success.injEq] at hr
          obtain ⟨rfl, rfl⟩ := hr
          exact ⟨rfl, r, hr', hp, hc⟩
      | _ => simp at hr
  | refused => simp at hr
  | started => simp at hr

/-- An arrival is told of a failure only when it is refused. -/
theorem Arrived.failure {context' : χ} {status : ErrorStatus}
    (ha : Arrived c id context now c' replies phase)
    (hr : ⟨context', .failure status⟩ ∈ replies) : context' = context ∧ phase = .stale := by
  cases ha with
  | joined _ hj => cases hj <;> simp at hr
  | refused =>
      simp only [mem_singleton, Reply.mk.injEq] at hr
      exact ⟨hr.1, rfl⟩
  | started => simp at hr

/-- Only a request below the mark is stale. -/
theorem Arrived.stale (hc : c.Valid policy) (ha : Arrived c id context now c' replies .stale) :
    id.seq < c.staleBefore := by
  cases ha with
  | joined hr hj =>
      cases hj with
      | waitsStale hp => exact ((hc.placed hr).above hp).1
  | refused _ hs => exact hs

private theorem placed_of_joined {r r' : Record χ} (hr : c.Placed policy id.seq r)
    (hj : Record.Joined r id.attempt context now r' replies phase) :
    c.Placed policy id.seq r' := by
  refine ⟨hj.valid hr.valid, ?_, ?_⟩
  · intro hs
    have hb := hr.below hs
    cases hj with
    | replayed => exact hb
    | waitsStale hp => exact .inr hp
    | tookOver hp => simp [hp] at hb
    | waits hp => simp [hp] at hb
    | drives hp => simp [hp] at hb
  · intro hp'
    apply hr.above
    cases hj with
    | replayed => exact hp'
    | waitsStale hp => exact hp
    | tookOver hp => simp [Record.enqueue, hp] at hp'
    | waits hp => simp [Record.enqueue, hp] at hp'
    | drives => simp at hp'

theorem Arrived.valid (ha : Arrived c id context now c' replies phase) (hc : c.Valid policy) :
    c'.Valid policy := by
  refine ⟨ha.staleBefore_eq ▸ hc.mark, ?_, ?_⟩
  · intro seq r' hr'
    by_cases hne : seq = id.seq
    · subst hne
      cases ha with
      | joined hr hj =>
          simp only [ChargedMap.get?_update, ite_true, hr, Option.map_some,
            Option.some.injEq] at hr'
          subst hr'
          have hp := placed_of_joined (hc.placed hr) hj
          exact ⟨hp.valid, hp.below, hp.above⟩
      | refused hr => simp [hr] at hr'
      | started hr hs =>
          simp only [ChargedMap.get?_insert, ite_true, Option.some.injEq] at hr'
          subst hr'
          exact ⟨Record.start_valid _ _ _, fun hlt => absurd hlt hs, by simp [Record.start]⟩
    · rw [ha.get?_of_ne hne] at hr'
      have hp := hc.placed hr'
      exact ⟨hp.valid, ha.staleBefore_eq ▸ hp.below, ha.staleBefore_eq ▸ hp.above⟩
  · intro seq hs
    rw [ha.abandoned_eq] at hs
    obtain ⟨hlt, hr, hpol⟩ := hc.abandoned hs
    refine ⟨ha.staleBefore_eq ▸ hlt, ?_, hpol⟩
    by_cases hne : seq = id.seq
    · subst hne
      cases ha with
      | joined hr' => simp [hr] at hr'
      | refused => exact hr
      | started _ hn => exact absurd hlt hn
    · rw [ha.get?_of_ne hne, hr]

/-- Whoever waited goes on waiting, and whoever comes waits or is answered. -/
theorem Arrived.contexts_perm (ha : Arrived c id context now c' replies phase) :
    c'.contexts ++ replies.map Reply.context ~ c.contexts ++ [context] := by
  cases ha with
  | @joined r r' _ _ hr hj =>
      have hold := (ChargedMap.toList_perm_cons hr).flatMap_right fun e => e.2.contexts
      have hnew := (ChargedMap.toList_update_perm hr r').flatMap_right fun e => e.2.contexts
      simp only [flatMap_cons] at hold hnew
      generalize (c.records.others id.seq).flatMap (fun e => e.2.contexts) = rest at hold hnew
      calc contexts { c with records := (c.records.update id.seq r').1 } ++ replies.map Reply.context
        _ ~ (r'.contexts ++ rest) ++ replies.map Reply.context := hnew.append_right _
        _ ~ (r'.contexts ++ replies.map Reply.context) ++ rest := perm_append_right_comm ..
        _ = (r.contexts ++ [context]) ++ rest := by rw [hj.contexts_eq]
        _ ~ (r.contexts ++ rest) ++ [context] := perm_append_right_comm ..
        _ ~ c.contexts ++ [context] := hold.symm.append_right _
  | refused => exact .refl _
  | started hr =>
      have hold := (c.records.toList_perm id.seq).flatMap_right fun e => e.2.contexts
      have hnew := (ChargedMap.toList_insert_perm hr
        (Record.start id.attempt context now)).flatMap_right fun e => e.2.contexts
      simp only [hr, Option.map_none, Option.toList_none, nil_append, flatMap_cons,
        Record.start_contexts] at hold hnew
      simp only [map_nil, append_nil]
      exact hnew.trans (perm_append_comm.trans (hold.symm.append_right _))

end Arrive

/-! ## Reports -/

section Report

variable {policy : StalePolicy} {c : Client χ} {id : RequestId} {outcome : Outcome χ}

/-- All that a report can come to. -/
inductive Heard (c : Client χ) (id : RequestId) (outcome : Outcome χ) :
    Client χ → List (Reply χ) → Verdict → Prop where
  | missing (hr : c.records.get? id.seq = none) :
      Heard c id outcome { c with abandoned := c.abandoned.erase id.seq } []
        (if id.seq < c.staleBefore then .rejected (.stale id) else .unknownRequest id)
  | alreadyCompleted {r : Record χ} (hr : c.records.get? id.seq = some r)
      (hp : r.phase = .completed) : Heard c id outcome c [] (.rejected (.alreadyCompleted id))
  | notDriver {r : Record χ} (hr : c.records.get? id.seq = some r) (hp : r.phase ≠ .completed)
      (hd : r.driver ≠ id.attempt) :
      Heard c id outcome c [] (.rejected (.notDriver id r.driver))
  | kept {r : Record χ} (hr : c.records.get? id.seq = some r) (hp : r.phase ≠ .completed)
      (hd : r.driver = id.attempt) (hg : (outcome r).2.2 = false) :
      Heard c id outcome { c with records := (c.records.update id.seq (outcome r).1).1 }
        (outcome r).2.1 .accepted
  | erased {r : Record χ} (hr : c.records.get? id.seq = some r) (hp : r.phase ≠ .completed)
      (hd : r.driver = id.attempt) (hg : (outcome r).2.2 = true) :
      Heard c id outcome
        { c with records := ((c.records.update id.seq (outcome r).1).1.erase id.seq).1 }
        (outcome r).2.1 .accepted

theorem report_heard (hc : c.Valid policy) : Heard c id outcome (c.report id outcome).1.client
    (c.report id outcome).1.replies (c.report id outcome).2 := by
  cases hr : c.records.get? id.seq with
  | none =>
      simp only [report, hr]
      exact .missing hr
  | some r =>
      have hrep := reportOn_reported (hc.placed hr).valid id outcome
      simp only [report, hr]
      generalize reportOn r id outcome = result at hrep
      cases hrep with
      | alreadyCompleted hp =>
          simp only [ChargedMap.update_of_get? hr]
          exact .alreadyCompleted hr hp
      | notDriver hp hd =>
          simp only [ChargedMap.update_of_get? hr]
          exact .notDriver hr hp hd
      | accepted hp hd =>
          cases hg : (outcome r).2.2 with
          | false => exact .kept hr hp hd hg
          | true => exact .erased hr hp hd hg

variable {c' : Client χ} {replies : List (Reply χ)} {verdict : Verdict}

theorem Heard.staleBefore_eq (hh : Heard c id outcome c' replies verdict) :
    c'.staleBefore = c.staleBefore := by
  cases hh <;> rfl

theorem Heard.get?_of_ne (hh : Heard c id outcome c' replies verdict) {seq : SeqNo}
    (hne : seq ≠ id.seq) : c'.records.get? seq = c.records.get? seq := by
  cases hh with
  | kept => simp [ChargedMap.get?_update, hne]
  | erased => simp [ChargedMap.get?_erase, ChargedMap.get?_update, hne]
  | _ => rfl

/-- A report can take a request off the list of those given up, and adds none. -/
theorem Heard.abandoned_of (hh : Heard c id outcome c' replies verdict) {seq : SeqNo}
    (ha : c'.abandoned.contains seq = true) : c.abandoned.contains seq = true := by
  cases hh with
  | missing => exact ((SortedSet.contains_erase _ _ _).mp ha).2
  | _ => exact ha

theorem Heard.abandoned_of_ne (hh : Heard c id outcome c' replies verdict) {seq : SeqNo}
    (hne : seq ≠ id.seq) (ha : c.abandoned.contains seq = true) :
    c'.abandoned.contains seq = true := by
  cases hh with
  | missing => exact (SortedSet.contains_erase _ _ _).mpr ⟨hne, ha⟩
  | _ => exact ha

/-- Only an accepted report is passed on. -/
theorem Heard.mem_replies {reply : Reply χ} (hh : Heard c id outcome c' replies verdict)
    (hm : reply ∈ replies) : verdict = .accepted ∧ ∃ r, c.records.get? id.seq = some r ∧
      r.driver = id.attempt ∧ reply ∈ (outcome r).2.1 := by
  cases hh with
  | kept hr _ hd => exact ⟨rfl, _, hr, hd, hm⟩
  | erased hr _ hd => exact ⟨rfl, _, hr, hd, hm⟩
  | _ => simp at hm

private theorem placed_of_outcome (ho : outcome.Lawful id.attempt) {r : Record χ}
    (hr : c.Placed policy id.seq r) (hp : r.phase ≠ .completed) (hd : r.driver = id.attempt)
    (hg : (outcome r).2.2 = false) : c.Placed policy id.seq (outcome r).1 := by
  refine ⟨ho.valid hr.valid hp hd hg, ?_, ?_⟩
  · intro hs
    have hb := (hr.below hs).resolve_left hp
    exact .inl ((ho.phase hg).resolve_right fun h => h.1 hb)
  · intro hs
    rcases ho.phase hg with hph | ⟨-, hph⟩ <;> simp [hph] at hs

theorem Heard.valid (hh : Heard c id outcome c' replies verdict) (hc : c.Valid policy)
    (ho : outcome.Lawful id.attempt) : c'.Valid policy := by
  refine ⟨hh.staleBefore_eq ▸ hc.mark, ?_, ?_⟩
  · intro seq r' hr'
    suffices hp : c.Placed policy seq r' from
      ⟨hp.valid, hh.staleBefore_eq ▸ hp.below, hh.staleBefore_eq ▸ hp.above⟩
    by_cases hne : seq = id.seq
    · subst hne
      cases hh with
      | missing hr => simp [hr] at hr'
      | alreadyCompleted => exact hc.placed hr'
      | notDriver => exact hc.placed hr'
      | kept hr hp hd hg =>
          simp only [ChargedMap.get?_update, ite_true, hr, Option.map_some,
            Option.some.injEq] at hr'
          exact hr' ▸ placed_of_outcome ho (hc.placed hr) hp hd hg
      | erased => simp [ChargedMap.get?_erase] at hr'
    · rw [hh.get?_of_ne hne] at hr'
      exact hc.placed hr'
  · intro seq ha
    obtain ⟨hlt, hr, hpol⟩ := hc.abandoned (hh.abandoned_of ha)
    refine ⟨hh.staleBefore_eq ▸ hlt, ?_, hpol⟩
    by_cases hne : seq = id.seq
    · subst hne
      cases hh with
      | missing => exact hr
      | alreadyCompleted => exact hr
      | notDriver => exact hr
      | kept hr' => simp [hr] at hr'
      | erased hr' => simp [hr] at hr'
    · rw [hh.get?_of_ne hne, hr]

/-- Whoever waits is answered or goes on waiting, also when the record goes. -/
theorem Heard.contexts_perm (hh : Heard c id outcome c' replies verdict)
    (ho : outcome.Lawful id.attempt) : c'.contexts ++ replies.map Reply.context ~ c.contexts := by
  have hrec {r : Record χ} (hr : c.records.get? id.seq = some r) (hd : r.driver = id.attempt)
      (hnew : c'.contexts ~ (outcome r).1.contexts ++
        (c.records.others id.seq).flatMap fun e => e.2.contexts) :
      c'.contexts ++ (outcome r).2.1.map Reply.context ~ c.contexts := by
    have hold := (ChargedMap.toList_perm_cons hr).flatMap_right fun e => e.2.contexts
    rw [flatMap_cons] at hold
    generalize (c.records.others id.seq).flatMap (fun e => e.2.contexts) = rest at hold hnew
    calc c'.contexts ++ (outcome r).2.1.map Reply.context
      _ ~ ((outcome r).1.contexts ++ rest) ++ (outcome r).2.1.map Reply.context :=
          hnew.append_right _
      _ ~ ((outcome r).1.contexts ++ (outcome r).2.1.map Reply.context) ++ rest :=
          perm_append_right_comm ..
      _ ~ r.contexts ++ rest := (ho.contexts hd).append_right _
      _ ~ c.contexts := hold.symm
  cases hh with
  | missing => simp [contexts]
  | alreadyCompleted => simp
  | notDriver => simp
  | @kept r hr hp hd hg =>
      refine hrec hr hd ?_
      exact (ChargedMap.toList_update_perm hr (outcome r).1).flatMap_right fun e => e.2.contexts
  | @erased r hr hp hd hg =>
      refine hrec hr hd ?_
      have hnone : (outcome r).1.contexts = [] := by simp [Record.contexts, ho.goes hg]
      rw [hnone, nil_append]
      have hu := ChargedMap.toList_update_perm hr (outcome r).1
      have he := (c.records.update id.seq (outcome r).1).1.toList_erase_perm id.seq
      have hk : (c.records.update id.seq (outcome r).1).1.get? id.seq = some (outcome r).1 := by
        simp [ChargedMap.get?_update, hr]
      have hothers := ((ChargedMap.toList_perm_cons hk).symm.trans hu).cons_inv
      exact (he.trans hothers).flatMap_right fun e => e.2.contexts

end Report

/-! ## Collections -/

section Sweep

variable {policy : StalePolicy} {c : Client χ} {now : Instant} {name : String} {idle : Bool}
  {force : Candidate → Bool}

theorem sweep_get? (seq : SeqNo) : (c.sweep now name idle force).rest.records.get? seq =
    c.records.get? seq >>= fun r =>
      if c.isEvicted now name idle force seq r then none else some r :=
  ChargedMap.get?_filterMap _ _ _

theorem sweep_get?_some {seq : SeqNo} {r : Record χ} :
    (c.sweep now name idle force).rest.records.get? seq = some r ↔
      c.records.get? seq = some r ∧ ¬ c.isEvicted now name idle force seq r := by
  rw [sweep_get?]
  cases h : c.records.get? seq with
  | none => simp
  | some r' => simp; grind

@[simp] theorem sweep_abandoned :
    (c.sweep now name idle force).rest.abandoned = c.abandoned := rfl

theorem Valid.sweep (hc : c.Valid policy) :
    (c.sweep now name idle force).rest.Valid policy where
  mark := hc.mark
  placed h := by
    have hp := hc.placed (sweep_get?_some.mp h).1
    exact ⟨hp.valid, hp.below, hp.above⟩
  abandoned h := by
    obtain ⟨hs, hr, hpol⟩ := hc.abandoned h
    exact ⟨hs, by simp [sweep_get?, hr], hpol⟩

/-- Nobody waits in a record that is collected. -/
theorem Valid.sweep_contexts (hc : c.Valid policy) :
    (c.sweep now name idle force).rest.contexts = c.contexts := by
  refine ChargedMap.flatMap_filterMap fun e he => ?_
  split
  · rename_i hev
    simp only [isEvicted, Bool.and_eq_true, beq_iff_eq] at hev
    have hv := (hc.placed (ChargedMap.mem_toList_iff.mp he)).valid
    simp [Record.contexts, hv.answered hev.1]
  · rfl

end Sweep

end Client

end OnceOnly.Dedup
