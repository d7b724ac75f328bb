import OnceOnly.Dedup.Basic

/-! # One record: what an arrival and a report make of it -/

namespace OnceOnly.Dedup

variable {χ : Type}

/-- Phase, cached response, queue and driver agree. -/
structure Record.Valid (r : Record χ) : Prop where
  cached : r.phase = .completed ↔ r.response.isSome
  answered : r.phase = .completed → r.waiting = []
  emptied : r.phase = .completed → r.capacity = 0
  driven : r.phase = .inProgress ∨ r.phase = .stale → ∃ w ∈ r.waiting, w.attempt = r.driver
  free : r.phase = .fresh → r.driver = noSeqNo ∧ r.waiting ≠ []

namespace Record

/-- The contexts that wait, in order. -/
def contexts (r : Record χ) : List χ := r.waiting.map Waiter.context

theorem Valid.cached_response {r : Record χ} (h : r.Valid) (hp : r.phase = .completed) :
    ∃ response, r.response = some response :=
  Option.isSome_iff_exists.mp (h.cached.mp hp)

theorem start_valid (attempt : AttemptNo) (context : χ) (now : Instant) :
    (start attempt context now).Valid := by
  constructor <;> simp [start]

@[simp] theorem start_contexts (attempt : AttemptNo) (context : χ) (now : Instant) :
    (start attempt context now).contexts = [context] := rfl

/-! ## Arrivals -/

/-- All that an arrival can come to. -/
inductive Joined (r : Record χ) (attempt : AttemptNo) (context : χ) (now : Instant) :
    Record χ → List (Reply χ) → Phase → Prop where
  | replayed (response : Bytes) (hp : r.phase = .completed) (hr : r.response = some response) :
      Joined r attempt context now r [⟨context, .success response⟩] .completed
  | tookOver (hp : r.phase = .inProgress) (hd : r.driver < attempt) :
      Joined r attempt context now { r.enqueue context attempt now with driver := attempt } [] .fresh
  | waits (hp : r.phase = .inProgress) :
      Joined r attempt context now (r.enqueue context attempt now) [] .inProgress
  | drives (hp : r.phase = .fresh) :
      Joined r attempt context now
        { r.enqueue context attempt now with phase := .inProgress, driver := attempt } [] .fresh
  | waitsStale (hp : r.phase = .stale) :
      Joined r attempt context now (r.enqueue context attempt now) [] .stale

theorem join_joined {r : Record χ} (h : r.Valid) (reachable : χ → Bool) (now : Instant)
    (attempt : AttemptNo) (context : χ) (takeOver : Bool) :
    Joined r attempt context now (r.join reachable now attempt context takeOver).1
      (r.join reachable now attempt context takeOver).2.1
      (r.join reachable now attempt context takeOver).2.2 := by
  cases hp : r.phase with
  | completed =>
      obtain ⟨response, hr⟩ := h.cached_response hp
      simp only [join, hp, hr]
      exact .replayed response hp hr
  | inProgress =>
      simp only [join, hp]
      split
      · rename_i hc
        simp only [Bool.and_eq_true, decide_eq_true_eq] at hc
        exact .tookOver hp hc.1.2
      · exact .waits hp
  | fresh =>
      simp only [join, hp]
      exact .drives hp
  | stale =>
      simp only [join, hp]
      exact .waitsStale hp

section Joined

variable {r r' : Record χ} {attempt : AttemptNo} {context : χ} {now : Instant}
  {replies : List (Reply χ)} {phase : Phase}

theorem Joined.valid (hj : Joined r attempt context now r' replies phase) (h : r.Valid) :
    r'.Valid := by
  have hnone : r.phase ≠ .completed → r.response = none := fun hp => by
    simpa using fun hs => hp (h.cached.mpr hs)
  cases hj with
  | replayed => exact h
  | tookOver hp =>
      have hn := hnone (by simp [hp])
      constructor <;> simp [enqueue, hp, hn]
  | waits hp =>
      have hn := hnone (by simp [hp])
      obtain ⟨w, hw, hd⟩ := h.driven (.inl hp)
      constructor <;> simp [enqueue, hp, hn]
      exact .inl ⟨w, hw, hd⟩
  | drives hp =>
      have hn := hnone (by simp [hp])
      constructor <;> simp [enqueue, hn]
  | waitsStale hp =>
      have hn := hnone (by simp [hp])
      obtain ⟨w, hw, hd⟩ := h.driven (.inr hp)
      constructor <;> simp [enqueue, hp, hn]
      exact .inl ⟨w, hw, hd⟩

/-- Nobody leaves the queue, and whoever comes joins it or is answered. -/
theorem Joined.contexts_eq (hj : Joined r attempt context now r' replies phase) :
    r'.contexts ++ replies.map Reply.context = r.contexts ++ [context] := by
  cases hj <;> simp [contexts, enqueue]

theorem Joined.waiting_mem (hj : Joined r attempt context now r' replies phase)
    {w : Waiter χ} (hw : w ∈ r'.waiting) : w ∈ r.waiting ∨ w = ⟨context, attempt⟩ := by
  cases hj with
  | replayed => exact .inl hw
  | _ => simpa [enqueue] using hw

/-- A completed record is left as it is, and none is completed by an arrival. -/
theorem Joined.completed (hj : Joined r attempt context now r' replies phase)
    (hp : r.phase = .completed ∨ r'.phase = .completed) : r.phase = .completed ∧ r' = r := by
  cases hj with
  | replayed _ hc => exact ⟨hc, rfl⟩
  | _ => simp_all [enqueue]

end Joined

/-! ## Reports -/

theorem handled_perm (r : Record χ) (attempt : AttemptNo) :
    ((r.dropHandled attempt).waiting ++ r.handled attempt).Perm r.waiting :=
  List.perm_append_comm.trans (List.filter_append_perm (r.answers attempt) r.waiting)

theorem repliesTo_contexts (ws : List (Waiter χ)) (answer : Answer) :
    (repliesTo ws answer).map Reply.context = ws.map Waiter.context := by
  simp [repliesTo]

/-- Once the record is completed, its driver answers all who wait. -/
theorem complete_eq {r : Record χ} {attempt : AttemptNo} (hd : r.driver = attempt) (now : Instant)
    (response : Bytes) : r.complete now attempt response =
      ({ r with
          phase := .completed, response := some response, updated := now, waiting := [],
          capacity := 0 },
        repliesTo r.waiting (.success response)) := by
  have ha : answers { r with phase := .completed, response := some response, updated := now }
      attempt = fun _ => true := by
    funext w
    simp [answers, hd]
  have hk : r.waiting.filter (fun _ => false) = [] := List.filter_eq_nil_iff.mpr (by simp)
  have hh : r.waiting.filter (fun _ => true) = r.waiting := List.filter_eq_self.mpr (by simp)
  simp only [complete, dropHandled, handled, ha, Bool.not_true, hk, hh]
  rfl

/-- A failed record goes when nobody waits any more, or when it was stale. -/
theorem fail_eq (r : Record χ) (now : Instant) (attempt : AttemptNo) (status : ErrorStatus) :
    (r.phase = .stale ∧
      r.fail now attempt status = (r.drained, repliesTo r.waiting (.failure status), true)) ∨
    (r.phase ≠ .stale ∧ r.fail now attempt status =
      ({ r.dropHandled attempt with phase := .fresh, driver := noSeqNo, updated := now },
        repliesTo (r.handled attempt) (.failure status),
        (r.dropHandled attempt).waiting.isEmpty)) := by
  by_cases hp : r.phase = .stale
  · exact .inl ⟨hp, by simp [fail, hp]⟩
  · exact .inr ⟨hp, by simp [fail, hp]⟩

end Record

/-- What the reports of an attempt may do to the record that it drives: all entries stay or are
answered, none stays in a record that goes, and a record that does not go is in order. -/
structure Outcome.Lawful (outcome : Outcome χ) (attempt : AttemptNo) : Prop where
  contexts {r : Record χ} : r.driver = attempt →
    ((outcome r).1.contexts ++ (outcome r).2.1.map Reply.context).Perm r.contexts
  subset {r : Record χ} : r.driver = attempt → (outcome r).1.waiting ⊆ r.waiting
  goes {r : Record χ} : (outcome r).2.2 = true → (outcome r).1.waiting = []
  valid {r : Record χ} : r.Valid → r.phase ≠ .completed → r.driver = attempt →
    (outcome r).2.2 = false → (outcome r).1.Valid
  phase {r : Record χ} : (outcome r).2.2 = false →
    (outcome r).1.phase = .completed ∨ (r.phase ≠ .stale ∧ (outcome r).1.phase = .fresh)

theorem completion_lawful (now : Instant) (id : RequestId) (response : Bytes) :
    Outcome.Lawful (completion now id response : Outcome χ) id.attempt where
  contexts hd := by
    simp [completion, Record.complete_eq hd, Record.contexts, Record.repliesTo_contexts]
  subset hd := by simp [completion, Record.complete_eq hd]
  goes h := by simp [completion] at h
  valid _ _ hd _ := by
    simp only [completion, Record.complete_eq hd]
    constructor <;> simp
  phase _ := .inl rfl

/-- A failed record that stays is free for the next attempt. -/
theorem failure_kept {now : Instant} {id : RequestId} {status : ErrorStatus} {r : Record χ}
    (hg : (failure now id status r).2.2 = false) :
    r.phase ≠ .stale ∧ (failure now id status r).1.phase = .fresh := by
  rcases r.fail_eq now id.attempt status with ⟨-, he⟩ | ⟨hp, he⟩
  · simp [failure, he] at hg
  · exact ⟨hp, by simp [failure, he]⟩

theorem failure_lawful (now : Instant) (id : RequestId) (status : ErrorStatus) :
    Outcome.Lawful (failure now id status : Outcome χ) id.attempt where
  contexts {r} _ := by
    rcases r.fail_eq now id.attempt status with ⟨-, he⟩ | ⟨-, he⟩
    · simp [failure, he, Record.contexts, Record.drained, Record.repliesTo_contexts]
    · simp only [failure, he, Record.contexts, Record.repliesTo_contexts, ← List.map_append]
      exact (r.handled_perm id.attempt).map _
  subset {r} _ := by
    rcases r.fail_eq now id.attempt status with ⟨-, he⟩ | ⟨-, he⟩
    · simp [failure, he, Record.drained]
    · simp only [failure, he, Record.dropHandled]
      exact fun w hw => (List.mem_filter.mp hw).1
  goes {r} h := by
    rcases r.fail_eq now id.attempt status with ⟨-, he⟩ | ⟨-, he⟩
    · simp [failure, he, Record.drained]
    · simpa [failure, he] using h
  valid {r} h hp _ hg := by
    rcases r.fail_eq now id.attempt status with ⟨-, he⟩ | ⟨-, he⟩
    · simp [failure, he] at hg
    · have hn : r.response = none := by simpa using fun hs => hp (h.cached.mpr hs)
      simp only [failure, he, List.isEmpty_eq_false_iff] at hg ⊢
      constructor <;> simp [hg]
      simpa [Record.dropHandled] using hn
  phase hg := .inr (failure_kept hg)

/-- All that a report can come to on a record. -/
inductive Reported (r : Record χ) (id : RequestId) (outcome : Outcome χ) :
    Record χ × List (Reply χ) × Bool × Verdict → Prop where
  | alreadyCompleted (hp : r.phase = .completed) :
      Reported r id outcome (r, [], false, .rejected (.alreadyCompleted id))
  | notDriver (hp : r.phase ≠ .completed) (hd : r.driver ≠ id.attempt) :
      Reported r id outcome (r, [], false, .rejected (.notDriver id r.driver))
  | accepted (hp : r.phase ≠ .completed) (hd : r.driver = id.attempt) :
      Reported r id outcome
        ((outcome r).1, (outcome r).2.1, (outcome r).2.2, .accepted)

theorem reportOn_reported {r : Record χ} (h : r.Valid) (id : RequestId) (outcome : Outcome χ) :
    Reported r id outcome (reportOn r id outcome) := by
  by_cases hp : r.phase = .completed
  · obtain ⟨cached, hr⟩ := h.cached_response hp
    have hw := h.answered hp
    have hc := h.emptied hp
    have he : reportOn r id outcome = (r, [], false, .rejected (.alreadyCompleted id)) := by
      cases r
      simp_all [reportOn, Record.dropHandled, Record.handled, Record.repliesTo, regrown]
    exact he ▸ .alreadyCompleted hp
  · by_cases hd : r.driver = id.attempt
    · have he : reportOn r id outcome =
          ((outcome r).1, (outcome r).2.1, (outcome r).2.2, .accepted) := by
        simp [reportOn, hp, hd]
      exact he ▸ .accepted hp hd
    · have he : reportOn r id outcome = (r, [], false, .rejected (.notDriver id r.driver)) := by
        simp [reportOn, hp, hd]
      exact he ▸ .notDriver hp hd

end OnceOnly.Dedup
