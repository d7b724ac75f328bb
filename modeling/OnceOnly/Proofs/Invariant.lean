import OnceOnly.Proofs.Run

/-! # The invariant of all runs: marks, records and requests that were given up agree -/

namespace OnceOnly.Dedup

open List

variable {χ : Type} {client : String} {marks : List SeqNo}

/-! ## The mark of a client is the greatest that was brought -/

/-- The mark that an operation brings for a client. -/
def Op.mark? (client : String) (op : Op χ) : Option SeqNo :=
  match op.tracked? with
  | some (id, _) => if id.client = client then some id.firstIncomplete else none
  | none => none

theorem Op.mark?_eq_some {op : Op χ} {mark : SeqNo} (h : op.mark? client = some mark) :
    ∃ id context, op.tracked? = some (id, context) ∧ id.client = client ∧
      id.firstIncomplete = mark := by
  unfold mark? at h
  split at h
  · rename_i id context ht
    split at h
    · rename_i hn
      exact ⟨id, context, ht, hn, Option.some.inj h⟩
    · simp at h
  · simp at h

/-- The marks that were brought since a client became known, after one more event. -/
def Event.bring (client : String) (marks : List SeqNo) (e : Event χ) : List SeqNo :=
  match e.effect.dedup.clients.get? client with
  | none => []
  | some _ => marks ++ (e.op.mark? client).toList

/-- The marks that a client's attempts have brought since it last became known. -/
def marksSinceKnown (client : String) (es : List (Event χ)) : List SeqNo :=
  es.foldl (Event.bring client) []

theorem Client.advance_staleBefore_eq_max (name : String) (policy : StalePolicy) (c : Client χ)
    (mark : SeqNo) :
    (c.advance name policy mark).client.staleBefore = max c.staleBefore mark := by
  have hmax : max c.staleBefore mark = if c.staleBefore ≤ mark then mark else c.staleBefore := rfl
  rw [advance_staleBefore]
  grind

/-- These are the marks that a client has been brought; none for a client that is not known. -/
def MarkedBy (d : Dedup χ) (client : String) (marks : List SeqNo) : Prop :=
  match d.clients.get? client with
  | none => marks = []
  | some c => c.staleBefore = marks.foldl max 0

variable {d d' : Dedup χ}

theorem markedBy_of_get? {c : Client χ} (hc : d.clients.get? client = some c) :
    MarkedBy d client marks ↔ c.staleBefore = marks.foldl max 0 := by
  simp [MarkedBy, hc]

theorem MarkedBy.moved {id : RequestId} (h : MarkedBy d id.client marks) (now : Instant) :
    (d.moved now id).client.staleBefore = (marks ++ [id.firstIncomplete]).foldl max 0 := by
  rw [Dedup.moved, Client.advance_staleBefore_eq_max, foldl_append]
  cases hc : d.clients.get? id.client with
  | none =>
      simp only [MarkedBy, hc] at h
      simp [heard, hc, Client.start, h]
  | some c =>
      rw [markedBy_of_get? hc] at h
      simp [heard, hc, h]

/-- Collecting moves no mark; it may forget a client with its mark. -/
theorem Pass.staleBefore?_after (p : Pass χ) (client : String) :
    p.after.staleBefore? client = none ∨
      p.after.staleBefore? client = p.before.staleBefore? client := by
  cases p.swept client with
  | unknown _ ha => exact .inl (by simp [staleBefore?, ha])
  | kept hb ha => exact .inr (by simp [staleBefore?, ha, hb, sweepClient, Client.sweep])
  | dropped _ ha => exact .inl (by simp [staleBefore?, ha])

theorem Chain.staleBefore?_eq {ps : List (Pass χ)} (hc : Chain d ps d') (client : String) :
    d'.staleBefore? client = none ∨ d'.staleBefore? client = d.staleBefore? client :=
  hc.preserves
    (P := fun e => e.staleBefore? client = none ∨ e.staleBefore? client = d.staleBefore? client)
    (.inr rfl) fun p _ h => by
      rcases p.staleBefore?_after client with ha | ha
      · exact .inl ha
      · exact ha ▸ h

/-- Only an attempt of the client's own moves its mark. -/
theorem Valid.staleBefore?_eq {op : Op χ} (hd : d.Valid) (hop : op.mark? client = none) :
    (d.apply op).dedup.staleBefore? client = none ∨
      (d.apply op).dedup.staleBefore? client = d.staleBefore? client := by
  have hturn := hd.turn op client
  cases hturn with
  | tracked hn => simp [Op.mark?, Op.tracked?, hn] at hop
  | reported _ _ hc _ hh hc' => exact .inr (by simp [staleBefore?, hc, hc', hh.staleBefore_eq])
  | unknown _ _ _ he => exact .inr (by rw [he])
  | swept _ hchain => exact hchain.staleBefore?_eq client
  | aside _ _ hc => exact .inr (by simp [staleBefore?, hc])

/-- A client that an operation leaves known keeps its mark or is brought one. -/
theorem MarkedBy.apply {op : Op χ} (hd : d.Valid) (h : MarkedBy d client marks) :
    MarkedBy (d.apply op).dedup client (Event.bring client marks ⟨d, op⟩) := by
  cases hc' : (d.apply op).dedup.clients.get? client with
  | none => simp only [MarkedBy, Event.bring, Event.effect, hc']
  | some c' =>
      rw [markedBy_of_get? hc']
      simp only [Event.bring, Event.effect, hc']
      cases hop : op.mark? client with
      | none =>
          have hmark := hd.staleBefore?_eq hop
          cases hc : d.clients.get? client with
          | none => simp [staleBefore?, hc, hc'] at hmark
          | some c =>
              have hsame : c'.staleBefore = c.staleBefore := by
                simpa [staleBefore?, hc, hc'] using hmark
              simpa [hsame] using (markedBy_of_get? hc).mp h
      | some mark =>
          obtain ⟨id, context, ht, rfl, rfl⟩ := Op.mark?_eq_some hop
          obtain ⟨now, c₁, _, _, ha, hc₁, -, -⟩ := hd.tracked ht
          obtain rfl : c₁ = c' := Option.some.inj (hc₁.symm.trans hc')
          rw [ha.staleBefore_eq]
          exact h.moved now

theorem MarkedBy.run {ops : List (Op χ)} (hd : d.Valid) (h : MarkedBy d client marks) :
    MarkedBy (d.run ops) client ((d.events ops).foldl (Event.bring client) marks) := by
  induction ops generalizing d marks with
  | nil => exact h
  | cons op ops ih => exact ih (hd.apply op) (h.apply hd)

theorem start_markedBy (settings : DedupSettings) (client : String) :
    MarkedBy (start settings : Dedup χ) client [] := by
  simp [MarkedBy, start]

/-! ## Who is told to run a request -/

/-- Only a request at the mark or above it is to be run. -/
theorem Client.Arrived.not_below {policy : StalePolicy} {c c' : Client χ} {id : RequestId}
    {context : χ} {now : Instant} {replies : List (Reply χ)} (hc : c.Valid policy)
    (ha : Arrived c id context now c' replies .fresh) : ¬ id.seq < c.staleBefore := by
  intro hlt
  cases ha with
  | joined hr hj =>
      have hbelow := (hc.placed hr).below hlt
      cases hj with
      | tookOver hp => simp [hp] at hbelow
      | drives hp => simp [hp] at hbelow
  | started _ hs => exact hs hlt

theorem Valid.fresh_not_below {op : Op χ} {id : RequestId} {context : χ} {mark : SeqNo}
    (hd : d.Valid) (ht : op.tracked? = some (id, context))
    (hf : (d.apply op).result = .tracked .fresh)
    (hm : (d.apply op).dedup.staleBefore? id.client = some mark) : ¬ id.seq < mark := by
  obtain ⟨now, c', _, phase, ha, hc', -, hp⟩ := hd.tracked ht
  obtain rfl : phase = .fresh := by simpa [hp] using hf
  obtain rfl : c'.staleBefore = mark := by simpa [staleBefore?, hc'] using hm
  rw [ha.staleBefore_eq]
  exact ha.not_below (hd.moved now id)

/-! ## Whole runs -/

/-- What every run keeps of every client. Its mark is the greatest that was brought since it became
known, and at least 0. Below the mark all requests are completed or stale, at the mark and above it
none is stale. Exactly the completed ones hold a response, and nobody waits for them; a driver waits
for its own request; a request that nobody drives has somebody waiting. What was given up lies below
the mark and is not held. So no request below the mark is run, and nothing but an attempt moves the
mark. -/
theorem run_invariant (settings : DedupSettings) (ops : List (Op χ)) :
    let d := (start settings).run ops
    let es := (start settings).events ops
    (∀ client c, d.clients.get? client = some c →
      c.staleBefore = (marksSinceKnown client es).foldl max 0 ∧
      (∀ seq r, c.records.get? seq = some r →
        (seq < c.staleBefore → r.phase = .completed ∨ r.phase = .stale) ∧
        (c.staleBefore ≤ seq →
          r.phase = .inProgress ∨ r.phase = .fresh ∨ r.phase = .completed) ∧
        (settings.stalePolicy = .abandonEarly → r.phase ≠ .stale) ∧
        (r.phase = .completed ↔ r.response.isSome) ∧
        (r.phase = .completed → r.waiting = []) ∧
        (r.phase = .inProgress ∨ r.phase = .stale → ∃ w ∈ r.waiting, w.attempt = r.driver) ∧
        (r.phase = .fresh → r.waiting ≠ [] ∧ r.driver = noSeqNo)) ∧
      ∀ seq, c.abandoned.contains seq = true →
        seq < c.staleBefore ∧ c.records.get? seq = none ∧
          settings.stalePolicy = .abandonEarly) ∧
    ∀ e ∈ es,
      (∀ id context, e.op.tracked? = some (id, context) → e.effect.result = .tracked .fresh →
        ∀ mark, e.effect.dedup.staleBefore? id.client = some mark → mark ≤ id.seq) ∧
      (e.op.tracked? = none → ∀ client,
        e.effect.dedup.staleBefore? client = none ∨
          e.effect.dedup.staleBefore? client = e.before.staleBefore? client) := by
  intro d es
  have hd : d.Valid := (start_valid settings).run ops
  refine ⟨fun client c hc => ?_, fun e he => ?_⟩
  · have hv : c.Valid settings.stalePolicy := by simpa [d, start] using hd client c hc
    have hmarked : MarkedBy d client (marksSinceKnown client es) :=
      (start_markedBy settings client).run (start_valid settings)
    refine ⟨(markedBy_of_get? hc).mp hmarked, fun seq r hr => ?_, fun seq ha => hv.abandoned ha⟩
    have hplaced := hv.placed hr
    refine ⟨hplaced.below, fun hle => ?_, fun hpol hp => ?_, hplaced.valid.cached,
      hplaced.valid.answered, hplaced.valid.driven, fun hp => (hplaced.valid.free hp).symm⟩
    · cases hp : r.phase with
      | stale =>
          have hlt := (hplaced.above hp).1
          grind
      | _ => simp
    · simpa [hpol] using (hplaced.above hp).2
  · obtain ⟨before, after, hsplit⟩ := append_of_mem he
    obtain ⟨ops₁, op, ops₂, rfl, rfl, rfl, -⟩ := events_split hsplit
    have hbefore : ((start settings : Dedup χ).run ops₁).Valid := (start_valid settings).run ops₁
    refine ⟨fun id context ht hf mark hm => ?_, fun ht client => ?_⟩
    · have hlt := hbefore.fresh_not_below ht hf hm
      grind
    · exact hbefore.staleBefore?_eq (by simp [Op.mark?, ht])

end OnceOnly.Dedup
