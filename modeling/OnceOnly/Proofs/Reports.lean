import OnceOnly.Proofs.Agreement
import OnceOnly.Proofs.Charges

/-!
# Reports: what an attempt changes by saying how it went

A report that is not taken still goes through its record, and may be crossed off the requests that
its client gave up. What else it changes comes to nothing in every state that is in order.
-/

namespace OnceOnly.Dedup

open List

variable {χ : Type}

/-! ## Reports that are not accepted -/

/-- Nothing comes of an operation, and what it charges comes to nothing. -/
structure Effect.Idle (e : Effect χ Result) (d : Dedup χ) : Prop where
  dedup : e.dedup = d
  replies : e.replies = []
  consumption (b : Budget) : (b.chargeAll e.charges).consumption = b.consumption

/-- A request is crossed off those that its client gave up, if it is one of them; its bytes are
given back, and nothing else changes. -/
structure Effect.CrossesOff (e : Effect χ Result) (d : Dedup χ) (id : RequestId) : Prop where
  settings : e.dedup.settings = d.settings
  others {name : String} (hne : name ≠ id.client) :
    e.dedup.clients.get? name = d.clients.get? name
  client : ∃ c, d.clients.get? id.client = some c ∧
    e.dedup.clients.get? id.client = some { c with abandoned := c.abandoned.erase id.seq } ∧
    (c.abandoned.contains id.seq = false → e.dedup = d) ∧
    ∀ b : Budget, (b.chargeAll e.charges).consumption =
      b.consumption - if c.abandoned.contains id.seq then 8 else 0
  replies : e.replies = []

namespace Client

variable {policy : StalePolicy} {c : Client χ} {id : RequestId}

theorem erase_abandoned (h : c.abandoned.contains id.seq = false) :
    { c with abandoned := c.abandoned.erase id.seq } = c := by
  rw [SortedMap.contains, Option.isSome_eq_false_iff, Option.isNone_iff_eq_none] at h
  rw [SortedMap.erase_of_get? h]

/-- All that a report can come to that is not accepted. -/
inductive Rejected (c : Client χ) (id : RequestId) : Change χ → Verdict → Prop where
  | alreadyCompleted : Rejected c id ⟨c, [0], []⟩ (.rejected (.alreadyCompleted id))
  | notDriver (driver : AttemptNo) : Rejected c id ⟨c, [0], []⟩ (.rejected (.notDriver id driver))
  | stale : Rejected c id ⟨{ c with abandoned := c.abandoned.erase id.seq }, [], []⟩
      (.rejected (.stale id))
  | unknownRequest : Rejected c id ⟨c, [], []⟩ (.unknownRequest id)

theorem report_rejected (hc : c.Valid policy) (id : RequestId) (outcome : Outcome χ) :
    (c.report id outcome).2 = .accepted ∨
      Rejected c id (c.report id outcome).1 (c.report id outcome).2 := by
  cases hr : c.records.get? id.seq with
  | none =>
      right
      by_cases hs : id.seq < c.staleBefore
      · simp only [report, hr, hs, ite_true]
        exact .stale
      · -- Only requests below the mark are given up.
        have hkept : c.abandoned.contains id.seq = false := by
          rw [← Bool.not_eq_true]
          exact fun ha => hs (hc.abandoned ha).1
        simp only [report, hr, hs, ite_false, erase_abandoned hkept]
        exact .unknownRequest
  | some r =>
      have hrep := reportOn_reported (hc.placed hr).valid id outcome
      simp only [report, hr]
      generalize reportOn r id outcome = result at hrep
      cases hrep with
      | alreadyCompleted =>
          simp only [ChargedMap.update_of_get? hr]
          exact .inr .alreadyCompleted
      | notDriver =>
          simp only [ChargedMap.update_of_get? hr]
          exact .inr (.notDriver r.driver)
      | accepted => exact .inl rfl

end Client

section Rejected

variable {d : Dedup χ} {id : RequestId} {outcome : Outcome χ} {c : Client χ} {verdict : Verdict}

theorem report_eq (hc : d.clients.get? id.client = some c) : d.report id outcome =
    ⟨{ d with clients := (d.clients.update id.client (c.report id outcome).1.client).1 },
      (c.report id outcome).1.charges ++
        (d.clients.update id.client (c.report id outcome).1.client).2,
      (c.report id outcome).1.replies, (c.report id outcome).2⟩ := by
  rw [report, hc]

theorem idle_of_unchanged {charges : List Int} (hc : d.clients.get? id.client = some c)
    (hr : (c.report id outcome).1 = ⟨c, charges, []⟩) (hnet : net charges = 0) :
    ((d.report id outcome).map Result.reported).Idle d := by
  rw [report_eq hc, hr]
  simp only [ChargedMap.update_of_get? hc]
  refine ⟨rfl, rfl, fun b => ?_⟩
  rw [Budget.chargeAll_consumption]
  simp [Effect.map, hnet]

theorem crossesOff_of_erased (hc : d.clients.get? id.client = some c)
    (hr : (c.report id outcome).1 =
      ⟨{ c with abandoned := c.abandoned.erase id.seq }, [], []⟩) :
    ((d.report id outcome).map Result.reported).CrossesOff d id := by
  rw [report_eq hc, hr]
  refine ⟨rfl, fun hne => ?_, ⟨c, hc, ?_, fun hkept => ?_, fun b => ?_⟩, rfl⟩
  · simp [Effect.map, ChargedMap.get?_update, hne]
  · simp [Effect.map, ChargedMap.get?_update, hc]
  · rw [Client.erase_abandoned hkept, ChargedMap.update_of_get? hc]
    rfl
  · have hsize := c.abandoned.size_erase id.seq
    rw [Budget.chargeAll_consumption]
    simp only [Effect.map, ChargedMap.update, hc, ChargedMap.entryChange, footprint,
      nil_append, net_cons, net_nil]
    split at hsize
    · rename_i hcontains
      rw [if_pos hcontains]
      omega
    · rename_i hcontains
      rw [if_neg hcontains]
      omega

end Rejected

/-- A report that is not accepted changes nothing and answers nobody, save that a late report on a
request that was given up crosses it off. -/
theorem rejected_report_idle (settings : DedupSettings) (ops : List (Op χ)) (op : Op χ)
    {id : RequestId} {outcome : Outcome χ} (hop : op.report? = some (id, outcome)) :
    let d := (start settings : Dedup χ).run ops
    let e := d.apply op
    ∃ verdict, e.result = .reported verdict ∧
      match verdict with
      | .accepted => True
      | .rejected (.alreadyCompleted _) => e.Idle d
      | .rejected (.notDriver _ _) => e.Idle d
      | .rejected (.stale _) => e.CrossesOff d id
      | .unknownClient _ => e.Idle d
      | .unknownRequest _ => e.Idle d := by
  intro d e
  have hd : d.Valid := (start_valid settings).run ops
  have he : e = (d.report id outcome).map .reported := d.apply_report hop
  refine ⟨(d.report id outcome).result, congrArg Effect.result he, ?_⟩
  rw [he]
  cases hc : d.clients.get? id.client with
  | none =>
      simp only [report, hc]
      exact ⟨rfl, rfl, fun b => rfl⟩
  | some c =>
      have hidle {charges : List Int} (hr : (c.report id outcome).1 = ⟨c, charges, []⟩)
          (hnet : net charges = 0) := idle_of_unchanged hc hr hnet
      have hcross (hr : (c.report id outcome).1 =
          ⟨{ c with abandoned := c.abandoned.erase id.seq }, [], []⟩) := crossesOff_of_erased hc hr
      have hresult : (d.report id outcome).result = (c.report id outcome).2 := by
        rw [report_eq hc]
      rw [hresult]
      rcases Client.report_rejected (hd id.client c hc) id outcome with hacc | hrej
      · simp [hacc]
      · generalize (c.report id outcome).1 = change at hrej hidle hcross
        generalize (c.report id outcome).2 = verdict at hrej
        cases hrej with
        | alreadyCompleted => exact hidle rfl rfl
        | notDriver => exact hidle rfl rfl
        | stale => exact hcross rfl
        | unknownRequest => exact hidle rfl rfl

/-- A driver that was given up reports late, and its eight bytes are given back. -/
theorem rejected_report_idle_given_up :
    let settings : DedupSettings := { DedupSettings.standard with stalePolicy := .abandonEarly }
    let ops : List (Op Nat) :=
      [.track (fun _ => true) ⟨0⟩ ⟨"c", 0, 0, 0⟩ 7 false,
        .track (fun _ => true) ⟨0⟩ ⟨"c", 1, 1, 0⟩ 8 false]
    let op : Op Nat := .complete ⟨0⟩ ⟨"c", 0, 0, 0⟩ [42]
    let d := (start settings).run ops
    op.report? = some (⟨"c", 0, 0, 0⟩, completion ⟨0⟩ ⟨"c", 0, 0, 0⟩ [42]) ∧
      (d.apply op).CrossesOff d ⟨"c", 0, 0, 0⟩ ∧ net (d.apply op).charges = -8 := by
  intro settings ops op d
  obtain ⟨verdict, hverdict, hspec⟩ := rejected_report_idle settings ops op rfl
  have hstale : (d.apply op).result = .reported (.rejected (.stale ⟨"c", 0, 0, 0⟩)) := by
    decide +kernel
  obtain rfl : verdict = .rejected (.stale ⟨"c", 0, 0, 0⟩) := by
    simpa using hverdict.symm.trans hstale
  exact ⟨rfl, hspec, by decide +kernel⟩

/-! ## Reports that are accepted -/

/-- Nothing is changed but one record, which may be gone after. -/
structure Effect.Confined (e : Effect χ Result) (d : Dedup χ) (id : RequestId) : Prop where
  settings : e.dedup.settings = d.settings
  others {name : String} (hne : name ≠ id.client) :
    e.dedup.clients.get? name = d.clients.get? name
  client : ∃ c records, d.clients.get? id.client = some c ∧
    e.dedup.clients.get? id.client = some { c with records } ∧
    ∀ seq, seq ≠ id.seq → records.get? seq = c.records.get? seq

/-- The entries of an attempt. -/
def Record.own (r : Record χ) (attempt : AttemptNo) : List (Waiter χ) :=
  r.waiting.filter fun w => w.attempt == attempt

/-- The entries of all other attempts. -/
def Record.others (r : Record χ) (attempt : AttemptNo) : List (Waiter χ) :=
  r.waiting.filter fun w => !(w.attempt == attempt)

/-- All that an accepted report can come to: the record after it, if it stays, and the replies. -/
inductive Accepted (r : Record χ) (id : RequestId) :
    Op χ → Option (Record χ) → List (Reply χ) → Prop where
  | completed {now : Instant} {response : Bytes} :
      Accepted r id (.complete now id response)
        (some { r with
          phase := .completed, response := some response, updated := now, waiting := [],
          capacity := 0 })
        (Record.repliesTo r.waiting (.success response))
  /-- No retries will come for a stale record. -/
  | ended {now : Instant} {status : ErrorStatus} (hp : r.phase = .stale) :
      Accepted r id (.fail now id status) none (Record.repliesTo r.waiting (.failure status))
  | failed {now : Instant} {status : ErrorStatus} (hp : r.phase ≠ .stale)
      (ho : r.others id.attempt = []) :
      Accepted r id (.fail now id status) none
        (Record.repliesTo (r.own id.attempt) (.failure status))
  /-- The record is free for the next attempt. -/
  | freed {now : Instant} {status : ErrorStatus} (hp : r.phase ≠ .stale)
      (ho : r.others id.attempt ≠ []) :
      Accepted r id (.fail now id status)
        (some { r with
          phase := .fresh, driver := noSeqNo, response := none, updated := now,
          waiting := r.others id.attempt, capacity := regrown (r.others id.attempt).length })
        (Record.repliesTo (r.own id.attempt) (.failure status))

/-- What is left of a record, if it stays. -/
def left (result : Record χ × List (Reply χ) × Bool) : Option (Record χ) :=
  if result.2.2 then none else some result.1

/-- While a record is not completed an attempt answers its own entries only. -/
theorem Record.answers_eq {r : Record χ} (hp : r.phase ≠ .completed) (attempt : AttemptNo) :
    r.answers attempt = fun w => w.attempt == attempt := by
  funext w
  have hopen : (r.phase == .completed) = false := by simpa using hp
  simp [answers, hopen]

/-- A report by the driver of a record that is not completed comes to one of these. -/
theorem outcome_accepted {r : Record χ} (hr : r.Valid) {op : Op χ} {id : RequestId}
    {outcome : Outcome χ} (hop : op.report? = some (id, outcome)) (hp : r.phase ≠ .completed)
    (hd : r.driver = id.attempt) : Accepted r id op (left (outcome r)) (outcome r).2.1 := by
  have hanswers := Record.answers_eq hp id.attempt
  have hresponse : r.response = none := by simpa using fun hs => hp (hr.cached.mpr hs)
  rcases Op.eq_report hop with ⟨now, response, rfl, rfl⟩ | ⟨now, status, rfl, rfl⟩
  · simp only [completion, Record.complete_eq hd]
    exact .completed
  · rcases r.fail_eq now id.attempt status with ⟨hstale, he⟩ | ⟨hstale, he⟩
    · simp only [failure, he]
      exact .ended hstale
    · have hdropped : r.dropHandled id.attempt = { r with
          response := none, waiting := r.others id.attempt,
          capacity := regrown (r.others id.attempt).length } := by
        rw [Record.dropHandled, hanswers, ← hresponse]
        rfl
      have hown : r.handled id.attempt = r.own id.attempt := by
        rw [Record.handled, hanswers]
        rfl
      simp only [failure, he, hdropped, hown]
      cases ho : (r.others id.attempt).isEmpty with
      | true => exact .failed hstale (isEmpty_iff.mp ho)
      | false => exact .freed hstale (isEmpty_eq_false_iff.mp ho)

/-- A failed record that is left is free for the next attempt. -/
theorem left_failure {now : Instant} {id : RequestId} {status : ErrorStatus} {r r' : Record χ}
    (h : left (failure now id status r) = some r') : r'.phase = .fresh := by
  rw [left] at h
  split at h
  · simp at h
  · rename_i hstays
    obtain rfl := Option.some.inj h
    exact (failure_kept (Bool.not_eq_true _ ▸ hstays)).2

/-- What an accepted report makes of its client. -/
theorem Client.Heard.accepted {c c' : Client χ} {id : RequestId} {outcome : Outcome χ}
    {replies : List (Reply χ)} (hh : Heard c id outcome c' replies .accepted) :
    ∃ r records, c.records.get? id.seq = some r ∧ r.phase ≠ .completed ∧ r.driver = id.attempt ∧
      c' = { c with records } ∧ records.get? id.seq = left (outcome r) ∧
      replies = (outcome r).2.1 := by
  generalize hv : Verdict.accepted = verdict at hh
  cases hh with
  | missing => split at hv <;> simp at hv
  | alreadyCompleted => simp at hv
  | notDriver => simp at hv
  | kept hr hp hd hg =>
      refine ⟨_, _, hr, hp, hd, rfl, ?_, rfl⟩
      simp [ChargedMap.get?_update, hr, left, hg]
  | erased hr hp hd hg =>
      refine ⟨_, _, hr, hp, hd, rfl, ?_, rfl⟩
      simp [ChargedMap.get?_erase, left, hg]

/-- What it makes of the memory. -/
theorem Valid.accepted {d : Dedup χ} (hd : d.Valid) {op : Op χ} {id : RequestId}
    {outcome : Outcome χ} (hop : op.report? = some (id, outcome))
    (hacc : (d.apply op).result = .reported .accepted) :
    (d.apply op).Confined d id ∧ ∃ r, d.record? id.client id.seq = some r ∧ r.Valid ∧
      r.phase ≠ .completed ∧ r.driver = id.attempt ∧
      (d.apply op).dedup.record? id.client id.seq = left (outcome r) ∧
      (d.apply op).replies = (outcome r).2.1 := by
  have hsettings := d.apply_settings op
  rw [d.apply_report hop] at hacc hsettings ⊢
  cases hc : d.clients.get? id.client with
  | none => simp [report, hc, Effect.map] at hacc
  | some c =>
      have hh : Client.Heard c id outcome _ _ _ := Client.report_heard (hd _ c hc)
      have hverdict : (c.report id outcome).2 = .accepted := by
        simpa [report_eq hc, Effect.map] using hacc
      have hothers (seq : SeqNo) (hne : seq ≠ id.seq) := hh.get?_of_ne hne
      rw [hverdict] at hh
      obtain ⟨r, records, hr, hp, hdriver, hclient, hleft, hreplies⟩ := hh.accepted
      rw [hclient] at hothers
      have hafter : ((d.report id outcome).map Result.reported).dedup.clients.get? id.client =
          some { c with records } := by
        simp [report_eq hc, Effect.map, ChargedMap.get?_update, hc, hclient]
      refine ⟨⟨hsettings, fun hne => d.report_get?_of_ne outcome hne,
        ⟨c, records, hc, hafter, hothers⟩⟩, r, (record?_of_get? hc).trans hr,
        ((hd _ c hc).placed hr).valid, hp, hdriver, (record?_of_get? hafter).trans hleft, ?_⟩
      rw [report_eq hc]
      exact hreplies

/-! ## The next attempt after a failure -/

/-- Nobody drives a request: it has no record, or a fresh one. -/
def Free (d : Dedup χ) (client : String) (seq : SeqNo) : Prop :=
  ∀ r, d.record? client seq = some r → r.phase = .fresh

/-- An event that neither tracks a request nor completes it. -/
def Event.LeavesOpen (e : Event χ) (client : String) (seq : SeqNo) : Prop :=
  (∀ id context, e.op.tracked? = some (id, context) → id.client = client → id.seq ≠ seq) ∧
    e.accepted? client seq = none

section Free

variable {d d' : Dedup χ} {client : String} {seq : SeqNo} {op : Op χ}

theorem Free.of_eq (h : Free d client seq) (heq : d'.record? client seq = d.record? client seq) :
    Free d' client seq := by
  intro r hr
  exact h r (heq.symm.trans hr)

/-- A new mark makes stale only what is in progress. -/
theorem Free.moved {id : RequestId} {now : Instant} {r : Record χ} (h : Free d id.client seq)
    (hr : (d.moved now id).client.records.get? seq = some r) : r.phase = .fresh := by
  rcases moved_get?_some hr with hr | ⟨r₀, hr₀, hp, -⟩
  · exact h r hr
  · simp [h r₀ hr₀] at hp

theorem Free.chain {ps : List (Pass χ)} (hc : Chain d ps d') (h : Free d client seq) :
    Free d' client seq :=
  hc.preserves (P := fun e => Free e client seq) h fun _ _ hbefore r hr =>
    hbefore r (Pass.record?_of_after hr)

/-- Of all reports only a completion leaves a record that is not free. -/
theorem Free.reported {id : RequestId} {outcome : Outcome χ} {c c' : Client χ}
    {replies : List (Reply χ)} {verdict : Verdict} (h : Free d id.client seq)
    (hop : op.report? = some (id, outcome)) (hopen : Event.LeavesOpen ⟨d, op⟩ id.client seq)
    (hc : d.clients.get? id.client = some c) (hh : Client.Heard c id outcome c' replies verdict)
    (hc' : (d.apply op).dedup.clients.get? id.client = some c')
    (hv : (d.apply op).result = .reported verdict) : Free (d.apply op).dedup id.client seq := by
  by_cases hne : seq = id.seq
  · subst hne
    by_cases hacc : verdict = .accepted
    · subst hacc
      obtain ⟨r, records, -, -, -, rfl, hleft, -⟩ := hh.accepted
      intro r' hr'
      rw [record?_of_get? hc', hleft] at hr'
      rcases Op.eq_report hop with ⟨now, response, rfl, rfl⟩ | ⟨now, status, rfl, rfl⟩
      · have htaken := hopen.2
        simp [Event.accepted?, Event.effect, hv] at htaken
      · exact left_failure hr'
    · have hsame : c'.records = c.records := by
        cases hh with
        | kept => exact absurd rfl hacc
        | erased => exact absurd rfl hacc
        | _ => rfl
      refine h.of_eq ?_
      rw [record?_of_get? hc', record?_of_get? hc, hsame]
  · refine h.of_eq ?_
    rw [record?_of_get? hc', record?_of_get? hc, hh.get?_of_ne hne]

theorem Free.apply (hd : d.Valid) (h : Free d client seq)
    (hopen : Event.LeavesOpen ⟨d, op⟩ client seq) : Free (d.apply op).dedup client seq := by
  have hturn := hd.turn op client
  cases hturn with
  | @tracked _ now id context _ _ c' _ _ hn ha hc =>
      subst hn
      intro r hr
      have hne : seq ≠ id.seq := (hopen.1 id context rfl rfl).symm
      rw [record?_of_get? hc, ha.get?_of_ne hne] at hr
      exact h.moved hr
  | @reported _ id outcome _ c c' verdict hop hn hc ho hh hc' hv =>
      subst hn
      exact h.reported hop hopen hc hh hc' hv
  | unknown hop hn hc he =>
      rw [he]
      exact h
  | swept hop hchain => exact h.chain hchain
  | aside ht hr hc => exact h.of_eq (by simp [record?, hc])

theorem Free.run {ops : List (Op χ)} (hd : d.Valid) (h : Free d client seq)
    (hopen : ∀ e ∈ d.events ops, e.LeavesOpen client seq) : Free (d.run ops) client seq := by
  induction ops generalizing d with
  | nil => exact h
  | cons op ops ih =>
      rw [events, forall_mem_cons] at hopen
      exact ih (hd.apply op) (h.apply hd hopen.1) hopen.2

/-- The next attempt at a request that nobody drives is told to run it, unless the mark is above. -/
theorem Free.tracked {id : RequestId} {context : χ} (hd : d.Valid) (h : Free d id.client id.seq)
    (ht : op.tracked? = some (id, context))
    (hmark : ∀ mark, (d.apply op).dedup.staleBefore? id.client = some mark → mark ≤ id.seq) :
    (d.apply op).result = .tracked .fresh := by
  obtain ⟨now, c', replies, phase, ha, hc, -, hresult⟩ := hd.tracked ht
  have hle : (d.moved now id).client.staleBefore ≤ id.seq := by
    refine hmark _ ?_
    simp [staleBefore?, hc, ha.staleBefore_eq]
  rw [hresult]
  cases ha with
  | joined hr hj =>
      have hp := h.moved hr
      cases hj with
      | drives => rfl
      | tookOver => rfl
      | replayed _ hp' => simp [hp] at hp'
      | waits hp' => simp [hp] at hp'
      | waitsStale hp' => simp [hp] at hp'
  | refused _ hs => exact absurd hle (by grind)
  | started => rfl

end Free

/-- A report that is accepted changes its own record and nothing else, and answers whom it should.
After a failure nobody drives the request, and until a completion of it is accepted the next attempt
at it is told to run it, unless the mark is above it by then. -/
theorem accepted_report (settings : DedupSettings) (ops : List (Op χ)) (op : Op χ)
    {id : RequestId} {outcome : Outcome χ} (hop : op.report? = some (id, outcome))
    (hacc : (((start settings : Dedup χ).run ops).apply op).result = .reported .accepted) :
    let d := (start settings : Dedup χ).run ops
    let e := d.apply op
    e.Confined d id ∧
      (∃ r, d.record? id.client id.seq = some r ∧
        Accepted r id op (e.dedup.record? id.client id.seq) e.replies) ∧
      ((∃ now status, op = .fail now id status) →
        ∀ later : List (Op χ), (∀ e' ∈ e.dedup.events later, e'.LeavesOpen id.client id.seq) →
          ∀ (next : Op χ) (id' : RequestId) (context : χ), next.tracked? = some (id', context) →
            id'.client = id.client → id'.seq = id.seq →
            (∀ mark, ((e.dedup.run later).apply next).dedup.staleBefore? id.client = some mark →
              mark ≤ id.seq) →
            ((e.dedup.run later).apply next).result = .tracked .fresh) := by
  intro d e
  have hd : d.Valid := (start_valid settings).run ops
  obtain ⟨hconfined, r, hr, hvalid, hp, hdriver, hleft, hreplies⟩ := hd.accepted hop hacc
  refine ⟨hconfined, ⟨r, hr, ?_⟩, ?_⟩
  · rw [hleft, hreplies]
    exact outcome_accepted hvalid hop hp hdriver
  · rintro ⟨now, status, rfl⟩ later hopen next id' context ht hn hs hmark
    obtain ⟨-, rfl⟩ : id = id ∧ failure now id status = outcome := by simpa [Op.report?] using hop
    have hfree : Free e.dedup id.client id.seq := fun _ hr' => left_failure (hleft.symm.trans hr')
    have hlater : Free (e.dedup.run later) id'.client id'.seq := by
      rw [hn, hs]
      exact hfree.run (hd.apply _) hopen
    refine hlater.tracked ((hd.apply _).run later) ht fun mark hm => ?_
    rw [hn] at hm
    exact hs ▸ hmark mark hm

/-- The driver of a request has come twice when it fails; the attempt that waits beside it goes on
waiting, and the next one is told to run the request, also after another request has come. -/
theorem accepted_report_handed_over :
    let settings : DedupSettings := .standard
    let reachable : Nat → Bool := fun _ => true
    let ops : List (Op Nat) :=
      [.track reachable ⟨0⟩ ⟨"c", 0, 0, 0⟩ 7 false, .track reachable ⟨0⟩ ⟨"c", 0, 0, 1⟩ 8 false,
        .track reachable ⟨0⟩ ⟨"c", 0, 0, 0⟩ 9 false]
    let id : RequestId := ⟨"c", 0, 0, 0⟩
    let op : Op Nat := .fail ⟨1⟩ id (.lacking [3])
    let e := ((start settings).run ops).apply op
    let later : List (Op Nat) := [.track reachable ⟨2⟩ ⟨"c", 1, 0, 0⟩ 10 false]
    let next : Op Nat := .track reachable ⟨3⟩ ⟨"c", 0, 0, 2⟩ 11 false
    op.report? = some (id, failure ⟨1⟩ id (.lacking [3])) ∧ e.result = .reported .accepted ∧
      e.replies.map Reply.context = [7, 9] ∧
      (∃ r, Accepted r id op (e.dedup.record? "c" 0) e.replies) ∧
      (∀ e' ∈ e.dedup.events later, e'.LeavesOpen "c" 0) ∧
      next.tracked? = some (⟨"c", 0, 0, 2⟩, 11) ∧
      (∀ mark, ((e.dedup.run later).apply next).dedup.staleBefore? "c" = some mark → mark ≤ 0) ∧
      ((e.dedup.run later).apply next).result = .tracked .fresh := by
  intro settings reachable ops id op e later next
  have hacc : e.result = .reported .accepted := by decide +kernel
  have hreplies : e.replies.map Reply.context = [7, 9] := by decide +kernel
  have hopen : ∀ e' ∈ e.dedup.events later, e'.LeavesOpen "c" 0 := by
    intro e' he'
    obtain rfl := mem_singleton.mp he'
    refine ⟨fun id' context ht _ => ?_, rfl⟩
    obtain rfl : (⟨"c", 1, 0, 0⟩ : RequestId) = id' := congrArg Prod.fst (Option.some.inj ht)
    decide
  have hmark : ∀ mark, ((e.dedup.run later).apply next).dedup.staleBefore? "c" = some mark →
      mark ≤ 0 := by
    have hzero : ((e.dedup.run later).apply next).dedup.staleBefore? "c" = some 0 := by
      decide +kernel
    intro mark hm
    obtain rfl := Option.some.inj (hzero.symm.trans hm)
    decide
  obtain ⟨-, ⟨r, -, haccepted⟩, hnext⟩ := accepted_report settings ops op rfl hacc
  exact ⟨rfl, hacc, hreplies, ⟨r, haccepted⟩, hopen, rfl, hmark,
    hnext ⟨_, _, rfl⟩ later hopen next _ _ rfl rfl rfl hmark⟩

end OnceOnly.Dedup
