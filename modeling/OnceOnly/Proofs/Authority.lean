import Mathlib.Data.List.Induction
import OnceOnly.Proofs.Waiters

/-!
# Authority: who was told to run a request and may still report on it

An attempt holds a request from the moment it is told to run it. A run decides who holds what; the
memory keeps only the driver of a record, and the two agree in every reachable state.
-/

namespace OnceOnly.Dedup

open List

variable {χ : Type} {client : String} {seq : SeqNo} {attempt : AttemptNo}

/-! ## Grants, and what ends them -/

/-- The attempt is told to run the request. -/
def Event.Grants (e : Event χ) (client : String) (seq : SeqNo) (attempt : AttemptNo) : Prop :=
  ∃ id context, e.op.tracked? = some (id, context) ∧ id.client = client ∧ id.seq = seq ∧
    id.attempt = attempt ∧ e.effect.result = .tracked .fresh

/-- A report of the attempt's own is accepted. -/
def Event.Accepts (e : Event χ) (client : String) (seq : SeqNo) (attempt : AttemptNo) : Prop :=
  ∃ id outcome, e.op.report? = some (id, outcome) ∧ id.client = client ∧ id.seq = seq ∧
    id.attempt = attempt ∧ e.effect.result = .reported .accepted

/-- Another attempt is told to run the request while it is in progress. -/
def Event.Supersedes (e : Event χ) (client : String) (seq : SeqNo) (attempt : AttemptNo) : Prop :=
  (∃ other, other ≠ attempt ∧ e.Grants client seq other) ∧
    ∃ r, e.before.record? client seq = some r ∧ r.phase = .inProgress

/-- The mark passes the request and its record is given up. -/
def Event.Abandons (e : Event χ) (client : String) (seq : SeqNo) : Prop :=
  e.before.record? client seq ≠ none ∧
    ∃ c, e.effect.dedup.clients.get? client = some c ∧ c.abandoned.contains seq = true

def Event.Ends (e : Event χ) (client : String) (seq : SeqNo) (attempt : AttemptNo) : Prop :=
  e.Accepts client seq attempt ∨ e.Supersedes client seq attempt ∨ e.Abandons client seq

/-- The attempt was told to run the request, and nothing has ended that since. -/
def Holds (es : List (Event χ)) (client : String) (seq : SeqNo) (attempt : AttemptNo) : Prop :=
  ∃ before e after, es = before ++ e :: after ∧ e.Grants client seq attempt ∧
    ∀ e' ∈ after, ¬ e'.Ends client seq attempt

theorem not_holds_nil : ¬ Holds ([] : List (Event χ)) client seq attempt := by
  rintro ⟨before, e, after, h, -⟩
  simp at h

/-- What one more event changes. -/
theorem holds_concat {es : List (Event χ)} {e : Event χ} :
    Holds (es ++ [e]) client seq attempt ↔
      e.Grants client seq attempt ∨
        (Holds es client seq attempt ∧ ¬ e.Ends client seq attempt) := by
  constructor
  · rintro ⟨before, g, after, h, hg, ha⟩
    rcases eq_nil_or_concat' after with rfl | ⟨after', last, rfl⟩
    · obtain ⟨-, he⟩ := append_inj' h rfl
      obtain rfl : e = g := by simpa using he
      exact .inl hg
    · rw [← cons_append, ← append_assoc] at h
      obtain ⟨hes, he⟩ := append_inj' h rfl
      obtain rfl : e = last := by simpa using he
      exact .inr ⟨⟨before, g, after', hes, hg, fun e' he' => ha e' (by simp [he'])⟩,
        ha e (by simp)⟩
  · rintro (hg | ⟨⟨before, g, after, rfl, hg, ha⟩, he⟩)
    · exact ⟨es, e, [], rfl, hg, by simp⟩
    · refine ⟨before, g, after ++ [e], by simp, hg, fun e' he' => ?_⟩
      rcases mem_append.mp he' with hm | hm
      · exact ha e' hm
      · exact mem_singleton.mp hm ▸ he

/-! ## Who drives a record -/

/-- The record is held, and this attempt is at work on it. -/
def DrivenBy (held : Option (Record χ)) (attempt : AttemptNo) : Prop :=
  ∃ r, held = some r ∧ (r.phase = .inProgress ∨ r.phase = .stale) ∧ r.driver = attempt

@[simp] theorem not_drivenBy_none : ¬ DrivenBy (none : Option (Record χ)) attempt := by
  rintro ⟨r, hr, -⟩
  simp at hr

@[simp] theorem drivenBy_some {r : Record χ} : DrivenBy (some r) attempt ↔
    (r.phase = .inProgress ∨ r.phase = .stale) ∧ r.driver = attempt := by
  simp [DrivenBy]

theorem DrivenBy.unique {held : Option (Record χ)} {other : AttemptNo}
    (h : DrivenBy held attempt) (ho : DrivenBy held other) : attempt = other := by
  obtain ⟨r, rfl, -, rfl⟩ := h
  exact (drivenBy_some.mp ho).2

/-- A record that is not completed names its driver, or where there is none no attempt. -/
theorem Record.Valid.named_iff {r : Record χ} (h : r.Valid) (attempt : AttemptNo) :
    r.phase ≠ .completed ∧ r.driver = attempt ↔
      ((r.phase = .inProgress ∨ r.phase = .stale) ∧ r.driver = attempt) ∨
        (attempt = noSeqNo ∧ r.phase = .fresh) := by
  cases hp : r.phase with
  | fresh => simp [(h.free hp).1, eq_comm]
  | _ => simp

theorem isDriver_iff (d : Dedup χ) (id : RequestId) :
    d.isDriver id = true ↔ DrivenBy (d.record? id.client id.seq) id.attempt := by
  cases h : d.record? id.client id.seq <;> simp [isDriver, h]

namespace Client

variable {policy : StalePolicy} {c c' : Client χ} {id : RequestId}

/-- Of the requests in progress a mark takes only those that it gives up. -/
theorem advance_drivenBy {name : String} {mark : SeqNo} (hc : c.Valid policy) :
    DrivenBy ((c.advance name policy mark).client.records.get? seq) attempt ↔
      DrivenBy (c.records.get? seq) attempt ∧
        ¬ (c.advance name policy mark).client.abandoned.contains seq = true := by
  constructor
  · rintro ⟨r', hr', hp, rfl⟩
    constructor
    · rcases advance_get?_some hr' with hr | ⟨r, hr, hp', rfl, -⟩
      · exact ⟨r', hr, hp, rfl⟩
      · exact ⟨r, hr, .inl hp', rfl⟩
    · intro ha
      simp [(hc.advance.abandoned ha).2.1] at hr'
  · rintro ⟨⟨r, hr, hp, rfl⟩, ha⟩
    have hset : Settled policy (c.advance name policy mark).client seq r := advance_settled hr
    cases hset with
    | kept hr' => exact ⟨r, hr', hp, rfl⟩
    | stale _ _ hr' => exact ⟨_, hr', .inr rfl, rfl⟩
    | released hp' => simp [hp'] at hp
    | abandoned _ _ _ ha' => exact absurd ha' ha

/-- An attempt that is told to run its request drives the record from then on. -/
theorem Arrived.drivenBy {context : χ} {now : Instant} {replies : List (Reply χ)} {phase : Phase}
    (ha : Arrived c id context now c' replies phase) :
    DrivenBy (c'.records.get? id.seq) attempt ↔
      (phase = .fresh ∧ id.attempt = attempt) ∨
        (DrivenBy (c.records.get? id.seq) attempt ∧ phase ≠ .fresh) := by
  cases ha with
  | joined hr hj =>
      simp only [ChargedMap.get?_update, ite_true, hr, Option.map_some, drivenBy_some]
      cases hj with
      | replayed => simp
      | tookOver hp => simp [Record.enqueue, hp]
      | waits => simp [Record.enqueue]
      | drives => simp
      | waitsStale => simp [Record.enqueue]
  | refused hr => simp [hr]
  | started hr => simp [ChargedMap.get?_insert, Record.start]

/-- It was free for the attempt to run, or in progress under another. -/
theorem Arrived.inProgress {context : χ} {now : Instant} {replies : List (Reply χ)}
    (ha : Arrived c id context now c' replies .fresh)
    (h : DrivenBy (c.records.get? id.seq) attempt) :
    id.attempt ≠ attempt ∧ ∃ r, c.records.get? id.seq = some r ∧ r.phase = .inProgress := by
  cases ha with
  | joined hr hj =>
      rw [hr, drivenBy_some] at h
      obtain ⟨hdriven, rfl⟩ := h
      cases hj with
      | tookOver hp hlt => exact ⟨fun he => by grind, _, hr, hp⟩
      | drives hp => simp [hp] at hdriven
  | started hr => simp [hr] at h

theorem Heard.accepted_iff {outcome : Outcome χ} {replies : List (Reply χ)} {verdict : Verdict}
    (hh : Heard c id outcome c' replies verdict) : verdict = .accepted ↔
      ∃ r, c.records.get? id.seq = some r ∧ r.phase ≠ .completed ∧ r.driver = id.attempt := by
  cases hh with
  | missing hr => split <;> simp [hr]
  | alreadyCompleted hr hp => simp [hr, hp]
  | notDriver hr _ hne => simp [hr, hne]
  | kept hr hp hd => simp [hr, hp, hd]
  | erased hr hp hd => simp [hr, hp, hd]

/-- Only the driver's own report ends its work. -/
theorem Heard.drivenBy {outcome : Outcome χ} {replies : List (Reply χ)} {verdict : Verdict}
    (ho : outcome.Lawful id.attempt) (hh : Heard c id outcome c' replies verdict) :
    DrivenBy (c'.records.get? seq) attempt ↔
      DrivenBy (c.records.get? seq) attempt ∧
        ¬ (id.seq = seq ∧ id.attempt = attempt ∧ verdict = .accepted) := by
  by_cases hs : seq = id.seq
  · subst hs
    have hown {r : Record χ} (hr : c.records.get? id.seq = some r) (hd : r.driver = id.attempt) :
        ¬ (DrivenBy (c.records.get? id.seq) attempt ∧ id.attempt ≠ attempt) := by
      rw [hr, drivenBy_some]
      rintro ⟨⟨-, rfl⟩, hne⟩
      exact hne hd.symm
    cases hh with
    | missing hr => simp [hr]
    | alreadyCompleted => simp
    | notDriver => simp
    | @kept r hr hp hd hg =>
        have hnew : ¬ DrivenBy (some (outcome r).1) attempt := by
          rcases ho.phase hg with hph | ⟨-, hph⟩ <;> simp [hph]
        simpa [ChargedMap.get?_update, hr, hnew] using hown hr hd
    | erased hr _ hd =>
        simpa [ChargedMap.get?_erase, hr] using hown hr hd
  · simp [hh.get?_of_ne hs, Ne.symm hs]

end Client

section Memory

variable {d d' : Dedup χ}

/-- What is driven stays through collections. -/
theorem Pass.drivenBy (p : Pass χ) :
    DrivenBy (p.after.record? client seq) attempt ↔
      DrivenBy (p.before.record? client seq) attempt := by
  constructor
  · rintro ⟨r, hr, hp, hd⟩
    exact ⟨r, p.record?_of_after hr, hp, hd⟩
  · rintro ⟨r, hr, hp, hd⟩
    have hkept {c : Client χ} (hc : p.before.clients.get? client = some c) :
        (p.before.sweepClient p.now p.force client c).rest.records.get? seq = some r := by
      rw [record?_of_get? hc] at hr
      refine Client.sweep_get?_some.mpr ⟨hr, ?_⟩
      rcases hp with hp | hp <;> simp [Client.isEvicted, hp]
    cases p.swept client with
    | unknown hb => simp [record?, hb] at hr
    | kept hb ha => exact ⟨r, (record?_of_get? ha).trans (hkept hb), hp, hd⟩
    | dropped hb _ _ _ hgone =>
        simp [ChargedMap.isEmpty, SortedMap.not_isEmpty_of_get? (hkept hb)] at hgone

theorem Chain.drivenBy {ps : List (Pass χ)} (hc : Chain d ps d') :
    DrivenBy (d'.record? client seq) attempt ↔ DrivenBy (d.record? client seq) attempt :=
  hc.preserves (P := fun e => DrivenBy (e.record? client seq) attempt ↔
    DrivenBy (d.record? client seq) attempt) .rfl fun p _ h => p.drivenBy.trans h

theorem Valid.not_abandons {op : Op χ} (hd : d.Valid)
    (h : DrivenBy ((d.apply op).dedup.record? client seq) attempt) :
    ¬ Event.Abandons ⟨d, op⟩ client seq := by
  rintro ⟨-, c, hc, ha⟩
  obtain ⟨r, hr, -⟩ := h
  have hnone := ((hd.apply op client c hc).abandoned ha).2.1
  simp [(record?_of_get? hc).symm.trans hr] at hnone

section Tracked

variable {op : Op χ} {id : RequestId} {context : χ}

theorem Event.grants_iff (ht : op.tracked? = some (id, context)) :
    Event.Grants ⟨d, op⟩ client seq attempt ↔
      id.client = client ∧ id.seq = seq ∧ id.attempt = attempt ∧
        (d.apply op).result = .tracked .fresh := by
  simp [Grants, ht, effect]

theorem Event.not_accepts (ht : op.tracked? = some (id, context)) :
    ¬ Event.Accepts ⟨d, op⟩ client seq attempt := by
  obtain ⟨reachable, now, takeOver, rfl⟩ := Op.eq_track ht
  rintro ⟨id', outcome, hop, -⟩
  simp [Op.report?] at hop

/-- The mark is moved first; what it leaves in progress goes on under the attempt that arrives if
that is told to run the request, and else under its driver. -/
theorem Valid.drivenBy_track (hd : d.Valid) (ht : op.tracked? = some (id, context)) :
    DrivenBy ((d.apply op).dedup.record? id.client seq) attempt ↔
      Event.Grants ⟨d, op⟩ id.client seq attempt ∨
        (DrivenBy (d.record? id.client seq) attempt ∧
          ¬ Event.Ends ⟨d, op⟩ id.client seq attempt) := by
  obtain ⟨now, c', replies, phase, ha, hc', -, hp⟩ := hd.tracked ht
  have hgrants (other : AttemptNo) : Event.Grants ⟨d, op⟩ id.client seq other ↔
      id.seq = seq ∧ id.attempt = other ∧ phase = .fresh := by
    simp [Event.grants_iff ht, hp]
  have hmoved : DrivenBy ((d.moved now id).client.records.get? seq) attempt ↔
      DrivenBy (d.record? id.client seq) attempt ∧
        ¬ (d.moved now id).client.abandoned.contains seq = true := by
    simpa only [Dedup.moved, heard_get?] using Client.advance_drivenBy (hd.heard now id.client)
  have hends (h : DrivenBy (d.record? id.client seq) attempt) :
      Event.Ends ⟨d, op⟩ id.client seq attempt ↔ Event.Supersedes ⟨d, op⟩ id.client seq attempt ∨
        (d.moved now id).client.abandoned.contains seq = true := by
    obtain ⟨r, hr, -⟩ := h
    simp [Event.Ends, Event.not_accepts ht, Event.Abandons, Event.effect, hr, hc',
      ha.abandoned_eq]
  rw [record?_of_get? hc', hgrants]
  by_cases hs : id.seq = seq
  · subst hs
    have hsuper (h : DrivenBy ((d.moved now id).client.records.get? id.seq) attempt) :
        Event.Supersedes ⟨d, op⟩ id.client id.seq attempt ↔ phase = .fresh := by
      constructor
      · rintro ⟨⟨other, -, hg⟩, -⟩
        exact ((hgrants other).mp hg).2.2
      · rintro rfl
        obtain ⟨hne, r, hr, hp'⟩ := ha.inProgress h
        refine ⟨⟨id.attempt, hne, (hgrants _).mpr ⟨rfl, rfl, rfl⟩⟩, ?_⟩
        rcases moved_get?_some hr with hr | ⟨_, -, -, rfl, -⟩
        · exact ⟨r, hr, hp'⟩
        · simp at hp'
    rw [ha.drivenBy]
    by_cases hbefore : DrivenBy (d.record? id.client id.seq) attempt
    · rw [hends hbefore]
      grind
    · grind
  · have hsuper : ¬ Event.Supersedes ⟨d, op⟩ id.client seq attempt := by
      rintro ⟨⟨other, -, hg⟩, -⟩
      exact hs ((hgrants other).mp hg).1
    rw [ha.get?_of_ne (Ne.symm hs), hmoved]
    by_cases hbefore : DrivenBy (d.record? id.client seq) attempt
    · simp [hends hbefore, hsuper, hbefore, hs]
    · simp [hbefore, hs]

end Tracked

section Reported

variable {op : Op χ} {id : RequestId} {outcome : Outcome χ}

theorem Op.tracked?_of_report (hop : op.report? = some (id, outcome)) : op.tracked? = none := by
  cases op <;> simp [report?, tracked?] at hop ⊢

theorem Event.accepts_iff (hop : op.report? = some (id, outcome)) :
    Event.Accepts ⟨d, op⟩ client seq attempt ↔
      id.client = client ∧ id.seq = seq ∧ id.attempt = attempt ∧
        (d.apply op).result = .reported .accepted := by
  simp [Accepts, hop, effect]

end Reported

/-- An operation that tracks no attempt of the client's own ends at most what its report ends. -/
theorem Valid.drivenBy_of_not_tracked {op : Op χ} (hd : d.Valid)
    (ht : ∀ id context, op.tracked? = some (id, context) → id.client ≠ client)
    (h : DrivenBy ((d.apply op).dedup.record? client seq) attempt ↔
      DrivenBy (d.record? client seq) attempt ∧ ¬ Event.Accepts ⟨d, op⟩ client seq attempt) :
    DrivenBy ((d.apply op).dedup.record? client seq) attempt ↔
      Event.Grants ⟨d, op⟩ client seq attempt ∨
        (DrivenBy (d.record? client seq) attempt ∧ ¬ Event.Ends ⟨d, op⟩ client seq attempt) := by
  have hgrants (other : AttemptNo) : ¬ Event.Grants ⟨d, op⟩ client seq other := by
    rintro ⟨id, context, ht', hn, -⟩
    exact ht id context ht' hn
  constructor
  · intro hafter
    refine .inr ⟨(h.mp hafter).1, ?_⟩
    rintro (hacc | ⟨⟨other, -, hg⟩, -⟩ | hab)
    · exact (h.mp hafter).2 hacc
    · exact hgrants other hg
    · exact hd.not_abandons hafter hab
  · rintro (hg | ⟨hbefore, hends⟩)
    · exact absurd hg (hgrants attempt)
    · exact h.mpr ⟨hbefore, fun hacc => hends (.inl hacc)⟩

/-- What one operation changes. -/
theorem Valid.drivenBy_apply (hd : d.Valid) (op : Op χ) :
    DrivenBy ((d.apply op).dedup.record? client seq) attempt ↔
      Event.Grants ⟨d, op⟩ client seq attempt ∨
        (DrivenBy (d.record? client seq) attempt ∧ ¬ Event.Ends ⟨d, op⟩ client seq attempt) := by
  have hturn := hd.turn op client
  cases hturn with
  | @tracked _ _ id context _ _ _ _ _ hn =>
      subst hn
      exact hd.drivenBy_track rfl
  | @reported _ id outcome _ c c' verdict hop hn hc ho hh hc' hv =>
      refine hd.drivenBy_of_not_tracked (by simp [Op.tracked?_of_report hop]) ?_
      rw [record?_of_get? hc', record?_of_get? hc, hh.drivenBy ho, Event.accepts_iff hop, hv]
      simp [hn]
  | @unknown _ id outcome _ hop hn hc he =>
      refine hd.drivenBy_of_not_tracked (by simp [Op.tracked?_of_report hop]) ?_
      simp [he, record?, hc]
  | swept hop hchain _ =>
      refine hd.drivenBy_of_not_tracked (by simp [hop.1]) ?_
      simp [hchain.drivenBy, Event.Accepts, hop.2]
  | aside ht hr hc =>
      refine hd.drivenBy_of_not_tracked ht ?_
      have haccepts : ¬ Event.Accepts ⟨d, op⟩ client seq attempt := by
        rintro ⟨id, outcome, hop, hn, -⟩
        exact hr id outcome hop hn
      simp [record?, hc, haccepts]

/-- A report is accepted for a driver, and where nobody drives for whoever has the number that then
stands for one. -/
theorem Valid.report_accepted_iff {id : RequestId} {outcome : Outcome χ} (hd : d.Valid) :
    (d.report id outcome).result = .accepted ↔
      DrivenBy (d.record? id.client id.seq) id.attempt ∨
        (id.attempt = noSeqNo ∧ ∃ r, d.record? id.client id.seq = some r ∧ r.phase = .fresh) := by
  cases hc : d.clients.get? id.client with
  | none => simp [report, hc, record?]
  | some c =>
      have hh : Client.Heard c id outcome _ _ _ := Client.report_heard (hd _ c hc)
      have hresult : (d.report id outcome).result = (c.report id outcome).2 := by
        simp [report, hc]
      rw [hresult, hh.accepted_iff, record?_of_get? hc]
      cases hr : c.records.get? id.seq with
      | none => simp
      | some r => simpa using ((hd _ c hc).placed hr).valid.named_iff id.attempt

end Memory

/-! ## Whole runs -/

/-- Those who hold a request are those who drive its record. -/
theorem holds_iff (settings : DedupSettings) (ops : List (Op χ)) :
    Holds ((start settings).events ops) client seq attempt ↔
      DrivenBy (((start settings).run ops).record? client seq) attempt := by
  induction ops using reverseRecOn with
  | nil => simp [events, not_holds_nil, run, start, record?]
  | append_singleton ops op ih =>
      have hd : ((start settings : Dedup χ).run ops).Valid := (start_valid settings).run ops
      rw [events_concat, run_concat, holds_concat, ih, hd.drivenBy_apply]

/-- At most one attempt holds a request; the memory says of an attempt that it is the driver exactly
when it holds its request; and exactly then its reports are accepted, save that a report in the
number that stands for no driver is accepted for every request that nobody drives. -/
theorem single_authority (settings : DedupSettings) (ops : List (Op χ)) :
    let d := (start settings).run ops
    let es := (start settings).events ops
    let undriven (id : RequestId) :=
      id.attempt = noSeqNo ∧ ∃ r, d.record? id.client id.seq = some r ∧ r.phase = .fresh
    (∀ client seq attempt other,
      Holds es client seq attempt → Holds es client seq other → attempt = other) ∧
    ∀ id : RequestId,
      (d.isDriver id = true ↔ Holds es id.client id.seq id.attempt) ∧
      (∀ now response, (complete now d id response).result = .accepted ↔
        Holds es id.client id.seq id.attempt ∨ undriven id) ∧
      ∀ now status, (fail now d id status).result = .accepted ↔
        Holds es id.client id.seq id.attempt ∨ undriven id := by
  intro d es undriven
  have hd : d.Valid := (start_valid settings).run ops
  have hholds (client : String) (seq : SeqNo) (attempt : AttemptNo) :
      Holds es client seq attempt ↔ DrivenBy (d.record? client seq) attempt :=
    holds_iff settings ops
  simp only [hholds]
  refine ⟨fun client seq attempt other => DrivenBy.unique, fun id => ⟨d.isDriver_iff id, ?_, ?_⟩⟩
  · exact fun now response => hd.report_accepted_iff
  · exact fun now status => hd.report_accepted_iff

/-- A request is free again after its driver has failed. An attempt that waits for it, and was never
told to run it, completes it. -/
theorem unheld_report_accepted :
    let ops : List (Op Nat) :=
      [.track (fun _ => true) ⟨0⟩ ⟨"c", 0, 0, 0⟩ 7 false,
        .track (fun _ => true) ⟨0⟩ ⟨"c", 0, 0, -1⟩ 8 false,
        .fail ⟨0⟩ ⟨"c", 0, 0, 0⟩ (.plain .applicationError "no")]
    let d := (start .standard).run ops
    ((tracked ops).map fun t => t.1.attempt).Nodup ∧
      ¬ Holds ((start .standard).events ops) "c" 0 (-1) ∧
      (complete ⟨0⟩ d ⟨"c", 0, 0, -1⟩ [42]).result = .accepted := by
  intro ops d
  have hdriver : d.isDriver ⟨"c", 0, 0, -1⟩ = false := by decide +kernel
  refine ⟨by decide, fun hholds => ?_, by decide +kernel⟩
  have hdrives := (d.isDriver_iff ⟨"c", 0, 0, -1⟩).mpr ((holds_iff .standard ops).mp hholds)
  simp [hdriver] at hdrives

end OnceOnly.Dedup
