import OnceOnly.Proofs.Waiters

/-! # Drivers: an attempt that was told to run its request can report while it is the only one -/

namespace OnceOnly.Dedup

open List

variable {χ : Type} {seq : SeqNo} {attempts : List AttemptNo}

/-! ## What vouches for the only attempt that runs -/

namespace Client

/-- What a client holds of a request that these attempts are running: nobody drives the record, or
the only one that runs drives it, or its request has been given up. -/
inductive Guarded (c : Client χ) (seq : SeqNo) : List AttemptNo → Prop where
  | idle (hr : ∀ r, c.records.get? seq = some r → r.phase = .completed ∨ r.phase = .fresh) :
      Guarded c seq []
  | driven {r : Record χ} {attempt : AttemptNo} (hr : c.records.get? seq = some r)
      (hp : r.phase = .inProgress ∨ r.phase = .stale) (hd : r.driver = attempt) :
      Guarded c seq [attempt]
  | abandoned {attempt : AttemptNo} (ha : c.abandoned.contains seq = true) :
      Guarded c seq [attempt]

variable {policy : StalePolicy} {c c' : Client χ} {id : RequestId} {now : Instant}

theorem Guarded.length_le (h : c.Guarded seq attempts) : attempts.length ≤ 1 := by
  cases h <;> simp

theorem Guarded.of_same (h : c.Guarded seq attempts)
    (hr : c'.records.get? seq = c.records.get? seq)
    (ha : c.abandoned.contains seq = true → c'.abandoned.contains seq = true) :
    c'.Guarded seq attempts := by
  cases h with
  | idle h => exact .idle (hr ▸ h)
  | driven h hp hd => exact .driven (hr.trans h) hp hd
  | abandoned h => exact .abandoned (ha h)

theorem Guarded.advance (name : String) (policy : StalePolicy) (mark : SeqNo)
    (h : c.Guarded seq attempts) : (c.advance name policy mark).client.Guarded seq attempts := by
  cases h with
  | idle hr =>
      refine .idle fun r' hr' => ?_
      rcases advance_get?_some hr' with hr' | ⟨r, hr', hp, -, -⟩
      · exact hr r' hr'
      · have hidle := hr r hr'
        simp [hp] at hidle
  | @driven r _ hr hp hd =>
      have hset : Settled policy (c.advance name policy mark).client seq r := advance_settled hr
      cases hset with
      | kept hr => exact .driven hr hp hd
      | stale _ _ hr => exact .driven hr (.inr rfl) hd
      | released hp' => simp [hp'] at hp
      | abandoned _ _ _ ha => exact .abandoned ha
  | abandoned ha => exact .abandoned (abandoned_advance ha)

/-- An attempt that is told to run the request is the only one, unless it takes over. -/
theorem Guarded.arrived {context : χ} {replies : List (Reply χ)} {phase : Phase}
    (hc : c.Valid policy) (h : c.Guarded id.seq attempts)
    (ha : Arrived c id context now c' replies phase)
    (hone : phase = .fresh → attempts = []) :
    c'.Guarded id.seq (if phase = .fresh then id.attempt :: attempts else attempts) := by
  cases h with
  | idle hidle =>
      cases ha with
      | @joined r r' _ _ hr hj =>
          have hr' : (c.records.update id.seq r').1.get? id.seq = some r' := by
            simp [ChargedMap.get?_update, hr]
          have hph := hidle r hr
          cases hj with
          | replayed =>
              refine .idle fun r₀ hr₀ => ?_
              obtain rfl := Option.some.inj (hr'.symm.trans hr₀)
              exact hph
          | drives => exact .driven hr' (.inl rfl) rfl
          | tookOver hp => simp [hp] at hph
          | waits hp => simp [hp] at hph
          | waitsStale hp => simp [hp] at hph
      | refused => exact .idle hidle
      | started =>
          have hr' : (c.records.insert id.seq (.start id.attempt context now)).1.get? id.seq =
              some (Record.start id.attempt context now) := by
            simp [ChargedMap.get?_insert]
          exact .driven hr' (.inl rfl) rfl
  | @driven r₀ _ hr₀ hp₀ hd₀ =>
      cases ha with
      | @joined r r' _ _ hr hj =>
          obtain rfl := Option.some.inj (hr₀.symm.trans hr)
          have hr' : (c.records.update id.seq r').1.get? id.seq = some r' := by
            simp [ChargedMap.get?_update, hr]
          cases hj with
          | tookOver => simp at hone
          | drives hp => simp [hp] at hp₀
          | replayed _ hp => simp [hp] at hp₀
          | waits hp => exact .driven hr' hp₀ hd₀
          | waitsStale hp => exact .driven hr' hp₀ hd₀
      | refused hr => simp [hr] at hr₀
      | started hr => simp [hr] at hr₀
  | abandoned hab =>
      obtain ⟨hlt, hnone, -⟩ := hc.abandoned hab
      cases ha with
      | joined hr => simp [hnone] at hr
      | refused => exact .abandoned hab
      | started _ hn => exact absurd hlt hn

/-- The report of the only attempt that runs settles its request. -/
theorem Guarded.heard {outcome : Outcome χ} {replies : List (Reply χ)} {verdict : Verdict}
    (hc : c.Valid policy) (ho : outcome.Lawful id.attempt) (h : c.Guarded id.seq [id.attempt])
    (hh : Heard c id outcome c' replies verdict) : c'.Guarded id.seq [] := by
  cases h with
  | @driven r₀ _ hr₀ hp₀ hd₀ =>
      cases hh with
      | missing hr => simp [hr] at hr₀
      | alreadyCompleted hr hp =>
          obtain rfl := Option.some.inj (hr₀.symm.trans hr)
          simp [hp] at hp₀
      | notDriver hr _ hd =>
          obtain rfl := Option.some.inj (hr₀.symm.trans hr)
          exact absurd hd₀ hd
      | kept hr _ _ hg =>
          refine .idle fun r' hr' => ?_
          simp only [ChargedMap.get?_update, ite_true, hr, Option.map_some,
            Option.some.injEq] at hr'
          subst hr'
          exact (ho.phase hg).imp_right And.right
      | erased => exact .idle fun r' hr' => by simp [ChargedMap.get?_erase] at hr'
  | abandoned hab =>
      have hnone := (hc.abandoned hab).2.1
      cases hh with
      | missing => exact .idle fun r' hr' => by simp [hnone] at hr'
      | alreadyCompleted hr => simp [hnone] at hr
      | notDriver hr => simp [hnone] at hr
      | kept hr => simp [hnone] at hr
      | erased hr => simp [hnone] at hr

/-- A collection leaves what is at work, and with it the client. -/
theorem Guarded.sweep {name : String} {idle : Bool} {force : Candidate → Bool}
    (h : c.Guarded seq attempts) :
    (c.sweep now name idle force).rest.Guarded seq attempts := by
  cases h with
  | idle hr => exact .idle fun r hr' => hr r (sweep_get?_some.mp hr').1
  | driven hr hp hd =>
      refine .driven (sweep_get?_some.mpr ⟨hr, ?_⟩) hp hd
      rcases hp with hp | hp <;> simp [isEvicted, hp]
  | abandoned ha => exact .abandoned ha

theorem Guarded.eq_nil (h : c.Guarded seq attempts) (hr : c.records.isEmpty = true)
    (ha : c.abandoned.isEmpty = true) : attempts = [] := by
  cases h with
  | idle => rfl
  | driven hr' => simp [ChargedMap.isEmpty, SortedMap.not_isEmpty_of_get? hr'] at hr
  | abandoned ha' =>
      obtain ⟨a, hget⟩ := Option.isSome_iff_exists.mp ha'
      simp [SortedMap.not_isEmpty_of_get? hget] at ha

end Client

/-! ## Attempts that run -/

/-- Who runs a request after an event: an attempt that is told to run it comes in, one that reports
goes out. -/
def Event.running (client : String) (seq : SeqNo) (attempts : List AttemptNo) (e : Event χ) :
    List AttemptNo :=
  match e.op with
  | .track _ _ id _ _ =>
    if id.client = client ∧ id.seq = seq ∧ e.effect.result = .tracked .fresh then
      id.attempt :: attempts
    else attempts
  | .complete _ id _ | .fail _ id _ =>
    if id.client = client ∧ id.seq = seq then attempts.erase id.attempt else attempts
  | _ => attempts

/-- The attempts at a request that were told to run it and have not reported. -/
def running (client : String) (seq : SeqNo) (es : List (Event χ)) : List AttemptNo :=
  es.foldl (Event.running client seq) []

theorem running_concat (client : String) (seq : SeqNo) (es : List (Event χ)) (e : Event χ) :
    running client seq (es ++ [e]) = e.running client seq (running client seq es) := by
  simp [running]

/-- Two attempts at a request were running at some time. -/
def Overlapped (client : String) (seq : SeqNo) (es : List (Event χ)) : Prop :=
  ∃ before, before <+: es ∧ 1 < (running client seq before).length

/-- The runs in which callers keep their side: every attempt number is natural and tracked at most
once, and an attempt reports at most once, after it was told to run the request. -/
inductive Orderly (settings : DedupSettings) : List (Op χ) → Prop where
  | nil : Orderly settings []
  | concat {ops : List (Op χ)} {op : Op χ} (h : Orderly settings ops)
      (ht : ∀ id context, op.tracked? = some (id, context) → 0 ≤ id.attempt ∧
        ∀ t ∈ tracked ops, ¬ (t.1.client = id.client ∧ t.1.seq = id.seq ∧ t.1.attempt = id.attempt))
      (hr : ∀ id outcome, op.report? = some (id, outcome) →
        id.attempt ∈ running id.client id.seq ((start settings).events ops)) :
      Orderly settings (ops ++ [op])

/-- What is held while these attempts run a request; nobody runs one for a client that is not
known. -/
def Guarded (d : Dedup χ) (client : String) (seq : SeqNo) (attempts : List AttemptNo) : Prop :=
  match d.clients.get? client with
  | none => attempts = []
  | some c => c.Guarded seq attempts

/-- The client is known, and holds the request or has its mark above it. -/
def Vouches (d : Dedup χ) (client : String) (seq : SeqNo) : Prop :=
  ∃ c, d.clients.get? client = some c ∧ (c.records.get? seq ≠ none ∨ seq < c.staleBefore)

variable {d d' : Dedup χ} {client : String}

theorem guarded_of_get? {c : Client χ} (hc : d.clients.get? client = some c) :
    Guarded d client seq attempts ↔ c.Guarded seq attempts := by
  simp [Guarded, hc]

theorem Guarded.length_le (h : Guarded d client seq attempts) : attempts.length ≤ 1 := by
  cases hc : d.clients.get? client with
  | none => simp_all [Guarded]
  | some c => exact ((guarded_of_get? hc).mp h).length_le

/-- Whoever runs a request is vouched for. -/
theorem Guarded.vouches {attempt : AttemptNo} (hd : d.Valid)
    (h : Guarded d client seq [attempt]) : d.Vouches client seq := by
  cases hc : d.clients.get? client with
  | none => simp [Guarded, hc] at h
  | some c =>
      cases (guarded_of_get? hc).mp h with
      | driven hr => exact ⟨c, hc, .inl (by simp [hr])⟩
      | abandoned ha => exact ⟨c, hc, .inr ((hd client c hc).abandoned ha).1⟩

theorem Guarded.moved {id : RequestId} (h : Guarded d id.client seq attempts) (now : Instant) :
    (d.moved now id).client.Guarded seq attempts := by
  refine Client.Guarded.advance _ _ _ ?_
  cases hc : d.clients.get? id.client with
  | none =>
      simp only [Guarded, hc] at h
      subst h
      exact .idle fun r hr => by simp [heard_get?, record?, hc] at hr
  | some c =>
      have hc' := (guarded_of_get? hc).mp h
      exact hc'.of_same (by simp [heard, hc]) (by simp [heard, hc])

theorem Guarded.pass {p : Pass χ} (h : Guarded p.before client seq attempts) :
    Guarded p.after client seq attempts := by
  cases p.swept client with
  | unknown hb ha =>
      simp only [Guarded, hb] at h
      simpa only [Guarded, ha] using h
  | kept hb ha => exact (guarded_of_get? ha).mpr ((guarded_of_get? hb).mp h).sweep
  | dropped hb ha _ hd hr =>
      have hsweep : (p.before.sweepClient p.now p.force client _).rest.Guarded seq attempts :=
        ((guarded_of_get? hb).mp h).sweep
      simpa only [Guarded, ha] using hsweep.eq_nil hr hd

theorem Guarded.chain {ps : List (Pass χ)} (hc : Chain d ps d')
    (h : Guarded d client seq attempts) : Guarded d' client seq attempts :=
  hc.preserves (P := fun e => Guarded e client seq attempts) h fun _ _ => Guarded.pass

theorem running_of_report {op : Op χ} {id : RequestId} {outcome : Outcome χ}
    (hop : op.report? = some (id, outcome)) : Event.running client seq attempts ⟨d, op⟩ =
      if id.client = client ∧ id.seq = seq then attempts.erase id.attempt else attempts := by
  rcases Op.eq_report hop with ⟨now, response, rfl, -⟩ | ⟨now, status, rfl, -⟩
  · rfl
  · rfl

theorem Guarded.apply {op : Op χ} (hd : d.Valid) (h : Guarded d client seq attempts)
    (hone : (Event.running client seq attempts ⟨d, op⟩).length ≤ 1)
    (hrun : ∀ id outcome, op.report? = some (id, outcome) → id.client = client → id.seq = seq →
      id.attempt ∈ attempts) :
    Guarded (d.apply op).dedup client seq (Event.running client seq attempts ⟨d, op⟩) := by
  have hturn := hd.turn op client
  cases hturn with
  | @tracked _ now id context _ _ c' _ phase hn ha hc' _ hp =>
      subst hn
      refine (guarded_of_get? hc').mpr ?_
      simp only [Event.running, Event.effect, hp, true_and, Result.tracked.injEq] at hone ⊢
      by_cases hs : id.seq = seq
      · subst hs
        simp only [true_and] at hone ⊢
        refine (h.moved now).arrived (hd.moved now id) ha fun hf => ?_
        simpa [hf] using hone
      · simp only [hs, false_and, ite_false]
        exact (h.moved now).of_same (ha.get?_of_ne (Ne.symm hs))
          fun hab => ha.abandoned_eq ▸ hab
  | @reported _ id outcome _ c c' verdict hop hn hc ho hh hc' _ =>
      subst hn
      refine (guarded_of_get? hc').mpr ?_
      have hold := (guarded_of_get? hc).mp h
      rw [running_of_report hop]
      by_cases hs : id.seq = seq
      · subst hs
        obtain rfl : attempts = [id.attempt] :=
          eq_singleton_of_mem h.length_le (hrun id outcome hop rfl rfl)
        simpa using hold.heard (hd _ c hc) ho hh
      · simp only [hs, and_false, ite_false]
        exact hold.of_same (hh.get?_of_ne (Ne.symm hs)) (hh.abandoned_of_ne (Ne.symm hs))
  | @unknown _ id outcome _ hop hn hc he =>
      obtain rfl : attempts = [] := by simpa [Guarded, hc] using h
      rw [running_of_report hop, he]
      simpa using h
  | swept hop hchain _ =>
      have hsame : Event.running client seq attempts ⟨d, op⟩ = attempts := by
        cases op <;> simp_all [Op.tracked?, Op.report?, Event.running]
      rw [hsame]
      exact h.chain hchain
  | aside ht hr hc =>
      have hsame : Event.running client seq attempts ⟨d, op⟩ = attempts := by
        cases op with
        | track _ _ id context _ => exact if_neg fun hk => ht id context rfl hk.1
        | complete _ id _ => exact if_neg fun hk => hr id _ rfl hk.1
        | fail _ id _ => exact if_neg fun hk => hr id _ rfl hk.1
        | _ => rfl
      rw [hsame]
      simpa only [Guarded, hc] using h

/-! ## Whole runs -/

section Orderly

variable {settings : DedupSettings} {ops : List (Op χ)} {op : Op χ}

theorem Orderly.track {reachable : χ → Bool} {now : Instant} {id : RequestId} {context : χ}
    {takeOver : Bool} (h : Orderly settings ops) (hnat : 0 ≤ id.attempt)
    (hnew : ∀ t ∈ tracked ops,
      ¬ (t.1.client = id.client ∧ t.1.seq = id.seq ∧ t.1.attempt = id.attempt)) :
    Orderly settings (ops ++ [.track reachable now id context takeOver]) := by
  refine h.concat ?_ (by simp [Op.report?])
  intro id' context' ht
  simp only [Op.tracked?, Option.some.injEq, Prod.mk.injEq] at ht
  obtain ⟨rfl, rfl⟩ := ht
  exact ⟨hnat, hnew⟩

theorem Orderly.report {id : RequestId} {outcome : Outcome χ} (h : Orderly settings ops)
    (hop : op.report? = some (id, outcome))
    (hrun : id.attempt ∈ running id.client id.seq ((start settings).events ops)) :
    Orderly settings (ops ++ [op]) := by
  refine h.concat ?_ ?_
  · intro id' context ht
    cases op <;> simp [Op.report?, Op.tracked?] at hop ht
  · intro id' outcome' hop'
    simp only [hop, Option.some.injEq, Prod.mk.injEq] at hop'
    exact hop'.1 ▸ hrun

theorem Orderly.collect (h : Orderly settings ops)
    (hop : op.tracked? = none ∧ op.report? = none) : Orderly settings (ops ++ [op]) :=
  h.concat (by simp [hop.1]) (by simp [hop.2])

end Orderly

theorem Orderly.guarded {settings : DedupSettings} {ops : List (Op χ)} (h : Orderly settings ops)
    (ho : ¬ Overlapped client seq ((start settings).events ops)) :
    Guarded ((start settings).run ops) client seq
      (running client seq ((start settings).events ops)) := by
  induction h with
  | nil => simp [Guarded, Dedup.run, start, running, events]
  | @concat ops op h ht hr ih =>
      rw [events_concat] at ho ⊢
      have hearlier : ¬ Overlapped client seq ((start settings).events ops) := by
        rintro ⟨before, hb, hlt⟩
        exact ho ⟨before, hb.trans (prefix_append _ _), hlt⟩
      have hone : (running client seq ((start settings).events ops ++ [⟨_, op⟩])).length ≤ 1 :=
        Nat.le_of_not_lt fun hlt => ho ⟨_, prefix_rfl, hlt⟩
      rw [run_concat]
      rw [running_concat] at hone ⊢
      refine (ih hearlier).apply ((start_valid settings).run ops) hone ?_
      rintro id outcome hop rfl rfl
      exact hr id outcome hop

/-- A report is taken, accepted or refused, exactly for what the memory vouches for. -/
theorem Valid.taken_iff {op : Op χ} {id : RequestId} {outcome : Outcome χ} (hd : d.Valid)
    (hop : op.report? = some (id, outcome)) :
    (∃ verdict, (d.apply op).result = .reported verdict ∧ verdict.misuse? = none) ↔
      d.Vouches id.client id.seq := by
  rw [d.apply_report hop]
  cases hc : d.clients.get? id.client with
  | none => simp [report, hc, Effect.map, Vouches, Verdict.misuse?]
  | some c =>
      have hh : Client.Heard c id outcome _ _ _ := Client.report_heard (hd _ c hc)
      have hresult : ((d.report id outcome).map .reported).result =
          Result.reported (c.report id outcome).2 := by
        simp [report, hc, Effect.map]
      have hvouches : d.Vouches id.client id.seq ↔
          (c.records.get? id.seq ≠ none ∨ id.seq < c.staleBefore) := by
        simp [Vouches, hc]
      rw [hresult, hvouches]
      generalize (c.report id outcome).2 = verdict at hh
      generalize (c.report id outcome).1.client = c', (c.report id outcome).1.replies = replies at hh
      simp only [Result.reported.injEq, exists_eq_left']
      cases hh with
      | missing hr =>
          by_cases hs : id.seq < c.staleBefore
          · simp [hs, Verdict.misuse?]
          · simp [hs, hr, Verdict.misuse?]
      | alreadyCompleted hr => simp [hr, Verdict.misuse?]
      | notDriver hr => simp [hr, Verdict.misuse?]
      | kept hr => simp [hr, Verdict.misuse?]
      | erased hr => simp [hr, Verdict.misuse?]

/-- An attempt that was told to run its request can report exactly while no two attempts have run
the request at a time, or the memory still vouches for it otherwise. -/
theorem report_taken_iff (settings : DedupSettings) (ops : List (Op χ)) (op : Op χ)
    (h : Orderly settings (ops ++ [op])) (id : RequestId) (outcome : Outcome χ)
    (hop : op.report? = some (id, outcome)) :
    (∃ verdict, (((start settings).run ops).apply op).result = .reported verdict ∧
        verdict.misuse? = none) ↔
      ¬ Overlapped id.client id.seq ((start settings).events ops) ∨
        ((start settings).run ops).Vouches id.client id.seq := by
  have hd : ((start settings : Dedup χ).run ops).Valid := (start_valid settings).run ops
  have hvouches : ¬ Overlapped id.client id.seq ((start settings).events ops) →
      ((start settings).run ops).Vouches id.client id.seq := by
    intro ho
    generalize hops : ops ++ [op] = all at h
    cases h with
    | nil => simp at hops
    | concat h _ hr =>
        obtain ⟨rfl, hlast⟩ := append_inj' hops rfl
        obtain rfl : op = _ := by simpa using hlast
        have hguarded := h.guarded ho
        rw [eq_singleton_of_mem hguarded.length_le (hr id outcome hop)] at hguarded
        exact hguarded.vouches hd
  rw [hd.taken_iff hop]
  constructor
  · exact .inr
  · rintro (ho | hv)
    · exact hvouches ho
    · exact hv

/-- A driver that was given up reports late. -/
theorem report_taken_iff_given_up :
    let settings : DedupSettings := { DedupSettings.standard with stalePolicy := .abandonEarly }
    let ops : List (Op Nat) :=
      [.track (fun _ => true) ⟨0⟩ ⟨"c", 0, 0, 0⟩ 7 false,
        .track (fun _ => true) ⟨0⟩ ⟨"c", 1, 1, 0⟩ 8 false]
    let op : Op Nat := .complete ⟨0⟩ ⟨"c", 0, 0, 0⟩ [42]
    Orderly settings (ops ++ [op]) ∧
      ((∃ verdict, (((start settings).run ops).apply op).result = .reported verdict ∧
          verdict.misuse? = none) ↔
        ¬ Overlapped "c" 0 ((start settings).events ops) ∨
          ((start settings).run ops).Vouches "c" 0) := by
  intro settings ops op
  have horderly : Orderly settings (ops ++ [op]) := by
    refine .report (.track (.track .nil ?_ ?_) ?_ ?_) rfl ?_
    all_goals decide
  exact ⟨horderly, report_taken_iff settings ops op horderly _ _ rfl⟩

/-- An attempt takes over a request that is given up later. The report of the attempt before it
uses up what was kept of the request, the client goes, and the driver cannot report. -/
theorem driver_forgotten :
    let settings : DedupSettings := ⟨1000, 0, 10000, none, .abandonEarly⟩
    let ops : List (Op Nat) :=
      [.track (fun _ => false) ⟨0⟩ ⟨"c", 0, 0, 0⟩ 7 false,
        .track (fun _ => false) ⟨0⟩ ⟨"c", 0, 0, 1⟩ 8 true,
        .track (fun _ => false) ⟨0⟩ ⟨"c", 5, 5, 0⟩ 9 false,
        .complete ⟨0⟩ ⟨"c", 5, 5, 0⟩ [42], .complete ⟨0⟩ ⟨"c", 0, 0, 0⟩ [42],
        .sweep ⟨0⟩ fun _ => false]
    let op : Op Nat := .complete ⟨0⟩ ⟨"c", 0, 0, 1⟩ [42]
    Orderly settings (ops ++ [op]) ∧
      (((start settings).run ops).apply op).result =
        .reported (.unknownClient ⟨"c", 0, 0, 1⟩) := by
  intro settings ops op
  refine ⟨?_, by decide +kernel⟩
  refine .report (.collect (.report (.report (.track (.track (.track .nil ?_ ?_) ?_ ?_) ?_ ?_)
    rfl ?_) rfl ?_) ⟨rfl, rfl⟩) rfl ?_
  all_goals decide

end OnceOnly.Dedup
