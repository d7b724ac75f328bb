import OnceOnly.Proofs.Requests

/-!
# Runs: operations one after the other, and what each is to one client

Every operation runs to its end: the budget has room for what it charges.
-/

namespace OnceOnly.Dedup

open List

variable {χ : Type}

/-- One operation with all that it reads from outside. -/
inductive Op (χ : Type) where
  | track (reachable : χ → Bool) (now : Instant) (id : RequestId) (context : χ) (takeOver : Bool)
  | complete (now : Instant) (id : RequestId) (response : Bytes)
  | fail (now : Instant) (id : RequestId) (status : ErrorStatus)
  | sweep (now : Instant) (force : Candidate → Bool)
  | collect (now later : Instant) (budget : Budget)

/-- What an operation answers its caller. -/
inductive Result where
  | tracked (phase : Phase)
  | reported (verdict : Verdict)
  | collected (evicted : Nat)
deriving DecidableEq, Repr

def Effect.map {α β : Type} (f : α → β) (e : Effect χ α) : Effect χ β :=
  ⟨e.dedup, e.charges, e.replies, f e.result⟩

/-- A collection answers nobody who waits. -/
def Sweep.effect (s : Sweep (Dedup χ)) : Effect χ Result :=
  ⟨s.rest, s.charges, [], .collected s.evicted⟩

def apply (d : Dedup χ) : Op χ → Effect χ Result
  | .track reachable now id context takeOver =>
    (track reachable now d id context takeOver).map .tracked
  | .complete now id response => (complete now d id response).map .reported
  | .fail now id status => (fail now d id status).map .reported
  | .sweep now force => (sweep now force d).effect
  | .collect now later budget => (collect now later d budget).effect

/-- The attempt that an operation tracks, and the context that it brings. -/
def Op.tracked? : Op χ → Option (RequestId × χ)
  | .track _ _ id context _ => some (id, context)
  | _ => none

/-- The attempt that reports, and what its report makes of the record that it drives. -/
def Op.report? : Op χ → Option (RequestId × Outcome χ)
  | .complete now id response => some (id, completion now id response)
  | .fail now id status => some (id, failure now id status)
  | _ => none

theorem Op.eq_track {op : Op χ} {id : RequestId} {context : χ}
    (h : op.tracked? = some (id, context)) :
    ∃ reachable now takeOver, op = .track reachable now id context takeOver := by
  cases op with
  | track reachable now id' context' takeOver =>
      simp only [tracked?, Option.some.injEq, Prod.mk.injEq] at h
      obtain ⟨rfl, rfl⟩ := h
      exact ⟨reachable, now, takeOver, rfl⟩
  | _ => simp [tracked?] at h

theorem Op.eq_report {op : Op χ} {id : RequestId} {outcome : Outcome χ}
    (h : op.report? = some (id, outcome)) :
    (∃ now response, op = .complete now id response ∧ outcome = completion now id response) ∨
      ∃ now status, op = .fail now id status ∧ outcome = failure now id status := by
  cases op with
  | complete now id' response =>
      simp only [report?, Option.some.injEq, Prod.mk.injEq] at h
      obtain ⟨rfl, rfl⟩ := h
      exact .inl ⟨now, response, rfl, rfl⟩
  | fail now id' status =>
      simp only [report?, Option.some.injEq, Prod.mk.injEq] at h
      obtain ⟨rfl, rfl⟩ := h
      exact .inr ⟨now, status, rfl, rfl⟩
  | _ => simp [report?] at h

/-- An operation in its place in a run. -/
structure Event (χ : Type) where
  before : Dedup χ
  op : Op χ

def Event.effect (e : Event χ) : Effect χ Result := e.before.apply e.op

/-- What is left after all operations of a run. -/
def run (d : Dedup χ) : List (Op χ) → Dedup χ
  | [] => d
  | op :: ops => run (d.apply op).dedup ops

def events (d : Dedup χ) : List (Op χ) → List (Event χ)
  | [] => []
  | op :: ops => ⟨d, op⟩ :: events (d.apply op).dedup ops

theorem run_concat (d : Dedup χ) (ops : List (Op χ)) (op : Op χ) :
    d.run (ops ++ [op]) = ((d.run ops).apply op).dedup := by
  induction ops generalizing d with
  | nil => rfl
  | cons first ops ih => exact ih _

theorem events_concat (d : Dedup χ) (ops : List (Op χ)) (op : Op χ) :
    d.events (ops ++ [op]) = d.events ops ++ [⟨d.run ops, op⟩] := by
  induction ops generalizing d with
  | nil => rfl
  | cons first ops ih => simp only [cons_append, events, run, ih]

/-- An event of a run is an operation on what the operations before it have left. -/
theorem events_split {d : Dedup χ} {ops : List (Op χ)} {before after : List (Event χ)}
    {e : Event χ} (h : d.events ops = before ++ e :: after) :
    ∃ ops₁ op ops₂, ops = ops₁ ++ op :: ops₂ ∧ before = d.events ops₁ ∧ e = ⟨d.run ops₁, op⟩ ∧
      after = ((d.run ops₁).apply op).dedup.events ops₂ := by
  induction before generalizing d ops with
  | nil =>
      cases ops with
      | nil => simp [events] at h
      | cons op ops =>
          simp only [events, nil_append, cons.injEq] at h
          exact ⟨[], op, ops, rfl, rfl, h.1.symm, h.2.symm⟩
  | cons first before ih =>
      cases ops with
      | nil => simp [events] at h
      | cons op ops =>
          simp only [events, cons_append, cons.injEq] at h
          obtain ⟨ops₁, op', ops₂, rfl, rfl, he, ha⟩ := ih h.2
          exact ⟨op :: ops₁, op', ops₂, rfl, by rw [events, h.1], he, ha⟩

/-! ## Collecting pass by pass -/

/-- One pass of a collection over all clients. -/
structure Pass (χ : Type) where
  before : Dedup χ
  now : Instant
  force : Candidate → Bool

def Pass.after (p : Pass χ) : Dedup χ := (p.before.sweep p.now p.force).rest

/-- The passes of an operation: a scheduled collection makes a second one when memory is short. -/
def passes (d : Dedup χ) : Op χ → List (Pass χ)
  | .sweep now force => [⟨d, now, force⟩]
  | .collect now later budget =>
    let first := d.sweep now fun _ => false
    ⟨d, now, fun _ => false⟩ ::
      if (budget.chargeAll first.charges).exceeded then [⟨first.rest, later, first.rest.isOld⟩]
      else []
  | _ => []

/-- Each pass starts from what the one before it left. -/
inductive Chain : Dedup χ → List (Pass χ) → Dedup χ → Prop where
  | nil (d : Dedup χ) : Chain d [] d
  | cons {p : Pass χ} {ps : List (Pass χ)} {d' : Dedup χ} : Chain p.after ps d' → Chain p.before (p :: ps) d'

/-- What every pass keeps, all of them keep. -/
theorem Chain.preserves {P : Dedup χ → Prop} {d d' : Dedup χ} {ps : List (Pass χ)}
    (hc : Chain d ps d') (h : P d) (hp : ∀ p ∈ ps, P p.before → P p.after) : P d' := by
  induction hc with
  | nil => exact h
  | cons _ ih => exact ih (hp _ mem_cons_self h) fun p hm => hp p (mem_cons_of_mem _ hm)

theorem sweep_chain (d : Dedup χ) (now : Instant) (force : Candidate → Bool) :
    Chain d (d.passes (.sweep now force)) (d.apply (.sweep now force)).dedup :=
  .cons (p := ⟨d, now, force⟩) (.nil _)

theorem collect_chain (d : Dedup χ) (now later : Instant) (budget : Budget) :
    Chain d (d.passes (.collect now later budget)) (d.apply (.collect now later budget)).dedup := by
  simp only [passes, apply, Sweep.effect, collect]
  split
  · exact .cons (p := ⟨d, now, fun _ => false⟩) (.cons (p := ⟨_, later, _⟩) (.nil _))
  · exact .cons (p := ⟨d, now, fun _ => false⟩) (.nil _)

/-- What a pass leaves of one client. -/
def Pass.keep (p : Pass χ) (name : String) (c : Client χ) : Option (Client χ) :=
  let rest := (p.before.sweepClient p.now p.force name c).rest
  if p.before.isDropped p.now c rest then none else some rest

theorem Pass.after_clients (p : Pass χ) :
    p.after.clients = (p.before.clients.filterMap p.keep).1 := rfl

theorem Pass.get?_after (p : Pass χ) (name : String) :
    p.after.clients.get? name = p.before.clients.get? name >>= p.keep name := by
  rw [after_clients, ChargedMap.get?_filterMap]

/-- All that a pass can be to one client. Its completed requests go, and it goes as well when it is
idle and neither a request nor a driver is left. -/
inductive Pass.Swept (p : Pass χ) (name : String) : Prop where
  | unknown (hb : p.before.clients.get? name = none) (ha : p.after.clients.get? name = none)
  | kept {c : Client χ} (hb : p.before.clients.get? name = some c)
      (ha : p.after.clients.get? name = some (p.before.sweepClient p.now p.force name c).rest)
  | dropped {c : Client χ} (hb : p.before.clients.get? name = some c)
      (ha : p.after.clients.get? name = none)
      (hi : c.isIdle p.before.settings.clientTtl p.now = true) (hd : c.abandoned.isEmpty = true)
      (hr : (p.before.sweepClient p.now p.force name c).rest.records.isEmpty = true)

theorem Pass.swept (p : Pass χ) (name : String) : p.Swept name := by
  -- For any `f` in the place of `keep`: by computation the settings would be evaluated.
  have hbind (c : Client χ) (f : Client χ → Option (Client χ)) : (some c >>= f) = f c := rfl
  have hget := p.get?_after name
  cases hc : p.before.clients.get? name with
  | none =>
      rw [hc] at hget
      exact .unknown hc hget
  | some c =>
      have ha : (p.before.sweepClient p.now p.force name c).rest.abandoned = c.abandoned :=
        Client.sweep_abandoned
      rw [hc, hbind, keep] at hget
      split at hget
      · rename_i hd
        simp only [isDropped, Client.isGone, Bool.and_eq_true, ha] at hd
        exact .dropped hc hget hd.1.1 hd.2 hd.1.2
      · exact .kept hc hget

theorem Pass.record?_of_after {p : Pass χ} {name : String} {seq : SeqNo} {r : Record χ}
    (hr : p.after.record? name seq = some r) : p.before.record? name seq = some r := by
  simp only [record?, Option.bind_eq_bind, Option.bind_eq_some_iff] at hr ⊢
  obtain ⟨c', hc', hr⟩ := hr
  cases p.swept name with
  | unknown _ ha => simp [ha] at hc'
  | kept hb ha =>
      obtain rfl := Option.some.inj (ha.symm.trans hc')
      exact ⟨_, hb, (Client.sweep_get?_some.mp hr).1⟩
  | dropped _ ha => simp [ha] at hc'

/-! ## What an operation is to one client -/

/-- A client as it is when it is heard from. -/
def heard (d : Dedup χ) (now : Instant) (name : String) : Client χ :=
  { (d.clients.get? name).getD (.start now) with lastHeard := now }

/-- That client after the mark of the request has moved it. -/
def moved (d : Dedup χ) (now : Instant) (id : RequestId) : Change χ :=
  (d.heard now id.client).advance id.client d.settings.stalePolicy id.firstIncomplete

section Moved

variable {d : Dedup χ} {name : String} {seq : SeqNo}

theorem record?_of_get? {c : Client χ} (hc : d.clients.get? name = some c) :
    d.record? name seq = c.records.get? seq := by
  simp [record?, hc]

theorem heard_get? (d : Dedup χ) (now : Instant) (name : String) (seq : SeqNo) :
    (d.heard now name).records.get? seq = d.record? name seq := by
  cases h : d.clients.get? name with
  | none => simp [heard, record?, h, Client.start]
  | some c => simp [heard, record?, h]

variable {now : Instant} {id : RequestId}

theorem moved_get?_some {r : Record χ} (hr : (d.moved now id).client.records.get? seq = some r) :
    d.record? id.client seq = some r ∨
      ∃ r₀, d.record? id.client seq = some r₀ ∧ r₀.phase = .inProgress ∧
        r = { r₀ with phase := .stale } ∧ seq < (d.moved now id).client.staleBefore := by
  simpa only [heard_get?, moved] using Client.advance_get?_some hr

end Moved

/-- All that an operation can be to one client. -/
inductive Turn (d : Dedup χ) (name : String) : Op χ → Effect χ Result → Prop where
  | tracked {reachable now} {id : RequestId} {context takeOver} {e : Effect χ Result}
      {c' replies phase} (hn : id.client = name)
      (ha : Client.Arrived (d.moved now id).client id context now c' replies phase)
      (hc : e.dedup.clients.get? name = some c') (hr : e.replies = (d.moved now id).replies ++ replies)
      (hp : e.result = .tracked phase) : Turn d name (.track reachable now id context takeOver) e
  | reported {op : Op χ} {id : RequestId} {outcome} {e : Effect χ Result} {c c' verdict}
      (hop : op.report? = some (id, outcome)) (hn : id.client = name)
      (hd : d.clients.get? name = some c) (ho : outcome.Lawful id.attempt)
      (hh : Client.Heard c id outcome c' e.replies verdict)
      (hc : e.dedup.clients.get? name = some c') (hv : e.result = .reported verdict) :
      Turn d name op e
  | unknown {op : Op χ} {id : RequestId} {outcome} {e : Effect χ Result}
      (hop : op.report? = some (id, outcome)) (hn : id.client = name)
      (hd : d.clients.get? name = none) (he : e = ⟨d, [], [], .reported (.unknownClient id)⟩) :
      Turn d name op e
  | swept {op : Op χ} {e : Effect χ Result} (hop : op.tracked? = none ∧ op.report? = none)
      (hs : Chain d (d.passes op) e.dedup) (hr : e.replies = []) : Turn d name op e
  | aside {op : Op χ} {e : Effect χ Result}
      (ht : ∀ id context, op.tracked? = some (id, context) → id.client ≠ name)
      (hr : ∀ id outcome, op.report? = some (id, outcome) → id.client ≠ name)
      (hc : e.dedup.clients.get? name = d.clients.get? name) : Turn d name op e

/-- In order: all clients are. -/
def Valid (d : Dedup χ) : Prop :=
  ∀ name c, d.clients.get? name = some c → c.Valid d.settings.stalePolicy

theorem Valid.heard {d : Dedup χ} (hd : d.Valid) (now : Instant) (name : String) :
    (d.heard now name).Valid d.settings.stalePolicy := by
  have hc : ((d.clients.get? name).getD (.start now)).Valid d.settings.stalePolicy := by
    cases hg : d.clients.get? name with
    | none => exact Client.start_valid _ now
    | some c => exact hd name c hg
  exact ⟨hc.mark, fun hr => ⟨(hc.placed hr).valid, (hc.placed hr).below, (hc.placed hr).above⟩,
    hc.abandoned⟩

theorem Valid.moved {d : Dedup χ} (hd : d.Valid) (now : Instant) (id : RequestId) :
    (d.moved now id).client.Valid d.settings.stalePolicy :=
  (hd.heard now id.client).advance

section Track

variable {d : Dedup χ} {reachable : χ → Bool} {now : Instant} {id : RequestId} {context : χ}
  {takeOver : Bool}

/-- The client is opened when it is not known, heard from, moved, and asked. -/
theorem track_eq : track reachable now d id context takeOver =
    let opened := d.clients.insertNew id.client (.start now)
    let entered := (d.moved now id).client.arrive reachable now id context takeOver
    let closed := opened.1.update id.client entered.1.client
    { dedup := { d with clients := closed.1 }
      charges := opened.2 ++ (d.moved now id).charges ++ entered.1.charges ++ closed.2
      replies := (d.moved now id).replies ++ entered.1.replies
      result := entered.2 } := by
  have hg : (d.clients.insertNew id.client (.start now)).1.get? id.client =
      some ((d.clients.get? id.client).getD (.start now)) := by
    simp [ChargedMap.get?_insertNew]
  simp only [track, hg, Option.getD_some]
  rfl

theorem track_get? (name : String) :
    (track reachable now d id context takeOver).dedup.clients.get? name =
      if name = id.client then
        some ((d.moved now id).client.arrive reachable now id context takeOver).1.client
      else d.clients.get? name := by
  rw [track_eq]
  simp only [ChargedMap.get?_update, ChargedMap.get?_insertNew, ite_true, Option.map_some]
  split
  · rfl
  · rfl

end Track

theorem report_lawful {op : Op χ} {id : RequestId} {outcome : Outcome χ}
    (hop : op.report? = some (id, outcome)) : outcome.Lawful id.attempt := by
  rcases Op.eq_report hop with ⟨now, response, -, rfl⟩ | ⟨now, status, -, rfl⟩
  · exact completion_lawful now id response
  · exact failure_lawful now id status

theorem apply_report (d : Dedup χ) {op : Op χ} {id : RequestId} {outcome : Outcome χ}
    (hop : op.report? = some (id, outcome)) :
    d.apply op = (d.report id outcome).map .reported := by
  rcases Op.eq_report hop with ⟨now, response, rfl, rfl⟩ | ⟨now, status, rfl, rfl⟩
  · rfl
  · rfl

theorem Valid.track_arrived {d : Dedup χ} (hd : d.Valid) (reachable : χ → Bool) (now : Instant)
    (id : RequestId) (context : χ) (takeOver : Bool) :
    ∃ c' replies phase, Client.Arrived (d.moved now id).client id context now c' replies phase ∧
      (d.apply (.track reachable now id context takeOver)).dedup.clients.get? id.client = some c' ∧
      (d.apply (.track reachable now id context takeOver)).replies =
        (d.moved now id).replies ++ replies ∧
      (d.apply (.track reachable now id context takeOver)).result = .tracked phase := by
  refine ⟨_, _, _, Client.arrive_arrived (hd.moved now id) reachable takeOver, ?_, ?_, ?_⟩
  · simp [apply, Effect.map, track_get?]
  · simp [apply, Effect.map, track_eq]
  · simp [apply, Effect.map, track_eq]

/-- What an attempt that is tracked comes to. -/
theorem Valid.tracked {d : Dedup χ} (hd : d.Valid) {op : Op χ} {id : RequestId} {context : χ}
    (ht : op.tracked? = some (id, context)) :
    ∃ now c' replies phase,
      Client.Arrived (d.moved now id).client id context now c' replies phase ∧
        (d.apply op).dedup.clients.get? id.client = some c' ∧
        (d.apply op).replies = (d.moved now id).replies ++ replies ∧
        (d.apply op).result = .tracked phase := by
  obtain ⟨reachable, now, takeOver, rfl⟩ := Op.eq_track ht
  exact ⟨now, hd.track_arrived reachable now id context takeOver⟩

theorem report_get?_of_ne (d : Dedup χ) {id : RequestId} (outcome : Outcome χ) {name : String}
    (hne : name ≠ id.client) :
    (d.report id outcome).dedup.clients.get? name = d.clients.get? name := by
  cases hc : d.clients.get? id.client with
  | none => simp [report, hc]
  | some c => simp [report, hc, ChargedMap.get?_update, hne]

/-- An operation is one of these to every client. -/
theorem Valid.turn {d : Dedup χ} (hd : d.Valid) (op : Op χ) (name : String) :
    Turn d name op (d.apply op) := by
  have hreport {id : RequestId} {outcome : Outcome χ} (hop : op.report? = some (id, outcome))
      (ht : op.tracked? = none) : Turn d name op (d.apply op) := by
    rw [d.apply_report hop]
    by_cases hn : id.client = name
    · cases hc : d.clients.get? id.client with
      | none =>
          simp only [report, hc]
          exact .unknown hop hn (hn ▸ hc) rfl
      | some c =>
          have hh : Client.Heard c id outcome _ _ _ := Client.report_heard (hd _ c hc)
          simp only [report, hc]
          refine .reported hop hn (hn ▸ hc) (report_lawful hop) hh ?_ rfl
          simp [Effect.map, ChargedMap.get?_update, hn, hn ▸ hc]
    · refine .aside (by simp [ht]) ?_ (d.report_get?_of_ne outcome (Ne.symm hn))
      intro id' outcome' hop'
      simp only [hop, Option.some.injEq, Prod.mk.injEq] at hop'
      exact hop'.1 ▸ hn
  cases op with
  | track reachable now id context takeOver =>
      by_cases hn : id.client = name
      · obtain ⟨c', replies, phase, ha, hc, hr, hp⟩ :=
          hd.track_arrived reachable now id context takeOver
        exact .tracked hn ha (hn ▸ hc) hr hp
      · refine .aside ?_ (by simp [Op.report?]) ?_
        · intro id' context' ht
          simp only [Op.tracked?, Option.some.injEq, Prod.mk.injEq] at ht
          exact ht.1 ▸ hn
        · simp [apply, Effect.map, track_get?, Ne.symm hn]
  | complete now id response => exact hreport rfl rfl
  | fail now id status => exact hreport rfl rfl
  | sweep now force => exact .swept ⟨rfl, rfl⟩ (d.sweep_chain now force) rfl
  | collect now later budget =>
      refine .swept ⟨rfl, rfl⟩ (d.collect_chain now later budget) ?_
      simp only [apply, Sweep.effect]

theorem Valid.report_replies {d : Dedup χ} (hd : d.Valid) {op : Op χ} {id : RequestId}
    {outcome : Outcome χ} {reply : Reply χ} (hop : op.report? = some (id, outcome))
    (hm : reply ∈ (d.apply op).replies) : (d.apply op).result = .reported .accepted ∧
      ∃ r, d.record? id.client id.seq = some r ∧ r.driver = id.attempt ∧
        reply ∈ (outcome r).2.1 := by
  rw [d.apply_report hop] at hm ⊢
  cases hc : d.clients.get? id.client with
  | none => simp [report, hc, Effect.map] at hm
  | some c =>
      have hh : Client.Heard c id outcome _ _ _ := Client.report_heard (hd _ c hc)
      simp only [report, hc, Effect.map] at hm
      obtain ⟨hv, r, hr, hd, hm⟩ := hh.mem_replies hm
      exact ⟨by simp [report, hc, Effect.map, hv], r, (record?_of_get? hc).trans hr, hd, hm⟩

/-! ## Runs keep everything in order -/

@[simp] theorem apply_settings (d : Dedup χ) (op : Op χ) :
    (d.apply op).dedup.settings = d.settings := by
  have hreport (id : RequestId) (outcome : Outcome χ) :
      (d.report id outcome).dedup.settings = d.settings := by
    cases hc : d.clients.get? id.client <;> simp [report, hc]
  cases op with
  | track => simp [apply, Effect.map, track_eq]
  | complete => exact hreport _ _
  | fail => exact hreport _ _
  | sweep => rfl
  | collect now later budget =>
      simp only [apply, Sweep.effect, collect]
      split <;> rfl

theorem Valid.pass {p : Pass χ} (hd : p.before.Valid) : p.after.Valid := by
  intro name c' hc'
  cases p.swept name with
  | unknown _ ha => simp [ha] at hc'
  | kept hb ha =>
      obtain rfl := Option.some.inj (ha.symm.trans hc')
      exact (hd name _ hb).sweep
  | dropped _ ha => simp [ha] at hc'

theorem Valid.chain {d d' : Dedup χ} {ps : List (Pass χ)} (hc : Chain d ps d') (hd : d.Valid) :
    d'.Valid :=
  hc.preserves hd fun _ _ => Valid.pass

theorem Valid.apply {d : Dedup χ} (hd : d.Valid) (op : Op χ) : (d.apply op).dedup.Valid := by
  intro name c' hc'
  rw [apply_settings]
  cases hd.turn op name with
  | @tracked _ now id _ _ _ _ _ _ hn ha hc =>
      obtain rfl := Option.some.inj (hc.symm.trans hc')
      exact ha.valid (hd.moved now id)
  | reported hop hn hg ho hh hc =>
      obtain rfl := Option.some.inj (hc.symm.trans hc')
      exact hh.valid (hd name _ hg) ho
  | unknown hop hn hg he => simp [he, hg] at hc'
  | swept hop hs =>
      have hv := hd.chain hs name c' hc'
      rwa [apply_settings] at hv
  | aside ht hr hc => exact hd name c' (hc ▸ hc')

theorem start_valid (settings : DedupSettings) : (start settings : Dedup χ).Valid := by
  intro name c hc
  simp [start] at hc

theorem Valid.run {d : Dedup χ} (hd : d.Valid) (ops : List (Op χ)) : (d.run ops).Valid := by
  induction ops generalizing d with
  | nil => exact hd
  | cons op ops ih => exact ih (hd.apply op)

@[simp] theorem run_settings (d : Dedup χ) (ops : List (Op χ)) :
    (d.run ops).settings = d.settings := by
  induction ops generalizing d with
  | nil => rfl
  | cons op ops ih => simp [Dedup.run, ih]

end OnceOnly.Dedup
