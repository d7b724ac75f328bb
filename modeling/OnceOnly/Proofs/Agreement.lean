import OnceOnly.Proofs.Waiters

/-! # Agreement: one response is accepted for a request, and all that is told of it is that response -/

namespace OnceOnly.Dedup

open List

variable {χ : Type} {seq : SeqNo} {responses : List Bytes}

/-! ## What one client's records recall -/

namespace Client

/-- What a client holds of a request for which these responses have been accepted: the only one is
cached, or is forgotten below the mark. -/
inductive Recalls (c : Client χ) (seq : SeqNo) : List Bytes → Prop where
  | unanswered (hr : ∀ r, c.records.get? seq = some r → r.phase ≠ .completed) : Recalls c seq []
  | cached {r : Record χ} {response : Bytes} (hr : c.records.get? seq = some r)
      (hp : r.phase = .completed) (hc : r.response = some response) : Recalls c seq [response]
  | forgotten {response : Bytes} (hr : c.records.get? seq = none) (hs : seq < c.staleBefore) :
      Recalls c seq [response]

variable {policy : StalePolicy} {c c' : Client χ} {id : RequestId} {now : Instant}

theorem Recalls.length_le (h : c.Recalls seq responses) : responses.length ≤ 1 := by
  cases h <;> simp

theorem Recalls.eq_nil {r : Record χ} (h : c.Recalls seq responses)
    (hr : c.records.get? seq = some r) (hp : r.phase ≠ .completed) : responses = [] := by
  cases h with
  | unanswered => rfl
  | cached hr' hp' => exact absurd (Option.some.inj (hr'.symm.trans hr) ▸ hp') hp
  | forgotten hr' => simp [hr] at hr'

theorem Recalls.of_same (h : c.Recalls seq responses)
    (hr : c'.records.get? seq = c.records.get? seq) (hm : c.staleBefore ≤ c'.staleBefore) :
    c'.Recalls seq responses := by
  cases h with
  | unanswered h => exact .unanswered (hr ▸ h)
  | cached h hp hc => exact .cached (hr.trans h) hp hc
  | forgotten h hs => exact .forgotten (hr.trans h) (by grind)

theorem Recalls.advance (name : String) (policy : StalePolicy) (mark : SeqNo)
    (h : c.Recalls seq responses) : (c.advance name policy mark).client.Recalls seq responses := by
  cases h with
  | unanswered hr =>
      refine .unanswered fun r' hr' => ?_
      rcases advance_get?_some hr' with hr' | ⟨_, -, -, rfl, -⟩
      · exact hr r' hr'
      · simp
  | @cached r _ hr hp hc =>
      have hset : Settled policy (c.advance name policy mark).client seq r := advance_settled hr
      cases hset with
      | kept hr => exact .cached hr hp hc
      | stale hp' => simp [hp] at hp'
      | released hp' => simp [hp] at hp'
      | abandoned hp' => simp [hp] at hp'
  | forgotten hr hs =>
      have hle := c.staleBefore_le_advance name policy mark
      exact .forgotten (advance_get?_none hr) (by grind)

section Arrived

variable {context : χ} {replies : List (Reply χ)} {phase : Phase}

theorem Recalls.arrived (h : c.Recalls seq responses)
    (ha : Arrived c id context now c' replies phase) : c'.Recalls seq responses := by
  by_cases hs : seq = id.seq
  · subst hs
    cases ha with
    | @joined r r' _ _ hr hj =>
        cases h with
        | unanswered hn =>
            refine .unanswered fun r₀ hr₀ => ?_
            simp only [ChargedMap.get?_update, ite_true, hr, Option.map_some,
              Option.some.injEq] at hr₀
            subst hr₀
            exact fun hp => hn r hr (hj.completed (.inr hp)).1
        | cached hr' hp hc =>
            obtain rfl := Option.some.inj (hr'.symm.trans hr)
            obtain ⟨-, rfl⟩ := hj.completed (.inl hp)
            exact .cached (by simp [ChargedMap.get?_update, hr]) hp hc
        | forgotten hr' => simp [hr] at hr'
    | refused => exact h
    | started hr hn =>
        cases h with
        | unanswered =>
            refine .unanswered fun r₀ hr₀ => ?_
            simp only [ChargedMap.get?_insert, ite_true, Option.some.injEq] at hr₀
            simp [← hr₀, Record.start]
        | cached hr' => simp [hr] at hr'
        | forgotten _ hs => exact absurd hs hn
  · exact h.of_same (ha.get?_of_ne hs) (by rw [ha.staleBefore_eq]; grind)

/-- A request that has been answered is not run again. -/
theorem Recalls.not_fresh {response : Bytes} (h : c.Recalls id.seq [response])
    (ha : Arrived c id context now c' replies phase) : phase ≠ .fresh := by
  cases ha with
  | joined hr hj =>
      cases h with
      | cached hr' hp hc =>
          obtain rfl := Option.some.inj (hr'.symm.trans hr)
          cases hj <;> simp_all
      | forgotten hr' => simp [hr] at hr'
  | refused => simp
  | started hr hn =>
      cases h with
      | cached hr' => simp [hr] at hr'
      | forgotten _ hs => exact absurd hs hn

end Arrived

section Heard

variable {outcome : Outcome χ} {replies : List (Reply χ)} {verdict : Verdict}

/-- A report that is not accepted for the request has no part in it. -/
theorem Recalls.aside (h : c.Recalls seq responses)
    (hh : Heard c id outcome c' replies verdict) (hn : id.seq = seq → verdict ≠ .accepted) :
    c'.Recalls seq responses := by
  by_cases hs : seq = id.seq
  · subst hs
    cases hh with
    | missing => exact h.of_same rfl (by grind)
    | alreadyCompleted => exact h
    | notDriver => exact h
    | kept => exact absurd rfl (hn rfl)
    | erased => exact absurd rfl (hn rfl)
  · exact h.of_same (hh.get?_of_ne hs) (by rw [hh.staleBefore_eq]; grind)

/-- A completion is accepted only as the first. -/
theorem Recalls.completed {response : Bytes} (h : c.Recalls id.seq responses)
    (hh : Heard c id (completion now id response) c' replies .accepted) :
    responses = [] ∧ c'.Recalls id.seq [response] := by
  generalize hv : Verdict.accepted = verdict at hh
  cases hh with
  | @kept r hr hp hd hg =>
      refine ⟨h.eq_nil hr hp, .cached (r := (completion now id response r).1) ?_ rfl rfl⟩
      simp [ChargedMap.get?_update, hr]
  | erased _ _ _ hg => simp [completion] at hg
  | missing => split at hv <;> simp at hv
  | _ => simp at hv

theorem Recalls.failed {status : ErrorStatus} (h : c.Recalls id.seq responses)
    (hh : Heard c id (failure now id status) c' replies .accepted) :
    c'.Recalls id.seq responses := by
  generalize hv : Verdict.accepted = verdict at hh
  cases hh with
  | @kept r hr hp hd hg =>
      obtain rfl := h.eq_nil hr hp
      refine .unanswered fun r' hr' => ?_
      simp only [ChargedMap.get?_update, ite_true, hr, Option.map_some, Option.some.injEq] at hr'
      simp [← hr', (failure_kept hg).2]
  | erased hr hp =>
      obtain rfl := h.eq_nil hr hp
      exact .unanswered fun r' hr' => by simp [ChargedMap.get?_erase] at hr'
  | missing => split at hv <;> simp at hv
  | _ => simp at hv

end Heard

/-- A collection takes a completed request below the mark, and above it only a selected one. -/
theorem Recalls.sweep {name : String} {force : Candidate → Bool} (h : c.Recalls seq responses)
    (hforce : ∀ r, c.records.get? seq = some r → r.phase = .completed → c.staleBefore ≤ seq →
      force (candidate now name seq r) = false) :
    (c.sweep now name false force).rest.Recalls seq responses := by
  cases h with
  | unanswered hr => exact .unanswered fun r hr' => hr r (sweep_get?_some.mp hr').1
  | @cached r _ hr hp hc =>
      by_cases hs : seq < c.staleBefore
      · exact .forgotten (by simp [sweep_get?, hr, isEvicted, isExpired, hp, hs]) hs
      · have hf := hforce r hr hp (by grind)
        exact .cached (sweep_get?_some.mpr ⟨hr, by simp [isEvicted, isExpired, hs, hf]⟩) hp hc
  | forgotten hr hs => exact .forgotten (by simp [sweep_get?, hr]) hs

end Client

/-! ## What the memory recalls -/

/-- The response that an operation has accepted for a request. -/
def Event.accepted? (e : Event χ) (client : String) (seq : SeqNo) : Option Bytes :=
  match e.op with
  | .complete _ id response =>
    if id.client = client ∧ id.seq = seq ∧ e.effect.result = .reported .accepted then some response
    else none
  | _ => none

/-- The responses that a run has accepted for a request. -/
def answers (client : String) (seq : SeqNo) (es : List (Event χ)) : List Bytes :=
  es.filterMap fun e => e.accepted? client seq

theorem answers_append (client : String) (seq : SeqNo) (es₁ es₂ : List (Event χ)) :
    answers client seq (es₁ ++ es₂) = answers client seq es₁ ++ answers client seq es₂ :=
  filterMap_append

theorem mem_answers {es : List (Event χ)} {e : Event χ} {client : String} {response : Bytes}
    (he : e ∈ es) (ha : e.accepted? client seq = some response) :
    response ∈ answers client seq es :=
  mem_filterMap.mpr ⟨e, he, ha⟩

/-- A pass that does not find the client idle, and selects no request of it that it could take. -/
def Pass.Spares (p : Pass χ) (client : String) : Prop :=
  ∀ c, p.before.clients.get? client = some c → c.isIdle p.before.settings.clientTtl p.now = false ∧
    ∀ seq r, c.records.get? seq = some r → r.phase = .completed → c.staleBefore ≤ seq →
      p.force (Client.candidate p.now client seq r) = false

/-- So do all passes of an operation. -/
def Event.Spares (e : Event χ) (client : String) : Prop :=
  ∀ p ∈ e.before.passes e.op, p.Spares client

/-- What is held of a request for which these responses have been accepted; nothing has been
accepted for a client that is not known. -/
def Recalls (d : Dedup χ) (client : String) (seq : SeqNo) (responses : List Bytes) : Prop :=
  match d.clients.get? client with
  | none => responses = []
  | some c => c.Recalls seq responses

variable {d d' : Dedup χ} {client : String}

theorem recalls_of_get? {c : Client χ} (hc : d.clients.get? client = some c) :
    Recalls d client seq responses ↔ c.Recalls seq responses := by
  simp [Recalls, hc]

theorem Recalls.length_le (h : Recalls d client seq responses) : responses.length ≤ 1 := by
  cases hc : d.clients.get? client with
  | none => simp_all [Recalls]
  | some c => exact ((recalls_of_get? hc).mp h).length_le

theorem Recalls.eq_of_completed {r : Record χ} {response : Bytes}
    (h : Recalls d client seq responses) (hr : d.record? client seq = some r)
    (hp : r.phase = .completed) (hres : r.response = some response) : responses = [response] := by
  cases hc : d.clients.get? client with
  | none => simp [record?, hc] at hr
  | some c =>
      rw [record?_of_get? hc] at hr
      cases (recalls_of_get? hc).mp h with
      | unanswered hn => exact absurd hp (hn r hr)
      | cached hr' _ hres' =>
          obtain rfl := Option.some.inj (hr'.symm.trans hr)
          rw [Option.some.inj (hres'.symm.trans hres)]
      | forgotten hr' => simp [hr'] at hr

theorem Recalls.moved {id : RequestId} (h : Recalls d id.client seq responses) (now : Instant) :
    (d.moved now id).client.Recalls seq responses := by
  refine Client.Recalls.advance _ _ _ ?_
  cases hc : d.clients.get? id.client with
  | none =>
      simp only [Recalls, hc] at h
      subst h
      exact .unanswered fun r hr => by simp [heard_get?, record?, hc] at hr
  | some c =>
      have hc' := (recalls_of_get? hc).mp h
      exact hc'.of_same (by simp [heard, hc]) (by simp [heard, hc])

theorem Recalls.pass {p : Pass χ} (h : Recalls p.before client seq responses)
    (hs : p.Spares client) : Recalls p.after client seq responses := by
  cases p.swept client with
  | unknown hb ha =>
      simp only [Recalls, hb] at h
      simpa only [Recalls, ha] using h
  | @kept c hb ha =>
      obtain ⟨hidle, hforce⟩ := hs c hb
      refine (recalls_of_get? ha).mpr ?_
      rw [sweepClient, hidle]
      exact ((recalls_of_get? hb).mp h).sweep (hforce seq)
  | dropped hb _ hi => simp [(hs _ hb).1] at hi

theorem Recalls.chain {ps : List (Pass χ)} (hc : Chain d ps d')
    (h : Recalls d client seq responses) (hs : ∀ p ∈ ps, p.Spares client) :
    Recalls d' client seq responses :=
  hc.preserves (P := fun e => Recalls e client seq responses) h fun p hp h => h.pass (hs p hp)

/-- What a report leaves to recall: what its operation has accepted comes to what was accepted. -/
theorem Recalls.reported {op : Op χ} {id : RequestId} {outcome : Outcome χ} {c c' : Client χ}
    {replies : List (Reply χ)} {verdict : Verdict} (h : c.Recalls seq responses)
    (hop : op.report? = some (id, outcome)) (hn : id.client = client)
    (hh : Client.Heard c id outcome c' replies verdict)
    (he : (d.apply op).result = .reported verdict) :
    c'.Recalls seq (responses ++ (Event.accepted? ⟨d, op⟩ client seq).toList) := by
  rcases Op.eq_report hop with ⟨now, response, rfl, rfl⟩ | ⟨now, status, rfl, rfl⟩
  · by_cases hk : id.seq = seq ∧ verdict = .accepted
    · obtain ⟨rfl, rfl⟩ := hk
      obtain ⟨rfl, hc'⟩ := h.completed hh
      simpa [Event.accepted?, Event.effect, hn, he] using hc'
    · have hc' := h.aside hh fun hs hv => hk ⟨hs, hv⟩
      have hnone : Event.accepted? ⟨d, .complete now id response⟩ client seq = none := by
        refine if_neg ?_
        rintro ⟨-, hs, hv⟩
        refine hk ⟨hs, ?_⟩
        simpa [Event.effect, he] using hv
      simpa [hnone] using hc'
  · have hnone : Event.accepted? ⟨d, .fail now id status⟩ client seq = none := rfl
    rw [hnone, Option.toList_none, append_nil]
    by_cases hk : id.seq = seq ∧ verdict = .accepted
    · obtain ⟨rfl, rfl⟩ := hk
      exact h.failed hh
    · exact h.aside hh fun hs hv => hk ⟨hs, hv⟩

theorem Recalls.apply {op : Op χ} (hd : d.Valid) (h : Recalls d client seq responses)
    (hs : Event.Spares ⟨d, op⟩ client) :
    Recalls (d.apply op).dedup client seq
      (responses ++ (Event.accepted? ⟨d, op⟩ client seq).toList) := by
  have hnone (ho : ∀ now id response, op = .complete now id response →
      id.client = client → (d.apply op).result ≠ .reported .accepted) :
      Event.accepted? ⟨d, op⟩ client seq = none := by
    cases op with
    | complete now id response => exact if_neg fun hk => ho now id response rfl hk.1 hk.2.2
    | _ => rfl
  have hturn := hd.turn op client
  cases hturn with
  | tracked hn ha hc' =>
      subst hn
      rw [hnone (by simp), Option.toList_none, append_nil]
      exact (recalls_of_get? hc').mpr ((h.moved _).arrived ha)
  | reported hop hn hc ho hh hc' he =>
      exact (recalls_of_get? hc').mpr
        (Recalls.reported ((recalls_of_get? hc).mp h) hop hn hh he)
  | unknown hop hn hc he =>
      rw [hnone (by simp [he]), Option.toList_none, append_nil, he]
      exact h
  | swept hop hc hr =>
      rw [hnone, Option.toList_none, append_nil]
      · exact h.chain hc hs
      · rintro now id response rfl
        simp [Op.report?] at hop
  | aside ht hr hc =>
      rw [hnone, Option.toList_none, append_nil]
      · simpa only [Recalls, hc] using h
      · rintro now id response rfl hn
        exact absurd hn (hr _ _ rfl)

theorem Recalls.run {ops : List (Op χ)} (hd : d.Valid) (h : Recalls d client seq responses)
    (hs : ∀ e ∈ d.events ops, e.Spares client) :
    Recalls (d.run ops) client seq (responses ++ answers client seq (d.events ops)) := by
  induction ops generalizing d responses with
  | nil => simpa [Dedup.run, events, answers] using h
  | cons op ops ih =>
      have hop : Recalls (d.apply op).dedup client seq _ := h.apply hd (hs _ (by simp [events]))
      have hops := ih (hd.apply op) hop fun e he => hs e (by simp [events, he])
      rw [append_assoc] at hops
      have hanswers : answers client seq (d.events (op :: ops)) =
          (Event.accepted? ⟨d, op⟩ client seq).toList ++
            answers client seq ((d.apply op).dedup.events ops) := by
        cases ha : Event.accepted? ⟨d, op⟩ client seq <;> simp [answers, events, ha]
      rw [hanswers]
      exact hops

/-! ## Where successes come from -/

/-- How an attempt comes to be told of a response: from the cache when it is tracked, or from its
queue when the response is accepted. -/
inductive Succeeded (d : Dedup χ) (op : Op χ) (context : χ) (response : Bytes) : Prop where
  | replayed {id : RequestId} {r : Record χ} (ht : op.tracked? = some (id, context))
      (hr : d.record? id.client id.seq = some r) (hp : r.phase = .completed)
      (hc : r.response = some response)
  | drained {now : Instant} {id : RequestId} {w : Waiter χ} (hop : op = .complete now id response)
      (hv : (d.apply op).result = .reported .accepted)
      (hw : ((id.client, id.seq), w) ∈ d.queued) (hx : w.context = context)

theorem succeeded_of_reply {op : Op χ} {context : χ} {response : Bytes} (hd : d.Valid)
    (hr : ⟨context, .success response⟩ ∈ (d.apply op).replies) :
    Succeeded d op context response := by
  cases op with
  | track reachable now id context' takeOver =>
      obtain ⟨_, replies, _, ha, -, hreplies, -⟩ :=
        hd.track_arrived reachable now id context' takeOver
      rw [hreplies, mem_append] at hr
      rcases hr with hr | hr
      · obtain ⟨_, _, _, -, -, -, he⟩ := Client.mem_advance_replies hr
        simp at he
      · obtain ⟨rfl, r, hr, hp, hc⟩ := ha.success hr
        rcases moved_get?_some hr with hr | ⟨_, -, -, rfl, -⟩
        · exact .replayed rfl hr hp hc
        · simp at hp
  | complete now id response' =>
      obtain ⟨hv, r, hrec, hdriver, hr⟩ := hd.report_replies rfl hr
      simp only [completion, Record.complete_eq hdriver, Record.repliesTo, mem_map,
        Reply.mk.injEq, Answer.success.injEq] at hr
      obtain ⟨w, hw, hx, rfl⟩ := hr
      exact .drained rfl hv (mem_queued.mpr ⟨r, hrec, hw⟩) hx
  | fail now id status =>
      obtain ⟨-, r, -, -, hr⟩ := hd.report_replies rfl hr
      rcases r.fail_eq now id.attempt status with ⟨-, hf⟩ | ⟨-, hf⟩
      · simp [failure, hf, Record.repliesTo] at hr
      · simp [failure, hf, Record.repliesTo] at hr
  | sweep now force => simp [apply, Sweep.effect] at hr
  | collect now later budget => simp [apply, Sweep.effect] at hr

/-! ## Whole runs -/

theorem Recalls.not_fresh {op : Op χ} {id : RequestId} {context : χ} {response : Bytes}
    (hd : d.Valid) (h : Recalls d id.client id.seq [response])
    (ht : op.tracked? = some (id, context)) : (d.apply op).result ≠ .tracked .fresh := by
  obtain ⟨now, _, _, phase, ha, -, -, hp⟩ := hd.tracked ht
  rw [hp, ne_eq, Result.tracked.injEq]
  exact (h.moved now).not_fresh ha

theorem start_recalls (settings : DedupSettings) (client : String) (seq : SeqNo) :
    Recalls (start settings : Dedup χ) client seq [] := by
  simp [Recalls, start]

section Run

variable {settings : DedupSettings} {ops : List (Op χ)}

/-- Before every event of a run that spares the client, what was accepted up to it is recalled. -/
theorem recalls_before {before after : List (Event χ)} {e : Event χ}
    (hs : ∀ e ∈ (start settings).events ops, e.Spares client)
    (he : (start settings).events ops = before ++ e :: after) (seq : SeqNo) :
    e.before.Valid ∧ Recalls e.before client seq (answers client seq before) := by
  obtain ⟨ops₁, op, ops₂, rfl, rfl, rfl, -⟩ := events_split he
  have hv : (start settings : Dedup χ).Valid := start_valid settings
  refine ⟨hv.run ops₁, ?_⟩
  refine Recalls.run hv (start_recalls settings client seq) fun e he' => hs e ?_
  rw [he]
  exact mem_append_left _ he'

/-- A success that is told for no other request tells of an accepted response. -/
theorem mem_answers_of_reply (hs : ∀ e ∈ (start settings).events ops, e.Spares client)
    {e : Event χ} (he : e ∈ (start settings).events ops) {context : χ} {response : Bytes}
    (hr : ⟨context, .success response⟩ ∈ e.effect.replies)
    (hown : ∀ t ∈ tracked ops, t.2 = context → t.1.client = client ∧ t.1.seq = seq) :
    response ∈ answers client seq ((start settings).events ops) := by
  obtain ⟨before, after, hsplit⟩ := append_of_mem he
  obtain ⟨hv, hrec⟩ := recalls_before hs hsplit seq
  obtain ⟨ops₁, op, ops₂, rfl, rfl, rfl, -⟩ := events_split hsplit
  rw [hsplit]
  cases succeeded_of_reply hv hr with
  | @replayed id r ht hr hp hc =>
      have hmem : (id, context) ∈ tracked (ops₁ ++ op :: ops₂) :=
        mem_filterMap.mpr ⟨op, by simp, ht⟩
      obtain ⟨rfl, rfl⟩ := hown _ hmem rfl
      have hcached : response ∈ answers id.client id.seq ((start settings).events ops₁) := by
        simp [hrec.eq_of_completed hr hp hc]
      rw [answers_append]
      exact mem_append_left _ hcached
  | @drained now id w hop hacc hw hx =>
      subst hop
      obtain ⟨t, ht, hq⟩ := tracked_of_queued hw
      simp only [entryOf, Prod.mk.injEq] at hq
      obtain ⟨⟨hclient, hseq⟩, rfl⟩ := hq
      have hmem : t ∈ tracked (ops₁ ++ .complete now id response :: ops₂) := by
        simp only [tracked, filterMap_append, mem_append]
        exact .inl ht
      obtain ⟨hc, hs⟩ := hown t hmem hx
      refine mem_answers (e := ⟨_, .complete now id response⟩) mem_append_cons_self ?_
      exact if_pos ⟨hclient.trans hc, hseq.trans hs, hacc⟩

/-- Unless its client is found idle or its records are selected, a request is completed at most
once; then it is never to be run again, and whoever is told of a success, before or after, is told
of that response. A context that was handed in for other requests too may succeed with theirs. -/
theorem completed_once (settings : DedupSettings) (ops : List (Op χ)) (client : String)
    (seq : SeqNo) (hs : ∀ e ∈ (start settings).events ops, e.Spares client) :
    let es := (start settings).events ops
    (answers client seq es).length ≤ 1 ∧
      ∀ before e after response, es = before ++ e :: after →
        e.accepted? client seq = some response →
        (∀ e' ∈ after, ∀ id context, e'.op.tracked? = some (id, context) → id.client = client →
          id.seq = seq → e'.effect.result ≠ .tracked .fresh) ∧
        ∀ e' ∈ es, ∀ context told, ⟨context, .success told⟩ ∈ e'.effect.replies →
          (∀ t ∈ tracked ops, t.2 = context → t.1.client = client ∧ t.1.seq = seq) →
          told = response := by
  intro es
  have hlength : (answers client seq es).length ≤ 1 :=
    ((start_recalls settings client seq).run (start_valid settings) hs).length_le
  refine ⟨hlength, fun before e after response he ha => ⟨?_, ?_⟩⟩
  · intro e' he' id context ht hclient hseq
    subst hclient hseq
    obtain ⟨before', after', rfl⟩ := append_of_mem he'
    have hsplit : es = (before ++ e :: before') ++ e' :: after' := by simp [he]
    obtain ⟨hv, hrec⟩ := recalls_before hs hsplit id.seq
    have hone : answers id.client id.seq (before ++ e :: before') = [response] :=
      eq_singleton_of_mem hrec.length_le (mem_answers mem_append_cons_self ha)
    rw [hone] at hrec
    exact hrec.not_fresh hv ht
  · intro e' he' context told hr hown
    have htold := mem_answers_of_reply hs he' hr hown
    have hone : answers client seq es = [response] :=
      eq_singleton_of_mem hlength (mem_answers (he ▸ mem_append_cons_self) ha)
    simpa [es, hone] using htold

/-- A completed request is collected below the mark before its retry comes. Its one response has
gone to the attempt that waited, and the retry is refused. -/
theorem completed_once_collected :
    let ops : List (Op Nat) :=
      [.track (fun _ => true) ⟨0⟩ ⟨"c", 0, 0, 0⟩ 7 false, .complete ⟨0⟩ ⟨"c", 0, 0, 0⟩ [42],
        .track (fun _ => true) ⟨0⟩ ⟨"c", 1, 1, 0⟩ 8 false, .sweep ⟨0⟩ fun _ => false,
        .track (fun _ => true) ⟨0⟩ ⟨"c", 0, 0, 1⟩ 9 false]
    let es := (start .standard).events ops
    (∀ e ∈ es, e.Spares "c") ∧ answers "c" 0 es = [[42]] ∧
      ∃ before completion after retry, es = before ++ completion :: after ∧
        completion.accepted? "c" 0 = some [42] ∧
        ⟨7, .success [42]⟩ ∈ completion.effect.replies ∧
        (∀ e ∈ es, ∀ told, ⟨7, .success told⟩ ∈ e.effect.replies → told = [42]) ∧
        retry ∈ after ∧ retry.op.tracked? = some (⟨"c", 0, 0, 1⟩, 9) ∧
        retry.effect.result ≠ .tracked .fresh ∧ retry.effect.result = .tracked .stale := by
  intro ops es
  have hs : ∀ e ∈ es, e.Spares "c" := by
    intro e he
    simp only [es, ops, events, mem_cons, not_mem_nil, or_false] at he
    rcases he with rfl | rfl | rfl | rfl | rfl
    · simp [Event.Spares, passes]
    · simp [Event.Spares, passes]
    · simp [Event.Spares, passes]
    · intro p hp c hc
      simp only [passes, mem_singleton] at hp
      subst hp
      refine ⟨?_, fun _ _ _ _ _ => rfl⟩
      have hheard : some c.lastHeard = some ⟨0⟩ := by
        rw [← Option.map_some, ← hc]
        rfl
      simp only [Client.isIdle, Option.some.inj hheard, apply_settings, start]
      decide
    · simp [Event.Spares, passes]
  obtain ⟨hlength, hcompleted⟩ := completed_once .standard ops "c" 0 hs
  have hsplit : es = (start .standard).events (ops.take 1) ++
      ⟨(start .standard).run (ops.take 1), .complete ⟨0⟩ ⟨"c", 0, 0, 0⟩ [42]⟩ ::
        ((start .standard).run (ops.take 2)).events (ops.drop 2) := rfl
  obtain ⟨hfresh, htold⟩ := hcompleted _ _ _ [42] hsplit rfl
  have hone : answers "c" 0 es = [[42]] :=
    eq_singleton_of_mem hlength (mem_answers (hsplit ▸ mem_append_cons_self) rfl)
  have hretry : ⟨(start .standard).run (ops.take 4), .track (fun _ => true) ⟨0⟩ ⟨"c", 0, 0, 1⟩ 9
      false⟩ ∈ ((start .standard).run (ops.take 2)).events (ops.drop 2) :=
    .tail _ (.tail _ (.head _))
  have hown : ∀ t ∈ tracked ops, t.2 = 7 → t.1.client = "c" ∧ t.1.seq = 0 := by decide
  exact ⟨hs, hone, _, _, _, _, hsplit, rfl, .head _, fun e he told hr => htold e he 7 told hr hown,
    hretry, rfl, hfresh _ hretry _ _ rfl rfl rfl, rfl⟩

end Run

end OnceOnly.Dedup
