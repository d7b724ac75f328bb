import Mathlib.Data.List.Nodup
import OnceOnly.Proofs.Run

/-! # Waiters: every context that was handed in waits in one place or has been answered once -/

namespace OnceOnly.Dedup

open List

variable {χ : Type}

/-- The attempts that the operations track, with the contexts that they bring. -/
def tracked (ops : List (Op χ)) : List (RequestId × χ) := ops.filterMap Op.tracked?

/-- All replies of a run, in order. -/
def sent (es : List (Event χ)) : List (Reply χ) := es.flatMap fun e => e.effect.replies

/-- All that is queued, each entry with the request whose record holds it. -/
def queued (d : Dedup χ) : List ((String × SeqNo) × Waiter χ) :=
  d.clients.toList.flatMap fun c => c.2.records.toList.flatMap fun r =>
    r.2.waiting.map fun w => ((c.1, r.1), w)

/-- The contexts that wait, each as often as it is queued. -/
def contexts (d : Dedup χ) : List χ := d.clients.toList.flatMap fun c => c.2.contexts

theorem queued_contexts (d : Dedup χ) : d.queued.map (fun q => q.2.context) = d.contexts := by
  simp [queued, contexts, Client.contexts, Record.contexts, map_flatMap, Function.comp_def]

theorem mem_queued {d : Dedup χ} {name : String} {seq : SeqNo} {w : Waiter χ} :
    ((name, seq), w) ∈ d.queued ↔ ∃ r, d.record? name seq = some r ∧ w ∈ r.waiting := by
  simp only [queued, mem_flatMap, mem_map, Prod.exists, Prod.mk.injEq, record?,
    Option.bind_eq_bind, Option.bind_eq_some_iff]
  constructor
  · rintro ⟨name', c, hc, seq', r, hr, w', hw, ⟨rfl, rfl⟩, rfl⟩
    exact ⟨r, ⟨c, ChargedMap.mem_toList_iff.mp hc, ChargedMap.mem_toList_iff.mp hr⟩, hw⟩
  · rintro ⟨r, ⟨c, hc, hr⟩, hw⟩
    exact ⟨name, c, ChargedMap.mem_toList_iff.mpr hc, seq, r, ChargedMap.mem_toList_iff.mpr hr, w,
      hw, ⟨rfl, rfl⟩, rfl⟩

/-! ## One operation loses nobody and answers nobody twice -/

/-- One client's contexts and those of the others. -/
theorem contexts_perm (d : Dedup χ) (name : String) :
    d.contexts ~ ((d.clients.get? name).map Client.contexts).getD [] ++
      (d.clients.others name).flatMap fun c => c.2.contexts := by
  have h := (d.clients.toList_perm name).flatMap_right fun c => c.2.contexts
  cases hc : d.clients.get? name <;> simpa [hc, contexts] using h

theorem heard_contexts (d : Dedup χ) (now : Instant) (name : String) :
    (d.heard now name).contexts = ((d.clients.get? name).map Client.contexts).getD [] := by
  cases h : d.clients.get? name with
  | none => simp only [heard, h]; rfl
  | some c => simp only [heard, h]; rfl

theorem track_contexts {d : Dedup χ} (hd : d.Valid) (reachable : χ → Bool) (now : Instant)
    (id : RequestId) (context : χ) (takeOver : Bool) :
    (track reachable now d id context takeOver).dedup.contexts ++
      (track reachable now d id context takeOver).replies.map Reply.context ~
      d.contexts ++ [context] := by
  have ha : Client.Arrived (d.moved now id).client id context now _ _ _ :=
    Client.arrive_arrived (hd.moved now id) reachable takeOver
  have hmoved : (d.moved now id).client.contexts ++ (d.moved now id).replies.map Reply.context ~
      (d.heard now id.client).contexts := Client.advance_contexts
  have hopen : (d.clients.insertNew id.client (.start now)).1.get? id.client =
      some ((d.clients.get? id.client).getD (.start now)) := by
    simp [ChargedMap.get?_insertNew]
  rw [track_eq]
  generalize (d.moved now id).client.arrive reachable now id context takeOver = entered at ha
  have hnew := ((ChargedMap.toList_update_perm hopen entered.1.client).trans
    ((d.clients.others_insertNew_perm id.client _).cons _)).flatMap_right fun c => c.2.contexts
  have hold := d.contexts_perm id.client
  rw [← d.heard_contexts now] at hold
  rw [flatMap_cons] at hnew
  generalize (d.clients.others id.client).flatMap (fun c => c.2.contexts) = rest at hnew hold
  simp only [contexts, map_append]
  calc _
    _ ~ (entered.1.client.contexts ++ rest) ++ ((d.moved now id).replies.map Reply.context ++
          entered.1.replies.map Reply.context) := hnew.append_right _
    _ ~ (entered.1.client.contexts ++ rest) ++ (entered.1.replies.map Reply.context ++
          (d.moved now id).replies.map Reply.context) := perm_append_comm.append_left _
    _ = (entered.1.client.contexts ++ rest ++ entered.1.replies.map Reply.context) ++
          (d.moved now id).replies.map Reply.context := by simp
    _ ~ ((entered.1.client.contexts ++ entered.1.replies.map Reply.context) ++ rest) ++
          (d.moved now id).replies.map Reply.context := (perm_append_right_comm ..).append_right _
    _ ~ (((d.moved now id).client.contexts ++ [context]) ++ rest) ++
          (d.moved now id).replies.map Reply.context :=
        (ha.contexts_perm.append_right _).append_right _
    _ ~ (((d.moved now id).client.contexts ++ rest) ++ [context]) ++
          (d.moved now id).replies.map Reply.context := (perm_append_right_comm ..).append_right _
    _ ~ (((d.moved now id).client.contexts ++ rest) ++
          (d.moved now id).replies.map Reply.context) ++ [context] := perm_append_right_comm ..
    _ ~ (((d.moved now id).client.contexts ++
          (d.moved now id).replies.map Reply.context) ++ rest) ++ [context] :=
        (perm_append_right_comm ..).append_right _
    _ ~ ((d.heard now id.client).contexts ++ rest) ++ [context] :=
        (hmoved.append_right _).append_right _
    _ ~ d.contexts ++ [context] := hold.symm.append_right _

theorem report_contexts {d : Dedup χ} (hd : d.Valid) {id : RequestId} {outcome : Outcome χ}
    (ho : outcome.Lawful id.attempt) : (d.report id outcome).dedup.contexts ++
      (d.report id outcome).replies.map Reply.context ~ d.contexts := by
  cases hc : d.clients.get? id.client with
  | none => simp [report, hc]
  | some c =>
      have hh : Client.Heard c id outcome _ _ _ := Client.report_heard (hd _ c hc)
      simp only [report, hc]
      generalize c.report id outcome = change at hh
      have hnew := (ChargedMap.toList_update_perm hc change.1.client).flatMap_right
        fun c => c.2.contexts
      have hold := d.contexts_perm id.client
      simp only [hc, Option.map_some, Option.getD_some, flatMap_cons] at hold hnew
      generalize (d.clients.others id.client).flatMap (fun c => c.2.contexts) = rest at hnew hold
      calc _
        _ ~ (change.1.client.contexts ++ rest) ++ change.1.replies.map Reply.context :=
            hnew.append_right _
        _ ~ (change.1.client.contexts ++ change.1.replies.map Reply.context) ++ rest :=
            perm_append_right_comm ..
        _ ~ c.contexts ++ rest := (hh.contexts_perm ho).append_right _
        _ ~ d.contexts := hold.symm

theorem Pass.contexts_eq {p : Pass χ} (hd : p.before.Valid) :
    p.after.contexts = p.before.contexts := by
  simp only [contexts, after_clients]
  refine ChargedMap.flatMap_filterMap fun c hc => ?_
  have hs : (p.before.sweepClient p.now p.force c.1 c.2).rest.contexts = c.2.contexts :=
    (hd _ _ (ChargedMap.mem_toList_iff.mp hc)).sweep_contexts
  rw [keep]
  split
  · rename_i hdrop
    simp only [isDropped, Client.isGone, Bool.and_eq_true] at hdrop
    have hnil := (SortedMap.isEmpty_iff _).mp hdrop.1.2
    rw [← hs]
    simp [Client.contexts, ChargedMap.toList, hnil]
  · simp [hs]

theorem Chain.contexts_eq {d d' : Dedup χ} {ps : List (Pass χ)} (hc : Chain d ps d')
    (hd : d.Valid) : d'.contexts = d.contexts :=
  (hc.preserves (P := fun e => e.Valid ∧ e.contexts = d.contexts) ⟨hd, rfl⟩
    fun _ _ h => ⟨h.1.pass, (Pass.contexts_eq h.1).trans h.2⟩).2

/-- Who waited before an operation, and whom it tracks, waits after it or is answered by it. -/
theorem apply_contexts {d : Dedup χ} (hd : d.Valid) (op : Op χ) :
    (d.apply op).dedup.contexts ++ (d.apply op).replies.map Reply.context ~
      d.contexts ++ op.tracked?.toList.map Prod.snd := by
  cases op with
  | track reachable now id context takeOver =>
      exact track_contexts hd reachable now id context takeOver
  | complete now id response =>
      rw [d.apply_report rfl]
      simpa [Op.tracked?, Effect.map] using report_contexts hd (completion_lawful now id response)
  | fail now id status =>
      rw [d.apply_report rfl]
      simpa [Op.tracked?, Effect.map] using report_contexts hd (failure_lawful now id status)
  | sweep now force =>
      rw [(d.sweep_chain now force).contexts_eq hd]
      simp [Op.tracked?, apply, Sweep.effect]
  | collect now later budget =>
      rw [(d.collect_chain now later budget).contexts_eq hd]
      simp [Op.tracked?, apply, Sweep.effect]

/-- The ledger of a run balances: who was handed in waits or has been answered, each as often as
handed in. -/
theorem run_contexts {d : Dedup χ} (hd : d.Valid) (ops : List (Op χ)) :
    (d.run ops).contexts ++ (sent (d.events ops)).map Reply.context ~
      d.contexts ++ (tracked ops).map Prod.snd := by
  induction ops generalizing d with
  | nil => simp [run, events, sent, tracked]
  | cons op ops ih =>
      have hop := apply_contexts hd op
      have hops := ih (hd.apply op)
      have htracked : (tracked (op :: ops)).map Prod.snd =
          op.tracked?.toList.map Prod.snd ++ (tracked ops).map Prod.snd := by
        cases ht : op.tracked? <;> simp [tracked, ht]
      have hsent : (sent (d.events (op :: ops))).map Reply.context =
          (d.apply op).replies.map Reply.context ++
            (sent ((d.apply op).dedup.events ops)).map Reply.context := by
        simp [sent, events, Event.effect]
      rw [htracked, hsent, run]
      calc _
        _ ~ ((d.apply op).dedup.run ops).contexts ++
              (sent ((d.apply op).dedup.events ops)).map Reply.context ++
              (d.apply op).replies.map Reply.context := by
            rw [append_assoc]
            exact perm_append_comm.append_left _
        _ ~ (d.apply op).dedup.contexts ++ (tracked ops).map Prod.snd ++
              (d.apply op).replies.map Reply.context := hops.append_right _
        _ ~ (d.apply op).dedup.contexts ++ (d.apply op).replies.map Reply.context ++
              (tracked ops).map Prod.snd := perm_append_right_comm ..
        _ ~ d.contexts ++ op.tracked?.toList.map Prod.snd ++ (tracked ops).map Prod.snd :=
            hop.append_right _
        _ = _ := append_assoc ..

/-! ## Everybody waits where it was handed in -/

/-- The queue entry that a tracked attempt makes. -/
def entryOf (t : RequestId × χ) : (String × SeqNo) × Waiter χ :=
  ((t.1.client, t.1.seq), ⟨t.2, t.1.attempt⟩)

theorem Pass.queued_of {p : Pass χ} {q : (String × SeqNo) × Waiter χ}
    (hq : q ∈ p.after.queued) : q ∈ p.before.queued := by
  obtain ⟨⟨name, seq⟩, w⟩ := q
  obtain ⟨r, hr, hw⟩ := mem_queued.mp hq
  exact mem_queued.mpr ⟨r, p.record?_of_after hr, hw⟩

theorem Chain.queued_of {d d' : Dedup χ} {ps : List (Pass χ)} (hc : Chain d ps d')
    {q : (String × SeqNo) × Waiter χ} (hq : q ∈ d'.queued) : q ∈ d.queued :=
  hc.preserves (P := fun e => q ∈ e.queued → q ∈ d.queued) id
    (fun _ _ h hq => h (Pass.queued_of hq)) hq

/-- Only an attempt that is tracked is put in a queue, and in that of its own request. -/
theorem queued_of_apply {d : Dedup χ} (hd : d.Valid) {op : Op χ}
    {q : (String × SeqNo) × Waiter χ} (hq : q ∈ (d.apply op).dedup.queued) :
    q ∈ d.queued ∨ ∃ t, op.tracked? = some t ∧ q = entryOf t := by
  obtain ⟨⟨name, seq⟩, w⟩ := q
  obtain ⟨r', hr', hw⟩ := mem_queued.mp hq
  have hturn := hd.turn op name
  generalize d.apply op = e at hturn hq hr'
  cases hturn with
  | @tracked _ now id context _ _ _ _ _ hn ha hc =>
      rw [record?_of_get? hc] at hr'
      subst hn
      have hold {r : Record χ} (hr : (d.moved now id).client.records.get? seq = some r)
          (hw : w ∈ r.waiting) : ((id.client, seq), w) ∈ d.queued := by
        rcases moved_get?_some hr with hr₀ | ⟨r₀, hr₀, -, rfl, -⟩
        · exact mem_queued.mpr ⟨r, hr₀, hw⟩
        · exact mem_queued.mpr ⟨r₀, hr₀, hw⟩
      by_cases hs : seq = id.seq
      · subst hs
        cases ha with
        | joined hr hj =>
            simp only [ChargedMap.get?_update, ite_true, hr, Option.map_some,
              Option.some.injEq] at hr'
            subst hr'
            rcases hj.waiting_mem hw with hw | rfl
            · exact .inl (hold hr hw)
            · exact .inr ⟨_, rfl, rfl⟩
        | refused hr => simp [hr] at hr'
        | started =>
            simp only [ChargedMap.get?_insert, ite_true, Option.some.injEq] at hr'
            subst hr'
            simp only [Record.start, mem_singleton] at hw
            exact .inr ⟨_, rfl, by rw [hw]; rfl⟩
      · rw [ha.get?_of_ne hs] at hr'
        exact .inl (hold hr' hw)
  | @reported _ id _ _ c _ _ hop hn hg ho hh hc =>
      refine .inl (mem_queued.mpr ?_)
      rw [record?_of_get? hc] at hr'
      rw [record?_of_get? hg]
      by_cases hs : seq = id.seq
      · subst hs
        generalize e.replies = replies at hh
        cases hh with
        | missing hr => simp [hr] at hr'
        | alreadyCompleted => exact ⟨r', hr', hw⟩
        | notDriver => exact ⟨r', hr', hw⟩
        | kept hr _ hd' _ =>
            simp only [ChargedMap.get?_update, ite_true, hr, Option.map_some,
              Option.some.injEq] at hr'
            subst hr'
            exact ⟨_, hr, ho.subset hd' hw⟩
        | erased => simp [ChargedMap.get?_erase] at hr'
      · rw [hh.get?_of_ne hs] at hr'
        exact ⟨r', hr', hw⟩
  | unknown _ _ _ he => exact .inl (by rwa [he] at hq)
  | swept _ hs => exact .inl (hs.queued_of hq)
  | aside _ _ hc =>
      rw [record?, hc] at hr'
      exact .inl (mem_queued.mpr ⟨r', hr', hw⟩)

theorem queued_of_run {d : Dedup χ} (hd : d.Valid) {ops : List (Op χ)}
    {q : (String × SeqNo) × Waiter χ} (hq : q ∈ (d.run ops).queued) :
    q ∈ d.queued ∨ ∃ t ∈ tracked ops, q = entryOf t := by
  induction ops generalizing d with
  | nil => exact .inl hq
  | cons op ops ih =>
      rcases ih (hd.apply op) hq with hq | ⟨t, ht, he⟩
      · rcases queued_of_apply hd hq with hq | ⟨t, ht, he⟩
        · exact .inl hq
        · exact .inr ⟨t, mem_filterMap.mpr ⟨op, by simp, ht⟩, he⟩
      · obtain ⟨op', hop', ht⟩ := mem_filterMap.mp ht
        exact .inr ⟨t, mem_filterMap.mpr ⟨op', mem_cons_of_mem _ hop', ht⟩, he⟩

/-- From the start on, whoever is queued has been tracked for that request. -/
theorem tracked_of_queued {settings : DedupSettings} {ops : List (Op χ)}
    {q : (String × SeqNo) × Waiter χ} (hq : q ∈ ((start settings).run ops).queued) :
    ∃ t ∈ tracked ops, q = entryOf t := by
  rcases queued_of_run (start_valid settings) hq with hq | ht
  · simp [queued, start, ChargedMap.toList_empty] at hq
  · exact ht

/-! ## Whole runs -/

/-- Where every attempt brings a context of its own, each of them has been answered exactly once
and waits nowhere, or has not been answered and waits exactly once, for its own request. -/
theorem answered_once_or_waiting [DecidableEq χ] (settings : DedupSettings) (ops : List (Op χ))
    (hown : ((tracked ops).map Prod.snd).Nodup) (t : RequestId × χ) (ht : t ∈ tracked ops) :
    let replies := (sent ((start settings).events ops)).map Reply.context
    let waiting := ((start settings).run ops).queued.filter fun q => q.2.context = t.2
    (replies.count t.2 = 1 ∧ waiting = []) ∨ (replies.count t.2 = 0 ∧ waiting = [entryOf t]) := by
  intro replies waiting
  have hledger := run_contexts (start_valid settings) ops
  have hstart : (start settings : Dedup χ).contexts = [] := rfl
  rw [hstart, nil_append] at hledger
  have htracked : ((tracked ops).map Prod.snd).count t.2 = 1 :=
    count_eq_one_of_mem hown (mem_map_of_mem ht)
  have hsum : waiting.length + replies.count t.2 = 1 := by
    rw [← htracked, ← hledger.count_eq, count_append, ← queued_contexts]
    simp only [waiting, replies, count, countP_map, ← countP_eq_length_filter]
    congr 1
  have hentry : ∀ q ∈ waiting, q = entryOf t := by
    intro q hq
    obtain ⟨hq, hx⟩ := mem_filter.mp hq
    obtain ⟨t', ht', rfl⟩ := tracked_of_queued hq
    have heq : t' = t := inj_on_of_nodup_map hown ht' ht (of_decide_eq_true hx)
    rw [heq]
  cases hw : waiting with
  | nil => exact .inl ⟨by simpa [hw] using hsum, rfl⟩
  | cons q rest =>
      rw [hw, length_cons] at hsum
      have hrest : rest = [] := length_eq_zero_iff.mp (by omega)
      have hq : q = entryOf t := hentry q (by simp [hw])
      exact .inr ⟨by omega, by rw [hrest, hq]⟩

/-- A retry takes over from a driver that cannot be reached and completes the request. -/
theorem answered_once_or_waiting_taken_over :
    let ops : List (Op Nat) :=
      [.track (fun _ => false) ⟨0⟩ ⟨"c", 0, 0, 0⟩ 7 false,
        .track (fun _ => false) ⟨1⟩ ⟨"c", 0, 0, 1⟩ 8 true,
        .complete ⟨2⟩ ⟨"c", 0, 0, 1⟩ [42]]
    let replies := (sent ((start .standard).events ops)).map Reply.context
    let waiting := ((start .standard).run ops).queued.filter fun q => q.2.context = 7
    ((tracked ops).map Prod.snd).Nodup ∧ (⟨"c", 0, 0, 0⟩, 7) ∈ tracked ops ∧
      ((replies.count 7 = 1 ∧ waiting = []) ∨
        (replies.count 7 = 0 ∧ waiting = [entryOf (⟨"c", 0, 0, 0⟩, 7)])) := by
  intro ops replies waiting
  have hown : ((tracked ops).map Prod.snd).Nodup := by decide
  have ht : (⟨"c", 0, 0, 0⟩, 7) ∈ tracked ops := by decide
  exact ⟨hown, ht, answered_once_or_waiting .standard ops hown _ ht⟩

end OnceOnly.Dedup
