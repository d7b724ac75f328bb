import OnceOnly.Proofs.Issuer
import OnceOnly.Proofs.Waiters

/-! # The low-water mark: what the client still needs stays above it -/

namespace OnceOnly

open List

namespace Dedup

variable {χ : Type} {client : String} {bound seq : SeqNo}

/-! ## Marks come from attempts -/

/-- No mark of the client is above the bound. -/
def MarkedTo (d : Dedup χ) (client : String) (bound : SeqNo) : Prop :=
  ∀ mark, d.staleBefore? client = some mark → mark ≤ bound

/-- No attempt of the client's brings a mark above the bound. -/
def Bounded (client : String) (bound : SeqNo) (ops : List (Op χ)) : Prop :=
  ∀ t ∈ tracked ops, t.1.client = client → t.1.firstIncomplete ≤ bound

variable {d d' : Dedup χ}

theorem markedTo_of_get? {c : Client χ} (hc : d.clients.get? client = some c) :
    MarkedTo d client bound ↔ c.staleBefore ≤ bound := by
  simp [MarkedTo, staleBefore?, hc]

theorem MarkedTo.moved {id : RequestId} (h : MarkedTo d id.client bound) (h0 : 0 ≤ bound)
    (hid : id.firstIncomplete ≤ bound) (now : Instant) :
    (d.moved now id).client.staleBefore ≤ bound := by
  rw [Dedup.moved, Client.advance_staleBefore]
  split
  · cases hc : d.clients.get? id.client with
    | none => simpa [heard, hc, Client.start] using h0
    | some c => simpa [heard, hc] using (markedTo_of_get? hc).mp h
  · exact hid

theorem MarkedTo.pass {p : Pass χ} (h : MarkedTo p.before client bound) :
    MarkedTo p.after client bound := by
  cases p.swept client with
  | unknown _ ha => simp [MarkedTo, staleBefore?, ha]
  | kept hb ha => exact (markedTo_of_get? ha).mpr ((markedTo_of_get? hb).mp h)
  | dropped _ ha => simp [MarkedTo, staleBefore?, ha]

theorem MarkedTo.chain {ps : List (Pass χ)} (hc : Chain d ps d') (h : MarkedTo d client bound) :
    MarkedTo d' client bound :=
  hc.preserves (P := fun e => MarkedTo e client bound) h fun _ _ => MarkedTo.pass

theorem MarkedTo.apply {op : Op χ} (hd : d.Valid) (h : MarkedTo d client bound) (h0 : 0 ≤ bound)
    (hop : ∀ id context, op.tracked? = some (id, context) → id.client = client →
      id.firstIncomplete ≤ bound) : MarkedTo (d.apply op).dedup client bound := by
  have hturn := hd.turn op client
  cases hturn with
  | @tracked _ now id context _ _ _ _ _ hn ha hc' =>
      subst hn
      rw [markedTo_of_get? hc', ha.staleBefore_eq]
      exact h.moved h0 (hop id context rfl rfl) now
  | reported _ hn hc _ hh hc' =>
      rw [markedTo_of_get? hc', hh.staleBefore_eq]
      exact (markedTo_of_get? hc).mp h
  | unknown _ _ _ he => rwa [he]
  | swept _ hchain => exact h.chain hchain
  | aside _ _ hc => rwa [MarkedTo, staleBefore?, hc]

theorem MarkedTo.run {ops : List (Op χ)} (hd : d.Valid) (h : MarkedTo d client bound)
    (h0 : 0 ≤ bound) (hops : Bounded client bound ops) : MarkedTo (d.run ops) client bound := by
  induction ops generalizing d with
  | nil => exact h
  | cons op ops ih =>
      refine ih (hd.apply op) (h.apply hd h0 fun id context ht hn => ?_) fun t ht => ?_
      · exact hops (id, context) (mem_filterMap.mpr ⟨op, by simp, ht⟩) hn
      · obtain ⟨op', hop', ht'⟩ := mem_filterMap.mp ht
        exact hops t (mem_filterMap.mpr ⟨op', mem_cons_of_mem _ hop', ht'⟩)

theorem start_markedTo (settings : DedupSettings) (client : String) (bound : SeqNo) :
    MarkedTo (start settings : Dedup χ) client bound := by
  simp [MarkedTo, staleBefore?, start]

/-- What an event of a bounded run starts from, and what it tracks. -/
theorem Bounded.before {settings : DedupSettings} {ops : List (Op χ)} {e : Event χ}
    (h : Bounded client bound ops) (h0 : 0 ≤ bound) (he : e ∈ (start settings).events ops) :
    ∃ ops₁, e.before = (start settings).run ops₁ ∧ (∀ t ∈ tracked ops₁, t ∈ tracked ops) ∧
      (∀ t, e.op.tracked? = some t → t ∈ tracked ops) ∧ MarkedTo e.before client bound := by
  obtain ⟨before, after, hsplit⟩ := append_of_mem he
  obtain ⟨ops₁, op, ops₂, rfl, rfl, rfl, -⟩ := events_split hsplit
  have hearlier : ∀ t ∈ tracked ops₁, t ∈ tracked (ops₁ ++ op :: ops₂) := by
    intro t ht
    rw [tracked, filterMap_append]
    exact mem_append_left _ ht
  refine ⟨ops₁, rfl, hearlier, fun t ht => mem_filterMap.mpr ⟨op, by simp, ht⟩, ?_⟩
  exact (start_markedTo settings client bound).run (start_valid settings) h0
    fun t ht => h t (hearlier t ht)

/-! ## Requests above all marks -/

theorem MarkedTo.not_stale {op : Op χ} {id : RequestId} {context : χ} (hd : d.Valid)
    (h : MarkedTo d id.client bound) (h0 : 0 ≤ bound) (ht : op.tracked? = some (id, context))
    (hid : id.firstIncomplete ≤ bound) (hs : bound ≤ id.seq) :
    (d.apply op).result ≠ .tracked .stale := by
  obtain ⟨now, _, _, phase, ha, -, -, hp⟩ := hd.tracked ht
  have hmark := h.moved h0 hid now
  rw [hp, ne_eq, Result.tracked.injEq]
  rintro rfl
  have hlt := ha.stale (hd.moved now id)
  grind

/-- How a context comes to be told of a failure: its request falls below a mark that an attempt
brings, or is below it when it is tracked, or a report says so. -/
inductive Failed (d : Dedup χ) (op : Op χ) (context : χ) (status : ErrorStatus) : Prop where
  | released {id : RequestId} {context' : χ} {seq : SeqNo} {w : Waiter χ}
      (ht : op.tracked? = some (id, context')) (hw : ((id.client, seq), w) ∈ d.queued)
      (hx : w.context = context) (hs : seq < id.firstIncomplete)
  | refused {id : RequestId} (ht : op.tracked? = some (id, context))
      (hs : (d.apply op).result = .tracked .stale)
  | reported {now : Instant} {id : RequestId} (hop : op = .fail now id status)

theorem failed_of_reply {op : Op χ} {context : χ} {status : ErrorStatus} (hd : d.Valid)
    (hr : ⟨context, .failure status⟩ ∈ (d.apply op).replies) : Failed d op context status := by
  cases op with
  | track reachable now id context' takeOver =>
      obtain ⟨_, replies, phase, ha, -, hreplies, hresult⟩ :=
        hd.track_arrived reachable now id context' takeOver
      rw [hreplies, mem_append] at hr
      rcases hr with hr | hr
      · obtain ⟨seq, r, w, hrec, hw, hs, he⟩ := Client.mem_advance_replies hr
        rw [heard_get?] at hrec
        simp only [Reply.mk.injEq] at he
        exact .released rfl (mem_queued.mpr ⟨r, hrec, hw⟩) he.1.symm hs
      · obtain ⟨rfl, hp⟩ := ha.failure hr
        exact .refused rfl (hp ▸ hresult)
  | complete now id response =>
      obtain ⟨-, r, -, hdriver, hr⟩ := hd.report_replies rfl hr
      simp [completion, Record.complete_eq hdriver, Record.repliesTo] at hr
  | fail now id status' =>
      obtain ⟨-, r, -, -, hr⟩ := hd.report_replies rfl hr
      have he : status' = status := by
        rcases r.fail_eq now id.attempt status' with ⟨-, hf⟩ | ⟨-, hf⟩
        · simp only [failure, hf, Record.repliesTo, mem_map, Reply.mk.injEq,
            Answer.failure.injEq] at hr
          obtain ⟨_, -, -, he⟩ := hr
          exact he
        · simp only [failure, hf, Record.repliesTo, mem_map, Reply.mk.injEq,
            Answer.failure.injEq] at hr
          obtain ⟨_, -, -, he⟩ := hr
          exact he
      exact .reported (by rw [he])
  | sweep now force => simp [apply, Sweep.effect] at hr
  | collect now later budget => simp [apply, Sweep.effect] at hr

/-- A plain collection takes no request above the mark of a client that is not idle. -/
theorem MarkedTo.sweep {now : Instant} {c : Client χ} {r : Record χ}
    (h : MarkedTo d client bound) (hs : bound ≤ seq) (hc : d.clients.get? client = some c)
    (hidle : c.isIdle d.settings.clientTtl now = false) (hr : d.record? client seq = some r) :
    (d.sweep now fun _ => false).rest.record? client seq = some r := by
  rw [record?_of_get? hc] at hr
  have hmark := (markedTo_of_get? hc).mp h
  cases (⟨d, now, fun _ => false⟩ : Pass χ).swept client with
  | unknown hb => simp [hc] at hb
  | kept hb ha =>
      obtain rfl := Option.some.inj (hc.symm.trans hb)
      have hlt : ¬ seq < c.staleBefore := by grind
      refine (record?_of_get? ha).trans (Client.sweep_get?_some.mpr ⟨hr, ?_⟩)
      simp [Client.isEvicted, Client.isExpired, hlt, hidle]
  | dropped hb _ hi =>
      obtain rfl := Option.some.inj (hc.symm.trans hb)
      simp [hidle] at hi

end Dedup

/-! ## A client and a server -/

open Dedup

theorem RequestId.nextAttempt_firstIncomplete {id id' : RequestId} (h : id.nextAttempt = .ok id') :
    id'.firstIncomplete = id.firstIncomplete := by
  unfold nextAttempt laterAttempt wordOr at h
  split at h
  · simp only [Except.map, Except.ok.injEq] at h
    exact h ▸ rfl
  · simp [Except.map] at h

/-- The only issuer of a client's numbers, and a server that serves it and others. -/
structure Dialogue (χ : Type) where
  issuer : Issuer
  /-- All attempts that the client may send, retries included. -/
  issued : List RequestId
  /-- What the server has done, in order. -/
  served : List (Op χ)

namespace Dialogue

variable {χ : Type} {client : String}

def start (client : String) : Dialogue χ := ⟨.start client, [], []⟩

/-- The client issues and completes numbers and derives retries as it likes. The server tracks
what has been issued, at any time and as often as it comes, and does anything else. -/
inductive Step : Dialogue χ → Dialogue χ → Prop where
  | newSeq {g : Dialogue χ} {issuer : Issuer} {seq : SeqNo}
      (h : g.issuer.newSeq = .ok (issuer, seq)) : Step g { g with issuer }
  | newRequest {g : Dialogue χ} {issuer : Issuer} {id : RequestId}
      (h : g.issuer.newRequest = .ok (issuer, id)) :
      Step g { g with issuer, issued := id :: g.issued }
  | retry {g : Dialogue χ} {id id' : RequestId} (hid : id ∈ g.issued)
      (h : id.nextAttempt = .ok id') : Step g { g with issued := id' :: g.issued }
  | complete {g : Dialogue χ} (seq : SeqNo) : Step g { g with issuer := g.issuer.complete seq }
  | serve {g : Dialogue χ} (op : Op χ)
      (h : ∀ id context, op.tracked? = some (id, context) → id.client = g.issuer.client →
        id ∈ g.issued) : Step g { g with served := g.served ++ [op] }

inductive Reachable (client : String) : Dialogue χ → Prop where
  | start : Reachable client (.start client)
  | step {g g' : Dialogue χ} (h : Reachable client g) (hs : Step g g') : Reachable client g'

/-- No attempt that is under way is ahead of the issuer. -/
structure Valid (client : String) (g : Dialogue χ) : Prop where
  owner : g.issuer.client = client
  issuer : g.issuer.Valid
  issued : ∀ id ∈ g.issued, id.firstIncomplete ≤ g.issuer.firstIncomplete
  served : ∀ t ∈ tracked g.served, t.1.client = client → t.1 ∈ g.issued

theorem Valid.step {g g' : Dialogue χ} (hg : g.Valid client) (hs : Step g g') :
    g'.Valid client := by
  cases hs with
  | newSeq h =>
      have hfirst := hg.issuer.firstIncomplete_newSeq h
      exact ⟨(Issuer.newSeq_ok h).2.2.1.trans hg.owner, hg.issuer.newSeq h, hfirst ▸ hg.issued,
        hg.served⟩
  | newRequest h =>
      obtain ⟨h, -, hid⟩ := Issuer.newRequest_ok h
      have hfirst := hg.issuer.firstIncomplete_newSeq h
      refine ⟨(Issuer.newSeq_ok h).2.2.1.trans hg.owner, hg.issuer.newSeq h, ?_, ?_⟩
      · intro id' hid'
        rcases mem_cons.mp hid' with rfl | hid'
        · exact Int64.le_of_eq hid
        · exact hfirst ▸ hg.issued id' hid'
      · exact fun t ht hn => mem_cons_of_mem _ (hg.served t ht hn)
  | retry hid h =>
      refine ⟨hg.owner, hg.issuer, ?_, ?_⟩
      · intro id' hid'
        rcases mem_cons.mp hid' with rfl | hid'
        · exact RequestId.nextAttempt_firstIncomplete h ▸ hg.issued _ hid
        · exact hg.issued id' hid'
      · exact fun t ht hn => mem_cons_of_mem _ (hg.served t ht hn)
  | complete seq =>
      have hfirst := hg.issuer.firstIncomplete_le_complete seq
      exact ⟨hg.owner, hg.issuer.complete seq,
        fun id hid => Int64.le_trans (hg.issued id hid) hfirst, hg.served⟩
  | serve op h =>
      refine ⟨hg.owner, hg.issuer, hg.issued, ?_⟩
      intro t ht hn
      simp only [tracked, filterMap_append, mem_append] at ht
      rcases ht with ht | ht
      · exact hg.served t ht hn
      · obtain ⟨op', hop', htracked⟩ := mem_filterMap.mp ht
        obtain rfl := mem_singleton.mp hop'
        exact h t.1 t.2 htracked (hn.trans hg.owner.symm)

theorem Reachable.valid {g : Dialogue χ} (h : Reachable client g) : g.Valid client := by
  induction h with
  | start =>
      exact ⟨rfl, Issuer.start_valid client, by simp [Dialogue.start],
        by simp [Dialogue.start, tracked]⟩
  | step _ hs ih => exact ih.step hs

theorem Valid.bounded {g : Dialogue χ} (hg : g.Valid client) :
    Bounded client g.issuer.firstIncomplete g.served :=
  fun t ht hn => hg.issued t.1 (hg.served t ht hn)

/-- The server's mark never passes the least number that is outstanding at the client. So no
attempt at an outstanding request is refused as stale, nobody who waits for it is told of a failure
that no report brought, and its record stays while the client is not idle. -/
theorem mark_le_firstIncomplete (settings : DedupSettings) (client : String) (g : Dialogue χ)
    (hg : Reachable client g) :
    let d : Dedup χ := (Dedup.start settings).run g.served
    let es := (Dedup.start settings).events g.served
    (∀ mark, d.staleBefore? client = some mark → mark ≤ g.issuer.firstIncomplete) ∧
      ∀ seq, g.issuer.outstanding.contains seq = true →
        (∀ e ∈ es, ∀ id context, e.op.tracked? = some (id, context) → id.client = client →
          id.seq = seq → e.effect.result ≠ .tracked .stale) ∧
        (∀ e ∈ es, ∀ context status, ⟨context, .failure status⟩ ∈ e.effect.replies →
          (∀ t ∈ tracked g.served, t.2 = context → t.1.client = client ∧ t.1.seq = seq) →
          ∃ now id, e.op = .fail now id status) ∧
        ∀ now c r, d.clients.get? client = some c → c.isIdle settings.clientTtl now = false →
          d.record? client seq = some r →
          (d.sweep now fun _ => false).rest.record? client seq = some r := by
  intro d es
  have hv := hg.valid
  have h0 := hv.issuer.firstIncomplete_nonneg
  have hbounded := hv.bounded
  have hmark : MarkedTo d client g.issuer.firstIncomplete :=
    (start_markedTo settings client _).run (start_valid settings) h0 hbounded
  refine ⟨hmark, fun seq hout => ?_⟩
  have hle : g.issuer.firstIncomplete ≤ seq := hv.issuer.firstIncomplete_le hout
  have hstale : ∀ e ∈ es, ∀ id context, e.op.tracked? = some (id, context) → id.client = client →
      id.seq = seq → e.effect.result ≠ .tracked .stale := by
    rintro e he id context ht rfl rfl
    obtain ⟨ops₁, hbefore, -, hop, hm⟩ := hbounded.before h0 he
    have hvalid : e.before.Valid := hbefore ▸ (start_valid settings).run ops₁
    exact hm.not_stale hvalid h0 ht (hbounded _ (hop _ ht) rfl) hle
  refine ⟨hstale, ?_, fun now c r hc hidle hr => ?_⟩
  · intro e he context status hr hown
    obtain ⟨ops₁, hbefore, hearlier, hop, -⟩ := hbounded.before h0 he
    have hvalid : e.before.Valid := hbefore ▸ (start_valid settings).run ops₁
    cases failed_of_reply hvalid hr with
    | @released id context' seq' w ht hw hx hs =>
        -- Who waits there was tracked for that request, so it is the outstanding one.
        rw [hbefore] at hw
        obtain ⟨t, ht', hq⟩ := tracked_of_queued hw
        simp only [entryOf, Prod.mk.injEq] at hq
        obtain ⟨⟨hclient, hseq⟩, rfl⟩ := hq
        obtain ⟨hc, hs'⟩ := hown t (hearlier t ht') hx
        have hid := hbounded _ (hop _ ht) (hclient.trans hc)
        grind
    | refused ht hs =>
        obtain ⟨hc, hs'⟩ := hown _ (hop _ ht) rfl
        exact absurd hs (hstale e he _ _ ht hc hs')
    | @reported now id hop => exact ⟨now, id, hop⟩
  · refine hmark.sweep hle hc ?_ hr
    simpa [d, Dedup.start] using hidle

/-- The first of three requests is completed, and the others arrive out of order. -/
theorem mark_le_firstIncomplete_out_of_order :
    let g : Dialogue Nat :=
      ⟨⟨"c", 3, .ofList [1, 2]⟩, [⟨"c", 2, 1, 0⟩, ⟨"c", 1, 0, 0⟩, ⟨"c", 0, 0, 0⟩],
        [.track (fun _ => true) ⟨0⟩ ⟨"c", 2, 1, 0⟩ 7 false,
          .track (fun _ => true) ⟨0⟩ ⟨"c", 1, 0, 0⟩ 8 false]⟩
    Reachable "c" g ∧
      ∀ mark, ((Dedup.start .standard).run g.served).staleBefore? "c" = some mark →
        mark ≤ g.issuer.firstIncomplete := by
  intro g
  have h₁ : Reachable "c" (⟨⟨"c", 1, .ofList [0]⟩, [⟨"c", 0, 0, 0⟩], []⟩ : Dialogue Nat) :=
    .step .start (.newRequest rfl)
  have h₂ : Reachable "c"
      (⟨⟨"c", 2, .ofList [0, 1]⟩, [⟨"c", 1, 0, 0⟩, ⟨"c", 0, 0, 0⟩], []⟩ : Dialogue Nat) :=
    .step h₁ (.newRequest rfl)
  have h₃ : Reachable "c"
      (⟨⟨"c", 2, .ofList [1]⟩, [⟨"c", 1, 0, 0⟩, ⟨"c", 0, 0, 0⟩], []⟩ : Dialogue Nat) :=
    .step h₂ (.complete 0)
  have h₄ : Reachable "c" (⟨⟨"c", 3, .ofList [1, 2]⟩, g.issued, []⟩ : Dialogue Nat) :=
    .step h₃ (.newRequest rfl)
  have hserve {served : List (Op Nat)} {id : RequestId} {x : Nat}
      (h : Reachable "c" ⟨g.issuer, g.issued, served⟩) (hid : id ∈ g.issued) :
      Reachable "c" ⟨g.issuer, g.issued, served ++ [.track (fun _ => true) ⟨0⟩ id x false]⟩ := by
    refine .step h (.serve _ fun id' context ht _ => ?_)
    simp only [Op.tracked?, Option.some.injEq, Prod.mk.injEq] at ht
    exact ht.1 ▸ hid
  have hg : Reachable "c" g := hserve (hserve h₄ (by decide)) (by decide)
  exact ⟨hg, (mark_le_firstIncomplete .standard "c" g hg).1⟩

end Dialogue

end OnceOnly
