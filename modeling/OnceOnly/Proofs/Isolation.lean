import OnceOnly.Proofs.Run

/-!
# Clients are isolated from each other

Two memories that agree on a client answer it alike and agree on it afterwards, and what other
clients do changes nothing for it. So a client cannot tell a run from the same run without the
others.
-/

namespace OnceOnly.Dedup

open List

variable {χ : Type} {name : String} {d e : Dedup χ} {op : Op χ}

/-! ## Whom an operation is for -/

/-- The client whose request is tracked or reported on; a collection is for all of them. -/
def Op.client? : Op χ → Option String
  | .track _ _ id _ _ => some id.client
  | .complete _ id _ => some id.client
  | .fail _ id _ => some id.client
  | .sweep _ _ => none
  | .collect _ _ _ => none

/-- Operations of the client's own, and collections. -/
def Op.concerns (name : String) (op : Op χ) : Bool := op.client?.all (· == name)

theorem Op.concerns_of_client? {client : String} (h : op.client? = some client) :
    op.concerns name = true ↔ client = name := by
  simp [concerns, h]

theorem Op.client?_of_report {id : RequestId} {outcome : Outcome χ}
    (h : op.report? = some (id, outcome)) : op.client? = some id.client := by
  rcases Op.eq_report h with ⟨now, response, rfl, -⟩ | ⟨now, status, rfl, -⟩
  · rfl
  · rfl

/-- What a step comes to for one client: the client after it, and when the step is the client's own
the answer and the replies. -/
structure Seen (χ : Type) where
  op : Op χ
  client : Option (Client χ)
  answer : Option (Result × List (Reply χ))

def Event.seenBy (name : String) (e : Event χ) : Seen χ where
  op := e.op
  client := e.effect.dedup.clients.get? name
  answer := if e.op.client? = some name then some (e.effect.result, e.effect.replies) else none

/-! ## Agreement on one client -/

/-- The same rules, and the same state of the client. -/
structure Agree (name : String) (d e : Dedup χ) : Prop where
  settings : d.settings = e.settings
  client : d.clients.get? name = e.clients.get? name

/-- An operation is answered alike and leaves agreement. -/
structure Alike (name : String) (d e : Dedup χ) (op : Op χ) : Prop where
  agree : Agree name (d.apply op).dedup (e.apply op).dedup
  result : (d.apply op).result = (e.apply op).result
  replies : (d.apply op).replies = (e.apply op).replies

theorem Agree.moved {id : RequestId} (h : Agree id.client d e) (now : Instant) :
    d.moved now id = e.moved now id := by
  rw [Dedup.moved, Dedup.moved, heard, heard, h.settings, h.client]

/-- An attempt meets the same client. -/
theorem Agree.track {id : RequestId} (h : Agree id.client d e) (reachable : χ → Bool)
    (now : Instant) (context : χ) (takeOver : Bool) :
    Alike id.client d e (.track reachable now id context takeOver) where
  agree.settings := by simpa using h.settings
  agree.client := by simp only [Dedup.apply, Effect.map, track_get?, ite_true, h.moved now]
  result := by simp only [Dedup.apply, Effect.map, track_eq, h.moved now]
  replies := by simp only [Dedup.apply, Effect.map, track_eq, h.moved now]

/-- A report meets the same client, or none in both. -/
theorem Agree.report {id : RequestId} {outcome : Outcome χ} (h : Agree id.client d e)
    (hop : op.report? = some (id, outcome)) : Alike id.client d e op := by
  have hd := d.apply_report hop
  have he := e.apply_report hop
  have hsettings : (d.apply op).dedup.settings = (e.apply op).dedup.settings := by
    simpa using h.settings
  have hclient := h.client
  cases hc : e.clients.get? id.client with
  | none =>
      rw [hc] at hclient
      simp only [Dedup.report, hc, hclient, Effect.map] at hd he
      exact ⟨⟨hsettings, by rw [hd, he, hc, hclient]⟩, by rw [hd, he], by rw [hd, he]⟩
  | some c =>
      rw [hc] at hclient
      simp only [Dedup.report, hc, hclient, Effect.map] at hd he
      refine ⟨⟨hsettings, ?_⟩, by rw [hd, he], by rw [hd, he]⟩
      rw [hd, he]
      simp only [ChargedMap.get?_update, hc, hclient]

/-- What a collection keeps of a client hangs on the rules and on that client. -/
theorem Agree.sweep (h : Agree name d e) (now : Instant) (force : Candidate → Bool) :
    Agree name (d.sweep now force).rest (e.sweep now force).rest := by
  have hkeep : (⟨d, now, force⟩ : Pass χ).keep name = (⟨e, now, force⟩ : Pass χ).keep name := by
    obtain ⟨settings, clients⟩ := d
    obtain ⟨settings', clients'⟩ := e
    obtain rfl : settings = settings' := h.settings
    rfl
  have hd := Pass.get?_after ⟨d, now, force⟩ name
  have he := Pass.get?_after ⟨e, now, force⟩ name
  rw [h.client, hkeep] at hd
  exact ⟨h.settings, hd.trans he.symm⟩

/-- What others do leaves the client as it is. -/
theorem Agree.aside (h : Agree name d e) (hop : op.concerns name = false) :
    Agree name (d.apply op).dedup e := by
  refine ⟨(d.apply_settings op).trans h.settings, Eq.trans ?_ h.client⟩
  have hne {client : String} (hc : op.client? = some client) : name ≠ client := by
    rintro rfl
    simp [(Op.concerns_of_client? hc).mpr rfl] at hop
  have hreport {id : RequestId} {outcome : Outcome χ} (hr : op.report? = some (id, outcome)) :
      (d.apply op).dedup.clients.get? name = d.clients.get? name := by
    rw [d.apply_report hr]
    exact d.report_get?_of_ne outcome (hne (Op.client?_of_report hr))
  cases op with
  | track reachable now id context takeOver =>
      simp only [Dedup.apply, Effect.map, track_get?, if_neg (hne rfl)]
  | complete now id response => exact hreport rfl
  | fail now id status => exact hreport rfl
  | sweep now force => simp [Op.concerns, Op.client?] at hop
  | collect now later budget => simp [Op.concerns, Op.client?] at hop

/-- A step that concerns the client is the same to it in both memories. -/
theorem Agree.step (h : Agree name d e) (hop : op.concerns name = true)
    (hplain : ∀ now later budget, op ≠ .collect now later budget) :
    Agree name (d.apply op).dedup (e.apply op).dedup ∧
      Event.seenBy name ⟨d, op⟩ = Event.seenBy name ⟨e, op⟩ := by
  have hown {client : String} (hc : op.client? = some client)
      (halike : client = name → Alike name d e op) :
      Agree name (d.apply op).dedup (e.apply op).dedup ∧
        Event.seenBy name ⟨d, op⟩ = Event.seenBy name ⟨e, op⟩ := by
    obtain ⟨hagree, hresult, hreplies⟩ := halike ((Op.concerns_of_client? hc).mp hop)
    refine ⟨hagree, ?_⟩
    simp only [Event.seenBy, Event.effect, hagree.client, hresult, hreplies]
  have hreport {id : RequestId} {outcome : Outcome χ} (hr : op.report? = some (id, outcome)) :
      Agree name (d.apply op).dedup (e.apply op).dedup ∧
        Event.seenBy name ⟨d, op⟩ = Event.seenBy name ⟨e, op⟩ := by
    refine hown (Op.client?_of_report hr) ?_
    rintro rfl
    exact h.report hr
  cases op with
  | track reachable now id context takeOver =>
      refine hown rfl ?_
      rintro rfl
      exact h.track reachable now context takeOver
  | complete now id response => exact hreport rfl
  | fail now id status => exact hreport rfl
  | sweep now force =>
      have hagree := h.sweep now force
      refine ⟨hagree, ?_⟩
      simp only [Event.seenBy, Event.effect, Dedup.apply, Sweep.effect, hagree.client, Op.client?,
        reduceCtorEq, ite_false]
  | collect now later budget => exact absurd rfl (hplain now later budget)

/-! ## Whole runs -/

/-- Runs from memories that agree on a client, one of them without the others, are the same to
it. -/
theorem Agree.run {ops : List (Op χ)} (h : Agree name d e)
    (hplain : ∀ now later budget, .collect now later budget ∉ ops) :
    ((d.events ops).filter (·.op.concerns name)).map (·.seenBy name) =
      (e.events (ops.filter (·.concerns name))).map (·.seenBy name) := by
  -- An operation that is taken out moves the first memory alone, so agreement is what is carried.
  induction ops generalizing d e with
  | nil => rfl
  | cons op ops ih =>
      have hrest : ∀ now later budget, .collect now later budget ∉ ops :=
        fun now later budget hm => hplain now later budget (mem_cons_of_mem _ hm)
      cases hop : op.concerns name with
      | true =>
          have hfirst : ∀ now later budget, op ≠ .collect now later budget := by
            rintro now later budget rfl
            exact hplain now later budget mem_cons_self
          obtain ⟨hagree, hseen⟩ := h.step hop hfirst
          simp only [events, filter_cons, hop, ite_true, map_cons, hseen, ih hagree hrest]
      | false =>
          simp only [events, filter_cons, hop, Bool.false_eq_true, ite_false]
          exact ih (h.aside hop) hrest

/-- A client cannot tell whether there are others. Take out of a run of attempts, reports and
collections, each collection selecting as it likes by what it is offered, all that is not the
client's own: after every step that is left the client is the same, known or not, and every answer
and reply to an operation of its own is the same, mistakes of the caller's among them. Only
collections that go by the memory in use are left out. -/
theorem clients_isolated (settings : DedupSettings) (name : String) (ops : List (Op χ))
    (hplain : ∀ now later budget, .collect now later budget ∉ ops) :
    (((start settings).events ops).filter (·.op.concerns name)).map (·.seenBy name) =
      ((start settings).events (ops.filter (·.concerns name))).map (·.seenBy name) :=
  Agree.run ⟨rfl, rfl⟩ hplain

/-- Another client's retry is refused, its results are collected, and it fails a request of the same
number. -/
theorem clients_isolated_shared :
    let force : Candidate → Bool := fun c => c.client == "b"
    let own : List (Op Nat) :=
      [.track (fun _ => true) ⟨0⟩ ⟨"a", 0, 0, 0⟩ 7 false, .sweep ⟨1⟩ force,
        .complete ⟨2⟩ ⟨"a", 0, 0, 0⟩ [42], .sweep ⟨3⟩ force, .complete ⟨4⟩ ⟨"a", 1, 0, 0⟩ [43]]
    let ops : List (Op Nat) :=
      [.track (fun _ => true) ⟨0⟩ ⟨"b", 0, 0, 0⟩ 8 false,
        .track (fun _ => true) ⟨0⟩ ⟨"a", 0, 0, 0⟩ 7 false, .complete ⟨0⟩ ⟨"b", 0, 0, 0⟩ [0],
        .sweep ⟨1⟩ force, .track (fun _ => true) ⟨1⟩ ⟨"b", 0, 5, 1⟩ 9 false,
        .complete ⟨2⟩ ⟨"a", 0, 0, 0⟩ [42], .fail ⟨2⟩ ⟨"b", 0, 0, 1⟩ (.plain .unavailable "no"),
        .sweep ⟨3⟩ force, .complete ⟨4⟩ ⟨"a", 1, 0, 0⟩ [43]]
    (∀ now later budget, .collect now later budget ∉ ops) ∧
      (((start .standard).events ops).filter (·.op.concerns "a")).map (·.seenBy "a") =
        ((start .standard).events own).map (·.seenBy "a") := by
  intro force own ops
  have hplain : ∀ now later budget, .collect now later budget ∉ ops := by simp [ops]
  exact ⟨hplain, clients_isolated .standard "a" ops hplain⟩

end OnceOnly.Dedup
