import OnceOnly.Proofs.Collected

/-!
# Memory pressure: what a scheduled collection takes out, and when it may stop

The second pass of a collection depends on what the first one gave back to the budget. Each pass is
known by its contract; what they come to together is an induction over the passes.
-/

namespace OnceOnly.Dedup

open List

variable {χ : Type}

/-! ## What one pass spares -/

/-- A completed request that stays for its client's sake: it is not below the mark, and the client
is not idle. -/
structure Client.Current (ttl : Duration) (now : Instant) (c : Client χ) (seq : SeqNo) : Prop where
  marked : ¬ seq < c.staleBefore
  heard : ¬ ttl ≤ now.since c.lastHeard

theorem Client.Current.earlier {ttl : Duration} {now later : Instant} {c : Client χ} {seq : SeqNo}
    (h : c.Current ttl later seq) (hle : now ≤ later) : c.Current ttl now seq := by
  have hnanos : now.nanos ≤ later.nanos := hle
  have hsince : (now.since c.lastHeard).nanos ≤ (later.since c.lastHeard).nanos :=
    Int.toNat_le_toNat (Int.sub_le_sub_right hnanos _)
  exact ⟨h.marked, fun hidle => h.heard (Nat.le_trans hidle hsince)⟩

namespace Pass

variable {p : Pass χ} {name : String} {c : Client χ} {seq : SeqNo} {r : Record χ}

/-- What collecting charges. -/
def charges (p : Pass χ) : List Int := (p.before.sweep p.now p.force).charges

theorem not_evicts_iff : ¬ p.Evicts name c seq r ↔
    (r.phase = .completed → c.Current p.before.settings.clientTtl p.now seq ∧
      p.force ⟨name, seq, p.now.since r.updated, footprint r⟩ = false) := by
  constructor
  · intro h hcompleted
    refine ⟨⟨fun hmark => ?_, fun hidle => ?_⟩, Bool.eq_false_iff.mpr fun hforce => ?_⟩
    · exact h ⟨hcompleted, .inl hmark⟩
    · exact h ⟨hcompleted, .inr (.inl hidle)⟩
    · exact h ⟨hcompleted, .inr (.inr hforce)⟩
  · intro h hevicts
    obtain ⟨hcurrent, hforce⟩ := h hevicts.completed
    rcases hevicts.reason with hmark | hidle | hselected
    · exact hcurrent.marked hmark
    · exact hcurrent.heard hidle
    · exact Bool.false_ne_true (hforce.symm.trans hselected)

theorem unfinished_after (hr : p.before.record? name seq = some r) (hp : r.phase ≠ .completed) :
    p.after.record? name seq = some r := by
  simp only [record?, Option.bind_eq_bind, Option.bind_eq_some_iff] at hr
  obtain ⟨c, hc, hr⟩ := hr
  exact record?_after_iff.mpr ⟨c, hc, hr, fun hevicts => hp hevicts.completed⟩

/-- The requests that a pass takes out are those that are not there any more. -/
theorem mem_removed_iff : (name, seq, r) ∈ p.removed ↔
    p.before.record? name seq = some r ∧ p.after.record? name seq = none := by
  rw [Pass.mem_removed]
  constructor
  · rintro ⟨c, hc, hr, hevicts⟩
    refine ⟨(record?_of_get? hc).trans hr, Option.eq_none_iff_forall_ne_some.mpr fun r' hr' => ?_⟩
    obtain ⟨c', hc', hr', hkept⟩ := record?_after_iff.mp hr'
    obtain rfl := Option.some.inj (hc.symm.trans hc')
    obtain rfl := Option.some.inj (hr.symm.trans hr')
    exact hkept hevicts
  · rintro ⟨hbefore, hafter⟩
    simp only [record?, Option.bind_eq_bind, Option.bind_eq_some_iff] at hbefore
    obtain ⟨c, hc, hr⟩ := hbefore
    refine ⟨c, hc, hr, Classical.byContradiction fun hkept => ?_⟩
    have hleft := record?_after_iff.mpr ⟨c, hc, hr, hkept⟩
    simp [hleft] at hafter

end Pass

/-! ## Passes one after the other -/

namespace Chain

variable {d d' : Dedup χ} {ps : List (Pass χ)} {name : String} {seq : SeqNo} {r : Record χ}

theorem settings_eq (h : Chain d ps d') : d'.settings = d.settings := by
  induction h with
  | nil => rfl
  | cons _ ih => exact ih

theorem record?_of_left (h : Chain d ps d') (hr : d'.record? name seq = some r) :
    d.record? name seq = some r := by
  induction h with
  | nil => exact hr
  | cons _ ih => exact Pass.record?_of_after (ih hr)

theorem unfinished_left (h : Chain d ps d') (hr : d.record? name seq = some r)
    (hp : r.phase ≠ .completed) : d'.record? name seq = some r := by
  induction h with
  | nil => exact hr
  | cons _ ih => exact ih (Pass.unfinished_after hr hp)

/-- A client that is left has its mark and what it gave up. -/
theorem kept {c' : Client χ} (h : Chain d ps d') (hc' : d'.clients.get? name = some c') :
    ∃ c, d.clients.get? name = some c ∧ c' = { c with records := c'.records } := by
  induction h with
  | nil => exact ⟨c', hc', rfl⟩
  | cons _ ih =>
      obtain ⟨c, hc, hsame⟩ := ih hc'
      obtain ⟨c₀, hc₀, -, rfl⟩ := Pass.get?_after_eq_some hc
      exact ⟨c₀, hc₀, hsame⟩

theorem mem_removed (h : Chain d ps d') : (name, seq, r) ∈ ps.flatMap Pass.removed ↔
    d.record? name seq = some r ∧ d'.record? name seq = none := by
  induction h with
  | nil d =>
      cases d.record? name seq <;> simp
  | @cons p ps d' hrest ih =>
      rw [flatMap_cons, mem_append, Pass.mem_removed_iff, ih]
      constructor
      · rintro (⟨hbefore, hafter⟩ | ⟨hafter, hleft⟩)
        · refine ⟨hbefore, Option.eq_none_iff_forall_ne_some.mpr fun r' hr' => ?_⟩
          simp [hrest.record?_of_left hr'] at hafter
        · exact ⟨Pass.record?_of_after hafter, hleft⟩
      · rintro ⟨hbefore, hleft⟩
        cases hafter : p.after.record? name seq with
        | none => exact .inl ⟨hbefore, rfl⟩
        | some r' =>
            have hsame := hbefore.symm.trans (Pass.record?_of_after hafter)
            exact .inr ⟨hsame.symm, hleft⟩

/-- No request is taken out by two passes. -/
theorem nodup_removed (h : Chain d ps d') :
    ((ps.flatMap Pass.removed).map fun e => (e.1, e.2.1)).Nodup := by
  induction h with
  | nil => exact nodup_nil
  | @cons p ps d' hrest ih =>
      rw [flatMap_cons, map_append]
      refine nodup_append.mpr ⟨Pass.nodup_removed, ih, ?_⟩
      rintro x hx y hy rfl
      obtain ⟨⟨name, seq, r⟩, he, rfl⟩ := mem_map.mp hx
      obtain ⟨⟨name', seq', r'⟩, he', heq⟩ := mem_map.mp hy
      obtain ⟨rfl, rfl⟩ := Prod.mk.inj heq
      have hnone := (Pass.mem_removed_iff.mp he).2
      have hsome := (hrest.mem_removed.mp he').1
      simp [hsome] at hnone

theorem counted (h : Chain d ps d') (hd : d.Counted) : d'.Counted :=
  h.preserves hd fun _ _ hp => hp.pass.counted

/-- All that the passes charge is what changes in the memory. -/
theorem metes (h : Chain d ps d') (hd : d.Counted) : Metes d (ps.flatMap Pass.charges) d' := by
  induction h with
  | nil d => exact ⟨by simp, hd⟩
  | cons _ ih => exact hd.pass.trans (ih hd.pass.counted)

theorem charges_nonpos (h : Chain d ps d') (hd : d.Counted) {n : Int}
    (hn : n ∈ ps.flatMap Pass.charges) : n ≤ 0 := by
  induction h with
  | nil => simp at hn
  | cons _ ih =>
      rcases mem_append.mp hn with hn | hn
      · exact Pass.charges_nonpos hd hn
      · exact ih hd.pass.counted hn

end Chain

/-! ## A scheduled collection -/

/-- One scheduled collection of a memory of requests. It goes by a budget, which the memory may
share, and reads the clock for each of its passes. -/
structure Collection (χ : Type) where
  before : Dedup χ
  now : Instant
  later : Instant
  budget : Budget

namespace Collection

variable (c : Collection χ)

def passes : List (Pass χ) := c.before.passes (.collect c.now c.later c.budget)

def effect : Effect χ Result := c.before.apply (.collect c.now c.later c.budget)

def left : Dedup χ := c.effect.dedup

/-- The budget in the end. -/
def settled : Budget := c.budget.chargeAll c.effect.charges

/-- The requests that are taken out. -/
def removed : List (String × SeqNo × Record χ) := c.passes.flatMap Pass.removed

/-- The pass that selects nothing. -/
def plain : Pass χ := ⟨c.before, c.now, fun _ => false⟩

/-- The budget when that pass is done. -/
def between : Budget := c.budget.chargeAll c.plain.charges

/-- The pass after it, which selects what is old. -/
def pressed : Pass χ := ⟨c.plain.after, c.later, c.plain.after.isOld⟩

/-- A completed request that stays also while memory is short. -/
structure Protected (client : Client χ) (seq : SeqNo) (r : Record χ) : Prop where
  current : client.Current c.before.settings.clientTtl c.later seq
  young : ¬ c.before.settings.pressureMinAge ≤ c.later.since r.updated

/-- Every completed request that is left had to stay. -/
def OnlyProtected : Prop := ∀ name client seq r, c.left.clients.get? name = some client →
  client.records.get? seq = some r → r.phase = .completed → c.Protected client seq r

variable {c} {name : String} {client : Client χ} {seq : SeqNo} {r : Record χ}

theorem chain (c : Collection χ) : Chain c.before c.passes c.left :=
  collect_chain ..

theorem passes_of_calm (h : c.between.exceeded = false) : c.passes = [c.plain] :=
  congrArg (c.plain :: ·) (if_neg (Bool.eq_false_iff.mp h))

theorem passes_of_pressed (h : c.between.exceeded = true) : c.passes = [c.plain, c.pressed] :=
  congrArg (c.plain :: ·) (if_pos h)

theorem effect_of_calm (h : c.between.exceeded = false) :
    c.effect = c.before.apply (.sweep c.now fun _ => false) :=
  congrArg Sweep.effect (if_neg (Bool.eq_false_iff.mp h))

theorem left_of_pressed (h : c.between.exceeded = true) : c.left = c.pressed.after :=
  congrArg (fun s : Sweep (Dedup χ) => s.effect.dedup) (if_pos h)

/-- What is charged, answered and reported is so pass by pass. -/
theorem effect_eq (c : Collection χ) :
    c.effect = ⟨c.left, c.passes.flatMap Pass.charges, [], .collected c.removed.length⟩ := by
  cases h : c.between.exceeded with
  | false =>
      rw [left, removed, passes_of_calm h, effect_of_calm h]
      simp only [flatMap_cons, flatMap_nil, append_nil, ← Pass.evicted_eq]
      rfl
  | true =>
      have heffect : c.effect = ⟨c.left, c.plain.charges ++ c.pressed.charges, [],
          .collected ((c.before.sweep c.now fun _ => false).evicted +
            (c.plain.after.sweep c.later c.plain.after.isOld).evicted)⟩ := by
        rw [left_of_pressed h]
        exact congrArg Sweep.effect (if_pos h)
      rw [heffect, removed, passes_of_pressed h]
      simp only [flatMap_cons, flatMap_nil, append_nil, length_append, ← Pass.evicted_eq]
      rfl

theorem plain_not_evicts_iff : ¬ c.plain.Evicts name client seq r ↔
    (r.phase = .completed → client.Current c.before.settings.clientTtl c.now seq) := by
  rw [Pass.not_evicts_iff]
  exact forall_congr' fun _ => and_iff_left rfl

theorem pressed_not_evicts_iff : ¬ c.pressed.Evicts name client seq r ↔
    (r.phase = .completed → c.Protected client seq r) := by
  rw [Pass.not_evicts_iff]
  refine forall_congr' fun _ => ⟨fun h => ⟨h.1, ?_⟩, fun h => ⟨h.current, ?_⟩⟩
  · exact of_decide_eq_false h.2
  · exact decide_eq_false h.young

/-- The records are all that a pass changes of a client. -/
theorem protected_rest {p : Pass χ} :
    c.Protected (p.before.sweepClient p.now p.force name client).rest seq r ↔
      c.Protected client seq r :=
  ⟨fun h => ⟨⟨h.current.marked, h.current.heard⟩, h.young⟩,
    fun h => ⟨⟨h.current.marked, h.current.heard⟩, h.young⟩⟩

/-- Whatever stays after the second pass stays after the first. -/
theorem Protected.current_now (h : c.Protected client seq r) (hle : c.now ≤ c.later) :
    client.Current c.before.settings.clientTtl c.now seq :=
  h.current.earlier hle

theorem left_of_calm (h : c.between.exceeded = false) : c.left = c.plain.after :=
  congrArg Effect.dedup (effect_of_calm h)

theorem onlyProtected (h : c.between.exceeded = true) : c.OnlyProtected := by
  intro name client seq r hclient hr hp
  rw [left_of_pressed h] at hclient
  obtain ⟨before, -, -, rfl⟩ := Pass.get?_after_eq_some hclient
  exact protected_rest.mpr (pressed_not_evicts_iff.mp (Pass.sweepClient_get?.mp hr).2 hp)

/-- While memory is short, all completed requests go that do not have to stay, and no others. -/
theorem record?_of_pressed (h : c.between.exceeded = true) (hle : c.now ≤ c.later) :
    c.left.record? name seq = some r ↔ ∃ client, c.before.clients.get? name = some client ∧
      client.records.get? seq = some r ∧ (r.phase = .completed → c.Protected client seq r) := by
  rw [left_of_pressed h, Pass.record?_after_iff]
  constructor
  · rintro ⟨left, hleft, hr, hkept⟩
    obtain ⟨client, hclient, -, rfl⟩ := Pass.get?_after_eq_some hleft
    exact ⟨client, hclient, (Pass.sweepClient_get?.mp hr).1,
      fun hp => protected_rest.mp (pressed_not_evicts_iff.mp hkept hp)⟩
  · rintro ⟨client, hclient, hr, hstays⟩
    have hplain : c.plain.after.record? name seq = some r :=
      Pass.record?_after_iff.mpr ⟨client, hclient, hr,
        plain_not_evicts_iff.mpr fun hp => (hstays hp).current_now hle⟩
    simp only [record?, Option.bind_eq_bind, Option.bind_eq_some_iff] at hplain
    obtain ⟨left, hleft, hr⟩ := hplain
    obtain ⟨client', hclient', -, rfl⟩ := Pass.get?_after_eq_some hleft
    obtain rfl := Option.some.inj (hclient.symm.trans hclient')
    exact ⟨_, hleft, hr, pressed_not_evicts_iff.mpr fun hp => protected_rest.mpr (hstays hp)⟩

/-! ## The contract of a scheduled collection -/

/-- What a scheduled collection does to a memory of requests and to the budget. -/
structure Relieved (c : Collection χ) : Prop where
  /-- The plain pass comes first. -/
  plain : c.plain.Collected
  /-- It is all, unless the budget is over its limit then. -/
  of_calm : c.between.exceeded = false → c.effect = c.before.apply (.sweep c.now fun _ => false)
  /-- So no completed request goes that is current. -/
  spared (name : String) (client : Client χ) (seq : SeqNo) (r : Record χ) :
    c.between.exceeded = false → c.before.clients.get? name = some client →
      client.records.get? seq = some r →
        client.Current c.before.settings.clientTtl c.now seq → c.left.record? name seq = some r
  of_pressed : c.between.exceeded = true → c.pressed.Collected ∧ c.left = c.pressed.after
  /-- Then exactly the completed requests stay that are current and young. -/
  record?_of_pressed (name : String) (seq : SeqNo) (r : Record χ) : c.between.exceeded = true →
    (c.left.record? name seq = some r ↔ ∃ client, c.before.clients.get? name = some client ∧
      client.records.get? seq = some r ∧ (r.phase = .completed → c.Protected client seq r))
  bounded : c.settled.exceeded = false ∨ c.OnlyProtected
  /-- Requests in progress stay as they are, also those who wait for them. -/
  unfinished (name : String) (seq : SeqNo) (r : Record χ) : r.phase ≠ .completed →
    (c.left.record? name seq = some r ↔ c.before.record? name seq = some r)
  kept (name : String) (client' : Client χ) : c.left.clients.get? name = some client' →
    ∃ client, c.before.clients.get? name = some client ∧
      client' = { client with records := client'.records }
  mem_removed (name : String) (seq : SeqNo) (r : Record χ) : (name, seq, r) ∈ c.removed ↔
    c.before.record? name seq = some r ∧ c.left.record? name seq = none
  nodup_removed : (c.removed.map fun e => (e.1, e.2.1)).Nodup
  /-- Nobody is answered, and the caller is told how many requests are gone. -/
  replies_eq : c.effect.replies = []
  result_eq : c.effect.result = .collected c.removed.length
  /-- The budget is given back what the memory shrinks by. -/
  consumption_eq : c.settled.consumption + c.before.bytes = c.budget.consumption + c.left.bytes
  /-- No charge overflows a budget that counts what goes. -/
  charged (w : Scenario.World) (place : Nat) : w.budgets[place]? = some c.budget →
    c.budget.Peaked → IsWord c.budget.consumption →
      (c.before.bytes : Int) ≤ c.budget.consumption + c.left.bytes →
        (w.charge place c.effect.charges).2 = none ∧
          (w.charge place c.effect.charges).1.budgets[place]? = some c.settled

theorem relieved (hd : c.before.Counted) (hle : c.now ≤ c.later) : c.Relieved := by
  have hcharges : c.effect.charges = c.passes.flatMap Pass.charges :=
    congrArg Effect.charges c.effect_eq
  have hbytes := (c.chain.metes hd).bytes_eq
  have hplain : c.plain.Collected := Pass.collected hd
  refine {
    plain := hplain
    of_calm := effect_of_calm
    spared := ?_
    of_pressed := fun h => ⟨Pass.collected hd.pass.counted, left_of_pressed h⟩
    record?_of_pressed := fun _ _ _ h => record?_of_pressed h hle
    bounded := ?_
    unfinished := fun _ _ _ hp =>
      ⟨fun hr => c.chain.record?_of_left hr, fun hr => c.chain.unfinished_left hr hp⟩
    kept := fun _ _ => c.chain.kept
    mem_removed := fun _ _ _ => c.chain.mem_removed
    nodup_removed := c.chain.nodup_removed
    replies_eq := congrArg Effect.replies c.effect_eq
    result_eq := congrArg Effect.result c.effect_eq
    consumption_eq := ?_
    charged := ?_ }
  · intro name client seq r h hclient hr hcurrent
    rw [left_of_calm h]
    exact Pass.record?_after_iff.mpr
      ⟨client, hclient, hr, plain_not_evicts_iff.mpr fun _ => hcurrent⟩
  · cases h : c.between.exceeded with
    | false =>
        have hsettled : c.settled = c.between := by
          rw [settled, effect_of_calm h]
          rfl
        exact .inl (hsettled ▸ h)
    | true => exact .inr (onlyProtected h)
  · rw [settled, Budget.chargeAll_consumption, hcharges]
    omega
  · intro w place hb hp hw hfits
    rw [settled, hcharges]
    refine Scenario.World.charge_eq hb hp ?_
    exact inWords_of_nonpos (fun n => c.chain.charges_nonpos hd) hw (by omega)

end Collection

@[simp] theorem Metered.run_limit (m : Metered χ) (ops : List (Op χ)) :
    (m.run ops).budget.limit = m.budget.limit := by
  induction ops generalizing m with
  | nil => rfl
  | cons op ops ih => exact (ih (m.apply op)).trans (Budget.chargeAll_limit ..)

/-- After any operations a scheduled collection makes a plain pass, and only while the budget is
over its limit then a second one, after which no completed request is left that is old, below its
client's mark or of an idle client. So a budget that counts one memory alone is within its limit in
the end, or all that is completed had to stay. -/
theorem pressure_bounded (settings : DedupSettings) (now later : Instant) (hle : now ≤ later) :
    (∀ (ops : List (Op χ)) (budget : Budget),
      Collection.Relieved ⟨(start settings : Dedup χ).run ops, now, later, budget⟩) ∧
    ∀ (id : String) (limit : Option Int) (ops : List (Op χ)),
      let m := (Metered.start settings id limit : Metered χ).run ops
      let c : Collection χ := ⟨m.dedup, now, later, m.budget⟩
      c.Relieved ∧ c.settled.consumption = c.left.bytes ∧
        ((∀ most, limit = some most → (c.left.bytes : Int) ≤ most) ∨ c.OnlyProtected) := by
  refine ⟨fun ops budget => Collection.relieved ((start_counted settings).run ops) hle, ?_⟩
  intro id limit ops m c
  have hexact : m.Exact := (Metered.start_exact settings id limit).run ops
  have hrelieved : c.Relieved := Collection.relieved hexact.counted hle
  have hconsumption : c.settled.consumption = c.left.bytes := by
    have hbefore : c.budget.consumption = c.before.bytes := hexact.consumption_eq
    have hbytes := hrelieved.consumption_eq
    omega
  refine ⟨hrelieved, hconsumption, hrelieved.bounded.imp_left fun hwithin most hmost => ?_⟩
  have hlimit : c.settled.limit = limit :=
    (Budget.chargeAll_limit ..).trans (Metered.run_limit ..)
  rw [← hconsumption]
  exact Budget.exceeded_eq_false_iff.mp hwithin most (hlimit.trans hmost)

/-- The requests of two clients, collected after 9.5 and 10 ms: whoever is silent for 5 ms is idle,
and what has not changed for 1 ms is old. -/
def collectionOf (limit : Option Int) : Collection Nat :=
  let m := (Metered.start ⟨1000, 5, 1, none, .alwaysComplete⟩ "b" limit).run twoClients
  ⟨m.dedup, ⟨9500000⟩, ⟨10000000⟩, m.budget⟩

/-- Under a limit that cannot be met the old request goes as well; without one it stays. -/
theorem pressure_bounded_two_clients :
    (collectionOf (some 1)).removed.map (fun e => (e.1, e.2.1)) =
        [("busy", 0), ("idle", 0), ("busy", 1)] ∧
      (collectionOf (some 1)).effect.result = .collected 3 ∧
      (collectionOf (some 1)).settled.consumption = (collectionOf (some 1)).left.bytes ∧
      (collectionOf (some 1)).settled.exceeded = true ∧ (collectionOf (some 1)).OnlyProtected ∧
      (collectionOf none).removed.map (fun e => (e.1, e.2.1)) = [("busy", 0), ("idle", 0)] ∧
      (collectionOf none).Relieved := by
  have hle : (⟨9500000⟩ : Instant) ≤ ⟨10000000⟩ := by decide
  obtain ⟨-, hmetered⟩ := pressure_bounded (χ := Nat) ⟨1000, 5, 1, none, .alwaysComplete⟩ _ _ hle
  obtain ⟨hrelieved, hconsumption, -⟩ := hmetered "b" (some 1) twoClients
  obtain ⟨hunlimited, -, -⟩ := hmetered "b" none twoClients
  have hremoved : (collectionOf (some 1)).removed.map (fun e => (e.1, e.2.1)) =
      [("busy", 0), ("idle", 0), ("busy", 1)] := by decide +kernel
  have hexceeded : (collectionOf (some 1)).settled.exceeded = true := by decide +kernel
  refine ⟨hremoved, ?_, hconsumption, hexceeded, ?_, by decide +kernel, hunlimited⟩
  · have hlength := congrArg length hremoved
    rw [length_map] at hlength
    exact hrelieved.result_eq.trans (congrArg Result.collected hlength)
  · exact hrelieved.bounded.resolve_left (Bool.not_eq_false _ ▸ hexceeded)

end OnceOnly.Dedup
