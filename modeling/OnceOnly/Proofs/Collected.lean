import OnceOnly.Proofs.Metered

/-! # Collecting: a pass takes out exactly what may go -/

namespace OnceOnly

open List

namespace Dedup

variable {χ : Type}

/-! ## What may go -/

namespace Pass

variable (p : Pass χ)

/-- A request may go when it is completed, and below its client's mark, of an idle client, or
selected. -/
structure Evicts (name : String) (c : Client χ) (seq : SeqNo) (r : Record χ) : Prop where
  completed : r.phase = .completed
  reason : seq < c.staleBefore ∨ p.before.settings.clientTtl ≤ p.now.since c.lastHeard ∨
    p.force ⟨name, seq, p.now.since r.updated, footprint r⟩ = true

/-- A client may go when it is idle, all its requests go, and no driver is at work for it. -/
structure Drops (name : String) (c : Client χ) : Prop where
  idle : p.before.settings.clientTtl ≤ p.now.since c.lastHeard
  emptied (seq : SeqNo) (r : Record χ) : c.records.get? seq = some r → p.Evicts name c seq r
  undriven (seq : SeqNo) : c.abandoned.contains seq = false

variable {p} {name : String} {c : Client χ} {seq : SeqNo} {r : Record χ}

theorem isEvicted_iff :
    c.isEvicted p.now name (c.isIdle p.before.settings.clientTtl p.now) p.force seq r = true ↔
      p.Evicts name c seq r := by
  simp only [Client.isEvicted, Client.isExpired, Client.isIdle, Client.candidate, Bool.and_eq_true,
    Bool.or_eq_true, decide_eq_true_eq, beq_iff_eq, or_assoc]
  constructor
  · rintro ⟨h, h'⟩
    exact ⟨h, h'⟩
  · rintro ⟨h, h'⟩
    exact ⟨h, h'⟩

theorem sweepClient_get? : (p.before.sweepClient p.now p.force name c).rest.records.get? seq =
    some r ↔ c.records.get? seq = some r ∧ ¬ p.Evicts name c seq r := by
  rw [sweepClient, Client.sweep_get?_some, isEvicted_iff]

theorem isDropped_iff :
    p.before.isDropped p.now c (p.before.sweepClient p.now p.force name c).rest = true ↔
      p.Drops name c := by
  have hempty : (p.before.sweepClient p.now p.force name c).rest.records.isEmpty = true ↔
      ∀ seq r, c.records.get? seq = some r → p.Evicts name c seq r := by
    refine SortedMap.isEmpty_iff_get?.trans (forall_congr' fun seq => ?_)
    refine Option.eq_none_iff_forall_ne_some.trans (forall_congr' fun r => ?_)
    refine (not_congr sweepClient_get?).trans ?_
    simp only [not_and, Classical.not_not]
  have habandoned : c.abandoned.isEmpty = true ↔ ∀ seq, c.abandoned.contains seq = false := by
    simp only [SortedMap.isEmpty_iff_get?, SortedMap.contains, Option.isSome_eq_false_iff,
      Option.isNone_iff_eq_none]
  have hrest : (p.before.sweepClient p.now p.force name c).rest.abandoned = c.abandoned := rfl
  simp only [isDropped, Client.isGone, Client.isIdle, Bool.and_eq_true, decide_eq_true_eq, hempty,
    hrest, habandoned]
  constructor
  · rintro ⟨⟨h, h'⟩, h''⟩
    exact ⟨h, h', h''⟩
  · rintro ⟨h, h', h''⟩
    exact ⟨⟨h, h'⟩, h''⟩

/-! ## What goes -/

variable (p)

/-- The requests of a client that the pass takes out. -/
def removedOf (name : String) (c : Client χ) : List (SeqNo × Record χ) :=
  c.records.toList.filter fun e =>
    c.isEvicted p.now name (c.isIdle p.before.settings.clientTtl p.now) p.force e.1 e.2

/-- The requests that the pass takes out. -/
def removed : List (String × SeqNo × Record χ) :=
  p.before.clients.toList.flatMap fun e => (p.removedOf e.1 e.2).map (e.1, ·)

/-- The clients that the pass drops. -/
def forgotten : List (String × Client χ) :=
  p.before.clients.toList.filter fun e => (p.keep e.1 e.2).isNone

/-- The bytes of what the pass takes out: requests with their numbers, clients with their names. -/
def freed : Nat :=
  total (fun e => footprint e.2.1 + footprint e.2.2) p.removed +
    total (fun e => footprint e.1 + footprint e.2) p.forgotten

/-- Another pass right after this one. -/
def again : Pass χ := ⟨p.after, p.now, p.force⟩

variable {p}

theorem keep_eq_none_iff : p.keep name c = none ↔ p.Drops name c := by
  rw [← isDropped_iff, keep]
  split
  · simp_all
  · simp_all

theorem get?_after_none_iff : p.after.clients.get? name = none ↔
    ∀ c, p.before.clients.get? name = some c → p.Drops name c := by
  rw [get?_after]
  cases hc : p.before.clients.get? name with
  | none => simp
  | some c =>
      -- with all of the pass in sight, the settings would be evaluated here
      have hbind (f : Client χ → Option (Client χ)) : (some c >>= f) = f c := rfl
      rw [hbind, keep_eq_none_iff]
      exact ⟨fun h c' hc' => Option.some.inj hc' ▸ h, fun h => h c rfl⟩

/-- What is left of a client that stays. -/
theorem get?_after_eq_some {c' : Client χ} (h : p.after.clients.get? name = some c') :
    ∃ c, p.before.clients.get? name = some c ∧ ¬ p.Drops name c ∧
      c' = (p.before.sweepClient p.now p.force name c).rest := by
  cases p.swept name with
  | unknown _ ha => simp [ha] at h
  | dropped _ ha => simp [ha] at h
  | @kept c hb ha =>
      refine ⟨c, hb, fun hd => ?_, Option.some.inj (h.symm.trans ha)⟩
      have hnone := get?_after_none_iff.mpr fun c' hc' => Option.some.inj (hb.symm.trans hc') ▸ hd
      simp [hnone] at h

theorem record?_after_iff : p.after.record? name seq = some r ↔
    ∃ c, p.before.clients.get? name = some c ∧ c.records.get? seq = some r ∧
      ¬ p.Evicts name c seq r := by
  constructor
  · intro h
    simp only [record?, Option.bind_eq_bind, Option.bind_eq_some_iff] at h
    obtain ⟨c', hc', hr⟩ := h
    obtain ⟨c, hc, -, rfl⟩ := get?_after_eq_some hc'
    exact ⟨c, hc, sweepClient_get?.mp hr⟩
  · rintro ⟨c, hc, hr, hn⟩
    cases hc' : p.after.clients.get? name with
    | none => exact absurd ((get?_after_none_iff.mp hc' c hc).emptied seq r hr) hn
    | some c' =>
        obtain ⟨c₀, hc₀, -, rfl⟩ := get?_after_eq_some hc'
        obtain rfl := Option.some.inj (hc.symm.trans hc₀)
        rw [record?_of_get? hc']
        exact sweepClient_get?.mpr ⟨hr, hn⟩

theorem mem_removedOf {x : SeqNo × Record χ} : x ∈ p.removedOf name c ↔
    c.records.get? x.1 = some x.2 ∧ p.Evicts name c x.1 x.2 := by
  rw [removedOf, mem_filter, isEvicted_iff, ← ChargedMap.mem_toList_iff]

theorem mem_removed : (name, seq, r) ∈ p.removed ↔
    ∃ c, p.before.clients.get? name = some c ∧ c.records.get? seq = some r ∧
      p.Evicts name c seq r := by
  simp only [removed, mem_flatMap, mem_map, mem_removedOf, Prod.exists, ChargedMap.mem_toList_iff,
    Prod.mk.injEq]
  constructor
  · rintro ⟨_, c, hc, _, _, h, rfl, rfl, rfl⟩
    exact ⟨c, hc, h⟩
  · rintro ⟨c, hc, h⟩
    exact ⟨name, c, hc, seq, r, h, rfl, rfl, rfl⟩

theorem mem_forgotten : (name, c) ∈ p.forgotten ↔
    p.before.clients.get? name = some c ∧ p.Drops name c := by
  rw [forgotten, mem_filter, ChargedMap.mem_toList_iff, Option.isNone_iff_eq_none,
    keep_eq_none_iff]

theorem nodup_forgotten : (p.forgotten.map (·.1)).Nodup :=
  (SortedMap.nodup_keys p.before.clients.map).sublist (filter_sublist.map _)

end Pass

/-- Requests that are picked client by client are picked once each. -/
theorem nodup_picked (d : Dedup χ) (pick : String × Client χ → SeqNo × Record χ → Bool) :
    (d.clients.toList.flatMap fun e =>
      (e.2.records.toList.filter (pick e)).map fun x => (e.1, x.1)).Nodup := by
  refine pairwise_flatMap.mpr ⟨fun e _ => ?_, ?_⟩
  · have hkeys := (SortedMap.nodup_keys e.2.records.map).sublist
      ((filter_sublist (p := pick e)).map (·.1))
    refine pairwise_map.mpr ((pairwise_map.mp hkeys).imp fun hne he => ?_)
    exact hne (Prod.mk.inj he).2
  · refine (pairwise_map.mp (SortedMap.nodup_keys d.clients.map)).imp fun hne x hx y hy he => ?_
    obtain ⟨_, -, rfl⟩ := mem_map.mp hx
    obtain ⟨_, -, rfl⟩ := mem_map.mp hy
    exact hne (Prod.mk.inj he).1

namespace Pass

variable {p : Pass χ} {name : String} {c : Client χ} {seq : SeqNo} {r : Record χ}

theorem nodup_removed : (p.removed.map fun e => (e.1, e.2.1)).Nodup := by
  have h := nodup_picked p.before fun e x =>
    e.2.isEvicted p.now e.1 (e.2.isIdle p.before.settings.clientTtl p.now) p.force x.1 x.2
  simpa only [removed, removedOf, map_flatMap, map_map, Function.comp_def] using h

theorem evicted_eq : (p.before.sweep p.now p.force).evicted = p.removed.length := by
  simp only [removed, length_flatMap_eq_total, length_map]
  exact total_map ..

/-! ## What is offered -/

theorem offered_eq : (p.before.sweep p.now p.force).offered =
    p.before.clients.toList.flatMap fun e => (e.2.records.toList.filter fun x =>
        x.2.phase == .completed &&
          !e.2.isExpired (e.2.isIdle p.before.settings.clientTtl p.now) x.1).map
      fun x => Client.candidate p.now e.1 x.1 x.2 := by
  simp only [sweep, flatMap_map, sweepClient, Client.sweep]

theorem nodup_offered :
    ((p.before.sweep p.now p.force).offered.map fun x => (x.client, x.seq)).Nodup := by
  have h := nodup_picked p.before fun e x => x.2.phase == .completed &&
    !e.2.isExpired (e.2.isIdle p.before.settings.clientTtl p.now) x.1
  simpa only [offered_eq, map_flatMap, map_map, Function.comp_def, Client.candidate] using h

/-- Offered are the completed requests that do not go without. -/
theorem mem_offered {x : Candidate} : x ∈ (p.before.sweep p.now p.force).offered ↔
    ∃ c r, p.before.clients.get? x.client = some c ∧ c.records.get? x.seq = some r ∧
      r.phase = .completed ∧ ¬ x.seq < c.staleBefore ∧
      ¬ p.before.settings.clientTtl ≤ p.now.since c.lastHeard ∧
      x.age = p.now.since r.updated ∧ x.footprint = footprint r := by
  simp only [offered_eq, mem_flatMap, mem_map, mem_filter, Prod.exists, ChargedMap.mem_toList_iff,
    Client.isExpired, Client.isIdle, Client.candidate, Bool.and_eq_true, beq_iff_eq,
    Bool.not_eq_true', Bool.or_eq_false_iff, decide_eq_false_iff_not]
  constructor
  · rintro ⟨name, c, hc, seq, r, ⟨hr, hp, hs, hi⟩, rfl⟩
    exact ⟨c, r, hc, hr, hp, hs, hi, rfl, rfl⟩
  · rintro ⟨c, r, hc, hr, hp, hs, hi, ha, hf⟩
    exact ⟨x.client, c, hc, x.seq, r, ⟨hr, hp, hs, hi⟩, by cases x; simp_all⟩

section Asked

variable {force : Candidate → Bool} {e : String × Client χ}

/-- Whoever answers the same about what is offered selects the same. -/
theorem isEvicted_congr
    (h : ∀ x ∈ (p.before.sweep p.now p.force).offered, force x = p.force x)
    (he : e ∈ p.before.clients.toList) {x : SeqNo × Record χ} (hx : x ∈ e.2.records.toList) :
    e.2.isEvicted p.now e.1 (e.2.isIdle p.before.settings.clientTtl p.now) force x.1 x.2 =
      e.2.isEvicted p.now e.1 (e.2.isIdle p.before.settings.clientTtl p.now) p.force x.1 x.2 := by
  refine Client.isEvicted_congr fun y hy => h y ?_
  rw [sweep_offered]
  exact mem_flatMap.mpr ⟨e, he, mem_filterMap.mpr ⟨x, hx, hy⟩⟩

theorem sweepClient_congr
    (h : ∀ x ∈ (p.before.sweep p.now p.force).offered, force x = p.force x)
    (he : e ∈ p.before.clients.toList) :
    p.before.sweepClient p.now force e.1 e.2 = p.before.sweepClient p.now p.force e.1 e.2 := by
  have hevicted (x : SeqNo × Record χ) (hx : x ∈ e.2.records.toList) := isEvicted_congr h he hx
  have hrecords := ChargedMap.filterMap_congr (m := e.2.records)
    (f := fun seq r =>
      if e.2.isEvicted p.now e.1 (e.2.isIdle p.before.settings.clientTtl p.now) force seq r
      then none else some r)
    (g := fun seq r =>
      if e.2.isEvicted p.now e.1 (e.2.isIdle p.before.settings.clientTtl p.now) p.force seq r
      then none else some r)
    fun x hx => by rw [hevicted x hx]
  simp only [sweepClient, Client.sweep, hrecords, filter_congr hevicted]

/-- A pass asks about nothing but what it offers. -/
theorem sweep_congr (h : ∀ x ∈ (p.before.sweep p.now p.force).offered, force x = p.force x) :
    p.before.sweep p.now force = p.before.sweep p.now p.force := by
  have hclient (e : String × Client χ) (he : e ∈ p.before.clients.toList) := sweepClient_congr h he
  have hkeep := ChargedMap.filterMap_congr (m := p.before.clients)
    (f := Pass.keep ⟨p.before, p.now, force⟩) (g := p.keep) fun e he => by
      simp only [keep, hclient e he]
  have hcharges : p.before.clients.toList.flatMap
        (fun e => p.before.clientCharges p.now force e.1 e.2) =
      p.before.clients.toList.flatMap fun e => p.before.clientCharges p.now p.force e.1 e.2 := by
    refine congrArg flatten (map_congr_left fun e he => ?_)
    simp only [clientCharges, hclient e he]
  have hswept := map_congr_left hclient
  unfold keep at hkeep
  simp only [sweep, hswept, hcharges, hkeep]

end Asked

/-! ## What goes back to the budget -/

/-- A client that goes has nothing left that its records count. -/
theorem clientCharges_eq (hd : p.before.Counted) (hc : p.before.clients.get? name = some c) :
    p.before.clientCharges p.now p.force name c =
      -ChargedMap.bytesOf (p.removedOf name c) :: if (p.keep name c).isNone then [0] else [] := by
  have hrecords : (p.before.sweepClient p.now p.force name c).charges =
      [-ChargedMap.bytesOf (p.removedOf name c)] := by
    have hcharges := ChargedMap.filterMap_charges_of_goes (m := c.records) fun seq r =>
      c.isEvicted p.now name (c.isIdle p.before.settings.clientTtl p.now) p.force seq r
    exact hcharges
  have hrelease : p.before.isDropped p.now c (p.before.sweepClient p.now p.force name c).rest =
      true → (p.before.sweepClient p.now p.force name c).rest.records.release = [0] := by
    intro hdrop
    simp only [isDropped, Client.isGone, Bool.and_eq_true] at hdrop
    have hbalanced : ChargedMap.Balanced (p.before.sweepClient p.now p.force name c).rest.records :=
      (Client.sweep_booked _ _ _ _ _).balanced (hd name c hc)
    rw [ChargedMap.release, hbalanced, ChargedMap.bytes_of_isEmpty hdrop.1.2]
    rfl
  simp only [clientCharges, hrecords, keep]
  split
  · rename_i hdrop
    simp [hrelease hdrop]
  · simp

theorem charges_eq (hd : p.before.Counted) : (p.before.sweep p.now p.force).charges =
    (p.before.clients.toList.flatMap fun e => -ChargedMap.bytesOf (p.removedOf e.1 e.2) ::
        if (p.keep e.1 e.2).isNone then [0] else []) ++
      [-ChargedMap.bytesOf p.forgotten] := by
  have hclients : (p.before.clients.filterMap p.keep).2 = [-ChargedMap.bytesOf p.forgotten] := by
    refine ChargedMap.filterMap_charges fun e _ c' hc' => ?_
    rw [keep] at hc'
    split at hc'
    · simp at hc'
    · rw [← Option.some.inj hc']
      rfl
  have hrecords : p.before.clients.toList.flatMap
        (fun e => p.before.clientCharges p.now p.force e.1 e.2) =
      p.before.clients.toList.flatMap fun e => -ChargedMap.bytesOf (p.removedOf e.1 e.2) ::
        if (p.keep e.1 e.2).isNone then [0] else [] :=
    congrArg flatten (map_congr_left fun e he =>
      clientCharges_eq hd (ChargedMap.mem_toList_iff.mp he))
  rw [← hclients, ← hrecords]
  rfl

/-- Nothing is charged that is not given back. -/
theorem charges_nonpos (hd : p.before.Counted) {n : Int}
    (hn : n ∈ (p.before.sweep p.now p.force).charges) : n ≤ 0 := by
  have hbytes {κ α : Type} [Footprint κ] [Footprint α] (xs : List (κ × α)) :
      -ChargedMap.bytesOf xs ≤ 0 := by
    have := ChargedMap.bytesOf_nonneg xs
    omega
  rw [charges_eq hd, mem_append, mem_singleton, mem_flatMap] at hn
  rcases hn with ⟨e, -, hn⟩ | rfl
  · rcases mem_cons.mp hn with rfl | hn
    · exact hbytes _
    · split at hn
      · simp_all
      · simp at hn
  · exact hbytes _

theorem net_charges (hd : p.before.Counted) :
    net (p.before.sweep p.now p.force).charges = -p.freed := by
  have hrecords : (total (fun e => footprint e.2.1 + footprint e.2.2) p.removed : Int) =
      balance (fun e => ChargedMap.bytesOf (p.removedOf e.1 e.2)) p.before.clients.toList := by
    rw [total_eq_balance, removed, balance_flatMap]
    refine balance_congr fun e _ => ?_
    rw [balance_map]
    exact balance_congr fun x _ => Int.natCast_add ..
  have hclients : (total (fun e => footprint e.1 + footprint e.2) p.forgotten : Int) =
      ChargedMap.bytesOf p.forgotten := by
    rw [total_eq_balance]
    exact balance_congr fun e _ => Int.natCast_add ..
  have hgone : net (p.before.clients.toList.flatMap fun e =>
      -ChargedMap.bytesOf (p.removedOf e.1 e.2) :: if (p.keep e.1 e.2).isNone then [0] else []) +
        balance (fun e => ChargedMap.bytesOf (p.removedOf e.1 e.2)) p.before.clients.toList =
      0 := by
    rw [net, balance_flatMap, ← balance_add]
    refine balance_eq_zero fun e _ => ?_
    split
    · simp only [balance, id]
      omega
    · simp only [balance, id]
      omega
  rw [charges_eq hd, net_append, net_cons, net_nil, freed]
  omega

/-! ## A second pass -/

/-- What a client was reason enough for, it still is after the pass. -/
theorem again_evicts_iff :
    p.again.Evicts name (p.before.sweepClient p.now p.force name c).rest seq r ↔
      p.Evicts name c seq r :=
  ⟨fun h => ⟨h.completed, h.reason⟩, fun h => ⟨h.completed, h.reason⟩⟩

variable {c' : Client χ}

theorem again_not_evicts (hc' : p.after.clients.get? name = some c')
    (hr : c'.records.get? seq = some r) : ¬ p.again.Evicts name c' seq r := by
  obtain ⟨c, -, -, rfl⟩ := get?_after_eq_some hc'
  rw [again_evicts_iff]
  exact (sweepClient_get?.mp hr).2

theorem again_not_drops (hc' : p.after.clients.get? name = some c') :
    ¬ p.again.Drops name c' := by
  intro hdrops
  obtain ⟨c, -, hn, rfl⟩ := get?_after_eq_some hc'
  refine hn ⟨hdrops.idle, fun seq r hr => ?_, hdrops.undriven⟩
  refine Classical.byContradiction fun hkept => ?_
  have hleft := sweepClient_get?.mpr ⟨hr, hkept⟩
  exact again_not_evicts hc' hleft (hdrops.emptied seq r hleft)

theorem again_sweepClient (hc' : p.after.clients.get? name = some c') :
    (p.after.sweepClient p.now p.force name c').rest = c' := by
  have hsame := ChargedMap.filterMap_eq_self (m := c'.records)
    (f := fun seq r => if c'.isEvicted p.now name (c'.isIdle p.after.settings.clientTtl p.now)
      p.force seq r then none else some r) fun e he => by
        have hn := again_not_evicts hc' (ChargedMap.mem_toList_iff.mp he)
        rw [← isEvicted_iff] at hn
        exact if_neg hn
  simp only [sweepClient, Client.sweep, hsame]

theorem again_after (p : Pass χ) : p.again.after = p.after := by
  have hkeep := ChargedMap.filterMap_eq_self (m := p.after.clients) (f := p.again.keep)
    fun e he => by
      have hc' := ChargedMap.mem_toList_iff.mp he
      have hdropped := mt isDropped_iff.mp (again_not_drops hc')
      rw [keep, if_neg hdropped]
      exact congrArg some (again_sweepClient (p := p) hc')
  have hclients : p.again.after.clients = p.after.clients :=
    p.again.after_clients.trans (congrArg Prod.fst hkeep)
  show (⟨p.after.settings, p.again.after.clients⟩ : Dedup χ) = p.after
  rw [hclients]

theorem again_removed (p : Pass χ) : p.again.removed = [] := by
  refine eq_nil_iff_forall_not_mem.mpr fun e he => ?_
  obtain ⟨c', hc', hr, hevicts⟩ := mem_removed.mp he
  exact again_not_evicts hc' hr hevicts

theorem again_forgotten (p : Pass χ) : p.again.forgotten = [] := by
  refine eq_nil_iff_forall_not_mem.mpr fun e he => ?_
  obtain ⟨hc', hdrops⟩ := mem_forgotten.mp he
  exact again_not_drops hc' hdrops

/-! ## The contract of a pass -/

/-- What a pass does to a memory of requests. -/
structure Collected (p : Pass χ) : Prop where
  settings_eq : p.after.settings = p.before.settings
  /-- Exactly the requests that may go are gone; the others are as they were. -/
  record?_iff (name : String) (seq : SeqNo) (r : Record χ) :
    p.after.record? name seq = some r ↔
      ∃ c, p.before.clients.get? name = some c ∧ c.records.get? seq = some r ∧
        ¬ p.Evicts name c seq r
  /-- Exactly the clients that may go are gone. -/
  forgotten_iff (name : String) : p.after.clients.get? name = none ↔
    ∀ c, p.before.clients.get? name = some c → p.Drops name c
  /-- The others keep their marks and what they gave up. -/
  kept (name : String) (c' : Client χ) : p.after.clients.get? name = some c' →
    ∃ c, p.before.clients.get? name = some c ∧ c' = { c with records := c'.records }
  mem_removed (name : String) (seq : SeqNo) (r : Record χ) : (name, seq, r) ∈ p.removed ↔
    ∃ c, p.before.clients.get? name = some c ∧ c.records.get? seq = some r ∧
      p.Evicts name c seq r
  nodup_removed : (p.removed.map fun e => (e.1, e.2.1)).Nodup
  mem_forgotten (name : String) (c : Client χ) : (name, c) ∈ p.forgotten ↔
    p.before.clients.get? name = some c ∧ p.Drops name c
  nodup_forgotten : (p.forgotten.map (·.1)).Nodup
  /-- A request is offered when it is completed and does not go without. -/
  mem_offered (x : Candidate) : x ∈ (p.before.sweep p.now p.force).offered ↔
    ∃ c r, p.before.clients.get? x.client = some c ∧ c.records.get? x.seq = some r ∧
      r.phase = .completed ∧ ¬ x.seq < c.staleBefore ∧
      ¬ p.before.settings.clientTtl ≤ p.now.since c.lastHeard ∧
      x.age = p.now.since r.updated ∧ x.footprint = footprint r
  nodup_offered :
    ((p.before.sweep p.now p.force).offered.map fun x => (x.client, x.seq)).Nodup
  /-- What is not offered is not asked about. -/
  asked (force : Candidate → Bool) :
    (∀ x ∈ (p.before.sweep p.now p.force).offered, force x = p.force x) →
      p.before.sweep p.now force = p.before.sweep p.now p.force
  /-- Nobody is answered, and the caller is told how many requests are gone. -/
  effect_eq : p.before.apply (.sweep p.now p.force) =
    ⟨p.after, (p.before.sweep p.now p.force).charges, [], .collected p.removed.length⟩
  bytes_eq : p.after.bytes + p.freed = p.before.bytes
  /-- Exactly what goes is given back. -/
  given_back (b : Budget) : b.Peaked →
    b.chargeAll (p.before.sweep p.now p.force).charges =
      { b with consumption := b.consumption - p.freed }
  /-- No charge overflows a budget that counts what goes. -/
  charged (w : Scenario.World) (place : Nat) (b : Budget) : w.budgets[place]? = some b →
    b.Peaked → IsWord b.consumption → p.freed ≤ b.consumption →
      (w.charge place (p.before.sweep p.now p.force).charges).2 = none ∧
        (w.charge place (p.before.sweep p.now p.force).charges).1.budgets[place]? =
          some { b with consumption := b.consumption - p.freed }

theorem collected (hd : p.before.Counted) : p.Collected where
  settings_eq := rfl
  record?_iff _ _ _ := record?_after_iff
  forgotten_iff _ := get?_after_none_iff
  kept name c' hc' := by
    obtain ⟨c, hc, -, rfl⟩ := get?_after_eq_some hc'
    exact ⟨c, hc, rfl⟩
  mem_removed _ _ _ := Pass.mem_removed
  nodup_removed := Pass.nodup_removed
  mem_forgotten _ _ := Pass.mem_forgotten
  nodup_forgotten := Pass.nodup_forgotten
  mem_offered _ := Pass.mem_offered
  nodup_offered := Pass.nodup_offered
  asked _ := sweep_congr
  effect_eq := by
    rw [← evicted_eq]
    rfl
  bytes_eq := by
    have hbytes := hd.pass.bytes_eq
    rw [net_charges hd] at hbytes
    omega
  given_back b hb := by
    rw [hb.chargeAll_of_nonpos fun _ => charges_nonpos hd, net_charges hd, Int.sub_eq_add_neg]
  charged w place b hb hp hw hle := by
    have hwords := inWords_of_nonpos (fun _ => charges_nonpos hd) hw (by
      rw [net_charges hd]; omega)
    have hgone := Scenario.World.charge_eq hb hp hwords
    rwa [hp.chargeAll_of_nonpos fun _ => charges_nonpos hd, net_charges hd,
      ← Int.sub_eq_add_neg] at hgone

end Pass

theorem Counted.run {d : Dedup χ} (hd : d.Counted) (ops : List (Op χ)) : (d.run ops).Counted := by
  induction ops generalizing d with
  | nil => exact hd
  | cons op ops ih => exact ih (hd.apply op).counted

theorem start_counted (settings : DedupSettings) : (start settings : Dedup χ).Counted := by
  intro name c hc
  simp [start] at hc

/-- After any operations a pass takes out exactly the completed requests below their client's mark,
of idle clients, and those that are selected among the others, each of which it offers once; it
drops exactly the idle clients of which nothing is left and for which no driver is at work; it
leaves everything else as it is, answers nobody, and gives back the bytes of what is gone. The same
pass once more finds nothing to take out. -/
theorem pass_collected (settings : DedupSettings) (ops : List (Op χ)) (now : Instant)
    (force : Candidate → Bool) :
    let p : Pass χ := ⟨(start settings).run ops, now, force⟩
    p.Collected ∧ p.again.Collected ∧ p.again.after = p.after ∧ p.again.removed = [] ∧
      p.again.forgotten = [] := by
  intro p
  have hcounted : p.before.Counted := (start_counted settings).run ops
  exact ⟨Pass.collected hcounted, Pass.collected hcounted.pass.counted, p.again_after,
    p.again_removed, p.again_forgotten⟩

/-- One client has a request below its mark, two that are completed and one in progress; another
has not been heard from since. -/
def twoClients : List (Op Nat) :=
  [.track (fun _ => true) ⟨0⟩ ⟨"idle", 0, 0, 0⟩ 1 false, .complete ⟨1⟩ ⟨"idle", 0, 0, 0⟩ [7],
    .track (fun _ => true) ⟨9000000⟩ ⟨"busy", 0, 0, 0⟩ 2 false,
    .complete ⟨9000000⟩ ⟨"busy", 0, 0, 0⟩ [],
    .track (fun _ => true) ⟨9000000⟩ ⟨"busy", 1, 0, 0⟩ 3 false,
    .complete ⟨9000000⟩ ⟨"busy", 1, 0, 0⟩ [1, 2],
    .track (fun _ => true) ⟨9000000⟩ ⟨"busy", 2, 1, 0⟩ 4 false,
    .complete ⟨9000001⟩ ⟨"busy", 2, 1, 0⟩ [5],
    .track (fun _ => true) ⟨9000002⟩ ⟨"busy", 3, 1, 0⟩ 5 false]

/-- What they leave in a memory whose clients may be silent for 5 ms. -/
def servedTwo : Dedup Nat := (start ⟨1000, 5, 10000, none, .alwaysComplete⟩).run twoClients

/-- Selects what is as large as the second request. -/
def isLarge (x : Candidate) : Bool := decide (90 ≤ x.footprint)

/-- Three requests go for three reasons, two are offered, and one of the clients goes. -/
theorem pass_collected_two_clients :
    let p : Pass Nat := ⟨servedTwo, ⟨10000000⟩, isLarge⟩
    p.removed.map (fun e => (e.1, e.2.1)) = [("busy", 0), ("busy", 1), ("idle", 0)] ∧
      p.forgotten.map (·.1) = ["idle"] ∧
      (p.before.sweep p.now p.force).offered.map (·.seq) = [1, 2] ∧
      p.after.bytes + p.freed = p.before.bytes ∧ p.again.after = p.after := by
  intro p
  obtain ⟨hpass, -, hagain, -, -⟩ :=
    pass_collected ⟨1000, 5, 10000, none, .alwaysComplete⟩ twoClients ⟨10000000⟩ isLarge
  refine ⟨?_, ?_, ?_, hpass.bytes_eq, hagain⟩
  · decide +kernel
  · decide +kernel
  · decide +kernel

end Dedup

end OnceOnly
