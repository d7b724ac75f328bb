import OnceOnly.Proofs.Registered
import OnceOnly.Proofs.RoundTrip

/-!
# Routing: a response goes to the call that asked for it

Three things have to agree: the id under which a call waits, the id that the call has, and the id in
the frames that it is sent in. The first two are set in one step, but the id may come from elsewhere
before; the third is written when the call is first encoded, and kept from then on.
-/

namespace OnceOnly

open List

variable {κ : Type}

/-! ## The id in a call's frames -/

/-- What is kept of a call's frame was encoded under the call's id. -/
def Call.Stamped (c : Call κ) : Prop :=
  ∀ front, c.encoded = some front →
    ∃ id limit, c.id = some id ∧ c.encodeHeader id limit = .ok front

/-- Whoever reads the slices as one frame finds the id in its header. -/
def Carries (id : Int32) (slices : List Bytes) : Prop :=
  ∀ limit, slices.flatten.length ≤ limit →
    ∃ f, Frame.parse RequestHeader.codec slices.flatten limit = .ok f ∧ f.header.callId = id

section Stamped

variable {c : Call κ} {id : Int32}

theorem Call.stamped_of_encoded_eq_none (h : c.encoded = none) : c.Stamped := by
  intro front hfront
  simp [h] at hfront

/-- Moves have no part in what is encoded. -/
theorem Call.Stamped.moved {m : Call.Move κ} (h : c.Stamped) (hm : c.Moved m) :
    m.call.Stamped := by
  cases hm with
  | refused => exact h
  | rejected => exact h
  | passed => exact h
  | succeeded => exact h
  | failed => exact h
  | timedOut => exact h

theorem Call.Stamped.prepared {id : Option Int32} {encoded : Option Bytes} (h : c.Stamped)
    (hid : c.id = none ∨ id = c.id)
    (hencoded : encoded = c.encoded ∨ ∃ given limit front,
      id = some given ∧ c.encodeHeader given limit = .ok front ∧ encoded = some front) :
    Call.Stamped { c with id, encoded } := by
  intro front hfront
  rcases hencoded with rfl | ⟨given, limit, front', hgiven, hwritten, rfl⟩
  · obtain ⟨given, limit, hgiven, hwritten⟩ := h front hfront
    rcases hid with hnone | rfl
    · simp [hnone] at hgiven
    · exact ⟨given, limit, hgiven, hwritten⟩
  · obtain rfl := Option.some.inj hfront
    exact ⟨given, limit, hgiven, hwritten⟩

theorem Call.carries_of_encodeHeader {limit : Nat} {front : Bytes}
    (h : c.encodeHeader id limit = .ok front) :
    Carries id (front :: c.request :: c.options.sidecars) := by
  obtain ⟨offsets, hoffsets, hfront⟩ := Call.encodeHeader_ok h
  intro most hmost
  obtain ⟨f, -, hf, hheader, -⟩ :=
    Frame.parse_slices RequestHeader.codec_faithful hoffsets hfront hmost
  exact ⟨f, hf, by rw [hheader]; rfl⟩

/-- A call is sent under its own id, whether it is encoded now or was before. -/
theorem Call.Stamped.carries {limit : Nat} {slices : List Bytes} (h : c.Stamped)
    (hslices : (c.serialize limit).2 = .ok slices) : ∃ id, c.id = some id ∧ Carries id slices := by
  cases hid : c.id with
  | none => simp [serialize, hid] at hslices
  | some id =>
      cases hkept : c.encoded with
      | none =>
          obtain ⟨front, hfront, rfl⟩ := Call.serialize_ok hid hkept hslices
          exact ⟨id, rfl, Call.carries_of_encodeHeader hfront⟩
      | some front =>
          obtain ⟨given, _, hgiven, hfront⟩ := h front hkept
          obtain rfl := Option.some.inj (hid.symm.trans hgiven)
          simp only [serialize, hid, hkept] at hslices
          split at hslices
          · simp at hslices
          · obtain rfl := Except.ok.inj hslices
            exact ⟨id, rfl, Call.carries_of_encodeHeader hfront⟩

end Stamped

/-- As long as the ids have not gone round, the next one says how many were drawn. -/
theorem Registry.toInt_nextId {r : Registry} (h : r.drawn < Registry.idCount) :
    r.nextId.toInt = r.drawn := by
  rw [nextId, Nat.mod_eq_of_lt h, Int32.toInt_ofNat_of_lt h]

namespace Session

variable {ref : CallRef} {id : Int32}

def Act.registers : Act κ → Bool
  | .register _ => true
  | _ => false

/-- The slices in which a call is sent by an event. -/
def Event.frame? (ref : CallRef) (e : Event κ) : Option (List Bytes) :=
  match e.act with
  | .serialize other limit =>
    if other = ref then
      (e.before.exchange.call? ref).bind fun call => (call.serialize limit).2.toOption
    else none
  | _ => none

/-- The slices of every frame that a call was sent in. -/
def frames (ref : CallRef) (es : List (Event κ)) : List (List Bytes) :=
  es.filterMap (Event.frame? ref)

/-! ## One act -/

section Act

variable {x x' : Exchange κ} {act : Act κ} {moved : Option (CallRef × Call.Move κ)}

/-- Every call's frame is kept as it was encoded under the call's id. -/
def AllStamped (x : Exchange κ) : Prop := ∀ ref c, x.call? ref = some c → c.Stamped

theorem AllStamped.setCall {c c' : Call κ} {other : CallRef} (h : AllStamped x)
    (hc : x.call? other = some c) (hc' : c'.Stamped) : AllStamped (x.setCall other c') := by
  intro ref c₀ hc₀
  rw [Exchange.call?_setCall hc] at hc₀
  split at hc₀
  · exact Option.some.inj hc₀ ▸ hc'
  · exact h ref c₀ hc₀

theorem AllStamped.acted (h : AllStamped x) (ha : Acted x act x' moved) : AllStamped x' := by
  cases ha with
  | started =>
      intro ref c hc
      rw [Exchange.call?_add] at hc
      split at hc
      · exact Option.some.inj hc ▸ Call.stamped_of_encoded_eq_none rfl
      · exact h ref c hc
  | asked hc hm => exact h.setCall hc ((h _ _ hc).moved hm)
  | prepared hc hid hencoded => exact h.setCall hc ((h _ _ hc).prepared hid hencoded)
  | registered _ hc hid =>
      exact AllStamped.setCall (x := x) h hc ((h _ _ hc).prepared (.inl hid) (.inl rfl))
  | settled _ hc hm => exact AllStamped.setCall (x := x) h hc ((h _ _ hc).moved hm)
  | _ => exact h

/-- Who waits after an act waited before, or has just been registered. -/
theorem Acted.get?_of_after (ha : Acted x act x' moved)
    (hget : x'.registry.get? id = some ref) :
    x.registry.get? id = some ref ∨
      (act = .register ref ∧ id = x.registry.nextId ∧ x.registry.get? id = none) := by
  have herase {id' : Int32} (h : (x.registry.remove id').get? id = some ref) :
      x.registry.get? id = some ref := by
    rw [Registry.get?, Registry.remove, SortedMap.get?_erase] at h
    split at h
    · simp at h
    · exact h
  cases ha with
  | registered hact _ _ hnew =>
      rw [Registry.get?, SortedMap.get?_insert] at hget
      split at hget
      · rename_i heq
        exact .inr ⟨Option.some.inj hget ▸ hact, heq, heq ▸ hnew⟩
      · exact .inl hget
  | removed => exact .inl (herase hget)
  | settled => exact .inl (herase hget)
  | vanished => exact .inl (herase hget)
  | reaped =>
      rw [Exchange.reap, Registry.get?, Registry.reap, SortedMap.get?_filterMap,
        Option.bind_eq_bind, Option.bind_eq_some_iff] at hget
      obtain ⟨other, hother, hget⟩ := hget
      split at hget
      · simp at hget
      · exact .inl (Option.some.inj hget ▸ hother)
  | _ => exact .inl hget

/-- Ids are drawn by those who register a call, one each. -/
theorem Acted.drawn (ha : Acted x act x' moved) :
    x.registry.drawn ≤ x'.registry.drawn ∧
      x'.registry.drawn ≤ x.registry.drawn + if act.registers then 1 else 0 := by
  cases ha with
  | spent hact =>
      obtain ⟨ref, rfl⟩ := hact
      exact ⟨Nat.le_succ _, Nat.le_refl _⟩
  | registered hact =>
      subst hact
      exact ⟨Nat.le_succ _, Nat.le_refl _⟩
  | _ => exact ⟨Nat.le_refl _, Nat.le_add_right ..⟩

/-- A call of this id is there. -/
def Named (x : Exchange κ) (ref : CallRef) (id : Int32) : Prop :=
  ∃ c, x.call? ref = some c ∧ c.id = some id

theorem Named.unique {id' : Int32} (h : Named x ref id) (h' : Named x ref id') : id = id' := by
  obtain ⟨c, hc, hid⟩ := h
  obtain ⟨c', hc', hid'⟩ := h'
  obtain rfl := Option.some.inj (hc.symm.trans hc')
  exact Option.some.inj (hid.symm.trans hid')

theorem Named.acted (h : Named x ref id) (ha : Acted x act x' moved) : Named x' ref id := by
  obtain ⟨c, hc, hid⟩ := h
  obtain ⟨c', hc', honward⟩ := ha.onward hc
  exact ⟨c', hc', honward.id hid⟩

end Act

/-! ## What an event does -/

/-- A call is registered under the next id, or nothing is changed but that the id is spent. -/
theorem Event.register_cases {e : Event κ} (hact : e.act = .register ref) :
    (e.registered? = some (ref, e.before.exchange.registry.nextId) ∧
        e.effect.session.exchange.registry.drawn = e.before.exchange.registry.drawn + 1) ∨
      (e.registered? = none ∧
        e.effect.session.exchange.calls = e.before.exchange.calls ∧
        e.effect.session.exchange.registry.calls = e.before.exchange.registry.calls) := by
  obtain ⟨s, act⟩ := e
  subst hact
  cases hc : s.exchange.call? ref with
  | none =>
      right
      simp [Event.registered?, Event.effect, Session.act, hc, put]
  | some c =>
      rcases s.exchange.registry.register_eq ref c with ⟨-, -, he⟩ | ⟨problem, he⟩
      · left
        simp [Event.registered?, Event.effect, Session.act, hc, Exchange.register, he, put,
          Except.toOption]
      · right
        simp [Event.registered?, Event.effect, Session.act, hc, Exchange.register, he,
          Exchange.setCall_self hc, put, Except.toOption]

theorem Event.eq_of_registered? {e : Event κ} (h : e.registered? = some (ref, id)) :
    id = e.before.exchange.registry.nextId ∧
      e.effect.session.exchange.registry.drawn = e.before.exchange.registry.drawn + 1 := by
  cases hact : e.act with
  | register other =>
      rcases Event.register_cases hact with ⟨hid, hdrawn⟩ | ⟨hnone, -⟩
      · obtain ⟨-, rfl⟩ : other = ref ∧ e.before.exchange.registry.nextId = id := by
          simpa [hid] using h
        exact ⟨rfl, hdrawn⟩
      · simp [hnone] at h
  | _ => simp [Event.registered?, hact] at h

theorem Event.carries_of_frame? {e : Event κ} {slices : List Bytes}
    (hs : AllStamped e.before.exchange) (h : e.frame? ref = some slices) :
    ∃ id, Named e.before.exchange ref id ∧ Carries id slices := by
  cases hact : e.act with
  | serialize other limit =>
      simp only [Event.frame?, hact] at h
      split at h
      · obtain ⟨c, hc, hslices⟩ := Option.bind_eq_some_iff.mp h
        obtain ⟨id, hid, hcarries⟩ := (hs ref c hc).carries (Except.toOption_eq_some.mp hslices)
        exact ⟨id, ⟨c, hc, hid⟩, hcarries⟩
      · simp at h
  | _ => simp [Event.frame?, hact] at h

/-- What becomes of a caller's side when a frame comes in. -/
structure Delivered (frame : Bytes) (before : Session κ) (effect : Effect κ) : Prop where
  unread {problem : Problem}
    (h : Response.parse frame before.exchange.registry.limit = .error problem) :
    effect = ⟨before, none⟩
  unknown {r : Response} (h : Response.parse frame before.exchange.registry.limit = .ok r)
    (hnone : before.exchange.registry.get? r.callId = none) : effect = ⟨before, none⟩
  /-- The call that waits under the id in the frame is told, and does not wait any more. Nothing
  else is changed. -/
  known {r : Response} {ref : CallRef}
    (h : Response.parse frame before.exchange.registry.limit = .ok r)
    (hget : before.exchange.registry.get? r.callId = some ref) :
    ∃ c, before.exchange.call? ref = some c ∧
      effect.moved = some (ref, c.respond r) ∧
      (∀ other, effect.session.exchange.call? other =
        if other = ref then some (c.respond r).call else before.exchange.call? other) ∧
      (∀ id, effect.session.exchange.registry.get? id =
        if id = r.callId then none else before.exchange.registry.get? id) ∧
      effect.session.exchange.deadlines = before.exchange.deadlines ∧
      effect.session.underway = before.underway

theorem handle_delivered {s : Session κ} (frame : Bytes)
    (hnamed : ∀ id ref, s.exchange.registry.get? id = some ref → Named s.exchange ref id) :
    Delivered frame s (s.act (.handle frame)) where
  unread h := by simp [Session.act, Exchange.handleFrame, h, bind, Except.bind, put]
  unknown h hnone := by
    simp [Session.act, Exchange.handleFrame, Exchange.addressee?, Exchange.handle, Exchange.settle,
      h, hnone, bind, Except.bind, pure, Except.pure, moving]
  known {r ref} h hget := by
    obtain ⟨c, hc, -⟩ := hnamed r.callId ref hget
    have hsettled : s.exchange.handle r =
        ({ s.exchange with registry := s.exchange.registry.remove r.callId }.setCall ref
          (c.respond r).call, some (c.respond r)) := by
      have hc' : Exchange.call?
          { s.exchange with registry := s.exchange.registry.remove r.callId } ref = some c := hc
      simp only [Exchange.handle, Exchange.settle, hget, Exchange.move, hc']
    have heffect : s.act (.handle frame) = s.moving (some ref) (s.exchange.handle r) := by
      simp [Session.act, Exchange.handleFrame, Exchange.addressee?, h, hget, bind, Except.bind,
        pure, Except.pure]
    rw [heffect, hsettled]
    refine ⟨c, hc, rfl, fun other => Exchange.call?_setCall (x := s.exchange) hc, fun id => ?_,
      rfl, rfl⟩
    exact SortedMap.get?_erase ..

/-! ## Whole runs -/

theorem mem_registered_concat {es : List (Event κ)} {e : Event κ} {r : CallRef × Int32} :
    r ∈ registered (es ++ [e]) ↔ r ∈ registered es ∨ e.registered? = some r := by
  simp [registered, mem_filterMap]

theorem mem_frames_concat {es : List (Event κ)} {e : Event κ} {slices : List Bytes} :
    slices ∈ frames ref (es ++ [e]) ↔ slices ∈ frames ref es ∨ e.frame? ref = some slices := by
  simp [frames, mem_filterMap]

section Run

variable {limit : Nat} {acts : List (Act κ)}

theorem allStamped_run : AllStamped ((start limit).run acts).exchange := by
  induction acts using reverseRecOn with
  | nil => exact fun ref c hc => by simp [start, run, Exchange.start, Exchange.call?] at hc
  | append_singleton acts act ih =>
      rw [run_concat]
      exact ih.acted (act_acted _ act)

theorem named_of_registered (h : (ref, id) ∈ registered ((start limit).events acts)) :
    Named ((start limit).run acts).exchange ref id := by
  induction acts using reverseRecOn with
  | nil => simp [registered, events] at h
  | append_singleton acts act ih =>
      rw [run_concat]
      rw [events_concat, mem_registered_concat] at h
      rcases h with hearlier | hnow
      · exact (ih hearlier).acted (act_acted _ act)
      · obtain ⟨c, hc, hid, -⟩ := kept_of_registered hnow
        exact ⟨c, hc, hid⟩

/-- Whoever waits was registered. -/
theorem registered_of_get? (h : ((start limit).run acts).exchange.registry.get? id = some ref) :
    (ref, id) ∈ registered ((start limit).events acts) := by
  induction acts using reverseRecOn with
  | nil => simp [start, run, Exchange.start, Registry.start, Registry.get?] at h
  | append_singleton acts act ih =>
      rw [run_concat] at h
      rw [events_concat, mem_registered_concat]
      rcases (act_acted _ act).get?_of_after h with hbefore | ⟨hact, rfl, hnone⟩
      · exact .inl (ih hbefore)
      · let e : Event κ := ⟨(start limit).run acts, act⟩
        rcases Event.register_cases (e := e) hact with ⟨hnow, -⟩ | ⟨-, -, hsame⟩
        · exact .inr hnow
        · have hafter : e.effect.session.exchange.registry.calls.get?
              e.before.exchange.registry.nextId = some ref := h
          rw [hsame] at hafter
          exact absurd (hnone.symm.trans hafter) (by simp)

/-- A call that was sent has an id, which all its frames carry. -/
theorem carries_of_frames {slices : List Bytes}
    (h : slices ∈ frames ref ((start limit).events acts)) :
    ∃ id, Named ((start limit).run acts).exchange ref id ∧ Carries id slices := by
  induction acts using reverseRecOn with
  | nil => simp [frames, events] at h
  | append_singleton acts act ih =>
      rw [events_concat, mem_frames_concat] at h
      obtain ⟨id, hnamed, hcarries⟩ : ∃ id, Named ((start limit).run acts).exchange ref id ∧
          Carries id slices := by
        rcases h with hearlier | hnow
        · exact ih hearlier
        · exact Event.carries_of_frame? allStamped_run hnow
      rw [run_concat]
      exact ⟨id, hnamed.acted (act_acted _ act), hcarries⟩

theorem drawn_run :
    ((start limit).run acts).exchange.registry.drawn ≤ acts.countP Act.registers := by
  induction acts using reverseRecOn with
  | nil => exact Nat.le_refl _
  | append_singleton acts act ih =>
      rw [run_concat, countP_append, countP_singleton]
      exact Nat.le_trans (act_acted _ act).drawn.2 (Nat.add_le_add_right ih _)

theorem toInt_nextId_run (hfew : acts.countP Act.registers < Registry.idCount) :
    ((start limit).run acts).exchange.registry.nextId.toInt =
      ((start limit).run acts).exchange.registry.drawn :=
  Registry.toInt_nextId (Nat.lt_of_le_of_lt drawn_run hfew)

/-- Until the ids go round, every id that was given is one of those drawn. -/
theorem toInt_lt_drawn (hfew : acts.countP Act.registers < Registry.idCount)
    (h : (ref, id) ∈ registered ((start limit).events acts)) :
    id.toInt < ((start limit).run acts).exchange.registry.drawn := by
  induction acts using reverseRecOn with
  | nil => simp [registered, events] at h
  | append_singleton acts act ih =>
      rw [countP_append] at hfew
      rw [run_concat]
      rw [events_concat, mem_registered_concat] at h
      rcases h with hearlier | hnow
      · have hbefore := ih (by omega) hearlier
        have hmore := (act_acted ((start limit).run acts) act).drawn.1
        omega
      · obtain ⟨rfl, hdrawn⟩ := Event.eq_of_registered? hnow
        rw [toInt_nextId_run (by omega)]
        have hafter : ((start limit).run acts |>.act act).session.exchange.registry.drawn =
            ((start limit).run acts).exchange.registry.drawn + 1 := hdrawn
        omega

/-- Until the ids go round, every id is greater than those before it. -/
theorem increasing_run (hfew : acts.countP Act.registers < Registry.idCount) :
    ((registered ((start limit).events acts)).map Prod.snd).Pairwise (· < ·) := by
  induction acts using reverseRecOn with
  | nil => simp [registered, events]
  | append_singleton acts act ih =>
      rw [countP_append] at hfew
      have hfew' : acts.countP Act.registers < Registry.idCount := by omega
      rw [events_concat, registered, filterMap_append, map_append, pairwise_append]
      refine ⟨ih hfew', ?_, fun id hid id' hid' => ?_⟩
      · cases hlast : Event.registered? ⟨(start limit).run acts, act⟩ <;> simp [hlast]
      · obtain ⟨⟨ref, id⟩, hearlier, rfl⟩ := mem_map.mp hid
        obtain ⟨⟨ref', id'⟩, hlast, rfl⟩ := mem_map.mp hid'
        obtain ⟨e, he, hlast⟩ := mem_filterMap.mp hlast
        obtain rfl := mem_singleton.mp he
        obtain ⟨rfl, -⟩ := Event.eq_of_registered? hlast
        rw [Int32.lt_iff_toInt_lt, toInt_nextId_run hfew']
        exact toInt_lt_drawn hfew' hearlier

theorem delivered_run {e : Event κ} {frame : Bytes} (he : e ∈ (start limit).events acts)
    (hact : e.act = .handle frame) : Delivered frame e.before e.effect := by
  induction acts using reverseRecOn with
  | nil => simp [events] at he
  | append_singleton acts act ih =>
      rw [events_concat, mem_append, mem_singleton] at he
      rcases he with hearlier | rfl
      · exact ih hearlier
      · obtain rfl : act = .handle frame := hact
        exact handle_delivered frame fun id ref hget =>
          named_of_registered (registered_of_get? hget)

end Run

/-- All that keeps responses from going astray. -/
structure Routed (x : Exchange κ) (es : List (Event κ)) : Prop where
  /-- A call that waits under an id was registered under it and has it. -/
  entry {id : Int32} {ref : CallRef} (h : x.registry.get? id = some ref) :
    (ref, id) ∈ registered es ∧ ∃ c, x.call? ref = some c ∧ c.id = some id
  /-- A call that was registered under an id has this id, also in all frames that it was sent in. -/
  named {id : Int32} {ref : CallRef} (h : (ref, id) ∈ registered es) :
    ∃ c, x.call? ref = some c ∧ c.id = some id ∧ ∀ slices ∈ frames ref es, Carries id slices
  single {id id' : Int32} {ref : CallRef} (h : (ref, id) ∈ registered es)
    (h' : (ref, id') ∈ registered es) : id = id'
  increasing : ((registered es).map Prod.snd).Pairwise (· < ·)
  /-- Who fails to register a call changes neither the call nor who waits. -/
  unregistered {e : Event κ} {ref : CallRef} (he : e ∈ es) (hact : e.act = .register ref)
    (hfail : e.registered? = none) :
    e.effect.session.exchange.calls = e.before.exchange.calls ∧
      e.effect.session.exchange.registry.calls = e.before.exchange.registry.calls
  delivered {e : Event κ} {frame : Bytes} (he : e ∈ es) (hact : e.act = .handle frame) :
    Delivered frame e.before e.effect

/-- Responses are never routed to the wrong call, as long as the ids do not go round. -/
theorem responses_routed (limit : Nat) (acts : List (Act κ))
    (hfew : acts.countP Act.registers < 2147483648) :
    Routed ((start limit).run acts).exchange ((start limit).events acts) where
  entry h := ⟨registered_of_get? h, named_of_registered (registered_of_get? h)⟩
  named {id ref} h := by
    obtain ⟨c, hc, hid⟩ := named_of_registered h
    refine ⟨c, hc, hid, fun slices hslices => ?_⟩
    obtain ⟨given, hgiven, hcarries⟩ := carries_of_frames hslices
    exact hgiven.unique ⟨c, hc, hid⟩ ▸ hcarries
  single h h' := (named_of_registered h).unique (named_of_registered h')
  increasing := increasing_run hfew
  unregistered _ hact hfail := by
    rcases Event.register_cases hact with ⟨hdone, -⟩ | ⟨-, hsame⟩
    · simp [hdone] at hfail
    · exact hsame
  delivered he hact := delivered_run he hact

/-- The second of three calls has an id already, so the one that it drew is spent. The third is sent
and answered; the first goes on waiting. -/
theorem responses_routed_spent_id :
    let call : Act Nat := .start ⟨.v4 127 0 0 1 1, ⟨none⟩⟩ ⟨"s", "m"⟩ ⟨none, none, none, ∅, []⟩ []
      7 ⟨0⟩
    let acts : List (Act Nat) :=
      [call, call, call, .register 0, .assignId 1 5, .register 1, .register 2, .serialize 2 100,
        .ask 2 .queued, .ask 2 .sending,
        .handle [0, 0, 0, 18, 0, 0, 0, 13, 2, 0, 0, 0, 0, 0, 0, 0, 0, 0, 0, 0, 0, 42]]
    let es := (start 100).events acts
    let x := ((start 100).run acts).exchange
    acts.countP Act.registers < 2147483648 ∧ Routed x es ∧ registered es = [(0, 0), (2, 2)] ∧
      x.registry.get? 0 = some 0 ∧ x.registry.get? 1 = none ∧ x.registry.get? 2 = none ∧
      (frames 2 es).length = 1 ∧ (outcomes 2 es).length = 1 ∧ outcomes 0 es = [] := by
  intro call acts es x
  have hfew : acts.countP Act.registers < 2147483648 := by decide +kernel
  refine ⟨hfew, responses_routed 100 acts hfew, ?_⟩
  decide +kernel

end Session

end OnceOnly
