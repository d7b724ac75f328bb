import Mathlib.Data.List.Induction
import OnceOnly.Proofs.Session

/-! # Registered calls: none is forgotten before it is finished, but for one case -/

namespace OnceOnly

open List

variable {κ : Type} {ref : CallRef} {id : Int32}

/-! ## What a run does to a call -/

namespace Session

/-- The call that is registered by an event, and the id that it waits under. -/
def Event.registered? (e : Event κ) : Option (CallRef × Int32) :=
  match e.act with
  | .register ref => do
    let call ← e.before.exchange.call? ref
    let id ← (e.before.exchange.register ref call).2.toOption
    return (ref, id)
  | _ => none

/-- The call that is explicitly taken out by an event. -/
def Event.removed? (e : Event κ) : Option CallRef :=
  match e.act with
  | .remove id => e.before.exchange.registry.get? id
  | _ => none

def Event.overtaken? (e : Event κ) : Option CallRef := Session.overtaken? e.before.exchange e.act

/-- What the callback of a call is told when some call is moved. -/
def toldTo (ref : CallRef) (moved : Option (CallRef × Call.Move κ)) : Option (κ × CallOutcome) :=
  moved.bind fun r => if r.1 = ref then r.2.fired else none

def registered (es : List (Event κ)) : List (CallRef × Int32) := es.filterMap Event.registered?

def removed (es : List (Event κ)) : List CallRef := es.filterMap Event.removed?

/-- The calls to which a success has come before they began to be sent. -/
def overtaken (es : List (Event κ)) : List CallRef := es.filterMap Event.overtaken?

/-- What the callback of a call has been told. -/
def outcomes (ref : CallRef) (es : List (Event κ)) : List (κ × CallOutcome) :=
  es.filterMap fun e => toldTo ref e.effect.moved

/-! ## One act -/

section Act

variable {x x' : Exchange κ} {act : Act κ} {moved : Option (CallRef × Call.Move κ)}

/-- All that an act can be to a call: it is moved, or at most given its id or encoded. -/
inductive Fared (ref : CallRef) (c : Call κ) (moved : Option (CallRef × Call.Move κ)) :
    Call κ → Prop where
  | moved {m : Call.Move κ} (he : moved = some (ref, m)) (hm : c.Moved m) :
      Fared ref c moved m.call
  | prepared {id : Option Int32} {encoded : Option Bytes} (he : ∀ m, moved ≠ some (ref, m))
      (hid : c.id = none ∨ id = c.id) : Fared ref c moved { c with id, encoded }

theorem Fared.aside {c : Call κ} (he : ∀ m, moved ≠ some (ref, m)) : Fared ref c moved c :=
  .prepared he (.inr rfl)

/-- A call is put in its place, and no other is touched. -/
theorem Fared.setCall {c c₀ c₁ : Call κ} {other : CallRef} (hc : x.call? ref = some c)
    (hc₀ : x.call? other = some c₀) (h : Fared other c₀ moved c₁)
    (he : ∀ r, moved = some r → r.1 = other) :
    ∃ c', (x.setCall other c₁).call? ref = some c' ∧ Fared ref c moved c' := by
  rw [Exchange.call?_setCall hc₀]
  by_cases hr : ref = other
  · subst hr
    obtain rfl := Option.some.inj (hc₀.symm.trans hc)
    exact ⟨c₁, if_pos rfl, h⟩
  · exact ⟨c, (if_neg hr).trans hc, .aside fun m hm => hr (he _ hm)⟩

theorem Acted.fared {c : Call κ} (ha : Acted x act x' moved) (hc : x.call? ref = some c) :
    ∃ c', x'.call? ref = some c' ∧ Fared ref c moved c' := by
  have hnone : ∀ m, (none : Option (CallRef × Call.Move κ)) ≠ some (ref, m) := by simp
  cases ha with
  | started =>
      refine ⟨c, ?_, .aside hnone⟩
      rw [Exchange.call?_add, if_neg, hc]
      intro he
      simp [he, Exchange.call?_nextRef] at hc
  | asked hc' hm =>
      exact Fared.setCall hc hc' (.moved rfl hm) fun r he => by simp [← Option.some.inj he]
  | prepared hc' hid => exact Fared.setCall hc hc' (.prepared (by simp) hid) (by simp)
  | registered _ hc' hid => exact Fared.setCall hc hc' (.prepared (by simp) (.inl hid)) (by simp)
  | settled _ hc' hm =>
      exact Fared.setCall hc hc' (.moved rfl hm) fun r he => by simp [← Option.some.inj he]
  | _ => exact ⟨c, hc, .aside hnone⟩

/-- A call keeps its id, and once finished it stays so. -/
structure Onward (c c' : Call κ) : Prop where
  id {id : Int32} : c.id = some id → c'.id = some id
  finished : c.isFinished = true → c'.isFinished = true

theorem Fared.onward {c c' : Call κ} (hf : Fared ref c moved c') : Onward c c' := by
  cases hf with
  | moved _ hm =>
      refine ⟨fun h => hm.id_eq.trans h, fun h => ?_⟩
      rw [hm.eq_of_isFinished h]
      exact h
  | prepared _ hid =>
      refine ⟨fun h => ?_, fun h => h⟩
      rcases hid with hid | rfl
      · simp [hid] at h
      · exact h

theorem Acted.onward {c : Call κ} (ha : Acted x act x' moved) (hc : x.call? ref = some c) :
    ∃ c', x'.call? ref = some c' ∧ Onward c c' := by
  obtain ⟨c', hc', hf⟩ := ha.fared hc
  exact ⟨c', hc', hf.onward⟩

/-- A call that leaves the registry has been taken out, is finished, or was answered before it began
to be sent. -/
theorem Acted.get? {c : Call κ} (ha : Acted x act x' moved) (hc : x.call? ref = some c)
    (hget : x.registry.get? id = some ref) (hrem : act ≠ .remove id)
    (hover : Session.overtaken? x act ≠ some ref) :
    x'.registry.get? id = some ref ∨ ∃ c', x'.call? ref = some c' ∧ c'.isFinished = true := by
  have herase {id' : Int32} (hne : id ≠ id') : (x.registry.remove id').get? id = some ref := by
    rw [Registry.get?, Registry.remove, SortedMap.get?_erase, if_neg hne]
    exact hget
  cases ha with
  | @registered other _ _ _ _ hnew =>
      have hne : id ≠ x.registry.nextId := by
        intro he
        simp [← he, hget] at hnew
      left
      rw [Registry.get?, SortedMap.get?_insert, if_neg hne]
      exact hget
  | @removed id' hact =>
      refine .inl (herase ?_)
      intro he
      exact hrem (he ▸ hact)
  | @settled id' other _ m hget' hc' _ hfin =>
      by_cases hid : id = id'
      · subst hid
        obtain rfl := Option.some.inj (hget.symm.trans hget')
        refine .inr ⟨m.call, ?_, hfin.resolve_right hover⟩
        exact (Exchange.call?_setCall hc').trans (if_pos rfl)
      · exact .inl (herase hid)
  | @vanished id' other hget' hc' =>
      refine .inl (herase ?_)
      intro hid
      subst hid
      obtain rfl := Option.some.inj (hget.symm.trans hget')
      simp [hc] at hc'
  | reaped =>
      cases hfin : c.isFinished with
      | true => exact .inr ⟨c, hc, hfin⟩
      | false =>
          left
          have hget' : x.registry.calls.get? id = some ref := hget
          simp [Exchange.reap, Registry.get?, Registry.reap, SortedMap.get?_filterMap, hget',
            Exchange.isFinished, hc, hfin]
  | _ => exact .inl hget

/-- A call has its id and waits under it, or is finished. -/
def Kept (x : Exchange κ) (ref : CallRef) (id : Int32) : Prop :=
  ∃ c, x.call? ref = some c ∧ c.id = some id ∧
    (x.registry.get? id = some ref ∨ c.isFinished = true)

theorem Kept.acted (h : Kept x ref id) (ha : Acted x act x' moved)
    (hrem : x.registry.get? id = some ref → act ≠ .remove id)
    (hover : Session.overtaken? x act ≠ some ref) : Kept x' ref id := by
  obtain ⟨c, hc, hid, hwait⟩ := h
  obtain ⟨c', hc', honward⟩ := ha.onward hc
  refine ⟨c', hc', honward.id hid, ?_⟩
  rcases hwait with hget | hfin
  · rcases ha.get? hc hget (hrem hget) hover with hget' | ⟨c'', hc'', hfin⟩
    · exact .inl hget'
    · obtain rfl := Option.some.inj (hc'.symm.trans hc'')
      exact .inr hfin
  · exact .inr (honward.finished hfin)

theorem append_toldTo_none (ref : CallRef) (told : List (κ × CallOutcome)) :
    told ++ (toldTo ref (none : Option (CallRef × Call.Move κ))).toList = told :=
  append_nil told

/-- A call agrees with what its callback has been told; of no call nothing has been told. -/
def Told (x : Exchange κ) (ref : CallRef) (told : List (κ × CallOutcome)) : Prop :=
  match x.call? ref with
  | none => told = []
  | some c => ∃ k, c.Agrees k told

variable {told : List (κ × CallOutcome)}

theorem told_of_call? {c : Call κ} (hc : x.call? ref = some c) :
    Told x ref told ↔ ∃ k, Call.Agrees k c told := by
  simp [Told, hc]

theorem Told.setCall {c c' : Call κ} {other : CallRef} {fired : Option (κ × CallOutcome)}
    (h : Told x ref told) (hc : x.call? other = some c)
    (hagrees : ∀ k, Call.Agrees k c told → Call.Agrees k c' (told ++ fired.toList)) :
    Told (x.setCall other c') ref (told ++ (if other = ref then fired else none).toList) := by
  by_cases hr : other = ref
  · subst hr
    obtain ⟨k, hk⟩ := (told_of_call? hc).mp h
    rw [if_pos rfl]
    exact (told_of_call? ((Exchange.call?_setCall hc).trans (if_pos rfl))).mpr ⟨k, hagrees k hk⟩
  · have hsame : (x.setCall other c').call? ref = x.call? ref :=
      (Exchange.call?_setCall hc).trans (if_neg (Ne.symm hr))
    rw [if_neg hr, Option.toList_none, append_nil, Told, hsame]
    exact h

/-- A new call's callback has been told nothing. -/
theorem Told.add {k : κ} {c : Call κ} (h : Told x ref told) (hc : Call.Agrees k c []) :
    Told (x.add c) ref told := by
  by_cases hr : ref = x.nextRef
  · have hnew : x.call? ref = none := hr ▸ Exchange.call?_nextRef
    obtain rfl : told = [] := by simpa [Told, hnew] using h
    exact (told_of_call? (Exchange.call?_add.trans (if_pos hr))).mpr ⟨k, hc⟩
  · have hsame : (x.add c).call? ref = x.call? ref := Exchange.call?_add.trans (if_neg hr)
    rw [Told, hsame]
    exact h

/-- Neither its id nor its encoding has a part in what a call's callback is told. -/
theorem Told.prepared {c : Call κ} {other : CallRef} {id : Option Int32} {encoded : Option Bytes}
    (h : Told x ref told) (hc : x.call? other = some c) :
    Told (x.setCall other { c with id, encoded }) ref told := by
  have hagrees (k : κ) (hk : Call.Agrees k c told) :
      Call.Agrees k { c with id, encoded } (told ++ (none : Option (κ × CallOutcome)).toList) := by
    rw [Option.toList_none, append_nil]
    cases hk with
    | unfinished hp hs hr hk => exact .unfinished hp hs hr hk
    | timedOut hp hs hr => exact .timedOut hp hs hr
    | failed hp hs => exact .failed hp hs
    | succeeded hp hs hr ho => exact .succeeded hp hs hr ho
  simpa using h.setCall hc hagrees

theorem Told.acted (h : Told x ref told) (ha : Acted x act x' moved) :
    Told x' ref (told ++ (toldTo ref moved).toList) := by
  cases ha with
  | started =>
      rw [append_toldTo_none]
      exact h.add (Call.start_agrees ..)
  | asked hc hm => exact h.setCall hc fun k hk => hk.moved hm
  | prepared hc =>
      rw [append_toldTo_none]
      exact h.prepared hc
  | registered _ hc =>
      rw [append_toldTo_none]
      exact Told.prepared (x := x) h hc
  | settled _ hc hm =>
      exact h.setCall (x := x) hc fun k hk => hk.moved hm
  | _ =>
      rw [append_toldTo_none]
      exact h

end Act

/-! ## Whole runs -/

theorem kept_of_registered {e : Event κ} (h : e.registered? = some (ref, id)) :
    Kept e.effect.session.exchange ref id := by
  obtain ⟨s, act⟩ := e
  cases act with
  | register other =>
      simp only [Event.registered?, Option.bind_eq_bind, Option.bind_eq_some_iff] at h
      obtain ⟨c, hc, given, hgiven, he⟩ := h
      obtain ⟨rfl, rfl⟩ : other = ref ∧ given = id := by simpa using he
      simp only [Event.effect, act, hc, put]
      rcases s.exchange.registry.register_eq other c with ⟨-, -, he⟩ | ⟨problem, he⟩
      · simp only [Exchange.register, he] at hgiven ⊢
        obtain rfl : s.exchange.registry.nextId = given := by simpa [Except.toOption] using hgiven
        refine ⟨_, (Exchange.call?_setCall hc).trans (if_pos rfl), rfl, .inl ?_⟩
        rw [Registry.get?, SortedMap.get?_insert, if_pos rfl]
      · simp [Exchange.register, he, Except.toOption] at hgiven
  | _ => simp [Event.registered?] at h

theorem kept_run {limit : Nat} {acts : List (Act κ)}
    (hreg : (ref, id) ∈ registered ((start limit).events acts))
    (hrem : ref ∉ removed ((start limit).events acts))
    (hover : ref ∉ overtaken ((start limit).events acts)) :
    Kept ((start limit).run acts).exchange ref id := by
  induction acts using reverseRecOn with
  | nil => simp [registered, events] at hreg
  | append_singleton acts act ih =>
      rw [run_concat]
      rw [events_concat, registered, filterMap_append, mem_append] at hreg
      rw [events_concat, removed, filterMap_append, mem_append, not_or] at hrem
      rw [events_concat, overtaken, filterMap_append, mem_append, not_or] at hover
      rcases hreg with hearlier | hnow
      · refine (ih hearlier hrem.1 hover.1).acted (act_acted _ act) ?_ ?_
        · intro hget hact
          exact hrem.2 (by simp [Event.removed?, hact, hget])
        · intro hlost
          exact hover.2 (by simp [Event.overtaken?, hlost])
      · obtain ⟨e, he, hnow⟩ := mem_filterMap.mp hnow
        obtain rfl := mem_singleton.mp he
        exact kept_of_registered hnow

theorem told_run (limit : Nat) (acts : List (Act κ)) (ref : CallRef) :
    Told ((start limit).run acts).exchange ref (outcomes ref ((start limit).events acts)) := by
  induction acts using reverseRecOn with
  | nil => rfl
  | append_singleton acts act ih =>
      let e : Event κ := ⟨(start limit).run acts, act⟩
      have hlast : outcomes ref [e] = (toldTo ref e.effect.moved).toList := by
        cases h : toldTo ref e.effect.moved <;> simp [outcomes, h]
      rw [run_concat, events_concat, outcomes, filterMap_append]
      show Told _ ref (outcomes ref ((start limit).events acts) ++ outcomes ref [e])
      rw [hlast]
      exact ih.acted (act_acted _ act)

/-- A call that is registered and not explicitly taken out again waits under its id until it has
finished and its callback has been told, unless a success came to it before it began to be sent. -/
theorem registered_until_finished (limit : Nat) (acts : List (Act κ)) (ref : CallRef) (id : Int32)
    (hreg : (ref, id) ∈ registered ((start limit).events acts))
    (hrem : ref ∉ removed ((start limit).events acts))
    (hover : ref ∉ overtaken ((start limit).events acts)) :
    let x := ((start limit).run acts).exchange
    ∃ c, x.call? ref = some c ∧ c.id = some id ∧
      (x.registry.get? id = some ref ∨
        (c.isFinished = true ∧ ∃ k outcome,
          outcomes ref ((start limit).events acts) = [(k, outcome)])) := by
  intro x
  obtain ⟨c, hc, hid, hwait⟩ := kept_run hreg hrem hover
  refine ⟨c, hc, hid, ?_⟩
  rcases hwait with hget | hfin
  · exact .inl hget
  · obtain ⟨k, hagrees⟩ := (told_of_call? hc).mp (told_run limit acts ref)
    obtain ⟨outcome, hout⟩ := hagrees.of_isFinished hfin
    exact .inr ⟨hfin, k, outcome, hout⟩

/-- A response that finishes a call, although the news that it was sent is still to come. -/
theorem registered_until_finished_answered :
    let acts : List (Act Nat) :=
      [.start ⟨.v4 127 0 0 1 1, ⟨none⟩⟩ ⟨"s", "m"⟩ ⟨none, none, none, ∅, []⟩ [] 7 ⟨0⟩, .register 0,
        .ask 0 .queued, .ask 0 .sending,
        .handle [0, 0, 0, 18, 0, 0, 0, 13, 0, 0, 0, 0, 0, 0, 0, 0, 0, 0, 0, 0, 0, 42]]
    let es := (start 100).events acts
    let x := ((start 100).run acts).exchange
    (0, 0) ∈ registered es ∧ 0 ∉ removed es ∧ 0 ∉ overtaken es ∧
      ∃ c, x.call? 0 = some c ∧ c.id = some 0 ∧
        (x.registry.get? 0 = some 0 ∨
          (c.isFinished = true ∧ ∃ k outcome, outcomes 0 es = [(k, outcome)])) := by
  intro acts es x
  have hreg : (0, 0) ∈ registered es := by decide +kernel
  have hrem : 0 ∉ removed es := by decide +kernel
  have hover : 0 ∉ overtaken es := by decide +kernel
  exact ⟨hreg, hrem, hover, registered_until_finished 100 acts 0 0 hreg hrem hover⟩

/-- The same response to a call that nobody has begun to send. The call does not wait any more, is
not finished, and its callback has not been told. -/
theorem overtaken_call_forgotten :
    let acts : List (Act Nat) :=
      [.start ⟨.v4 127 0 0 1 1, ⟨none⟩⟩ ⟨"s", "m"⟩ ⟨none, none, none, ∅, []⟩ [] 7 ⟨0⟩, .register 0,
        .handle [0, 0, 0, 18, 0, 0, 0, 13, 0, 0, 0, 0, 0, 0, 0, 0, 0, 0, 0, 0, 0, 42]]
    let es := (start 100).events acts
    let x := ((start 100).run acts).exchange
    (0, 0) ∈ registered es ∧ 0 ∉ removed es ∧ x.registry.get? 0 = none ∧
      (x.call? 0).map Call.phase = some .ready ∧ outcomes 0 es = [] := by
  decide +kernel

end Session

end OnceOnly
