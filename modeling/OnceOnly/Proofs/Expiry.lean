import OnceOnly.Proofs.Watch

/-!
# Timing out: exactly the calls that are due

A pass takes what is due out of the queue, and then checks one call after the other. In between,
callbacks run and others are at work, and they may do anything: finish calls that are still to be
checked, drop or schedule calls, begin another pass.
-/

namespace OnceOnly

open List

variable {κ : Type} {ref : CallRef}

/-- One pass at `now`: what it finds, which calls are still held by somebody, and what others do
before each check and after the last one. -/
structure Expiry (η κ : Type) where
  before : Watch η κ
  now : Instant
  isAlive : CallRef → Bool
  meanwhile : Nat → List (Watch.Step κ)

namespace Expiry

/-! ## One check -/

/-- What happens in a pass: a check of its own, or what others do. -/
inductive Part (κ : Type) where
  | check (before : Session κ) (ref : CallRef)
  | other (e : Session.Event κ)

namespace Part

variable (now : Instant)

/-- A check is an event as well: the call is asked to check its deadline. -/
def event : Part κ → Session.Event κ
  | check s ref => ⟨s, .ask ref (.checkDeadline now)⟩
  | other e => e

def checked? : Part κ → Option CallRef
  | check _ ref => some ref
  | other _ => none

def other? : Part κ → Option (Session.Event κ)
  | check _ _ => none
  | other e => some e

/-- What a check comes to. -/
def move? : Part κ → Option (Call.Move κ)
  | check s ref => (s.exchange.checkDeadline now ref).2
  | other _ => none

/-- This is a check, and has timed its call out. -/
def timesOut (p : Part κ) : Bool := (p.move? now).any fun m => m.transition.isApplied

/-- The callback that runs after a check, with its call and with the outcome that it is told. -/
def callback? (p : Part κ) : Option (CallRef × κ × CallOutcome) :=
  p.checked?.bind fun ref => ((p.move? now).bind Call.Move.fired).map (ref, ·)

variable {now} {s : Session κ} {p : Part κ}

theorem effect_check :
    ((check s ref).event now).effect.session.exchange = (s.exchange.checkDeadline now ref).1 := by
  rw [Session.checkDeadline_eq]
  rfl

/-- All that a check can come to: a call that is due and open is timed out, any other is left. -/
inductive Came (now : Instant) (s : Session κ) (ref : CallRef) : Prop where
  | timedOut {c : Call κ} (hc : s.exchange.call? ref = some c) (hdue : c.isDue now = true)
      (hopen : c.isFinished = false) (htimes : (check s ref).timesOut now = true)
      (hcallback : (check s ref).callback? now =
        c.callback.map fun k => (ref, k, .error c.timeoutError))
      (hafter : ((check s ref).event now).effect.session.exchange = s.exchange.setCall ref
        { c with phase := .timedOut, status := some c.timeoutError, callback := none })
  | left (hfin : ∀ c, s.exchange.call? ref = some c → c.isDue now = true → c.isFinished = true)
      (htimes : (check s ref).timesOut now = false) (hcallback : (check s ref).callback? now = none)
      (hafter : ((check s ref).event now).effect.session.exchange = s.exchange)

theorem Came.of_unmoved {m : Option (Call.Move κ)}
    (hcheck : s.exchange.checkDeadline now ref = (s.exchange, m))
    (hm : ∀ m' ∈ m, m'.transition.isApplied = false ∧ m'.fired = none)
    (hfin : ∀ c, s.exchange.call? ref = some c → c.isDue now = true → c.isFinished = true) :
    Came now s ref := by
  have hmove : (check s ref).move? now = m := congrArg Prod.snd hcheck
  refine .left hfin ?_ ?_ (by rw [effect_check, hcheck])
  · cases m with
    | none => simp [timesOut, hmove]
    | some m => simp [timesOut, hmove, (hm m rfl).1]
  · cases m with
    | none => simp [callback?, hmove]
    | some m => simp [callback?, hmove, (hm m rfl).2]

theorem came (now : Instant) (s : Session κ) (ref : CallRef) : Came now s ref := by
  cases hc : s.exchange.call? ref with
  | none =>
      have hcheck : s.exchange.checkDeadline now ref = (s.exchange, none) := by
        simp [Exchange.checkDeadline, hc]
      exact .of_unmoved hcheck (by simp) (by simp [hc])
  | some c =>
      cases hdue : c.isDue now with
      | false =>
          have hcheck : s.exchange.checkDeadline now ref = (s.exchange, none) := by
            simp [Exchange.checkDeadline, hc, Call.checkDeadline, hdue]
          exact .of_unmoved hcheck (by simp) (by simp [hc, hdue])
      | true =>
          have hcheck : s.exchange.checkDeadline now ref =
              (s.exchange.setCall ref c.timeOut.call, some c.timeOut) := by
            simp [Exchange.checkDeadline, hc, Call.checkDeadline, hdue]
          cases hfin : c.isFinished with
          | false =>
              rw [Call.timeOut_eq hfin] at hcheck
              refine .timedOut hc hdue hfin ?_ ?_ (by rw [effect_check, hcheck])
              · simp [timesOut, move?, hcheck, Transition.isApplied]
              · simp [callback?, checked?, move?, hcheck, Function.comp_def]
          | true =>
              rw [c.timeOut_moved.eq_of_isFinished hfin, Exchange.setCall_self hc] at hcheck
              exact .of_unmoved hcheck (by simp [Transition.isApplied]) (by simp [hc, hfin])

theorem exists_check_of_timesOut (h : p.timesOut now = true) : ∃ s ref, p = check s ref := by
  cases p with
  | check s ref => exact ⟨s, ref, rfl⟩
  | other e => simp [timesOut, move?] at h

/-- A check finishes its call when it times it out, and no other call. -/
theorem check_finishes_iff {other : CallRef} :
    ((check s ref).event now).Finishes other ↔
      other = ref ∧ (check s ref).timesOut now = true := by
  cases came now s ref with
  | @timedOut c hc _ hopen htimes _ hafter =>
      have hcall (c' : Call κ) : (s.exchange.setCall ref c').call? other =
          if other = ref then some c' else s.exchange.call? other := Exchange.call?_setCall hc
      rw [Session.Event.Finishes, hafter]
      constructor
      · rintro ⟨hbefore, c', hc', hfin⟩
        refine ⟨Classical.byContradiction fun hne => ?_, htimes⟩
        rw [hcall, if_neg hne] at hc'
        exact hbefore.not_ended ⟨c', hc', hfin⟩
      · rintro ⟨rfl, -⟩
        exact ⟨⟨c, hc, hopen⟩, _, (hcall _).trans (if_pos rfl), rfl⟩
  | left _ htimes _ hafter =>
      rw [Session.Event.Finishes, hafter, htimes]
      constructor
      · rintro ⟨hbefore, hended⟩
        exact absurd hended hbefore.not_ended
      · rintro ⟨-, hfalse⟩
        simp at hfalse

/-! ## All parts of a pass -/

variable {parts : List (Part κ)} {x x' : Exchange κ}

variable (now) in
/-- The calls that are timed out, in this order. -/
def timedOut (parts : List (Part κ)) : List CallRef :=
  (parts.filter (timesOut now)).filterMap checked?

theorem mem_timedOut : ref ∈ timedOut now parts ↔
    ∃ s, check s ref ∈ parts ∧ (check s ref).timesOut now = true := by
  rw [timedOut, mem_filterMap]
  constructor
  · rintro ⟨p, hp, hchecked⟩
    obtain ⟨hp, htimes⟩ := mem_filter.mp hp
    obtain ⟨s, other, rfl⟩ := exists_check_of_timesOut htimes
    obtain rfl : other = ref := Option.some.inj hchecked
    exact ⟨s, hp, htimes⟩
  · rintro ⟨s, hp, htimes⟩
    exact ⟨_, mem_filter.mpr ⟨hp, htimes⟩, rfl⟩

theorem mem_event_of_other {e : Session.Event κ} (he : e ∈ parts.filterMap other?) :
    e ∈ parts.map (event now) := by
  obtain ⟨p, hp, he⟩ := mem_filterMap.mp he
  cases p with
  | check s ref => simp [other?] at he
  | other e' =>
      obtain rfl : e' = e := Option.some.inj he
      exact mem_map.mpr ⟨_, hp, rfl⟩

/-- What a part of a pass finds, and what comes after it. -/
theorem led_split (h : Session.Led x (parts.map (event now)) x') (hp : p ∈ parts) :
    ∃ earlier later, parts = earlier ++ p :: later ∧
      Session.Led x (earlier.map (event now)) (p.event now).before.exchange ∧
      Session.Led (p.event now).effect.session.exchange (later.map (event now)) x' := by
  obtain ⟨earlier, later, rfl⟩ := append_of_mem hp
  rw [map_append, map_cons] at h
  exact ⟨earlier, later, rfl, h.split⟩

/-- No call is timed out twice. -/
theorem nodup_timedOut (h : Session.Led x (parts.map (event now)) x') :
    (timedOut now parts).Nodup := by
  induction parts generalizing x with
  | nil => exact nodup_nil
  | cons p parts ih =>
      obtain ⟨-, hrest⟩ : Session.Led x [] _ ∧ _ := Session.Led.split h
      cases htimes : p.timesOut now with
      | false => simpa [timedOut, htimes] using ih hrest
      | true =>
          obtain ⟨s, ref, rfl⟩ := exists_check_of_timesOut htimes
          have hcons : timedOut now (check s ref :: parts) = ref :: timedOut now parts := by
            simp [timedOut, htimes, checked?]
          rw [hcons]
          refine nodup_cons.mpr ⟨fun hagain => ?_, ih hrest⟩
          obtain ⟨s', hp, htimes'⟩ := mem_timedOut.mp hagain
          have hended := (check_finishes_iff.mpr ⟨rfl, htimes⟩).2
          exact hrest.not_finishes hended _ (mem_map_of_mem hp)
            (check_finishes_iff.mpr ⟨rfl, htimes'⟩)

/-- Whom others finish, no check times out. -/
theorem not_finishes_of_timedOut (h : Session.Led x (parts.map (event now)) x')
    (href : ref ∈ timedOut now parts) : ∀ e ∈ parts.filterMap other?, ¬ e.Finishes ref := by
  intro e he
  obtain ⟨s, hp, htimes⟩ := mem_timedOut.mp href
  obtain ⟨earlier, later, rfl⟩ := append_of_mem hp
  rw [map_append, map_cons] at h
  rw [filterMap_append, filterMap_cons_none rfl, ← filterMap_append] at he
  refine h.finishes_unique (check_finishes_iff.mpr ⟨rfl, htimes⟩) e ?_
  rw [← map_append]
  exact mem_event_of_other he

end Part

/-- Calls that are due have been checked one after the other, whatever others did. -/
structure Checked (now : Instant) (due : List CallRef) (x : Exchange κ) (parts : List (Part κ))
    (x' : Exchange κ) : Prop where
  settled : Session.Settled x
  led : Session.Led x (parts.map (Part.event now)) x'
  due_eq : parts.filterMap Part.checked? = due
  reached : ∀ ref ∈ due, ∃ c, x.call? ref = some c ∧ c.isDue now = true

namespace Checked

variable {now : Instant} {due : List CallRef} {x x' : Exchange κ} {parts : List (Part κ)}

theorem mem_due (h : Checked now due x parts x') {s : Session κ} (hp : .check s ref ∈ parts) :
    ref ∈ due :=
  h.due_eq ▸ mem_filterMap.mpr ⟨_, hp, rfl⟩

theorem exists_check (h : Checked now due x parts x') (href : ref ∈ due) :
    ∃ s, Part.check s ref ∈ parts := by
  rw [← h.due_eq, mem_filterMap] at href
  obtain ⟨p, hp, hchecked⟩ := href
  cases p with
  | check s other =>
      obtain rfl : other = ref := Option.some.inj hchecked
      exact ⟨s, hp⟩
  | other e => simp [Part.checked?] at hchecked

/-- A call that has been checked is finished. -/
theorem ended (h : Checked now due x parts x') (href : ref ∈ due) : x'.Ended ref := by
  obtain ⟨s, hp⟩ := h.exists_check href
  obtain ⟨earlier, later, -, hbefore, hafter⟩ := Part.led_split h.led hp
  refine hafter.ended ?_
  cases Part.came now s ref with
  | timedOut _ _ _ htimes => exact (Part.check_finishes_iff.mpr ⟨rfl, htimes⟩).2
  | left hfin _ _ hsame =>
      obtain ⟨c, hc, hdue⟩ := h.reached ref href
      obtain ⟨c', hc', hlasting⟩ := hbefore.lasting hc
      rw [hsame]
      exact ⟨c', hc', hfin c' hc' ((hlasting.isDue_eq now).trans hdue)⟩

/-- Timed out is exactly what is due and open, and is not finished by others. -/
theorem mem_timedOut_iff (h : Checked now due x parts x') (ref : CallRef) :
    ref ∈ Part.timedOut now parts ↔
      ref ∈ due ∧ x.Open ref ∧ ∀ e ∈ parts.filterMap Part.other?, ¬ e.Finishes ref := by
  constructor
  · intro href
    obtain ⟨s, hp, htimes⟩ := Part.mem_timedOut.mp href
    obtain ⟨earlier, later, -, hbefore, -⟩ := Part.led_split h.led hp
    obtain ⟨c, hc, -⟩ := h.reached ref (h.mem_due hp)
    have hopen := (Part.check_finishes_iff.mpr ⟨rfl, htimes⟩).1
    refine ⟨h.mem_due hp, ?_, Part.not_finishes_of_timedOut h.led href⟩
    exact (Exchange.open_or_ended hc).resolve_right fun hended =>
      hopen.not_ended (hbefore.ended hended)
  · rintro ⟨hdue, hopen, hothers⟩
    obtain ⟨e, he, hfinishes⟩ := h.led.exists_finishes hopen (h.ended hdue)
    obtain ⟨p, hp, rfl⟩ := mem_map.mp he
    cases p with
    | check s other =>
        obtain ⟨rfl, htimes⟩ := Part.check_finishes_iff.mp hfinishes
        exact Part.mem_timedOut.mpr ⟨s, hp, htimes⟩
    | other e => exact absurd hfinishes (hothers e (mem_filterMap.mpr ⟨_, hp, rfl⟩))

/-- A call that was timed out stays so. -/
theorem phase_eq (h : Checked now due x parts x') (href : ref ∈ Part.timedOut now parts) :
    ∃ c, x'.call? ref = some c ∧ c.phase = .timedOut := by
  obtain ⟨s, hp, htimes⟩ := Part.mem_timedOut.mp href
  obtain ⟨earlier, later, -, -, hafter⟩ := Part.led_split h.led hp
  cases Part.came now s ref with
  | timedOut hc _ _ _ _ hexchange =>
      obtain ⟨c', hc', hlasting⟩ :=
        hafter.lasting (by rw [hexchange, Exchange.call?_setCall hc, if_pos rfl])
      exact ⟨c', hc', hlasting.phase_eq rfl⟩
  | left _ hnot => simp [htimes] at hnot

/-- Its callback runs, and no other callback. -/
theorem callbacks_eq (h : Checked now due x parts x') :
    (parts.filterMap (Part.callback? now)).map (·.1) = Part.timedOut now parts := by
  rw [Part.timedOut, filterMap_filter, map_filterMap]
  refine filterMap_congr fun p hp => ?_
  cases p with
  | other e => rfl
  | check s ref =>
      obtain ⟨earlier, later, -, hbefore, -⟩ := Part.led_split h.led hp
      cases Part.came now s ref with
      | timedOut hc _ hopen htimes hcallback =>
          obtain ⟨k, hk⟩ := (hbefore.settled h.settled).callback hc hopen
          simp [hcallback, htimes, hk, Part.checked?]
      | left _ htimes hcallback => simp [hcallback, htimes]

/-- It is the callback that the call was started with, and it is told that the call took too
long. -/
theorem callback_eq (h : Checked now due x parts x') {r : CallRef × κ × CallOutcome}
    (hr : r ∈ parts.filterMap (Part.callback? now)) :
    ∃ c, x.call? r.1 = some c ∧ c.callback = some r.2.1 ∧ r.2.2 = .error c.timeoutError := by
  obtain ⟨p, hp, hcallback⟩ := mem_filterMap.mp hr
  cases p with
  | other e => simp [Part.callback?, Part.checked?] at hcallback
  | check s ref =>
      obtain ⟨earlier, later, -, hbefore, -⟩ := Part.led_split h.led hp
      cases Part.came now s ref with
      | @timedOut c' hc' _ hopen _ hfired _ =>
          obtain ⟨c, hc, -⟩ := h.reached ref (h.mem_due hp)
          obtain ⟨c₀, hc₀, hlasting⟩ := hbefore.lasting hc
          obtain rfl : c₀ = c' := Option.some.inj (hc₀.symm.trans hc')
          rw [hfired, Option.map_eq_some_iff] at hcallback
          obtain ⟨k, hk, rfl⟩ := hcallback
          refine ⟨c, hc, ?_, ?_⟩
          · exact (hlasting.callback_eq hopen).symm.trans hk
          · exact congrArg Except.error hlasting.timeoutError_eq
      | left _ _ hnone => simp [hnone] at hcallback

end Checked

/-! ## Going through what is due -/

section GoThrough

variable {η : Type} (H : DeadlineHeap η)

/-- Checks a call's deadline. -/
def check (now : Instant) (w : Watch η κ) (ref : CallRef) : Watch η κ :=
  { w with session.exchange := (w.session.exchange.checkDeadline now ref).1 }

/-- Checks calls one after the other. Others take their steps before each check, and after the
last one. -/
def goThrough (now : Instant) (w : Watch η κ) (meanwhile : Nat → List (Watch.Step κ)) :
    List CallRef → Watch η κ × List (Part κ)
  | [] => (w.run H (meanwhile 0), (w.events H (meanwhile 0)).map .other)
  | ref :: due =>
    let found := w.run H (meanwhile 0)
    let rest := goThrough now (check now found ref) (fun i => meanwhile (i + 1)) due
    (rest.1, (w.events H (meanwhile 0)).map .other ++ .check found.session ref :: rest.2)

variable {H}

theorem goThrough_led (now : Instant) (w : Watch η κ) (meanwhile : Nat → List (Watch.Step κ))
    (due : List CallRef) :
    Session.Led w.session.exchange ((goThrough H now w meanwhile due).2.map (Part.event now))
      (goThrough H now w meanwhile due).1.session.exchange := by
  have hothers (es : List (Session.Event κ)) : (es.map Part.other).map (Part.event now) = es := by
    rw [map_map]
    exact map_id _
  induction due generalizing w meanwhile with
  | nil =>
      rw [goThrough, hothers]
      exact w.run_led _
  | cons ref due ih =>
      have hrest := ih (check now (w.run H (meanwhile 0)) ref) fun i => meanwhile (i + 1)
      rw [goThrough, map_append, hothers, map_cons]
      refine (w.run_led _).append (.cons (e := (Part.check _ ref).event now) ?_)
      rw [Part.effect_check]
      exact hrest

/-- Each call that is due is checked in its turn. -/
theorem goThrough_checked (now : Instant) (w : Watch η κ) (meanwhile : Nat → List (Watch.Step κ))
    (due : List CallRef) :
    (goThrough H now w meanwhile due).2.filterMap Part.checked? = due := by
  have hothers (es : List (Session.Event κ)) :
      (es.map Part.other).filterMap Part.checked? = [] := by
    rw [filterMap_map]
    exact filterMap_eq_nil_iff.mpr fun e _ => rfl
  induction due generalizing w meanwhile with
  | nil => exact hothers _
  | cons ref due ih =>
      rw [goThrough, filterMap_append, hothers, nil_append]
      exact congrArg (ref :: ·) (ih _ _)

end GoThrough

/-! ## The whole pass -/

variable {η : Type} (H : DeadlineHeap η) (p : Expiry η κ)

/-- What is due and alive. -/
def due : List CallRef := (p.before.timeouts.takeDue H p.now p.isAlive).1

/-- The queue without what is due. -/
def left : Timeouts η := (p.before.timeouts.takeDue H p.now p.isAlive).2

def course : Watch η κ × List (Part κ) :=
  goThrough H p.now { p.before with timeouts := p.left H } p.meanwhile (p.due H)

def after : Watch η κ := (p.course H).1

/-- What others did in this pass. -/
def others : List (Session.Event κ) := (p.course H).2.filterMap Part.other?

/-- The calls that this pass has timed out, in this order. -/
def timedOut : List CallRef := Part.timedOut p.now (p.course H).2

/-- The callbacks that ran after the checks of this pass, in this order. -/
def callbacks : List (CallRef × κ × CallOutcome) :=
  (p.course H).2.filterMap (Part.callback? p.now)

/-- The answer: how many checks have timed a call out. -/
def count : Nat := (p.course H).2.countP (Part.timesOut p.now)

/-- The exchange when the registry has stopped waiting for finished calls. -/
def reaped : Exchange κ := (p.after H).session.exchange.finish (.expire p.now [])

/-- What a pass has to come to. -/
structure Exact : Prop where
  /-- Exactly the entries that are not due are left. -/
  entries_left : H.entries (p.left H).heap ~
    (H.entries p.before.timeouts.heap).filter fun e => !decide (e.2 ≤ p.now)
  /-- Their calls are left with them. -/
  calls_left (key : Nat) (ref : CallRef) : (p.left H).calls.get? key = some ref ↔
    p.before.timeouts.calls.get? key = some ref ∧ key ∈ (H.entries (p.left H).heap).map (·.1)
  due_iff (ref : CallRef) : ref ∈ p.due H ↔ p.isAlive ref = true ∧
    ∃ e ∈ H.entries p.before.timeouts.heap,
      e.2 ≤ p.now ∧ p.before.timeouts.calls.get? e.1 = some ref
  ended (ref : CallRef) : ref ∈ p.due H → (p.after H).session.exchange.Ended ref
  timedOut_iff (ref : CallRef) : ref ∈ p.timedOut H ↔
    ref ∈ p.due H ∧ p.before.session.exchange.Open ref ∧ ∀ e ∈ p.others H, ¬ e.Finishes ref
  phase_eq (ref : CallRef) : ref ∈ p.timedOut H →
    ∃ c, (p.after H).session.exchange.call? ref = some c ∧ c.phase = .timedOut
  /-- What is not due is left alone. -/
  late (ref : CallRef) : (∀ e ∈ H.entries p.before.timeouts.heap,
    p.before.timeouts.calls.get? e.1 = some ref → ¬ e.2 ≤ p.now) → ref ∉ p.timedOut H
  callbacks_eq : (p.callbacks H).map (·.1) = p.timedOut H
  callback_eq (r : CallRef × κ × CallOutcome) : r ∈ p.callbacks H →
    ∃ c, p.before.session.exchange.call? r.1 = some c ∧ c.callback = some r.2.1 ∧
      r.2.2 = .error c.timeoutError
  ordered : (p.callbacks H).Pairwise fun a b => ∃ s t,
    p.before.session.exchange.deadline? a.1 = some s ∧
      p.before.session.exchange.deadline? b.1 = some t ∧ s ≤ t
  nodup : (p.timedOut H).Nodup
  count_eq : p.count H = (p.timedOut H).length
  reaped_open (id : Int32) (ref : CallRef) :
    (p.reaped H).registry.get? id = some ref → (p.reaped H).Open ref
  /-- Nobody is forgotten who is not finished, or taken out by others. -/
  reaped_kept (id : Int32) (ref : CallRef) :
    p.before.session.exchange.registry.get? id = some ref → (p.reaped H).Open ref →
      (p.reaped H).registry.get? id = some ref ∨
        ∃ e ∈ p.others H, e.removed? = some ref ∨ e.overtaken? = some ref

variable {H} {p}

theorem course_checked (h : p.before.Sound H) : Checked p.now (p.due H) p.before.session.exchange
    (p.course H).2 (p.after H).session.exchange where
  settled := h.settled
  led := goThrough_led p.now { p.before with timeouts := p.left H } p.meanwhile (p.due H)
  due_eq := goThrough_checked ..
  reached ref href := by
    obtain ⟨taken, ht⟩ := h.inStep.takeDue p.now p.isAlive
    obtain ⟨-, e, he, hle, hget⟩ := (ht.mem_due_iff ref).mp href
    obtain ⟨c, hc, hd⟩ := Exchange.deadline?_eq_some_iff.mp (h.dated e he ref hget)
    exact ⟨c, hc, by simp [Call.isDue, hd, hle]⟩

theorem ordered (h : p.before.Sound H) : (p.callbacks H).Pairwise fun a b => ∃ s t,
    p.before.session.exchange.deadline? a.1 = some s ∧
      p.before.session.exchange.deadline? b.1 = some t ∧ s ≤ t := by
  obtain ⟨taken, ht⟩ := h.inStep.takeDue p.now p.isAlive
  have hsub : (p.timedOut H).Sublist (p.due H) := by
    rw [← (course_checked h).due_eq]
    exact filter_sublist.filterMap _
  have hpairs := (ht.due_ordered h.dated).sublist hsub
  rw [timedOut, ← (course_checked h).callbacks_eq, pairwise_map] at hpairs
  exact hpairs

theorem count_eq : p.count H = (p.timedOut H).length := by
  rw [count, timedOut, Part.timedOut, countP_eq_length_filter, eq_comm,
    filterMap_length_eq_length]
  intro part hpart
  obtain ⟨s, ref, rfl⟩ := Part.exists_check_of_timesOut (mem_filter.mp hpart).2
  rfl

theorem reaped_kept (h : p.before.Sound H) {id : Int32}
    (hget : p.before.session.exchange.registry.get? id = some ref)
    (hopen : (p.after H).session.exchange.Open ref)
    (hkept : ∀ e ∈ p.others H, e.removed? ≠ some ref ∧ e.overtaken? ≠ some ref) :
    (p.reaped H).registry.get? id = some ref := by
  obtain ⟨c, hc⟩ := h.settled.known hget
  have hled := (course_checked h).led
  refine Exchange.reap_get?_iff.mpr ⟨hled.get? hc hget hopen fun e he => ?_, hopen⟩
  obtain ⟨part, hpart, rfl⟩ := mem_map.mp he
  cases part with
  | check s other =>
      constructor
      · simp [Part.event, Session.Event.removed?]
      · simp [Part.event, Session.Event.overtaken?, Session.overtaken?]
  | other e => exact hkept e (mem_filterMap.mpr ⟨_, hpart, rfl⟩)

theorem exact_of_sound (h : p.before.Sound H) : p.Exact H := by
  have hchecked := course_checked h
  obtain ⟨taken, ht⟩ := h.inStep.takeDue p.now p.isAlive
  refine
    { entries_left := ht.entries_perm
      calls_left := fun key ref => ht.get?_iff
      due_iff := ht.mem_due_iff
      ended := fun ref href => hchecked.ended href
      timedOut_iff := hchecked.mem_timedOut_iff
      phase_eq := fun ref href => hchecked.phase_eq href
      late := fun ref hlate href => ?_
      callbacks_eq := hchecked.callbacks_eq
      callback_eq := fun r hr => hchecked.callback_eq hr
      ordered := ordered h
      nodup := Part.nodup_timedOut hchecked.led
      count_eq := count_eq
      reaped_open := fun id ref hget => (Exchange.reap_get?_iff.mp hget).2
      reaped_kept := fun id ref hget hopen => ?_ }
  · have hdue := ((hchecked.mem_timedOut_iff ref).mp href).1
    obtain ⟨-, e, he, hle, hget⟩ := (ht.mem_due_iff ref).mp hdue
    exact hlate e he hget hle
  · by_cases hout : ∃ e ∈ p.others H, e.removed? = some ref ∨ e.overtaken? = some ref
    · exact .inr hout
    · simp only [not_exists, not_and, not_or] at hout
      exact .inl (reaped_kept h hget hopen hout)

end Expiry

/-- Whatever has been done before, and whatever others do during it, a pass finds exactly the calls
that are due. -/
theorem expire_exact {η : Type} (H : DeadlineHeap η) (limit : Nat) (steps : List (Watch.Step κ))
    (now : Instant) (isAlive : CallRef → Bool) (meanwhile : Nat → List (Watch.Step κ)) :
    Expiry.Exact H ⟨(Watch.start H limit).run H steps, now, isAlive, meanwhile⟩ :=
  Expiry.exact_of_sound ((Watch.start_sound limit).run steps)

/-- Two calls are due, one of them by two entries, and the first one's callback gives up on the
other. -/
theorem expire_exact_given_up :
    let start (due : Int) (k : Nat) : Watch.Step Nat :=
      .act (.start ⟨.v4 127 0 0 1 1, ⟨none⟩⟩ ⟨"s", "m"⟩ ⟨none, some ⟨due⟩, none, ∅, []⟩ [] k ⟨0⟩)
    let steps :=
      [start 5 7, start 4 8, start 9 9, .schedule 0, .schedule 2, .schedule 1, .schedule 0]
    let meanwhile (i : Nat) : List (Watch.Step Nat) :=
      if i = 1 then [.act (.ask 0 (.fail (.aborted "given up")))] else []
    let p : Expiry InOrder Nat :=
      ⟨(Watch.start InOrder.heap 100).run InOrder.heap steps, ⟨5⟩, fun _ => true, meanwhile⟩
    p.Exact InOrder.heap ∧ p.due InOrder.heap = [1, 0, 0] ∧ p.timedOut InOrder.heap = [1] := by
  intro start steps meanwhile p
  have hdue : p.due InOrder.heap = [1, 0, 0] := by decide +kernel
  have htimedOut : p.timedOut InOrder.heap = [1] := by decide +kernel
  exact ⟨expire_exact InOrder.heap 100 steps ⟨5⟩ (fun _ => true) meanwhile, hdue, htimedOut⟩

end OnceOnly
