import OnceOnly.Call.Basic

/-!
# The life of a call: it is finished once, and its callback is told once

What the callback does is left open: it may ask its own call to move on, as anybody may at any time.
-/

namespace OnceOnly

namespace CallPhase

variable {p next : CallPhase}

theorem isTerminal_eq_false (h : p.canMoveTo next = true) : p.isTerminal = false := by
  cases p <;> cases next <;> simp_all [isTerminal, canMoveTo]

theorem canMoveTo_finishedError (h : p.isTerminal = false) : p.canMoveTo .finishedError = true := by
  cases p <;> simp_all [isTerminal, canMoveTo]

theorem canMoveTo_timedOut (h : p.isTerminal = false) : p.canMoveTo .timedOut = true := by
  cases p <;> simp_all [isTerminal, canMoveTo]

theorem canMoveTo_finishedSuccess (h : p.isTerminal = false)
    (hp : ¬ (p = .ready ∨ p = .onOutboundQueue)) : p.canMoveTo .finishedSuccess = true := by
  cases p <;> simp_all [isTerminal, canMoveTo]

end CallPhase

namespace Call

open List

variable {κ : Type}

/-! ## One move -/

/-- All that asking a call to move on can come to. -/
inductive Moved (c : Call κ) : Move κ → Prop where
  | refused (ht : c.phase.isTerminal = true) : Moved c ⟨c, .alreadyTerminal c.phase, none⟩
  | rejected {next : CallPhase} (ht : c.phase.isTerminal = false)
      (hn : c.phase.canMoveTo next = false) : Moved c ⟨c, .rejected c.phase next, none⟩
  | passed {next : CallPhase} (hn : c.phase.canMoveTo next = true)
      (ht : next.isTerminal = false) : Moved c ⟨{ c with phase := next }, .applied, none⟩
  | succeeded {r : Response} (hn : c.phase.canMoveTo .finishedSuccess = true)
      (hr : r.isSuccess = true) :
      Moved c ⟨{ c with phase := .finishedSuccess, response := some r, callback := none }, .applied,
        c.callback.map fun k => (k, .ok r.message)⟩
  | failed {status : CallError} {response : Option Response}
      (hn : c.phase.canMoveTo .finishedError = true) :
      Moved c
        ⟨{ c with phase := .finishedError, status := some status, response, callback := none },
          .applied, c.callback.map fun k => (k, .error status)⟩
  | timedOut (hn : c.phase.canMoveTo .timedOut = true) :
      Moved c ⟨{ c with phase := .timedOut, status := some c.timeoutError, callback := none },
        .applied, c.callback.map fun k => (k, .error c.timeoutError)⟩

section MoveTo

variable {c : Call κ} {next : CallPhase} {change : Call κ → Call κ}

/-- A call that cannot move is left as it is. -/
theorem moveTo_moved (h : c.phase.canMoveTo next = true → Moved c (c.moveTo next change)) :
    Moved c (c.moveTo next change) := by
  cases ht : c.phase.isTerminal with
  | true =>
      simp only [moveTo, ht, ite_true]
      exact .refused ht
  | false =>
      cases hn : c.phase.canMoveTo next with
      | true => exact h hn
      | false =>
          simp only [moveTo, ht, hn]
          exact .rejected ht hn

theorem moveTo_eq (hn : c.phase.canMoveTo next = true) :
    c.moveTo next change = if next.isTerminal then
        ⟨{ change c with phase := next, callback := none }, .applied,
          (change c).callback.map fun k => (k, outcome { change c with phase := next })⟩
      else ⟨{ change c with phase := next }, .applied, none⟩ := by
  simp [moveTo, CallPhase.isTerminal_eq_false hn, hn]

theorem moveTo_passed (ht : next.isTerminal = false) : Moved c (c.moveTo next fun c => c) := by
  refine moveTo_moved fun hn => ?_
  rw [moveTo_eq hn, ht]
  exact .passed hn ht

end MoveTo

theorem fail_moved (c : Call κ) (status : CallError) : Moved c (c.fail status) := by
  refine moveTo_moved fun hn => ?_
  rw [moveTo_eq hn]
  exact .failed hn

theorem timeOut_moved (c : Call κ) : Moved c c.timeOut := by
  refine moveTo_moved fun hn => ?_
  rw [moveTo_eq hn]
  exact .timedOut hn

/-- A call that is not finished has its callback told that it took too long. -/
theorem timeOut_eq {c : Call κ} (h : c.isFinished = false) : c.timeOut =
    ⟨{ c with phase := .timedOut, status := some c.timeoutError, callback := none }, .applied,
      c.callback.map fun k => (k, .error c.timeoutError)⟩ :=
  moveTo_eq (CallPhase.canMoveTo_timedOut h)

theorem respond_moved (c : Call κ) (r : Response) : Moved c (c.respond r) := by
  by_cases hr : r.isSuccess = true
  · rw [respond, if_pos hr]
    refine moveTo_moved fun hn => ?_
    rw [moveTo_eq hn]
    exact .succeeded hn hr
  · rw [respond, if_neg hr]
    refine moveTo_moved fun hn => ?_
    rw [moveTo_eq hn]
    exact .failed hn

section Moved

variable {c : Call κ} {m : Move κ}

/-- Nothing becomes of a call that is finished, and whoever asks it to move is told so. -/
theorem Moved.eq_of_isFinished (hm : Moved c m) (ht : c.isFinished = true) :
    m = ⟨c, .alreadyTerminal c.phase, none⟩ := by
  have hstuck {next : CallPhase} : c.phase.canMoveTo next ≠ true := by
    intro hn
    have hopen : c.isFinished = false := CallPhase.isTerminal_eq_false hn
    simp [hopen] at ht
  cases hm with
  | refused => rfl
  | rejected hp =>
      have hopen : c.isFinished = false := hp
      simp [hopen] at ht
  | passed hn => exact absurd hn hstuck
  | succeeded hn => exact absurd hn hstuck
  | failed hn => exact absurd hn hstuck
  | timedOut hn => exact absurd hn hstuck

theorem Moved.id_eq (hm : Moved c m) : m.call.id = c.id := by
  cases hm <;> rfl

theorem moveTo_isFinished {next : CallPhase} {change : Call κ → Call κ}
    (ht : next.isTerminal = true) (hn : c.isFinished = false → c.phase.canMoveTo next = true) :
    (c.moveTo next change).call.isFinished = true := by
  cases hc : c.isFinished with
  | true =>
      have hp : c.phase.isTerminal = true := hc
      simp [moveTo, hp, hc]
  | false =>
      rw [moveTo_eq (hn hc), if_pos ht]
      exact ht

theorem fail_isFinished (c : Call κ) (status : CallError) :
    (c.fail status).call.isFinished = true :=
  moveTo_isFinished rfl CallPhase.canMoveTo_finishedError

/-- A response finishes its call, unless it is a success and the call has not begun to be sent. -/
theorem respond_isFinished (c : Call κ) (r : Response) :
    (c.respond r).call.isFinished = true ∨
      (r.isSuccess = true ∧ (c.phase = .ready ∨ c.phase = .onOutboundQueue)) := by
  by_cases hr : r.isSuccess = true
  · by_cases hp : c.phase = .ready ∨ c.phase = .onOutboundQueue
    · exact .inr ⟨hr, hp⟩
    · rw [respond, if_pos hr]
      exact .inl (moveTo_isFinished rfl fun ht => CallPhase.canMoveTo_finishedSuccess ht hp)
  · rw [respond, if_neg hr]
    exact .inl (moveTo_isFinished rfl CallPhase.canMoveTo_finishedError)

end Moved

/-! ## Operations -/

/-- What a call can be asked, with all that is read from outside. -/
inductive Op where
  | queued
  | sending
  | sent
  | fail (status : CallError)
  | timeOut
  | respond (r : Response)
  | checkDeadline (now : Instant)
  | checkFeatures (server : List Feature)

/-- The move that an operation asks a call for; none where a check finds nothing amiss. -/
def Op.move? (op : Op) (c : Call κ) : Option (Move κ) :=
  match op with
  | queued => some c.queued
  | sending => some c.sending
  | sent => some c.sent
  | fail status => some (c.fail status)
  | timeOut => some c.timeOut
  | respond r => some (c.respond r)
  | checkDeadline now => c.checkDeadline now
  | checkFeatures server => (c.checkFeatures server).map Prod.snd

theorem Op.moved {op : Op} {c : Call κ} {m : Move κ} (h : op.move? c = some m) : Moved c m := by
  cases op with
  | queued => exact Option.some.inj h ▸ moveTo_passed rfl
  | sending => exact Option.some.inj h ▸ moveTo_passed rfl
  | sent => exact Option.some.inj h ▸ moveTo_passed rfl
  | fail status => exact Option.some.inj h ▸ c.fail_moved status
  | timeOut => exact Option.some.inj h ▸ c.timeOut_moved
  | respond r => exact Option.some.inj h ▸ c.respond_moved r
  | checkDeadline now =>
      simp only [move?, Call.checkDeadline] at h
      split at h
      · exact Option.some.inj h ▸ c.timeOut_moved
      · simp at h
  | checkFeatures server =>
      simp only [move?, Call.checkFeatures] at h
      split at h
      · simp at h
      · exact Option.some.inj h ▸ c.fail_moved _

/-- An operation in its place in the life of a call. -/
structure Event (κ : Type) where
  before : Call κ
  op : Op

namespace Event

def move? (e : Event κ) : Option (Move κ) := e.op.move? e.before

def after (e : Event κ) : Call κ := (e.move?.map Move.call).getD e.before

/-- The callback that runs after the operation, with the outcome that it is told. -/
def fired? (e : Event κ) : Option (κ × CallOutcome) := e.move? >>= Move.fired

/-- An operation is a move, or nothing comes of it. -/
theorem moved_or (e : Event κ) :
    (∃ m, e.move? = some m ∧ Moved e.before m ∧ e.after = m.call ∧ e.fired? = m.fired) ∨
      (e.move? = none ∧ e.after = e.before ∧ e.fired? = none) := by
  cases h : e.move? with
  | none => exact .inr ⟨rfl, by simp [after, h], by simp [fired?, h]⟩
  | some m => exact .inl ⟨m, rfl, Op.moved h, by simp [after, h], by simp [fired?, h]⟩

theorem phase_after (e : Event κ) :
    e.after.phase = e.before.phase ∨ e.before.phase.canMoveTo e.after.phase = true := by
  rcases e.moved_or with ⟨m, -, hm, ha, -⟩ | ⟨-, ha, -⟩
  · rw [ha]
    cases hm with
    | refused => exact .inl rfl
    | rejected => exact .inl rfl
    | passed hn => exact .inr hn
    | succeeded hn => exact .inr hn
    | failed hn => exact .inr hn
    | timedOut hn => exact .inr hn
  · exact .inl (by rw [ha])

theorem frozen (e : Event κ) (ht : e.before.phase.isTerminal = true) :
    e.after = e.before ∧ e.fired? = none ∧
      ∀ m, e.move? = some m → m.transition = .alreadyTerminal e.before.phase := by
  rcases e.moved_or with ⟨m, he, hm, ha, hf⟩ | ⟨he, ha, hf⟩
  · obtain rfl := hm.eq_of_isFinished ht
    simp [he, ha, hf]
  · simp [he, ha, hf]

/-- The callback leaves the call when it runs. -/
theorem callback_after (e : Event κ) :
    (e.fired? = none ∧ e.after.callback = e.before.callback) ∨
      (∃ k outcome, e.fired? = some (k, outcome) ∧ e.before.callback = some k ∧
        e.after.callback = none) := by
  rcases e.moved_or with ⟨m, -, hm, ha, hf⟩ | ⟨-, ha, hf⟩
  · rw [ha, hf]
    cases hk : e.before.callback with
    | none => cases hm <;> simp [hk]
    | some k => cases hm <;> simp [hk]
  · exact .inl ⟨hf, by rw [ha]⟩

end Event

/-! ## The call and its callback agree -/

/-- What a call holds in each phase, and what callback `k` has been told by then. -/
inductive Agrees (k : κ) (c : Call κ) : List (κ × CallOutcome) → Prop where
  | unfinished (hp : c.phase.isTerminal = false) (hs : c.status = none) (hr : c.response = none)
      (hk : c.callback = some k) : Agrees k c []
  | timedOut (hp : c.phase = .timedOut) (hs : c.status = some c.timeoutError)
      (hr : c.response = none) : Agrees k c [(k, .error c.timeoutError)]
  | failed {status : CallError} (hp : c.phase = .finishedError) (hs : c.status = some status) :
      Agrees k c [(k, .error status)]
  | succeeded {r : Response} (hp : c.phase = .finishedSuccess) (hs : c.status = none)
      (hr : c.response = some r) (ho : r.isSuccess = true) : Agrees k c [(k, .ok r.message)]

section Agrees

variable {k : κ} {c : Call κ} {told : List (κ × CallOutcome)}

theorem start_agrees (conn : ConnectionId) (method : Method) (options : CallOptions)
    (request : Bytes) (now : Instant) : Agrees k (start conn method options request k now) [] :=
  .unfinished rfl rfl rfl rfl

theorem Agrees.of_isTerminal_eq_false (h : Agrees k c told) (hp : c.phase.isTerminal = false) :
    told = [] ∧ c.status = none ∧ c.response = none ∧ c.callback = some k := by
  cases h with
  | unfinished _ hs hr hk => exact ⟨rfl, hs, hr, hk⟩
  | timedOut hp' => simp [hp', CallPhase.isTerminal] at hp
  | failed hp' => simp [hp', CallPhase.isTerminal] at hp
  | succeeded hp' => simp [hp', CallPhase.isTerminal] at hp

theorem Agrees.of_isFinished (h : Agrees k c told) (hp : c.isFinished = true) :
    ∃ outcome, told = [(k, outcome)] := by
  cases h with
  | unfinished hp' =>
      have hopen : c.isFinished = false := hp'
      simp [hopen] at hp
  | timedOut => exact ⟨_, rfl⟩
  | failed => exact ⟨_, rfl⟩
  | succeeded => exact ⟨_, rfl⟩

theorem Agrees.byPhase (h : Agrees k c told) :
    (c.phase.isTerminal = false → told = [] ∧ c.status = none ∧ c.response = none) ∧
    (c.phase = .timedOut → told = [(k, .error c.timeoutError)] ∧
      c.status = some c.timeoutError ∧ c.response = none) ∧
    (c.phase = .finishedError → ∃ status, told = [(k, .error status)] ∧ c.status = some status) ∧
    (c.phase = .finishedSuccess → ∃ r, told = [(k, .ok r.message)] ∧ c.status = none ∧
      c.response = some r ∧ r.isSuccess = true) := by
  cases h with
  | unfinished hp hs hr =>
      have hne {p : CallPhase} (ht : p.isTerminal = true) : c.phase ≠ p := by
        intro he
        simp [← he, hp] at ht
      simp [hs, hr, hne (p := .timedOut) rfl, hne (p := .finishedError) rfl,
        hne (p := .finishedSuccess) rfl]
  | timedOut hp hs hr => simp [hp, hs, hr, CallPhase.isTerminal]
  | failed hp hs => simp [hp, hs, CallPhase.isTerminal]
  | @succeeded r hp hs hr ho =>
      simp only [hp, hs, hr, CallPhase.isTerminal, reduceCtorEq, false_implies, true_and]
      exact fun _ => ⟨r, rfl, rfl, ho⟩

theorem Agrees.moved {m : Move κ} (h : Agrees k c told) (hm : Moved c m) :
    Agrees k m.call (told ++ m.fired.toList) := by
  have hopen {next : CallPhase} (hn : c.phase.canMoveTo next = true) :=
    h.of_isTerminal_eq_false (CallPhase.isTerminal_eq_false hn)
  cases hm with
  | refused => simpa using h
  | rejected => simpa using h
  | passed hn ht =>
      obtain ⟨rfl, hs, hr, hk⟩ := hopen hn
      exact .unfinished ht hs hr hk
  | succeeded hn hr =>
      obtain ⟨rfl, hs, -, hk⟩ := hopen hn
      rw [hk]
      exact .succeeded rfl hs rfl hr
  | failed hn =>
      obtain ⟨rfl, -, -, hk⟩ := hopen hn
      rw [hk]
      exact .failed rfl rfl
  | timedOut hn =>
      obtain ⟨rfl, -, hr, hk⟩ := hopen hn
      rw [hk]
      exact .timedOut rfl rfl hr

theorem Agrees.after {e : Event κ} (h : Agrees k e.before told) :
    Agrees k e.after (told ++ e.fired?.toList) := by
  rcases e.moved_or with ⟨m, -, hm, ha, hf⟩ | ⟨-, ha, hf⟩
  · rw [ha, hf]
    exact h.moved hm
  · rw [ha, hf]
    simpa using h

end Agrees

/-! ## Whole lives -/

section Perform

variable (react : κ → CallOutcome → List Op)

/-- What the callback that runs after an operation asks the call for. -/
def Event.asked (e : Event κ) : List Op :=
  match e.fired? with
  | none => []
  | some (k, outcome) => react k outcome

/-- Operations as they come to be carried out: those that a callback asks for come before those
that were left when it ran. A call has one callback, so this comes to an end. -/
def perform (c : Call κ) : List Op → List (Event κ)
  | [] => []
  | op :: ops => ⟨c, op⟩ :: perform (Event.after ⟨c, op⟩) (Event.asked react ⟨c, op⟩ ++ ops)
termination_by ops => (c.callback.toList.length, ops.length)
decreasing_by
  rcases Event.callback_after ⟨c, op⟩ with ⟨hf, hk⟩ | ⟨k, outcome, -, hb, hk⟩
  · rw [Event.asked, hf, hk]
    exact Prod.Lex.right _ (Nat.lt_succ_self _)
  · have hb : c.callback = some k := hb
    rw [hk, hb]
    exact Prod.Lex.left _ _ Nat.one_pos

/-- The call that a list of events leaves. -/
def leftBy (c : Call κ) (es : List (Event κ)) : Call κ := es.foldl (fun _ e => e.after) c

/-- What callbacks have been told. -/
def told (es : List (Event κ)) : List (κ × CallOutcome) := es.filterMap Event.fired?

theorem told_cons (e : Event κ) (es : List (Event κ)) :
    told (e :: es) = e.fired?.toList ++ told es := by
  cases h : e.fired? <;> simp [told, h]

variable {react}

theorem Agrees.run {k : κ} {c : Call κ} {before : List (κ × CallOutcome)} {ops : List Op}
    (h : Agrees k c before) (n : Nat) :
    Agrees k (leftBy c ((perform react c ops).take n))
      (before ++ told ((perform react c ops).take n)) := by
  induction n generalizing c ops before with
  | zero => simpa [leftBy, told] using h
  | succ n ih =>
      cases ops with
      | nil => simpa [perform, leftBy, told] using h
      | cons op ops =>
          have hafter : Agrees k (Event.after ⟨c, op⟩) _ := Agrees.after (e := ⟨c, op⟩) h
          rw [perform, take_succ_cons, told_cons, ← append_assoc]
          exact ih hafter

/-- Each event finds the call as those before it have left it. -/
theorem before_eq_leftBy {c : Call κ} {ops : List Op} {n : Nat} {e : Event κ}
    (he : (perform react c ops)[n]? = some e) :
    e.before = leftBy c ((perform react c ops).take n) := by
  induction n generalizing c ops with
  | zero =>
      cases ops with
      | nil => simp [perform] at he
      | cons op ops =>
          rw [perform, getElem?_cons_zero, Option.some.injEq] at he
          rw [← he]
          rfl
  | succ n ih =>
      cases ops with
      | nil => simp [perform] at he
      | cons op ops =>
          rw [perform, getElem?_cons_succ] at he
          rw [perform, take_succ_cons]
          exact ih he

end Perform

/-- After any number of events, whatever a callback asks for: a call that is unfinished holds
neither status nor response, and nobody has been told anything; one that has finished has told its
callback once, and of what it holds. It goes on along the table, and once it is finished it stays
as it is and refuses to move. -/
theorem finished_once (react : κ → CallOutcome → List Op) (conn : ConnectionId) (method : Method)
    (options : CallOptions) (request : Bytes) (k : κ) (now : Instant) (ops : List Op) (n : Nat) :
    let fresh := start conn method options request k now
    let es := perform react fresh ops
    let c := leftBy fresh (es.take n)
    let outcomes := told (es.take n)
    (c.phase.isTerminal = false → outcomes = [] ∧ c.status = none ∧ c.response = none) ∧
    (c.phase = .timedOut → outcomes = [(k, .error c.timeoutError)] ∧
      c.status = some c.timeoutError ∧ c.response = none) ∧
    (c.phase = .finishedError → ∃ status, outcomes = [(k, .error status)] ∧
      c.status = some status) ∧
    (c.phase = .finishedSuccess → ∃ r, outcomes = [(k, .ok r.message)] ∧ c.status = none ∧
      c.response = some r ∧ r.isSuccess = true) ∧
    ∀ e, es[n]? = some e → e.before = c ∧
      (e.after.phase = c.phase ∨ c.phase.canMoveTo e.after.phase = true) ∧
      (c.phase.isTerminal = true → e.after = c ∧ e.fired? = none ∧
        ∀ m, e.move? = some m → m.transition = .alreadyTerminal c.phase) := by
  intro fresh es c outcomes
  have hagrees : Agrees k c outcomes := (start_agrees conn method options request now).run n
  obtain ⟨hopen, htimedOut, hfailed, hsucceeded⟩ := hagrees.byPhase
  refine ⟨hopen, htimedOut, hfailed, hsucceeded, fun e he => ?_⟩
  have hb : e.before = c := before_eq_leftBy he
  rw [← hb]
  exact ⟨rfl, e.phase_after, e.frozen⟩

end Call

end OnceOnly
