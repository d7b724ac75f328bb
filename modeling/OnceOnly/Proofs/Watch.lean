import OnceOnly.Proofs.Lasting
import OnceOnly.Proofs.Timeouts

/-!
# A caller's side and the queue of its calls' deadlines

Calls are put into the queue at their deadlines, and are taken out when those are due. In between,
anything may be done to them.
-/

namespace OnceOnly

open List

variable {κ : Type} {ref : CallRef}

namespace Exchange

def deadline? (x : Exchange κ) (ref : CallRef) : Option Instant := x.call? ref >>= Call.deadline

theorem deadline?_eq_some_iff {x : Exchange κ} {due : Instant} :
    x.deadline? ref = some due ↔ ∃ c, x.call? ref = some c ∧ c.deadline = some due := by
  simp [deadline?, Option.bind_eq_some_iff]

end Exchange

/-- Deadlines do not change. -/
theorem Session.Led.deadline? {x x' : Exchange κ} {es : List (Event κ)} {due : Instant}
    (h : Led x es x') (hdue : x.deadline? ref = some due) : x'.deadline? ref = some due := by
  obtain ⟨c, hc, hd⟩ := Exchange.deadline?_eq_some_iff.mp hdue
  obtain ⟨c', hc', hlasting⟩ := h.lasting hc
  exact Exchange.deadline?_eq_some_iff.mpr ⟨c', hc', hlasting.deadline_eq.trans hd⟩

/-- A caller's side, with its calls by deadline. -/
structure Watch (η κ : Type) where
  session : Session κ
  timeouts : Timeouts η

namespace Watch

/-- What may be done, with all that is read from outside. -/
inductive Step (κ : Type) where
  | act (act : Session.Act κ)
  /-- Has a call time out at its deadline. A call without a deadline is not taken. -/
  | schedule (ref : CallRef)
  /-- Begins to time out what is due and alive. -/
  | expire (now : Instant) (isAlive : CallRef → Bool)

variable {η : Type} (H : DeadlineHeap η)

def start (limit : Nat) : Watch η κ := ⟨.start limit, .empty H⟩

def step (w : Watch η κ) : Step κ → Watch η κ
  | .act act => { w with session := (w.session.act act).session }
  | .schedule ref =>
    match w.session.exchange.deadline? ref with
    | none => w
    | some due => { w with timeouts := w.timeouts.schedule H due ref }
  | .expire now isAlive =>
    let (due, timeouts) := w.timeouts.takeDue H now isAlive
    ⟨{ w.session with underway := w.session.underway ++ [.expire now due] }, timeouts⟩

/-- What is left after all steps. -/
def run (w : Watch η κ) : List (Step κ) → Watch η κ
  | [] => w
  | s :: steps => run (w.step H s) steps

def event? (w : Watch η κ) : Step κ → Option (Session.Event κ)
  | .act act => some ⟨w.session, act⟩
  | .schedule _ | .expire _ _ => none

/-- The acts among the steps, in their places. -/
def events (w : Watch η κ) : List (Step κ) → List (Session.Event κ)
  | [] => []
  | s :: steps => (w.event? s).toList ++ events (w.step H s) steps

variable {H}

theorem step_led (w : Watch η κ) (s : Step κ) :
    Session.Led w.session.exchange (w.event? s).toList (w.step H s).session.exchange := by
  cases s with
  | act act => exact .cons (e := ⟨w.session, act⟩) .nil
  | schedule ref =>
      simp only [step]
      split
      · exact .nil
      · exact .nil
  | expire now isAlive => exact .nil

theorem run_led (w : Watch η κ) (steps : List (Step κ)) :
    Session.Led w.session.exchange (w.events H steps) (w.run H steps).session.exchange := by
  induction steps generalizing w with
  | nil => exact .nil
  | cons s steps ih => exact (w.step_led s).append (ih _)

/-- Queue and calls are in step, and every entry is at the deadline of its call. -/
structure Sound (H : DeadlineHeap η) (w : Watch η κ) : Prop where
  settled : Session.Settled w.session.exchange
  inStep : w.timeouts.InStep H
  dated : w.timeouts.Dated H w.session.exchange.deadline?

theorem start_sound (limit : Nat) : Sound H (start H limit : Watch η κ) where
  settled := Session.start_settled limit
  inStep := Timeouts.empty_inStep H
  dated e he := by simp [start, Timeouts.empty, H.entries_empty] at he

theorem Sound.step {w : Watch η κ} (h : Sound H w) (s : Step κ) : Sound H (w.step H s) := by
  have hled := w.step_led (H := H) s
  have hdates : w.timeouts.Dated H (w.step H s).session.exchange.deadline? :=
    fun e he ref hget => hled.deadline? (h.dated e he ref hget)
  refine ⟨hled.settled h.settled, ?_, ?_⟩
  · cases s with
    | act act => exact h.inStep
    | schedule ref =>
        simp only [Watch.step]
        split
        · exact h.inStep
        · exact h.inStep.schedule _ ref
    | expire now isAlive =>
        obtain ⟨taken, ht⟩ := h.inStep.takeDue now isAlive
        exact ht.inStep
  · cases s with
    | act act => exact hdates
    | schedule ref =>
        simp only [Watch.step]
        split
        · exact h.dated
        · rename_i hdue
          exact h.dated.schedule h.inStep hdue
    | expire now isAlive =>
        obtain ⟨taken, ht⟩ := h.inStep.takeDue now isAlive
        exact ht.dated h.dated

theorem Sound.run {w : Watch η κ} (h : Sound H w) (steps : List (Step κ)) :
    Sound H (w.run H steps) := by
  induction steps generalizing w with
  | nil => exact h
  | cons s steps ih => exact ih (h.step s)

/-! ### Entries in order -/

/-- The caller's side with its calls in order of their deadlines. -/
def exchange (w : Watch InOrder κ) : Exchange κ :=
  { w.session.exchange with deadlines := InOrder.deadlines w.timeouts }

theorem exchange_schedule {w : Watch InOrder κ} {c : Call κ} (h : Sound InOrder.heap w)
    (hc : w.session.exchange.call? ref = some c) :
    (w.step InOrder.heap (.schedule ref)).exchange = (w.exchange.schedule ref c).1 := by
  have hd : w.session.exchange.deadline? ref = c.deadline := by
    rw [Exchange.deadline?, hc]
    rfl
  cases hdue : c.deadline with
  | none => simp only [step, hd, hdue, Exchange.schedule]
  | some due =>
      simp only [step, hd, hdue, Exchange.schedule, exchange]
      rw [InOrder.deadlines_schedule h.inStep]

theorem exchange_takeDue {w : Watch InOrder κ} (h : Sound InOrder.heap w) (now : Instant)
    (isAlive : CallRef → Bool) :
    let taken := w.timeouts.takeDue InOrder.heap now isAlive
    taken.1 = (w.exchange.takeDue now).1.filter isAlive ∧
      exchange { w with timeouts := taken.2 } = (w.exchange.takeDue now).2 := by
  intro taken
  obtain ⟨hdue, hleft⟩ := InOrder.deadlines_takeDue h.inStep now isAlive
  refine ⟨hdue, ?_⟩
  simp only [exchange, taken, hleft, Exchange.takeDue]

end Watch

end OnceOnly
