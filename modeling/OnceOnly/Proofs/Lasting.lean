import OnceOnly.Proofs.Routing

/-! # What lasts of a call, whatever happens to it -/

namespace OnceOnly

open List

variable {κ : Type} {ref : CallRef}

/-! ## Open calls and finished ones -/

namespace Exchange

/-- A call is there, and is not finished. -/
def Open (x : Exchange κ) (ref : CallRef) : Prop :=
  ∃ c, x.call? ref = some c ∧ c.isFinished = false

/-- A call is there, and is finished. -/
def Ended (x : Exchange κ) (ref : CallRef) : Prop :=
  ∃ c, x.call? ref = some c ∧ c.isFinished = true

variable {x : Exchange κ} {c : Call κ}

theorem Open.not_ended (h : x.Open ref) : ¬ x.Ended ref := by
  rintro ⟨c, hc, hfin⟩
  obtain ⟨c', hc', hopen⟩ := h
  obtain rfl := Option.some.inj (hc.symm.trans hc')
  simp [hopen] at hfin

theorem open_or_ended (hc : x.call? ref = some c) : x.Open ref ∨ x.Ended ref := by
  cases hfin : c.isFinished with
  | true => exact .inr ⟨c, hc, hfin⟩
  | false => exact .inl ⟨c, hc, hfin⟩

theorem isFinished_eq_false_iff : x.isFinished ref = false ↔ x.Open ref := by
  cases hc : x.call? ref with
  | none => simp [isFinished, Open, hc]
  | some c => simp [isFinished, Open, hc]

/-- Whoever is not finished goes on waiting. -/
theorem reap_get?_iff {id : Int32} :
    x.reap.registry.get? id = some ref ↔ x.registry.get? id = some ref ∧ x.Open ref := by
  rw [← isFinished_eq_false_iff, reap, Registry.get?, Registry.reap, SortedMap.get?_filterMap,
    Option.bind_eq_bind, Option.bind_eq_some_iff]
  constructor
  · rintro ⟨other, hget, hstays⟩
    split at hstays
    · simp at hstays
    · rename_i hopen
      obtain rfl := Option.some.inj hstays
      exact ⟨hget, Bool.eq_false_iff.mpr hopen⟩
  · rintro ⟨hget, hopen⟩
    exact ⟨ref, hget, by simp [hopen]⟩

end Exchange

/-- What time does not change of a call. -/
structure Lasting (c c' : Call κ) : Prop where
  deadline_eq : c'.deadline = c.deadline
  timeoutError_eq : c'.timeoutError = c.timeoutError
  phase_eq : c.isFinished = true → c'.phase = c.phase
  callback_eq : c'.isFinished = false → c'.callback = c.callback

theorem Lasting.refl (c : Call κ) : Lasting c c := ⟨rfl, rfl, fun _ => rfl, fun _ => rfl⟩

theorem Lasting.isDue_eq {c c' : Call κ} (h : Lasting c c') (now : Instant) :
    c'.isDue now = c.isDue now := by
  rw [Call.isDue, h.deadline_eq]
  rfl

theorem Lasting.isFinished {c c' : Call κ} (h : Lasting c c') (hfin : c.isFinished = true) :
    c'.isFinished = true := by
  rw [Call.isFinished, h.phase_eq hfin]
  exact hfin

theorem Lasting.trans {c c' c'' : Call κ} (h : Lasting c c') (h' : Lasting c' c'') :
    Lasting c c'' where
  deadline_eq := h'.deadline_eq.trans h.deadline_eq
  timeoutError_eq := h'.timeoutError_eq.trans h.timeoutError_eq
  phase_eq hfin := (h'.phase_eq (h.isFinished hfin)).trans (h.phase_eq hfin)
  callback_eq hopen := by
    cases hfin : c'.isFinished with
    | true => simp [h'.isFinished hfin] at hopen
    | false => exact (h'.callback_eq hopen).trans (h.callback_eq hfin)

theorem Call.Moved.lasting {c : Call κ} {m : Call.Move κ} (hm : c.Moved m) :
    Lasting c m.call where
  deadline_eq := by cases hm <;> rfl
  timeoutError_eq := by cases hm <;> rfl
  phase_eq hfin := by rw [hm.eq_of_isFinished hfin]
  callback_eq hopen := by
    cases hm with
    | refused => rfl
    | rejected => rfl
    | passed => rfl
    | succeeded => simp [isFinished, CallPhase.isTerminal] at hopen
    | failed => simp [isFinished, CallPhase.isTerminal] at hopen
    | timedOut => simp [isFinished, CallPhase.isTerminal] at hopen

namespace Session

theorem Fared.lasting {c c' : Call κ} {moved : Option (CallRef × Call.Move κ)}
    (h : Fared ref c moved c') : Lasting c c' := by
  cases h with
  | moved _ hm => exact hm.lasting
  | prepared => exact ⟨rfl, rfl, fun _ => rfl, fun _ => rfl⟩

/-! ## One event after the other -/

/-- An event in which a call is finished. -/
def Event.Finishes (ref : CallRef) (e : Event κ) : Prop :=
  e.before.exchange.Open ref ∧ e.effect.session.exchange.Ended ref

theorem Event.acted (e : Event κ) :
    Acted e.before.exchange e.act e.effect.session.exchange e.effect.moved :=
  act_acted e.before e.act

/-- Events that lead from one exchange to another. -/
inductive Led : Exchange κ → List (Event κ) → Exchange κ → Prop where
  | nil {x : Exchange κ} : Led x [] x
  | cons {e : Event κ} {es : List (Event κ)} {x : Exchange κ}
      (h : Led e.effect.session.exchange es x) : Led e.before.exchange (e :: es) x

section Led

variable {x x' x'' : Exchange κ} {e : Event κ} {es es' : List (Event κ)} {c : Call κ} {id : Int32}

theorem Led.append (h : Led x es x') (h' : Led x' es' x'') : Led x (es ++ es') x'' := by
  induction h with
  | nil => exact h'
  | cons _ ih => exact .cons (ih h')

theorem Led.split (h : Led x (es ++ e :: es') x') :
    Led x es e.before.exchange ∧ Led e.effect.session.exchange es' x' := by
  induction es generalizing x with
  | nil =>
      cases h with
      | cons h => exact ⟨.nil, h⟩
  | cons first es ih =>
      cases h with
      | cons h => exact ⟨.cons (ih h).1, (ih h).2⟩

theorem Led.lasting (h : Led x es x') (hc : x.call? ref = some c) :
    ∃ c', x'.call? ref = some c' ∧ Lasting c c' := by
  induction h generalizing c with
  | nil => exact ⟨c, hc, .refl c⟩
  | @cons e _ _ _ ih =>
      obtain ⟨c', hc', hfared⟩ := e.acted.fared hc
      obtain ⟨c'', hc'', hlasting⟩ := ih hc'
      exact ⟨c'', hc'', hfared.lasting.trans hlasting⟩

theorem Led.ended (h : Led x es x') (hended : x.Ended ref) : x'.Ended ref := by
  obtain ⟨c, hc, hfin⟩ := hended
  obtain ⟨c', hc', hlasting⟩ := h.lasting hc
  exact ⟨c', hc', hlasting.isFinished hfin⟩

/-- A call that is finished is not finished again. -/
theorem Led.not_finishes (h : Led x es x') (hended : x.Ended ref) : ∀ e ∈ es, ¬ e.Finishes ref := by
  intro e he hfinishes
  obtain ⟨es₁, es₂, rfl⟩ := append_of_mem he
  exact hfinishes.1.not_ended (h.split.1.ended hended)

/-- What finishes a call is the only event that does. -/
theorem Led.finishes_unique (h : Led x (es ++ e :: es') x') (he : e.Finishes ref) :
    ∀ e' ∈ es ++ es', ¬ e'.Finishes ref := by
  intro e' he' hfinishes
  rcases mem_append.mp he' with hbefore | hafter
  · obtain ⟨es₁, es₂, rfl⟩ := append_of_mem hbefore
    exact he.1.not_ended (h.split.1.split.2.ended hfinishes.2)
  · exact h.split.2.not_finishes he.2 e' hafter hfinishes

/-- A call that was open and is finished has been finished by some event. -/
theorem Led.exists_finishes (h : Led x es x') (hopen : x.Open ref) (hended : x'.Ended ref) :
    ∃ e ∈ es, e.Finishes ref := by
  induction h with
  | nil => exact absurd hended hopen.not_ended
  | @cons e es x' _ ih =>
      obtain ⟨c, hc, hfin⟩ := hopen
      obtain ⟨c', hc', -⟩ := e.acted.fared hc
      rcases Exchange.open_or_ended hc' with hstill | hnow
      · obtain ⟨e', he', hfinishes⟩ := ih hstill hended
        exact ⟨e', mem_cons_of_mem _ he', hfinishes⟩
      · exact ⟨e, mem_cons_self, ⟨c, hc, hfin⟩, hnow⟩

/-- A call that stays open keeps its place in the registry until it is taken out. -/
theorem Led.get? (h : Led x es x') (hc : x.call? ref = some c)
    (hget : x.registry.get? id = some ref) (hopen : x'.Open ref)
    (hkept : ∀ e ∈ es, e.removed? ≠ some ref ∧ e.overtaken? ≠ some ref) :
    x'.registry.get? id = some ref := by
  induction h generalizing c with
  | nil => exact hget
  | @cons e es x' h ih =>
      obtain ⟨hrem, hover⟩ := hkept e mem_cons_self
      obtain ⟨c', hc', -⟩ := e.acted.fared hc
      have hact : e.act ≠ .remove id := by
        intro hact
        simp [Event.removed?, hact, hget] at hrem
      rcases e.acted.get? hc hget hact hover with hget' | hended
      · exact ih hc' hget' hopen fun e' he' => hkept e' (mem_cons_of_mem _ he')
      · exact absurd (h.ended hended) hopen.not_ended

/-- Every callback has been told what its call has come to, and whoever waits is there. -/
structure Settled (x : Exchange κ) : Prop where
  told (ref : CallRef) : ∃ told, Told x ref told
  known {id : Int32} {ref : CallRef} : x.registry.get? id = some ref → ∃ c, x.call? ref = some c

theorem start_settled (limit : Nat) : Settled (Exchange.start limit : Exchange κ) where
  told ref := ⟨[], rfl⟩
  known {id ref} hget := by simp [Exchange.start, Registry.start, Registry.get?] at hget

theorem Settled.after (h : Settled e.before.exchange) : Settled e.effect.session.exchange where
  told ref := by
    obtain ⟨told, htold⟩ := h.told ref
    exact ⟨_, htold.acted e.acted⟩
  known {id ref} hget := by
    cases hc : e.before.exchange.call? ref with
    | some c =>
        obtain ⟨c', hc', -⟩ := e.acted.fared hc
        exact ⟨c', hc'⟩
    | none =>
        rcases e.acted.get?_of_after hget with hbefore | ⟨hact, -, hnone⟩
        · obtain ⟨c, hc'⟩ := h.known hbefore
          simp [hc] at hc'
        · simp only [Event.effect, hact, act, hc, put] at hget
          simp [hnone] at hget

theorem Led.settled (h : Led x es x') (hx : Settled x) : Settled x' := by
  induction h with
  | nil => exact hx
  | cons _ ih => exact ih hx.after

theorem Settled.callback (h : Settled x) (hc : x.call? ref = some c)
    (hopen : c.isFinished = false) : ∃ k, c.callback = some k := by
  obtain ⟨told, htold⟩ := h.told ref
  obtain ⟨k, hagrees⟩ := (told_of_call? hc).mp htold
  exact ⟨k, (hagrees.of_isTerminal_eq_false hopen).2.2.2⟩

end Led

end Session

end OnceOnly
