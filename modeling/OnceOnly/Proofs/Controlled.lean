import OnceOnly.Call.Controller
import OnceOnly.Proofs.Lasting
import OnceOnly.Proofs.Serialized

/-!
# Controllers: one call at a time, and what was set for it

Between any two operations of a controller anything may happen on its caller's side, also to the
call that it holds. So whether a call is open is asked of the caller's side, and what was set is
gathered from the operations since the last reset that went through.
-/

namespace OnceOnly

open List

variable {κ : Type}

/-! ## What a call keeps from its start on -/

/-- A later state of the same call. -/
structure Call.Later (c c' : Call κ) : Prop where
  conn_eq : c'.conn = c.conn
  method_eq : c'.method = c.method
  options_eq : c'.options = c.options
  request_eq : c'.request = c.request
  started_eq : c'.started = c.started
  isFinished : c.isFinished = true → c'.isFinished = true

theorem Call.Later.refl (c : Call κ) : c.Later c := ⟨rfl, rfl, rfl, rfl, rfl, fun h => h⟩

theorem Call.Later.trans {c c' c'' : Call κ} (h : c.Later c') (h' : c'.Later c'') :
    c.Later c'' where
  conn_eq := h'.conn_eq.trans h.conn_eq
  method_eq := h'.method_eq.trans h.method_eq
  options_eq := h'.options_eq.trans h.options_eq
  request_eq := h'.request_eq.trans h.request_eq
  started_eq := h'.started_eq.trans h.started_eq
  isFinished := h'.isFinished ∘ h.isFinished

theorem Call.Moved.later {c : Call κ} {m : Call.Move κ} (hm : c.Moved m) : c.Later m.call := by
  have hfin : c.isFinished = true → m.call.isFinished = true := hm.lasting.isFinished
  cases hm with
  | refused => exact ⟨rfl, rfl, rfl, rfl, rfl, hfin⟩
  | rejected => exact ⟨rfl, rfl, rfl, rfl, rfl, hfin⟩
  | passed => exact ⟨rfl, rfl, rfl, rfl, rfl, hfin⟩
  | succeeded => exact ⟨rfl, rfl, rfl, rfl, rfl, hfin⟩
  | failed => exact ⟨rfl, rfl, rfl, rfl, rfl, hfin⟩
  | timedOut => exact ⟨rfl, rfl, rfl, rfl, rfl, hfin⟩

namespace Exchange

/-- Every call that is there is there later. -/
def Later (x x' : Exchange κ) : Prop :=
  ∀ ref c, x.call? ref = some c → ∃ c', x'.call? ref = some c' ∧ c.Later c'

variable {x x' x'' : Exchange κ} {ref : CallRef} {c : Call κ}

theorem Later.refl (x : Exchange κ) : x.Later x := fun _ c hc => ⟨c, hc, .refl c⟩

theorem Later.trans (h : x.Later x') (h' : x'.Later x'') : x.Later x'' := by
  intro ref c hc
  obtain ⟨c', hc', hlater⟩ := h ref c hc
  obtain ⟨c'', hc'', hlater'⟩ := h' ref c' hc'
  exact ⟨c'', hc'', hlater.trans hlater'⟩

/-- No call is opened again. -/
theorem Later.open_of (h : x.Later x') (hc : x.call? ref = some c) (hopen : x'.Open ref) :
    x.Open ref := by
  obtain ⟨c', hc', hlater⟩ := h ref c hc
  refine (open_or_ended hc).resolve_right fun ⟨ended, hended, hfin⟩ => ?_
  obtain rfl := Option.some.inj (hc.symm.trans hended)
  exact hopen.not_ended ⟨c', hc', hlater.isFinished hfin⟩

end Exchange

theorem Session.act_later (s : Session κ) (act : Session.Act κ) :
    s.exchange.Later (s.act act).session.exchange := by
  intro ref c hc
  obtain ⟨c', hc', hfared⟩ := (s.act_acted act).fared hc
  refine ⟨c', hc', ?_⟩
  cases hfared with
  | moved _ hm => exact hm.later
  | prepared => exact ⟨rfl, rfl, rfl, rfl, rfl, fun h => h⟩

/-! ## Few sidecars -/

namespace Call

variable {c : Call κ} {limit : Nat}

theorem offsets_ne_tooManySidecars {message most : Nat} {sidecars : List Bytes}
    (h : sidecars.length ≤ Body.maxSidecars) :
    Body.offsets message sidecars ≠ .error (.tooManySidecars most) := by
  have hstarts (start : Nat) (sizes : List Nat) :
      Body.starts start sizes ≠ .error (.tooManySidecars most) := by
    induction sizes generalizing start with
    | nil => simp [Body.starts]
    | cons size sizes ih =>
        rw [Body.starts]
        split
        · simp
        · split
          · rename_i problem hrest
            rw [← hrest]
            exact ih _
          · simp
  rw [Body.offsets, if_neg (Nat.not_lt.mpr h)]
  exact hstarts message _

theorem encodeHeader_ne_tooManySidecars {id : Int32} {most : Nat}
    (h : c.options.sidecars.length ≤ Body.maxSidecars) :
    c.encodeHeader id limit ≠ .error (.tooManySidecars most) := by
  cases hoffsets : Body.offsets c.request.length c.options.sidecars with
  | error problem =>
      have hsame : c.encodeHeader id limit = .error problem := by
        rw [encodeHeader, hoffsets]
        rfl
      intro hmany
      rw [hsame] at hmany
      exact offsets_ne_tooManySidecars h (hoffsets.trans (congrArg _ (Except.error.inj hmany)))
  | ok offsets =>
      have hsame : c.encodeHeader id limit = Frame.encodePrefix
          (RequestHeader.codec.encode (c.header id offsets))
          (Body.size c.request c.options.sidecars) limit := by
        rw [encodeHeader, hoffsets]
        rfl
      rw [hsame, Frame.encodePrefix]
      split
      · simp
      · split
        · simp
        · simp

/-- A call that one transfer has room for. -/
structure Fits (c : Call κ) : Prop where
  serialize_ne (limit most : Nat) : (c.serialize limit).2 ≠ .error (.tooManySidecars most)
  length_le (limit : Nat) (slices : List Bytes) :
    (c.serialize limit).2 = .ok slices → slices.length ≤ Body.maxSlices

theorem fits_of_few (h : c.options.sidecars.length ≤ Body.maxSidecars) : c.Fits := by
  have hslices (front : Bytes) :
      (front :: c.request :: c.options.sidecars).length ≤ Body.maxSlices := by
    simp only [length_cons, Body.maxSidecars, Body.maxSlices] at *
    omega
  have hserialize (limit : Nat) : (∃ problem, (c.serialize limit).2 = .error problem ∧
      ∀ most, problem ≠ .tooManySidecars most) ∨
      ∃ front, (c.serialize limit).2 = .ok (front :: c.request :: c.options.sidecars) := by
    rw [serialize]
    split
    · exact .inl ⟨_, rfl, by simp⟩
    · rename_i id hid
      simp only
      split
      · rename_i problem hproblem
        refine .inl ⟨problem, rfl, fun most hmany => ?_⟩
        split at hproblem
        · simp at hproblem
        · exact encodeHeader_ne_tooManySidecars h (hproblem.trans (congrArg _ hmany))
      · rename_i front _
        exact .inr ⟨front, if_neg (Nat.not_lt.mpr (hslices front))⟩
  constructor
  · intro limit most hmany
    rcases hserialize limit with ⟨problem, hproblem, hother⟩ | ⟨front, hfront⟩
    · exact hother most (Except.error.inj (hproblem.symm.trans hmany))
    · simp [hfront] at hmany
  · intro limit slices hok
    rcases hserialize limit with ⟨problem, hproblem, -⟩ | ⟨front, hfront⟩
    · simp [hproblem] at hok
    · obtain rfl := Except.ok.inj (hfront.symm.trans hok)
      exact hslices front

end Call

/-! ## What is set -/

/-- One thing that is set for a call. -/
inductive Setting where
  | timeout (timeout : Duration)
  | deadline (deadline : Instant)
  | requestId (id : RequestId)
  | feature (feature : UInt32)
  | sidecar (sidecar : Bytes)
deriving DecidableEq

namespace Setting

def requestId? : Setting → Option RequestId
  | requestId id => some id
  | _ => none

def sidecar? : Setting → Option Bytes
  | sidecar s => some s
  | _ => none

/-- Whether it says when a call is due. -/
def isTiming : Setting → Bool
  | timeout _ | deadline _ => true
  | _ => false

/-- What was said last about when a call is due. -/
def lastTiming (ss : List Setting) : Option Setting := (ss.filter isTiming).getLast?

end Setting

namespace Controller

/-- What a controller has for when a call is due, by what was said last about it. `standing` is its
timeout as long as nothing was. -/
structure Timed (standing : Option Duration) (last : Option Setting) (timeout : Option Duration)
    (deadline : Option Instant) : Prop where
  untimed : last = none → timeout = standing ∧ deadline = none
  of_timeout (t : Duration) : last = some (.timeout t) → timeout = some t ∧ deadline = none
  of_deadline (t : Instant) : last = some (.deadline t) → timeout = none ∧ deadline = some t

/-- The controller has what was set. Sidecars wait for the start of a call. -/
structure Reflects (standing : Option Duration) (ss : List Setting) (c : Controller) : Prop where
  sidecars_eq : c.call = none → c.sidecars = ss.filterMap Setting.sidecar?
  few : c.sidecars.length ≤ Body.maxSidecars
  requestId_eq : c.requestId = (ss.filterMap Setting.requestId?).getLast?
  features_iff (f : UInt32) : c.features.contains f = true ↔ .feature f ∈ ss
  timed : Timed standing (Setting.lastTiming ss) c.timeout c.deadline

theorem start_reflects (standing : Option Duration) :
    Reflects standing [] { start with timeout := standing } where
  sidecars_eq _ := rfl
  few := Nat.zero_le _
  requestId_eq := rfl
  features_iff f := by simp [start, SortedMap.contains, SortedMap.get?_empty]
  timed := ⟨fun _ => ⟨rfl, rfl⟩, by simp [Setting.lastTiming], by simp [Setting.lastTiming]⟩

/-! ### One setting more -/

/-- Takes a setting, if there is room for it. -/
def set (c : Controller) : Setting → Except Problem Controller
  | .timeout t => .ok (c.setTimeout t)
  | .deadline t => .ok (c.setDeadline t)
  | .requestId id => .ok (c.setRequestId id)
  | .feature f => .ok (c.require f)
  | .sidecar s => (c.addSidecar s).map Prod.fst

/-- All that a setting changes of a controller. -/
structure Changed (c : Controller) (s : Setting) (c' : Controller) : Prop where
  call_eq : c'.call = c.call
  sidecars_eq : c'.sidecars = c.sidecars ++ s.sidecar?.toList
  few : c.sidecars.length ≤ Body.maxSidecars → c'.sidecars.length ≤ Body.maxSidecars
  requestId_eq : c'.requestId = s.requestId?.or c.requestId
  features_iff (f : UInt32) :
    c'.features.contains f = true ↔ .feature f = s ∨ c.features.contains f = true
  untimed : s.isTiming = false → c'.timeout = c.timeout ∧ c'.deadline = c.deadline
  timed (standing : Option Duration) :
    s.isTiming = true → Timed standing (some s) c'.timeout c'.deadline

section Set

variable {standing : Option Duration} {ss : List Setting} {c c' : Controller} {s : Setting}

/-- Only a sidecar may find no room. -/
theorem set_sidecar_eq (c : Controller) (sidecar : Bytes) :
    (Body.maxSidecars ≤ c.sidecars.length ∧
      c.set (.sidecar sidecar) = .error (.tooManySidecars Body.maxSidecars)) ∨
    (c.sidecars.length < Body.maxSidecars ∧
      c.set (.sidecar sidecar) = .ok { c with sidecars := c.sidecars ++ [sidecar] }) := by
  rw [set, addSidecar]
  by_cases hroom : Body.maxSidecars ≤ c.sidecars.length
  · exact .inl ⟨hroom, by rw [if_pos hroom]; rfl⟩
  · exact .inr ⟨Nat.lt_of_not_le hroom, by rw [if_neg hroom]; rfl⟩

theorem changed_of_set (h : c.set s = .ok c') : c.Changed s c' := by
  cases s with
  | timeout t =>
      obtain rfl := Except.ok.inj h
      exact ⟨rfl, (append_nil _).symm, fun hfew => hfew, rfl, by simp [setTimeout],
        by simp [Setting.isTiming], fun _ _ => ⟨by simp, by simp [setTimeout], by simp⟩⟩
  | deadline t =>
      obtain rfl := Except.ok.inj h
      exact ⟨rfl, (append_nil _).symm, fun hfew => hfew, rfl, by simp [setDeadline],
        by simp [Setting.isTiming], fun _ _ => ⟨by simp, by simp, by simp [setDeadline]⟩⟩
  | requestId id =>
      obtain rfl := Except.ok.inj h
      exact ⟨rfl, (append_nil _).symm, fun hfew => hfew, rfl, by simp [setRequestId],
        fun _ => ⟨rfl, rfl⟩, by simp [Setting.isTiming]⟩
  | feature f =>
      obtain rfl := Except.ok.inj h
      exact ⟨rfl, (append_nil _).symm, fun hfew => hfew, rfl,
        by simp [require, SortedSet.contains_add], fun _ => ⟨rfl, rfl⟩, by simp [Setting.isTiming]⟩
  | sidecar sidecar =>
      rcases c.set_sidecar_eq sidecar with ⟨-, he⟩ | ⟨hroom, he⟩
      · simp [he] at h
      · obtain rfl := Except.ok.inj (he.symm.trans h)
        refine ⟨rfl, rfl, fun _ => ?_, rfl, by simp, fun _ => ⟨rfl, rfl⟩,
          by simp [Setting.isTiming]⟩
        rw [length_append]
        exact hroom

theorem Reflects.set (h : c.Reflects standing ss) (hset : c.set s = .ok c') :
    c'.Reflects standing (ss ++ [s]) := by
  have hchanged := changed_of_set hset
  constructor
  · intro hcall
    rw [hchanged.sidecars_eq, h.sidecars_eq (hchanged.call_eq.symm.trans hcall), filterMap_append]
    cases hs : s.sidecar? <;> simp [hs]
  · exact hchanged.few h.few
  · rw [hchanged.requestId_eq, h.requestId_eq, filterMap_append]
    cases hs : s.requestId? <;> simp [hs]
  · intro f
    rw [hchanged.features_iff, h.features_iff, mem_append, mem_singleton, or_comm]
  · rw [Setting.lastTiming, filter_append]
    cases hs : s.isTiming with
    | true =>
        simp only [hs, filter_cons_of_pos, filter_nil, getLast?_concat]
        exact hchanged.timed standing hs
    | false =>
        obtain ⟨htimeout, hdeadline⟩ := hchanged.untimed hs
        rw [htimeout, hdeadline]
        simp only [hs, Bool.false_eq_true, not_false_eq_true, filter_cons_of_neg, filter_nil,
          append_nil]
        exact h.timed

end Set

end Controller

/-! ## A controller and its caller's side -/

structure Controlled (κ : Type) where
  controller : Controller
  session : Session κ

namespace Controlled

/-- What may be done. To read from a controller changes nothing. -/
inductive Op (κ : Type) where
  | set (s : Setting)
  | start (conn : ConnectionId) (method : Method) (request : Bytes) (callback : κ) (now : Instant)
  | reset
  /-- Anything else on the caller's side. -/
  | meanwhile (act : Session.Act κ)

/-- The call that the controller holds. -/
def held (c : Controlled κ) : Option (Call κ) :=
  c.controller.call >>= c.session.exchange.call?

/-- What an operation comes to, and why it was refused if it was. -/
def act (c : Controlled κ) : Op κ → Controlled κ × Option Problem
  | .set s =>
    match c.controller.set s with
    | .error problem => (c, some problem)
    | .ok controller => ({ c with controller }, none)
  | .start conn method request callback now =>
    match c.controller.startCall c.held c.session.exchange.nextRef conn method request callback
      now with
    | .error problem => (c, some problem)
    | .ok (controller, call) =>
      (⟨controller, { c.session with exchange := c.session.exchange.add call }⟩, none)
  | .reset =>
    match Controller.reset c.held with
    | .error problem => (c, some problem)
    | .ok controller => ({ c with controller }, none)
  | .meanwhile act => ({ c with session := (c.session.act act).session }, none)

def run (c : Controlled κ) : List (Op κ) → Controlled κ
  | [] => c
  | op :: ops => run (c.act op).1 ops

/-- All that an operation can come to. -/
inductive Acted (c : Controlled κ) : Op κ → Controlled κ → Option Problem → Prop where
  | refused {op : Op κ} (problem : Problem) : Acted c op c (some problem)
  | set {s : Setting} {controller : Controller} (hset : c.controller.set s = .ok controller) :
      Acted c (.set s) { c with controller } none
  | started {conn : ConnectionId} {method : Method} {request : Bytes} {callback : κ}
      {now : Instant} (hfree : c.held = none) : Acted c (.start conn method request callback now)
        ⟨{ c.controller with sidecars := [], call := some c.session.exchange.nextRef },
          (c.session.act (.start conn method (c.controller.options now) request callback
            now)).session⟩ none
  | reset (hdone : ∀ call, c.held = some call → call.isFinished = true) :
      Acted c .reset { c with controller := .start } none
  | meanwhile (act : Session.Act κ) :
      Acted c (.meanwhile act) { c with session := (c.session.act act).session } none

theorem held_of_call {c : Controlled κ} {ref : CallRef} (h : c.controller.call = some ref) :
    c.held = c.session.exchange.call? ref := by
  rw [held, h]
  rfl

theorem act_acted (c : Controlled κ) (op : Op κ) : Acted c op (c.act op).1 (c.act op).2 := by
  cases op with
  | set s =>
      cases hset : c.controller.set s with
      | error problem =>
          simp only [act, hset]
          exact .refused problem
      | ok controller =>
          simp only [act, hset]
          exact .set hset
  | start conn method request callback now =>
      cases hheld : c.held with
      | some call =>
          simp only [act, hheld, Controller.startCall]
          exact .refused _
      | none =>
          simp only [act, hheld, Controller.startCall]
          exact .started hheld
  | reset =>
      cases hheld : c.held with
      | none =>
          simp only [act, hheld, Controller.reset]
          exact .reset (by simp [hheld])
      | some call =>
          cases hfin : call.isFinished with
          | false =>
              simp only [act, hheld, Controller.reset, hfin]
              exact .refused _
          | true =>
              simp only [act, hheld, Controller.reset, hfin]
              exact .reset (by simp [hheld, hfin])
  | meanwhile act => exact .meanwhile act

/-- Whatever is refused changes nothing. -/
theorem act_of_refused {c : Controlled κ} {op : Op κ} {problem : Problem}
    (h : (c.act op).2 = some problem) : (c.act op).1 = c := by
  have hacted := c.act_acted op
  generalize c.act op = result at hacted h
  obtain ⟨c', refusal⟩ := result
  obtain rfl : refusal = some problem := h
  cases hacted
  rfl

/-- Calls stay on the caller's side, whoever has started them. -/
theorem act_later (c : Controlled κ) (op : Op κ) :
    c.session.exchange.Later (c.act op).1.session.exchange := by
  have hacted := c.act_acted op
  generalize c.act op = result at hacted
  obtain ⟨c', problem⟩ := result
  cases hacted with
  | refused => exact .refl _
  | set => exact .refl _
  | started => exact c.session.act_later _
  | reset => exact .refl _
  | meanwhile act => exact c.session.act_later act

theorem run_later (c : Controlled κ) (ops : List (Op κ)) :
    c.session.exchange.Later (c.run ops).session.exchange := by
  induction ops generalizing c with
  | nil => exact .refl _
  | cons op ops ih => exact (c.act_later op).trans (ih _)

/-! ## What has been done -/

/-- An operation in its place in a run. -/
structure Event (κ : Type) where
  before : Controlled κ
  op : Op κ

def Event.done (e : Event κ) : Bool := (e.before.act e.op).2.isNone

/-- A reset that goes through. -/
def Event.resets (e : Event κ) : Bool :=
  match e.op with
  | .reset => e.done
  | _ => false

/-- What is set, unless there is no room for it. -/
def Event.setting? (e : Event κ) : Option Setting :=
  match e.op with
  | .set s => if e.done then some s else none
  | _ => none

/-- The place of the call that is started. -/
def Event.started? (e : Event κ) : Option CallRef :=
  match e.op with
  | .start .. => if e.done then some e.before.session.exchange.nextRef else none
  | _ => none

def events (c : Controlled κ) : List (Op κ) → List (Event κ)
  | [] => []
  | op :: ops => ⟨c, op⟩ :: events (c.act op).1 ops

/-- The calls that the controller has started. -/
def started (es : List (Event κ)) : List CallRef := es.filterMap Event.started?

/-- What has been set since the last reset that went through. -/
def given (es : List (Event κ)) : List Setting :=
  es.foldl (fun ss e => if e.resets then [] else ss ++ e.setting?.toList) []

/-- The timeout that stands by itself: a reset leaves none. -/
def standing (default : Option Duration) (es : List (Event κ)) : Option Duration :=
  if es.any Event.resets then none else default

theorem started_concat (es : List (Event κ)) (e : Event κ) :
    started (es ++ [e]) = started es ++ e.started?.toList := by
  rw [started, filterMap_append]
  cases h : e.started? <;> simp [started, h]

theorem given_concat (es : List (Event κ)) (e : Event κ) :
    given (es ++ [e]) = if e.resets then [] else given es ++ e.setting?.toList := by
  rw [given, foldl_append]
  rfl

theorem standing_concat (default : Option Duration) (es : List (Event κ)) (e : Event κ) :
    standing default (es ++ [e]) = if e.resets then none else standing default es := by
  cases h : e.resets <;> simp [standing, h]

/-! ## What every operation keeps -/

/-- A controller, the calls that it has started, and what has been set. -/
structure Sound (default : Option Duration) (es : List (Event κ)) (c : Controlled κ) : Prop where
  nodup : (started es).Nodup
  known (ref : CallRef) : ref ∈ started es → ∃ call, c.session.exchange.call? ref = some call
  held (ref : CallRef) : c.controller.call = some ref → ref ∈ started es
  /-- Whichever of its calls is open, the controller holds it. -/
  holds (ref : CallRef) :
    ref ∈ started es → c.session.exchange.Open ref → c.controller.call = some ref
  reflects : c.controller.Reflects (standing default es) (given es)

section Sound

variable {default : Option Duration} {es : List (Event κ)} {c : Controlled κ}

theorem start_sound (default : Option Duration) (session : Session κ) :
    Sound default [] ⟨{ Controller.start with timeout := default }, session⟩ where
  nodup := nodup_nil
  known ref h := by simp [started] at h
  held ref h := by simp [Controller.start] at h
  holds ref h := by simp [started] at h
  reflects := Controller.start_reflects default

theorem Sound.held_eq_none_iff (h : Sound default es c) :
    c.held = none ↔ c.controller.call = none := by
  cases hcall : c.controller.call with
  | none => simp [Controlled.held, hcall]
  | some ref =>
      obtain ⟨call, hknown⟩ := h.known ref (h.held ref hcall)
      simp [held_of_call hcall, hknown]

/-- Where no call is started and none let go. -/
theorem Sound.aside {e : Event κ} {c' : Controlled κ} (h : Sound default es c)
    (hstarted : e.started? = none) (hcall : c'.controller.call = c.controller.call)
    (hlater : c.session.exchange.Later c'.session.exchange)
    (hreflects : c'.controller.Reflects (standing default (es ++ [e])) (given (es ++ [e]))) :
    Sound default (es ++ [e]) c' := by
  have hsame : started (es ++ [e]) = started es := by simp [started_concat, hstarted]
  constructor
  · exact hsame ▸ h.nodup
  · intro ref hmem
    obtain ⟨call, hknown⟩ := h.known ref (hsame ▸ hmem)
    obtain ⟨call', hknown', -⟩ := hlater ref call hknown
    exact ⟨call', hknown'⟩
  · intro ref hheld
    exact hsame ▸ h.held ref (hcall ▸ hheld)
  · intro ref hmem hopen
    obtain ⟨call, hknown⟩ := h.known ref (hsame ▸ hmem)
    exact hcall.trans (h.holds ref (hsame ▸ hmem) (hlater.open_of hknown hopen))
  · exact hreflects

theorem Sound.refused {op : Op κ} (h : Sound default es c) (hdone : Event.done ⟨c, op⟩ = false) :
    Sound default (es ++ [⟨c, op⟩]) c := by
  have hresets : Event.resets ⟨c, op⟩ = false := by cases op <;> simp [Event.resets, hdone]
  have hsetting : Event.setting? ⟨c, op⟩ = none := by cases op <;> simp [Event.setting?, hdone]
  have hstarted : Event.started? ⟨c, op⟩ = none := by cases op <;> simp [Event.started?, hdone]
  refine h.aside hstarted rfl (.refl _) ?_
  simpa [standing_concat, given_concat, hresets, hsetting] using h.reflects

theorem Sound.set {s : Setting} {controller : Controller} (h : Sound default es c)
    (hdone : Event.done ⟨c, .set s⟩ = true) (hset : c.controller.set s = .ok controller) :
    Sound default (es ++ [⟨c, .set s⟩]) { c with controller } := by
  refine h.aside rfl (Controller.changed_of_set hset).call_eq (.refl _) ?_
  have hsetting : Event.setting? ⟨c, .set s⟩ = some s := if_pos hdone
  have hresets : Event.resets ⟨c, .set s⟩ = false := rfl
  simpa [standing_concat, given_concat, hresets, hsetting] using h.reflects.set hset

theorem Sound.meanwhile (h : Sound default es c) (act : Session.Act κ) :
    Sound default (es ++ [⟨c, .meanwhile act⟩])
      { c with session := (c.session.act act).session } := by
  refine h.aside rfl rfl (c.session.act_later act) ?_
  have hsetting : Event.setting? ⟨c, .meanwhile act⟩ = none := rfl
  have hresets : Event.resets ⟨c, .meanwhile act⟩ = false := rfl
  simpa [standing_concat, given_concat, hresets, hsetting] using h.reflects

/-- Whoever holds no call may start one: those before it are finished. -/
theorem Sound.start {conn : ConnectionId} {method : Method} {request : Bytes} {callback : κ}
    {now : Instant} (h : Sound default es c)
    (hdone : Event.done ⟨c, .start conn method request callback now⟩ = true)
    (hfree : c.held = none) :
    Sound default (es ++ [⟨c, .start conn method request callback now⟩])
      ⟨{ c.controller with sidecars := [], call := some c.session.exchange.nextRef },
        (c.session.act (.start conn method (c.controller.options now) request callback
          now)).session⟩ := by
  have hstarted : started (es ++ [⟨c, .start conn method request callback now⟩]) =
      started es ++ [c.session.exchange.nextRef] := by
    have hevent : Event.started? ⟨c, .start conn method request callback now⟩ =
        some c.session.exchange.nextRef := if_pos hdone
    simp [started_concat, hevent]
  have hlater := c.session.act_later
    (.start conn method (c.controller.options now) request callback now)
  constructor
  · rw [hstarted]
    refine nodup_append.mpr ⟨h.nodup, pairwise_singleton _ _, ?_⟩
    rintro ref hmem _ hnew rfl
    obtain ⟨call, hknown⟩ := h.known ref hmem
    rw [mem_singleton.mp hnew, Exchange.call?_nextRef] at hknown
    simp at hknown
  · intro ref hmem
    rw [hstarted] at hmem
    rcases mem_append.mp hmem with hmem | hnew
    · obtain ⟨call, hknown⟩ := h.known ref hmem
      obtain ⟨call', hknown', -⟩ := hlater ref call hknown
      exact ⟨call', hknown'⟩
    · exact ⟨_, Exchange.call?_add.trans (if_pos (mem_singleton.mp hnew))⟩
  · intro ref hheld
    obtain rfl := Option.some.inj hheld
    rw [hstarted]
    exact mem_append_right _ mem_cons_self
  · intro ref hmem hopen
    rw [hstarted] at hmem
    rcases mem_append.mp hmem with hmem | hnew
    · obtain ⟨call, hknown⟩ := h.known ref hmem
      have hheld := h.holds ref hmem (hlater.open_of hknown hopen)
      simp [h.held_eq_none_iff.mp hfree] at hheld
    · rw [mem_singleton.mp hnew]
  · have hsetting : Event.setting? ⟨c, .start conn method request callback now⟩ = none := rfl
    have hresets : Event.resets ⟨c, .start conn method request callback now⟩ = false := rfl
    have hreflects := h.reflects
    simp only [standing_concat, given_concat, hresets, hsetting, Option.toList_none, append_nil,
      Bool.false_eq_true, if_false]
    exact { hreflects with
      sidecars_eq := by simp
      few := Nat.zero_le _ }

theorem Sound.reset (h : Sound default es c) (hdone : Event.done ⟨c, .reset⟩ = true)
    (hfin : ∀ call, c.held = some call → call.isFinished = true) :
    Sound default (es ++ [⟨c, .reset⟩]) { c with controller := .start } := by
  have hresets : Event.resets ⟨c, .reset⟩ = true := hdone
  have hsame : started (es ++ [⟨c, .reset⟩]) = started es := by
    have hstarted : Event.started? ⟨c, .reset⟩ = none := rfl
    simp [started_concat, hstarted]
  constructor
  · exact hsame ▸ h.nodup
  · exact hsame ▸ h.known
  · simp [Controller.start]
  · intro ref hmem hopen
    obtain ⟨call, hcall, hunfinished⟩ := hopen
    have hheld := h.holds ref (hsame ▸ hmem) ⟨call, hcall, hunfinished⟩
    have hfinished := hfin call ((held_of_call hheld).trans hcall)
    simp [hunfinished] at hfinished
  · have hreflects : Controller.start.Reflects none [] := Controller.start_reflects none
    simpa [standing_concat, given_concat, hresets] using hreflects

theorem Sound.step (h : Sound default es c) (op : Op κ) :
    Sound default (es ++ [⟨c, op⟩]) (c.act op).1 := by
  have hacted := c.act_acted op
  have hdone : Event.done ⟨c, op⟩ = (c.act op).2.isNone := rfl
  generalize c.act op = result at hacted hdone
  obtain ⟨c', problem⟩ := result
  cases hacted with
  | refused => exact h.refused hdone
  | set hset => exact h.set hdone hset
  | started hfree => exact h.start hdone hfree
  | reset hfin => exact h.reset hdone hfin
  | meanwhile act => exact h.meanwhile act

theorem Sound.run (h : Sound default es c) (ops : List (Op κ)) :
    Sound default (es ++ c.events ops) (c.run ops) := by
  induction ops generalizing es c with
  | nil => exact (append_nil es).symm ▸ h
  | cons op ops ih =>
      have hrest := ih (h.step op)
      rwa [append_assoc] at hrest

end Sound

/-! ## The contract of a controller -/

/-- What a call carries that a controller starts, by what was set and by what the start was asked
for. -/
structure Carried (standing : Option Duration) (ss : List Setting) (conn : ConnectionId)
    (method : Method) (request : Bytes) (now : Instant) (call : Call κ) : Prop where
  conn_eq : call.conn = conn
  method_eq : call.method = method
  request_eq : call.request = request
  sidecars_eq : call.options.sidecars = ss.filterMap Setting.sidecar?
  requestId_eq : call.options.requestId = (ss.filterMap Setting.requestId?).getLast?
  features_iff (f : UInt32) : call.options.features.contains f = true ↔ .feature f ∈ ss
  untimed : Setting.lastTiming ss = none → call.options.timeout = standing ∧
    call.options.deadline = none ∧ call.deadline = standing.map now.add
  of_timeout (t : Duration) : Setting.lastTiming ss = some (.timeout t) →
    call.options.timeout = some t ∧ call.options.deadline = none ∧
      call.deadline = some (now.add t)
  /-- A deadline is due as it is; the timeout is what is left until then. -/
  of_deadline (t : Instant) : Setting.lastTiming ss = some (.deadline t) →
    call.options.timeout = some (t.since now) ∧ call.options.deadline = some t ∧
      call.deadline = some t
  fits : call.Fits

section Carried

variable {standing : Option Duration} {ss : List Setting} {conn : ConnectionId} {method : Method}
  {request : Bytes} {now : Instant} {call call' : Call κ}

theorem carried_of_reflects {c : Controller} (h : c.Reflects standing ss) (hfree : c.call = none)
    (callback : κ) : Carried standing ss conn method request now
      (.start conn method (c.options now) request callback now) where
  conn_eq := rfl
  method_eq := rfl
  request_eq := rfl
  sidecars_eq := h.sidecars_eq hfree
  requestId_eq := h.requestId_eq
  features_iff := h.features_iff
  untimed hlast := by
    obtain ⟨htimeout, hdeadline⟩ := h.timed.untimed hlast
    simp [Call.start, Call.deadline, Controller.options, Controller.timeLeft, htimeout, hdeadline]
  of_timeout t hlast := by
    obtain ⟨htimeout, hdeadline⟩ := h.timed.of_timeout t hlast
    simp [Call.start, Call.deadline, Controller.options, Controller.timeLeft, htimeout, hdeadline]
  of_deadline t hlast := by
    obtain ⟨-, hdeadline⟩ := h.timed.of_deadline t hlast
    simp [Call.start, Call.deadline, Controller.options, Controller.timeLeft, hdeadline]
  fits := Call.fits_of_few h.few

/-- Nothing that happens to a call changes what it carries. -/
theorem Carried.later (h : Carried standing ss conn method request now call)
    (hfew : call.options.sidecars.length ≤ Body.maxSidecars) (hlater : call.Later call') :
    Carried standing ss conn method request now call' := by
  have hdeadline : call'.deadline = call.deadline := by
    rw [Call.deadline, Call.deadline, hlater.options_eq, hlater.started_eq]
  have hfits : call'.Fits := Call.fits_of_few (hlater.options_eq ▸ hfew)
  constructor
  · exact hlater.conn_eq.trans h.conn_eq
  · exact hlater.method_eq.trans h.method_eq
  · exact hlater.request_eq.trans h.request_eq
  · exact hlater.options_eq ▸ h.sidecars_eq
  · exact hlater.options_eq ▸ h.requestId_eq
  · exact hlater.options_eq ▸ h.features_iff
  · exact hdeadline ▸ hlater.options_eq ▸ h.untimed
  · exact hdeadline ▸ hlater.options_eq ▸ h.of_timeout
  · exact hdeadline ▸ hlater.options_eq ▸ h.of_deadline
  · exact hfits

end Carried

/-- What a controller does and refuses, after all that has been done. -/
structure Drives (default : Option Duration) (es : List (Event κ)) (c : Controlled κ) : Prop where
  nodup : (started es).Nodup
  /-- No two of the calls that it has started are open. -/
  one (ref ref' : CallRef) : ref ∈ started es → ref' ∈ started es →
    c.session.exchange.Open ref → c.session.exchange.Open ref' → ref = ref'
  start_refused_iff (conn : ConnectionId) (method : Method) (request : Bytes) (callback : κ)
    (now : Instant) : (∃ problem, (c.act (.start conn method request callback now)).2 =
      some problem) ↔ ∃ ref, c.controller.call = some ref
  reset_refused_iff : (∃ problem, (c.act .reset).2 = some problem) ↔
    ∃ ref, c.controller.call = some ref ∧ c.session.exchange.Open ref
  unchanged (op : Op κ) (problem : Problem) : (c.act op).2 = some problem → (c.act op).1 = c
  /-- A call is held that is started, and carries at any time what was set before. -/
  carried (conn : ConnectionId) (method : Method) (request : Bytes) (callback : κ) (now : Instant)
    (ops : List (Op κ)) :
    let started := c.act (.start conn method request callback now)
    started.2 = none → started.1.controller.call = some c.session.exchange.nextRef ∧
      ∃ call, (started.1.run ops).session.exchange.call? c.session.exchange.nextRef = some call ∧
        Carried (standing default es) (given es) conn method request now call

theorem Sound.drives {default : Option Duration} {es : List (Event κ)} {c : Controlled κ}
    (h : Sound default es c) : Drives default es c where
  nodup := h.nodup
  one ref ref' hmem hmem' hopen hopen' :=
    Option.some.inj ((h.holds ref hmem hopen).symm.trans (h.holds ref' hmem' hopen'))
  start_refused_iff conn method request callback now := by
    cases hcall : c.controller.call with
    | none =>
        have hfree := h.held_eq_none_iff.mpr hcall
        simp [act, Controller.startCall, hfree]
    | some ref =>
        obtain ⟨call, hknown⟩ := h.known ref (h.held ref hcall)
        have hheld := (held_of_call hcall).trans hknown
        simp [act, Controller.startCall, hheld]
  reset_refused_iff := by
    cases hcall : c.controller.call with
    | none =>
        have hfree := h.held_eq_none_iff.mpr hcall
        simp [act, Controller.reset, hfree]
    | some ref =>
        obtain ⟨call, hknown⟩ := h.known ref (h.held ref hcall)
        have hheld := (held_of_call hcall).trans hknown
        cases hfin : call.isFinished with
        | true => simp [act, Controller.reset, hheld, hfin, Exchange.Open, hknown]
        | false => simp [act, Controller.reset, hheld, hfin, Exchange.Open, hknown]
  unchanged op problem := act_of_refused
  carried conn method request callback now ops := by
    intro started hdone
    cases hheld : c.held with
    | some call => simp [started, act, Controller.startCall, hheld] at hdone
    | none =>
        have hfree := h.held_eq_none_iff.mp hheld
        have hstarted : started.1 =
            ⟨{ c.controller with sidecars := [], call := some c.session.exchange.nextRef },
              (c.session.act (.start conn method (c.controller.options now) request callback
                now)).session⟩ := by
          simp only [started, act, Controller.startCall, hheld]
          rfl
        have hnew : started.1.session.exchange.call? c.session.exchange.nextRef =
            some (.start conn method (c.controller.options now) request callback now) := by
          rw [hstarted]
          exact Exchange.call?_add.trans (if_pos rfl)
        obtain ⟨call, hcall, hlater⟩ := started.1.run_later ops _ _ hnew
        refine ⟨by rw [hstarted], call, hcall, ?_⟩
        exact (carried_of_reflects h.reflects hfree callback).later h.reflects.few hlater

/-- Whatever is done with a controller and on its caller's side, at most one of the calls that it
has started is open. It starts a call unless it holds one, and is reset unless that is open; what
it refuses changes nothing. A call that it starts carries at any time exactly what was set since the
controller was made or last reset, with the sidecars in order, and fits into one transfer. -/
theorem controller_drives (session : Session κ) (default : Option Duration) (ops : List (Op κ)) :
    let c : Controlled κ := ⟨{ Controller.start with timeout := default }, session⟩
    Drives default (c.events ops) (c.run ops) :=
  ((start_sound default session).run ops).drives

/-- A controller with a timeout that stood, another that was set, a sidecar, and a deadline last. -/
def prepared : Controlled Unit :=
  run ⟨{ Controller.start with timeout := some ⟨3⟩ }, .start 100⟩
    [.set (.timeout ⟨6⟩), .set (.sidecar [1]), .set (.deadline ⟨9⟩)]

def startShort : Op Unit := .start ⟨.v4 127 0 0 1 7050, ⟨none⟩⟩ ⟨"s", "m"⟩ [42] () ⟨4⟩

/-- A sidecar comes too late for the call, which times out; then the controller is reset. -/
theorem controller_drives_deadline : (prepared.act startShort).2 = none ∧
    ((prepared.act startShort).1.act .reset).2.isSome = true ∧
    ∃ call, ((prepared.act startShort).1.run
        [.set (.sidecar [7]), .meanwhile (.ask 0 .timeOut), .reset]).session.exchange.call? 0 =
          some call ∧ call.options.sidecars = [[1]] ∧ call.deadline = some ⟨9⟩ ∧
      call.options.timeout = some ⟨5⟩ ∧ call.Fits := by
  have hdrives := controller_drives (.start 100 : Session Unit) (some ⟨3⟩)
    [.set (.timeout ⟨6⟩), .set (.sidecar [1]), .set (.deadline ⟨9⟩)]
  obtain ⟨-, call, hcall, hcarried⟩ := hdrives.carried ⟨.v4 127 0 0 1 7050, ⟨none⟩⟩ ⟨"s", "m"⟩ [42]
    () ⟨4⟩ [.set (.sidecar [7]), .meanwhile (.ask 0 .timeOut), .reset] rfl
  obtain ⟨htimeout, -, hdeadline⟩ := hcarried.of_deadline ⟨9⟩ rfl
  exact ⟨rfl, rfl, call, hcall, hcarried.sidecars_eq, hdeadline, htimeout, hcarried.fits⟩

end Controlled

end OnceOnly
