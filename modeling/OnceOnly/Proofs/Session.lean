import OnceOnly.Call.Exchange
import OnceOnly.Proofs.CallLife
import OnceOnly.Proofs.SortedMap

/-!
# A caller's side at work

Giving up on all calls, and timing out those that are due, goes through them one after the other.
Callbacks run in between and may do anything, as others may; so any act may come between any two
calls of an operation that is under way.
-/

namespace OnceOnly

section Call

variable {κ : Type} (c : Call κ)

/-- An id is given once. -/
theorem Call.assignId_eq (id : Int32) :
    ∃ given, (c.assignId id).toOption.getD c = { c with id := given } ∧
      (c.id = none ∨ given = c.id) := by
  unfold assignId
  split
  · exact ⟨c.id, rfl, .inr rfl⟩
  · rename_i hid
    exact ⟨some id, rfl, .inl hid⟩

/-- What is kept of a call's frame is what was kept before, or was encoded under the call's id. -/
theorem Call.serialize_eq (limit : Nat) :
    ∃ encoded, (c.serialize limit).1 = { c with encoded } ∧ (encoded = c.encoded ∨
      ∃ id bs, c.id = some id ∧ c.encodeHeader id limit = .ok bs ∧ encoded = some bs) := by
  unfold serialize
  split
  · exact ⟨c.encoded, rfl, .inl rfl⟩
  · rename_i id hid
    simp only
    split
    · exact ⟨c.encoded, rfl, .inl rfl⟩
    · rename_i bs hbs
      refine ⟨some bs, rfl, ?_⟩
      cases hkept : c.encoded with
      | some kept =>
          simp only [hkept] at hbs
          exact .inl (congrArg some (Except.ok.inj hbs).symm)
      | none =>
          simp only [hkept] at hbs
          exact .inr ⟨id, bs, hid, hbs, rfl⟩

end Call

/-- A call that has no id takes the next one, if nobody waits under it. -/
theorem Registry.register_eq {κ : Type} (r : Registry) (ref : CallRef) (c : Call κ) :
    (r.get? r.nextId = none ∧ c.id = none ∧ r.register ref c =
      ({ r with drawn := r.drawn + 1, calls := r.calls.insert r.nextId ref },
        { c with id := some r.nextId }, .ok r.nextId)) ∨
    ∃ problem, r.register ref c = ({ r with drawn := r.drawn + 1 }, c, .error problem) := by
  cases hnew : r.calls.contains r.nextId with
  | true =>
      simp only [register, hnew, ite_true]
      exact .inr ⟨_, rfl⟩
  | false =>
      have hget : r.get? r.nextId = none := by
        rwa [SortedMap.contains, Option.isSome_eq_false_iff, Option.isNone_iff_eq_none] at hnew
      cases hid : c.id with
      | some id =>
          simp only [register, hnew, Call.assignId, hid]
          exact .inr ⟨_, rfl⟩
      | none =>
          simp only [register, hnew, Call.assignId, hid]
          exact .inl ⟨hget, trivial, rfl⟩

namespace Exchange

open List

variable {κ : Type}

/-- Asks a call to move on, if it is there. -/
def ask (x : Exchange κ) (ref : CallRef) (op : Call.Op) : Exchange κ × Option (Call.Move κ) :=
  match x.call? ref >>= op.move? with
  | none => (x, none)
  | some m => (x.setCall ref m.call, some m)

/-- The call that waits for the response in a frame. -/
def addressee? (x : Exchange κ) (frame : Bytes) : Option CallRef :=
  match Response.parse frame x.registry.limit with
  | .error _ => none
  | .ok r => x.registry.get? r.callId

/-- The call that an operation comes to next. -/
def nextCall? (x : Exchange κ) : Underway → Option CallRef
  | .abort _ (id :: _) => x.registry.get? id
  | .expire _ (ref :: _) => some ref
  | .abort _ [] | .expire _ [] => none

section Places

variable {x : Exchange κ} {ref other : CallRef} {c c' : Call κ}

theorem call?_setCall (hc : x.call? other = some c) :
    (x.setCall other c').call? ref = if ref = other then some c' else x.call? ref := by
  obtain ⟨hlt, -⟩ := List.getElem?_eq_some_iff.mp hc
  rw [call?, setCall, getElem?_set]
  by_cases h : ref = other
  · simp [h, hlt]
  · simp [h, Ne.symm h, call?]

/-- Putting a call in its own place changes nothing. -/
theorem setCall_self (hc : x.call? ref = some c) : x.setCall ref c = x := by
  obtain ⟨hlt, he⟩ := List.getElem?_eq_some_iff.mp hc
  rw [setCall, ← he, set_getElem_self]

theorem call?_nextRef : x.call? x.nextRef = none :=
  List.getElem?_eq_none (Nat.le_refl _)

theorem call?_add : (x.add c).call? ref = if ref = x.nextRef then some c else x.call? ref := by
  by_cases h : ref = x.nextRef
  · simp [h, call?, add, nextRef]
  · rw [if_neg h]
    show (x.calls ++ [c])[ref]? = x.calls[ref]?
    by_cases hlt : ref < x.calls.length
    · exact getElem?_append_left hlt
    · have hle : x.calls.length ≤ ref := Nat.le_of_not_lt hlt
      have hlength : (x.calls ++ [c]).length ≤ ref := by
        rw [length_append, length_singleton]
        exact Nat.lt_of_le_of_ne hle (Ne.symm h)
      rw [List.getElem?_eq_none hlength, List.getElem?_eq_none hle]

end Places

end Exchange

/-- A caller's side, with the operations on it that have not come to an end. -/
structure Session (κ : Type) where
  exchange : Exchange κ
  underway : List Exchange.Underway

namespace Session

open List

variable {κ : Type}

def start (limit : Nat) : Session κ := ⟨.start limit, []⟩

/-- What may be done, with all that is read from outside. -/
inductive Act (κ : Type) where
  | start (conn : ConnectionId) (method : Method) (options : CallOptions) (request : Bytes)
      (callback : κ) (now : Instant)
  | ask (ref : CallRef) (op : Call.Op)
  | assignId (ref : CallRef) (id : Int32)
  | serialize (ref : CallRef) (limit : Nat)
  | register (ref : CallRef)
  | remove (id : Int32)
  | handle (frame : Bytes)
  /-- Begins to give up on all calls that wait, in an order of their ids. -/
  | abort (error : CallError) (order : List Int32)
  /-- Begins to time out what is due in a queue and alive. -/
  | expire (queue : Deadlines) (isAlive : CallRef → Bool) (now : Instant)
  | reap
  /-- Goes on with what is under way in that place. -/
  | goOn (place : Nat)

/-- The session after an act, and the call that the act has moved. -/
structure Effect (κ : Type) where
  session : Session κ
  moved : Option (CallRef × Call.Move κ)

/-- Nothing is moved. -/
def put (s : Session κ) (x : Exchange κ) : Effect κ := ⟨{ s with exchange := x }, none⟩

/-- Moves the call in place `ref`, if there is one. -/
def moving (s : Session κ) (ref : Option CallRef) (r : Exchange κ × Option (Call.Move κ)) :
    Effect κ :=
  ⟨{ s with exchange := r.1 }, ref.bind fun ref => r.2.map (ref, ·)⟩

/-- Changes a call without moving it, if it is there. -/
def change (s : Session κ) (ref : CallRef) (f : Call κ → Call κ) : Effect κ :=
  match s.exchange.call? ref with
  | none => s.put s.exchange
  | some call => s.put (s.exchange.setCall ref (f call))

/-- The next call of what is under way in that place, or the end of it. -/
def goOn (s : Session κ) (place : Nat) (left : Exchange.Underway) : Effect κ :=
  match s.exchange.proceed left with
  | some (next, r) =>
    { s with underway := s.underway.set place next }.moving (s.exchange.nextCall? left) r
  | none => ⟨⟨s.exchange.finish left, s.underway.eraseIdx place⟩, none⟩

def act (s : Session κ) : Act κ → Effect κ
  | .start conn method options request callback now =>
    s.put (s.exchange.add (.start conn method options request callback now))
  | .ask ref op => s.moving ref (s.exchange.ask ref op)
  | .assignId ref id => s.change ref fun call => (call.assignId id).toOption.getD call
  | .serialize ref limit => s.change ref fun call => (call.serialize limit).1
  | .register ref =>
    match s.exchange.call? ref with
    | none => s.put s.exchange
    | some call => s.put (s.exchange.register ref call).1
  | .remove id => s.put { s.exchange with registry := s.exchange.registry.remove id }
  | .handle frame =>
    match s.exchange.handleFrame frame with
    | .error _ => s.put s.exchange
    | .ok r => s.moving (s.exchange.addressee? frame) r
  | .abort error order =>
    if order.isPerm s.exchange.registry.calls.keys then
      ⟨{ s with underway := s.underway ++ [.abort error order] }, none⟩
    else s.put s.exchange
  | .expire queue isAlive now =>
    ⟨{ s with underway := s.underway ++ [.expire now ((queue.takeDue now).1.filter isAlive)] },
      none⟩
  | .reap => s.put s.exchange.reap
  | .goOn place =>
    match s.underway[place]? with
    | none => s.put s.exchange
    | some left => s.goOn place left

/-! ## What an act comes to -/

/-- The call to which a success comes before it has begun to be sent. -/
def overtaken? (x : Exchange κ) : Act κ → Option CallRef
  | .handle frame =>
    match Response.parse frame x.registry.limit with
    | .error _ => none
    | .ok r => (x.registry.get? r.callId).filter fun ref => r.isSuccess &&
        (x.call? ref).any fun c => c.phase == .ready || c.phase == .onOutboundQueue
  | _ => none

/-- All that an act can come to. -/
inductive Acted (x : Exchange κ) (act : Act κ) :
    Exchange κ → Option (CallRef × Call.Move κ) → Prop where
  | aside : Acted x act x none
  | started {conn : ConnectionId} {method : Method} {options : CallOptions} {request : Bytes}
      {callback : κ} {now : Instant} :
      Acted x act (x.add (.start conn method options request callback now)) none
  | asked {ref : CallRef} {c : Call κ} {m : Call.Move κ} (hc : x.call? ref = some c)
      (hm : c.Moved m) : Acted x act (x.setCall ref m.call) (some (ref, m))
  /-- The call is given its id, or is encoded. -/
  | prepared {ref : CallRef} {c : Call κ} {id : Option Int32} {encoded : Option Bytes}
      (hc : x.call? ref = some c) (hid : c.id = none ∨ id = c.id)
      (hencoded : encoded = c.encoded ∨ ∃ given limit bs,
        id = some given ∧ c.encodeHeader given limit = .ok bs ∧ encoded = some bs) :
      Acted x act (x.setCall ref { c with id, encoded }) none
  /-- An id is drawn, and the call cannot take it. -/
  | spent (hact : ∃ ref, act = .register ref) :
      Acted x act { x with registry.drawn := x.registry.drawn + 1 } none
  | registered {ref : CallRef} {c : Call κ} (hact : act = .register ref)
      (hc : x.call? ref = some c) (hid : c.id = none)
      (hnew : x.registry.get? x.registry.nextId = none) :
      Acted x act { x.setCall ref { c with id := some x.registry.nextId } with
        registry.drawn := x.registry.drawn + 1
        registry.calls := x.registry.calls.insert x.registry.nextId ref } none
  | removed {id : Int32} (hact : act = .remove id) :
      Acted x act { x with registry := x.registry.remove id } none
  | settled {id : Int32} {ref : CallRef} {c : Call κ} {m : Call.Move κ}
      (hget : x.registry.get? id = some ref) (hc : x.call? ref = some c) (hm : c.Moved m)
      (hfin : m.call.isFinished = true ∨ overtaken? x act = some ref) :
      Acted x act ({ x with registry := x.registry.remove id }.setCall ref m.call) (some (ref, m))
  /-- No call is there under an id. -/
  | vanished {id : Int32} {ref : CallRef} (hget : x.registry.get? id = some ref)
      (hc : x.call? ref = none) : Acted x act { x with registry := x.registry.remove id } none
  | reaped : Acted x act x.reap none

section Acted

variable {x : Exchange κ} {act : Act κ}

theorem ask_acted (ref : CallRef) (op : Call.Op) :
    Acted x act (x.ask ref op).1 ((x.ask ref op).2.map (ref, ·)) := by
  cases hc : x.call? ref with
  | none =>
      simp only [Exchange.ask, hc]
      exact .aside
  | some c =>
      cases hm : op.move? c with
      | none =>
          simp only [Exchange.ask, hc, Option.bind_eq_bind, Option.bind_some, hm]
          exact .aside
      | some m =>
          simp only [Exchange.ask, hc, Option.bind_eq_bind, Option.bind_some, hm]
          exact .asked hc (Call.Op.moved hm)

theorem checkDeadline_eq (x : Exchange κ) (now : Instant) (ref : CallRef) :
    x.checkDeadline now ref = x.ask ref (.checkDeadline now) := by
  cases hc : x.call? ref with
  | none => simp [Exchange.checkDeadline, Exchange.ask, hc]
  | some c =>
      simp only [Exchange.checkDeadline, Exchange.ask, hc, Option.bind_eq_bind, Option.bind_some]
      rfl

theorem settle_acted {f : Call κ → Call.Move κ} (id : Int32) (hf : ∀ c, Call.Moved c (f c))
    (hfin : ∀ ref c, x.registry.get? id = some ref → x.call? ref = some c →
      (f c).call.isFinished = true ∨ overtaken? x act = some ref) :
    Acted x act (x.settle id f).1
      ((x.registry.get? id).bind fun ref => (x.settle id f).2.map (ref, ·)) := by
  cases hget : x.registry.get? id with
  | none =>
      simp only [Exchange.settle, hget]
      exact .aside
  | some ref =>
      cases hc : x.call? ref with
      | none =>
          have hc' : Exchange.call? { x with registry := x.registry.remove id } ref = none := hc
          simp only [Exchange.settle, hget, Exchange.move, hc']
          exact .vanished hget hc
      | some c =>
          have hc' : Exchange.call? { x with registry := x.registry.remove id } ref = some c := hc
          simp only [Exchange.settle, hget, Exchange.move, hc']
          exact .settled hget hc (hf c) (hfin ref c hget hc)

theorem handle_acted {frame : Bytes} {r : Response}
    (hparse : Response.parse frame x.registry.limit = .ok r) :
    Acted x (.handle frame) (x.handle r).1
      ((x.registry.get? r.callId).bind fun ref => (x.handle r).2.map (ref, ·)) := by
  refine settle_acted r.callId (fun c => c.respond_moved r) fun ref c hget hc => ?_
  rcases c.respond_isFinished r with hfin | ⟨hr, hp⟩
  · exact .inl hfin
  · exact .inr (by simp [overtaken?, hparse, hget, hr, hc, Option.filter, hp])

theorem register_acted {ref : CallRef} {c : Call κ} (hc : x.call? ref = some c) :
    Acted x (.register ref) (x.register ref c).1 none := by
  rcases x.registry.register_eq ref c with ⟨hnew, hid, he⟩ | ⟨problem, he⟩
  · simp only [Exchange.register, he]
    exact .registered rfl hc hid hnew
  · simp only [Exchange.register, he, Exchange.setCall_self hc]
    exact .spent ⟨ref, rfl⟩

end Acted

theorem change_acted (s : Session κ) {act : Act κ} (ref : CallRef) {f : Call κ → Call κ}
    (hf : ∀ c, ∃ id encoded, f c = { c with id, encoded } ∧ (c.id = none ∨ id = c.id) ∧
      (encoded = c.encoded ∨ ∃ given limit bs,
        id = some given ∧ c.encodeHeader given limit = .ok bs ∧ encoded = some bs)) :
    Acted s.exchange act (s.change ref f).session.exchange (s.change ref f).moved := by
  cases hc : s.exchange.call? ref with
  | none =>
      simp only [change, hc]
      exact .aside
  | some c =>
      obtain ⟨id, encoded, he, hid, hencoded⟩ := hf c
      simp only [change, hc, he]
      exact .prepared hc hid hencoded

theorem goOn_acted (s : Session κ) {act : Act κ} (place : Nat) (left : Exchange.Underway) :
    Acted s.exchange act (s.goOn place left).session.exchange (s.goOn place left).moved := by
  cases left with
  | abort error ids =>
      cases ids with
      | nil => exact .aside
      | cons id ids =>
          exact settle_acted id (fun c => c.fail_moved error) fun _ c _ _ =>
            .inl (c.fail_isFinished error)
  | expire now due =>
      cases due with
      | nil => exact .reaped
      | cons ref due =>
          simp only [goOn, Exchange.proceed, checkDeadline_eq]
          exact ask_acted ref (.checkDeadline now)

theorem act_acted (s : Session κ) (act : Act κ) :
    Acted s.exchange act (s.act act).session.exchange (s.act act).moved := by
  cases act with
  | start conn method options request callback now => exact .started
  | ask ref op => exact ask_acted ref op
  | assignId ref id =>
      refine s.change_acted ref fun c => ?_
      obtain ⟨given, he, hid⟩ := c.assignId_eq id
      exact ⟨given, c.encoded, he, hid, .inl rfl⟩
  | serialize ref limit =>
      refine s.change_acted ref fun c => ?_
      obtain ⟨encoded, he, hencoded⟩ := c.serialize_eq limit
      refine ⟨c.id, encoded, he, .inr rfl, hencoded.imp_right ?_⟩
      rintro ⟨id, bs, hid, hbs, hnew⟩
      exact ⟨id, limit, bs, hid, hbs, hnew⟩
  | register ref =>
      cases hc : s.exchange.call? ref with
      | none =>
          simp only [Session.act, hc]
          exact .aside
      | some c =>
          simp only [Session.act, hc]
          exact register_acted hc
  | remove id => exact .removed rfl
  | handle frame =>
      cases hparse : Response.parse frame s.exchange.registry.limit with
      | error problem =>
          simp only [Session.act, Exchange.handleFrame, hparse]
          exact .aside
      | ok r =>
          simp only [Session.act, Exchange.handleFrame, Exchange.addressee?, hparse]
          exact handle_acted hparse
  | abort error order =>
      simp only [Session.act]
      split
      · exact .aside
      · exact .aside
  | expire queue isAlive now => exact .aside
  | reap => exact .reaped
  | goOn place =>
      cases hu : s.underway[place]? with
      | none =>
          simp only [Session.act, hu]
          exact .aside
      | some left =>
          simp only [Session.act, hu]
          exact s.goOn_acted place left

/-! ## Runs -/

/-- An act in its place in a run. -/
structure Event (κ : Type) where
  before : Session κ
  act : Act κ

def Event.effect (e : Event κ) : Effect κ := e.before.act e.act

/-- What is left after all acts of a run. -/
def run (s : Session κ) : List (Act κ) → Session κ
  | [] => s
  | act :: acts => run (s.act act).session acts

def events (s : Session κ) : List (Act κ) → List (Event κ)
  | [] => []
  | act :: acts => ⟨s, act⟩ :: events (s.act act).session acts

theorem run_concat (s : Session κ) (acts : List (Act κ)) (act : Act κ) :
    s.run (acts ++ [act]) = ((s.run acts).act act).session := by
  induction acts generalizing s with
  | nil => rfl
  | cons first acts ih => exact ih _

theorem events_concat (s : Session κ) (acts : List (Act κ)) (act : Act κ) :
    s.events (acts ++ [act]) = s.events acts ++ [⟨s.run acts, act⟩] := by
  induction acts generalizing s with
  | nil => rfl
  | cons first acts ih => simp only [cons_append, events, run, ih]

end Session

end OnceOnly
