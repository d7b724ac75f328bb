import Mathlib.Data.List.Induction
import OnceOnly.Proofs.RoundTrip

/-!
# Answering: of all answers to a received call the first one counts

Sidecars are taken until then, eight at most. A response that does not fit a frame is lost, and the
call is answered all the same.
-/

namespace OnceOnly

open List

/-! ## The size of a response -/

/-- The size of a response frame: both lengths, the header with an offset for each sidecar, the
body. -/
def responseSize (message : Bytes) (sidecars : List Bytes) : Nat :=
  8 + (13 + 4 * sidecars.length) + Body.size message sidecars

/-- A response keeps the limit, and all of it but the first length can be counted in that. -/
def Fits (limit : Nat) (message : Bytes) (sidecars : List Bytes) : Prop :=
  responseSize message sidecars ≤ limit ∧ responseSize message sidecars - 4 ≤ Frame.maxLength

instance (limit : Nat) (message : Bytes) (sidecars : List Bytes) :
    Decidable (Fits limit message sidecars) :=
  inferInstanceAs (Decidable (_ ∧ _))

theorem ResponseHeader.length_encode (h : ResponseHeader) :
    (ResponseHeader.codec.encode h).length = 13 + 4 * h.sidecarOffsets.length := by
  have hoffsets : (h.sidecarOffsets.flatMap Codec.word32.encode).length =
      4 * h.sidecarOffsets.length := by
    induction h.sidecarOffsets with
    | nil => rfl
    | cons offset offsets ih =>
        have hword : (Codec.word32.encode offset).length = 4 := Codec.length_lowBytes 4 _
        rw [flatMap_cons, length_append, ih, hword, length_cons]
        omega
  show (Codec.lowBytes 4 _ ++ (Codec.lowBytes 1 _ ++ (Codec.lowBytes 8 _ ++ _))).length = _
  simp only [length_append, Codec.length_lowBytes, hoffsets]
  omega

/-- Sidecars have offsets as long as the body's size is no greater than an offset may be. -/
theorem Body.starts_ok {start : Nat} {sizes : List Nat}
    (h : start + total id sizes ≤ Frame.maxLength) :
    ∃ offsets, starts start sizes = .ok offsets := by
  refine exists_starts fun s hs => ?_
  obtain ⟨-, hle, hstop⟩ := (tile_consecutive start sizes).within s hs
  omega

namespace Inbound

section Response

variable {i : Inbound} {isError : Bool} {message : Bytes} {sidecars : List Bytes}

/-- A response with no more sidecars than are allowed is encoded exactly if it fits. -/
theorem encodeResponse_isSome (hmax : sidecars.length ≤ Body.maxSidecars) :
    (i.encodeResponse isError message sidecars).toOption.isSome = true ↔
      Fits i.limit message sidecars := by
  have hcount {offsets : List UInt32} (h : Body.offsets message.length sidecars = .ok offsets) :
      (ResponseHeader.codec.encode ⟨i.header.callId, isError, offsets⟩).length =
        13 + 4 * sidecars.length := by
    rw [ResponseHeader.length_encode, Body.length_offsets h]
  constructor
  · intro h
    obtain ⟨r, hr⟩ := Option.isSome_iff_exists.mp h
    obtain ⟨offsets, hoffsets, hr⟩ := Except.bind_eq_ok.mp (Except.toOption_eq_some.mp hr)
    obtain ⟨front, hfront, -⟩ := Except.bind_eq_ok.mp hr
    obtain ⟨hlimit, hfit, -⟩ := Frame.encodePrefix_eq_ok_iff.mp hfront
    rw [hcount hoffsets] at hlimit hfit
    rw [Fits, responseSize]
    omega
  · rintro ⟨hlimit, hfit⟩
    rw [responseSize] at hlimit hfit
    obtain ⟨offsets, hstarts⟩ : ∃ offsets,
        Body.starts message.length (sidecars.map length) = .ok offsets := by
      refine Body.starts_ok ?_
      rw [Body.total_map_length, ← Body.size]
      omega
    have hoffsets : Body.offsets message.length sidecars = .ok offsets := by
      rw [Body.offsets, if_neg (Nat.not_lt.mpr hmax), hstarts]
    obtain ⟨front, hfront⟩ : ∃ front,
        Frame.encodePrefix (ResponseHeader.codec.encode ⟨i.header.callId, isError, offsets⟩)
          (Body.size message sidecars) i.limit = .ok front := by
      refine ⟨_, Frame.encodePrefix_eq_ok_iff.mpr ⟨?_, ?_, rfl⟩⟩
      · rw [hcount hoffsets]
        omega
      · rw [hcount hoffsets]
        omega
    exact Option.isSome_iff_exists.mpr ⟨_, Except.toOption_eq_some.mpr
      (Except.bind_eq_ok.mpr ⟨offsets, hoffsets, Except.bind_eq_ok.mpr ⟨front, hfront, rfl⟩⟩)⟩

/-- Empty sidecars have their offsets all the same. -/
example : Fits 53 [] (replicate 8 []) ∧ ¬ Fits 52 [] (replicate 8 []) := by decide

/-- A response to a call, as whoever reads its frame finds it. -/
structure Answers (i : Inbound) (isError : Bool) (message : Bytes) (sidecars : List Bytes)
    (r : OutboundResponse) : Prop where
  callId : r.callId = i.header.callId
  slices : ∃ front, r.slices = front :: message :: sidecars
  size : r.frame.length = responseSize message sidecars
  read {limit : Nat} (hlimit : r.frame.length ≤ limit) : ∃ response,
    Response.parse r.frame limit = .ok response ∧ response.callId = i.header.callId ∧
      response.isSuccess = !isError ∧ response.message = message ∧ response.sidecars = sidecars

theorem answers_of_encodeResponse {r : OutboundResponse}
    (h : i.encodeResponse isError message sidecars = .ok r) :
    i.Answers isError message sidecars r := by
  obtain ⟨offsets, hoffsets, hr⟩ := Except.bind_eq_ok.mp h
  obtain ⟨front, hfront, hr⟩ := Except.bind_eq_ok.mp hr
  obtain rfl := Except.ok.inj hr
  refine ⟨rfl, ⟨front, rfl⟩, ?_, fun {limit} hlimit => ?_⟩
  · rw [OutboundResponse.frame, flatten_cons, flatten_cons, length_append, ← Body.size_eq,
      Frame.length_of_encodePrefix hfront, ResponseHeader.length_encode,
      Body.length_offsets hoffsets, responseSize]
  · obtain ⟨-, -, offsets', hread⟩ := parse_encodeResponse h hlimit
    exact ⟨_, hread, rfl, rfl, rfl, rfl⟩

end Response

section Attach

variable {i : Inbound}

/-- The index of a sidecar that an operation attaches, or why it is refused. -/
def gives (i : Inbound) : Op → Except Problem (Option Nat)
  | .attach sidecar => (i.attach sidecar).map fun attached => some attached.2
  | _ => .ok none

/-- Before the answer a sidecar is taken if there are fewer than eight. -/
theorem attach_open (h : i.responded = false) (sidecar : Bytes) :
    i.attach sidecar = if i.attached.length < 8 then
        .ok ({ i with attached := i.attached ++ [sidecar] }, i.attached.length)
      else .error (.tooManySidecars 8) := by
  by_cases hfew : i.attached.length < 8
  · have hmax : ¬ Body.maxSidecars ≤ i.attached.length := Nat.not_le.mpr hfew
    simp [attach, h, hmax, hfew]
  · have hmax : Body.maxSidecars ≤ i.attached.length := Nat.le_of_not_lt hfew
    rw [attach, h, if_neg Bool.false_ne_true, if_pos hmax, if_neg hfew]
    rfl

theorem attach_closed (h : i.responded = true) (sidecar : Bytes) :
    i.attach sidecar = .error (.illegalState (.alreadyAnswered i.text)) := by
  rw [attach, if_pos h]

/-- Nobody gets a ninth sidecar in. -/
theorem length_attached_apply (h : i.attached.length ≤ 8) (op : Op) :
    (i.apply op).attached.length ≤ 8 := by
  cases op with
  | attach sidecar =>
      cases hr : i.responded with
      | true =>
          rw [apply, attach_closed hr]
          exact h
      | false =>
          have hattach := attach_open hr sidecar
          by_cases hlt : i.attached.length < 8
          · simp only [if_pos hlt] at hattach
            simp only [apply, hattach, length_append, length_singleton]
            exact hlt
          · simp only [if_neg hlt] at hattach
            simp only [apply, hattach]
            exact h
  | receivedAgain now => exact h
  | handlingStarted now => exact h

end Attach

theorem parse_unanswered {i : Inbound} {remote : Address} {bs : Bytes} {settings : CallSettings}
    {now : Instant} (h : parse remote bs settings now = .ok i) :
    i.responded = false ∧ i.limit = settings.limit := by
  obtain ⟨_, -, h⟩ := Except.bind_eq_ok.mp h
  obtain ⟨_, -, h⟩ := Except.bind_eq_ok.mp h
  obtain rfl := Except.ok.inj h
  exact ⟨rfl, rfl⟩

end Inbound

/-! ## A call and its connection -/

/-- A received call, and the connection that it is answered on. -/
structure Answering where
  call : Inbound
  conn : Connection

namespace Answering

/-- What may be done with a received call. -/
inductive Op where
  | prepare (op : Inbound.Op)
  | succeed (message : Bytes) (now : Instant)
  | fail (status : ErrorStatus) (now : Instant)

/-- What comes of it. -/
inductive Result where
  | prepared (given : Except Problem (Option Nat))
  /-- A response that did not fit is lost. -/
  | answered (response : Option OutboundResponse)
  | misuse (text : String)

def Op.answers : Op → Bool
  | .prepare _ => false
  | .succeed .. | .fail .. => true

/-- Queues the response, if there is one. -/
def answer (s : Answering) : Option (Inbound × Option OutboundResponse) → Answering × Result
  | none => (s, .misuse s.call.answeredTwice)
  | some (call, response) => (⟨call, response.elim s.conn s.conn.enqueue⟩, .answered response)

def step (s : Answering) : Op → Answering × Result
  | .prepare op => ({ s with call := s.call.apply op }, .prepared (s.call.gives op))
  | .succeed message now => s.answer (s.call.succeed message now)
  | .fail status now => s.answer (s.call.fail status now)

/-- An operation in its place in a run. -/
structure Event where
  before : Answering
  op : Op

def run (s : Answering) : List Op → Answering
  | [] => s
  | op :: ops => run (s.step op).1 ops

def events (s : Answering) : List Op → List Event
  | [] => []
  | op :: ops => ⟨s, op⟩ :: events (s.step op).1 ops

/-- The sidecar that was accepted, if the operation was to attach one. -/
def Event.accepted? (e : Event) : Option Bytes :=
  match e.op with
  | .prepare op => e.before.call.accepts op
  | _ => none

/-- The response that was queued. -/
def Event.queued? (e : Event) : Option OutboundResponse :=
  match (e.before.step e.op).2 with
  | .answered response => response
  | _ => none

/-- The sidecars that were accepted, in their order. -/
def accepted (es : List Event) : List Bytes := es.filterMap Event.accepted?

def queued (es : List Event) : List OutboundResponse := es.filterMap Event.queued?

/-! ## One operation -/

/-- The call after its first answer. -/
def answeredCall (i : Inbound) (now : Instant) : Inbound :=
  { i with responded := true, attached := [], timing := { i.timing with completed := some now } }

/-- The first answer counts: the call is answered, and a response with all of it is queued exactly
if it fits. -/
def Counts (s : Answering) (op : Op) (isError : Bool) (message : Bytes) (sidecars : List Bytes)
    (now : Instant) : Prop :=
  ∃ response,
    s.step op =
      (⟨answeredCall s.call now, response.elim s.conn s.conn.enqueue⟩, .answered response) ∧
    (response.isSome = true ↔ Fits s.call.limit message sidecars) ∧
    ∀ r, response = some r → s.call.Answers isError message sidecars r

/-- A call that was not answered, with the sidecars of its response. -/
structure Open (s : Answering) (sidecars : List Bytes) : Prop where
  responded : s.call.responded = false
  attached : s.call.attached = sidecars
  few : sidecars.length ≤ 8
  attach (sidecar : Bytes) : s.step (.prepare (.attach sidecar)) =
    if sidecars.length < 8 then
      ({ s with call := { s.call with attached := sidecars ++ [sidecar] } },
        .prepared (.ok (some sidecars.length)))
    else (s, .prepared (.error (.tooManySidecars 8)))
  succeed (message : Bytes) (now : Instant) :
    s.Counts (.succeed message now) false message sidecars now
  /-- An error carries no sidecars. -/
  fail (status : ErrorStatus) (now : Instant) :
    s.Counts (.fail status now) true (ErrorStatus.codec.encode status) [] now

/-- A call that was answered. -/
structure Closed (s : Answering) : Prop where
  responded : s.call.responded = true
  attach (sidecar : Bytes) : s.step (.prepare (.attach sidecar)) =
    (s, .prepared (.error (.illegalState (.alreadyAnswered s.call.text))))
  answer {op : Op} (h : op.answers = true) : s.step op = (s, .misuse s.call.answeredTwice)

section Step

variable {s : Answering} {op : Op}

/-- Both kinds of answer are one. -/
theorem step_of_answers (h : op.answers = true) : ∃ isError message now, ∀ s : Answering,
    s.step op = s.answer (s.call.respond isError message now) := by
  cases op with
  | prepare op => simp [Op.answers] at h
  | succeed message now => exact ⟨false, message, now, fun _ => rfl⟩
  | fail status now => exact ⟨true, ErrorStatus.codec.encode status, now, fun _ => rfl⟩

theorem answer_open (h : s.call.responded = false) (isError : Bool) (message : Bytes)
    (now : Instant) :
    s.answer (s.call.respond isError message now) =
      let response := (s.call.encodeResponse isError message
        (if isError then [] else s.call.attached)).toOption
      (⟨answeredCall s.call now, response.elim s.conn s.conn.enqueue⟩, .answered response) := by
  rw [Inbound.respond, h, if_neg Bool.false_ne_true]
  rfl

theorem closed_of_responded (h : s.call.responded = true) : s.Closed where
  responded := h
  attach sidecar := by
    have hrefused := Inbound.attach_closed h sidecar
    simp only [step, Inbound.apply, Inbound.gives, hrefused]
    rfl
  answer hop := by
    obtain ⟨isError, message, now, hstep⟩ := step_of_answers hop
    rw [hstep, Inbound.respond, if_pos h]
    rfl

theorem counts_of_answer {isError : Bool} {message : Bytes} {now : Instant}
    {sidecars : List Bytes} (h : s.call.responded = false)
    (hstep : s.step op = s.answer (s.call.respond isError message now))
    (hsidecars : sidecars = if isError then [] else s.call.attached)
    (hmax : sidecars.length ≤ 8) : s.Counts op isError message sidecars now := by
  subst hsidecars
  refine ⟨_, hstep.trans (answer_open h isError message now), ?_, fun r hr => ?_⟩
  · exact Inbound.encodeResponse_isSome hmax
  · exact Inbound.answers_of_encodeResponse (Except.toOption_eq_some.mp hr)

theorem open_of_not_responded (h : s.call.responded = false) (hfew : s.call.attached.length ≤ 8) :
    s.Open s.call.attached where
  responded := h
  attached := rfl
  few := hfew
  attach sidecar := by
    have hattach := Inbound.attach_open h sidecar
    by_cases hlt : s.call.attached.length < 8
    · simp only [if_pos hlt] at hattach ⊢
      simp only [step, Inbound.apply, Inbound.gives, hattach]
      rfl
    · simp only [if_neg hlt] at hattach ⊢
      simp only [step, Inbound.apply, Inbound.gives, hattach]
      rfl
  succeed message now := counts_of_answer h rfl rfl hfew
  fail status now := counts_of_answer h rfl rfl (Nat.zero_le _)

end Step

/-! ## Whole runs -/

theorem run_concat (s : Answering) (ops : List Op) (op : Op) :
    s.run (ops ++ [op]) = ((s.run ops).step op).1 := by
  induction ops generalizing s with
  | nil => rfl
  | cons first ops ih => exact ih _

theorem events_concat (s : Answering) (ops : List Op) (op : Op) :
    s.events (ops ++ [op]) = s.events ops ++ [⟨s.run ops, op⟩] := by
  induction ops generalizing s with
  | nil => rfl
  | cons first ops ih => simp only [cons_append, events, run, ih]

theorem accepted_concat (es : List Event) (e : Event) :
    accepted (es ++ [e]) = accepted es ++ e.accepted?.toList := by
  cases h : e.accepted? <;> simp [accepted, h]

theorem queued_concat (es : List Event) (e : Event) :
    queued (es ++ [e]) = queued es ++ e.queued?.toList := by
  cases h : e.queued? <;> simp [queued, h]

/-- What has come of a call and its connection after some operations. -/
structure Came (first : Answering) (ops : List Op) (s : Answering) (es : List Event) : Prop where
  header : s.call.header = first.call.header
  limit : s.call.limit = first.call.limit
  responded : s.call.responded = ops.any Op.answers
  attached (h : s.call.responded = false) : s.call.attached = accepted es
  few : s.call.attached.length ≤ 8
  conn : s.conn = { first.conn with queue := first.conn.queue ++ queued es }
  unanswered (h : s.call.responded = false) : queued es = []
  once : (queued es).length ≤ 1

section Came

variable {first s : Answering} {ops : List Op} {es : List Event}

theorem Came.prepare (h : Came first ops s es) (op : Inbound.Op) :
    Came first (ops ++ [.prepare op]) (s.step (.prepare op)).1 (es ++ [⟨s, .prepare op⟩]) := by
  have hqueued : queued (es ++ [⟨s, .prepare op⟩]) = queued es := by
    rw [queued_concat]
    exact append_nil _
  obtain ⟨timing, happly⟩ := s.call.apply_eq op
  have hresponded : (s.call.apply op).responded = s.call.responded := by rw [happly]
  constructor
  case header => exact (congrArg Inbound.header happly).trans h.header
  case limit => exact (congrArg Inbound.limit happly).trans h.limit
  case responded =>
    rw [any_append, ← h.responded]
    exact hresponded.trans (Bool.or_false _).symm
  case attached =>
    intro hopen
    rw [accepted_concat, ← h.attached (hresponded.symm.trans hopen)]
    exact congrArg Inbound.attached happly
  case few => exact Inbound.length_attached_apply h.few op
  case conn => rw [hqueued]; exact h.conn
  case unanswered => rw [hqueued]; exact fun hopen => h.unanswered (hresponded.symm.trans hopen)
  case once => rw [hqueued]; exact h.once

theorem Came.answer {op : Op} (h : Came first ops s es) (hop : op.answers = true) :
    Came first (ops ++ [op]) (s.step op).1 (es ++ [⟨s, op⟩]) := by
  have haccepted : accepted (es ++ [⟨s, op⟩]) = accepted es := by
    rw [accepted_concat]
    cases op with
    | prepare op => simp [Op.answers] at hop
    | succeed message now => exact append_nil _
    | fail status now => exact append_nil _
  have hanswered : (ops ++ [op]).any Op.answers = true := by simp [hop]
  cases hr : s.call.responded with
  | true =>
      have hstep := (closed_of_responded hr).answer hop
      have hqueued : queued (es ++ [⟨s, op⟩]) = queued es := by
        rw [queued_concat, Event.queued?, hstep]
        exact append_nil _
      rw [hstep]
      refine ⟨h.header, h.limit, hr.trans hanswered.symm, ?_, h.few, ?_, ?_, ?_⟩
      · exact fun hopen => absurd (hr.symm.trans hopen) (by simp)
      · rw [hqueued]; exact h.conn
      · exact fun hopen => absurd (hr.symm.trans hopen) (by simp)
      · rw [hqueued]; exact h.once
  | false =>
      obtain ⟨isError, message, now, hstep⟩ := step_of_answers hop
      have hfirst := (hstep s).trans (answer_open hr isError message now)
      generalize (s.call.encodeResponse isError message
        (if isError then [] else s.call.attached)).toOption = response at hfirst
      have hqueued : queued (es ++ [⟨s, op⟩]) = response.toList := by
        rw [queued_concat, h.unanswered hr, Event.queued?, hfirst]
        rfl
      rw [hfirst]
      refine ⟨h.header, h.limit, hanswered.symm, ?_, Nat.zero_le _, ?_, ?_, ?_⟩
      · exact fun hopen => absurd hopen (by simp [answeredCall])
      · have hconn : s.conn = first.conn := by
          rw [h.conn, h.unanswered hr, append_nil]
        rw [hqueued, hconn]
        cases response with
        | none => rw [Option.toList_none, append_nil]; rfl
        | some r => rfl
      · exact fun hopen => absurd hopen (by simp [answeredCall])
      · rw [hqueued]
        cases response <;> simp

end Came

theorem came_run {first : Answering} (hresponded : first.call.responded = false)
    (hattached : first.call.attached = []) (ops : List Op) :
    Came first ops (first.run ops) (first.events ops) := by
  induction ops using reverseRecOn with
  | nil =>
      refine ⟨rfl, rfl, hresponded, fun _ => hattached, ?_, ?_, fun _ => rfl, Nat.zero_le _⟩
      · rw [run, hattached]
        exact Nat.zero_le _
      · show first.conn = { first.conn with queue := first.conn.queue ++ [] }
        rw [append_nil]
  | append_singleton ops op ih =>
      rw [run_concat, events_concat]
      cases op with
      | prepare op => exact ih.prepare op
      | succeed message now => exact ih.answer rfl
      | fail status now => exact ih.answer rfl

/-- Of all answers to a received call the first one counts. Until then the call takes sidecars, and
an answer queues one response with all of them, or loses it; from then on nothing comes of any
answer or sidecar. -/
theorem answered_at_most_once (remote : Address) (bs : Bytes) (settings : CallSettings)
    (received : Instant) {parsed : Inbound}
    (hparse : Inbound.parse remote bs settings received = .ok parsed) (conn : Connection)
    (ops : List Op) :
    let s := run ⟨parsed, conn⟩ ops
    let es := events ⟨parsed, conn⟩ ops
    s.conn = { conn with queue := conn.queue ++ queued es } ∧ (queued es).length ≤ 1 ∧
      s.call.header = parsed.header ∧ s.call.limit = settings.limit ∧
      (ops.any Op.answers = false → queued es = [] ∧ s.Open (accepted es)) ∧
      (ops.any Op.answers = true → s.Closed) := by
  intro s es
  obtain ⟨hresponded, hlimit⟩ := Inbound.parse_unanswered hparse
  have h : Came ⟨parsed, conn⟩ ops s es :=
    came_run hresponded (Inbound.parse_attached hparse) ops
  refine ⟨h.conn, h.once, h.header, h.limit.trans hlimit, fun hopen => ?_, fun hclosed => ?_⟩
  · have hr : s.call.responded = false := h.responded.trans hopen
    exact ⟨h.unanswered hr, h.attached hr ▸ open_of_not_responded hr h.few⟩
  · exact closed_of_responded (h.responded.trans hclosed)

/-- Nine sidecars are tried, then two answers. -/
theorem answered_at_most_once_ninth_sidecar :
    let attaching : List Op := replicate 9 (.prepare (.attach [1]))
    let ops := attaching ++ [.succeed [42] ⟨1⟩, .fail (.lacking [3]) ⟨2⟩]
    let conn : Connection := .start (.v4 127 0 0 1 9) ⟨none⟩
    ∃ parsed, Inbound.parse (.v4 127 0 0 1 9) bareRequest .standard ⟨0⟩ = .ok parsed ∧
      (run ⟨parsed, conn⟩ attaching).Open (replicate 8 [1]) ∧ (run ⟨parsed, conn⟩ ops).Closed ∧
      (run ⟨parsed, conn⟩ ops).conn.queue.map OutboundResponse.callId = [7] := by
  intro attaching ops conn
  obtain ⟨parsed, hparse, haccepted, hqueue⟩ : ∃ parsed,
      Inbound.parse (.v4 127 0 0 1 9) bareRequest .standard ⟨0⟩ = .ok parsed ∧
      accepted (events ⟨parsed, conn⟩ attaching) = replicate 8 [1] ∧
      (run ⟨parsed, conn⟩ ops).conn.queue.map OutboundResponse.callId = [7] := by
    refine ⟨_, rfl, ?_⟩
    decide +kernel
  have hrun := answered_at_most_once (.v4 127 0 0 1 9) bareRequest .standard ⟨0⟩ hparse conn
  obtain ⟨-, -, -, -, hopen, -⟩ := hrun attaching
  obtain ⟨-, -, -, -, -, hclosed⟩ := hrun ops
  exact ⟨parsed, hparse, haccepted ▸ (hopen rfl).2, hclosed rfl, hqueue⟩

end Answering

end OnceOnly
