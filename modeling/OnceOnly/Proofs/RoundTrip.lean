import OnceOnly.Proofs.CallLife
import OnceOnly.Proofs.Frame
import OnceOnly.Service.Inbound

/-! # What one side writes, the other side reads: requests and responses on their way -/

namespace OnceOnly

open List

theorem Except.bind_eq_ok {ε α β : Type} {x : Except ε α} {f : α → Except ε β} {b : β} :
    (x >>= f) = .ok b ↔ ∃ a, x = .ok a ∧ f a = .ok b := by
  cases x with
  | error e => simp [bind, Except.bind]
  | ok a => simp [bind, Except.bind]

theorem Except.toOption_eq_some {ε α : Type} {x : Except ε α} {a : α} :
    x.toOption = some a ↔ x = .ok a := by
  cases x with
  | error e => simp [Except.toOption]
  | ok b => simp [Except.toOption]

/-! ## Requests -/

section Request

variable {κ : Type} {c : Call κ} {id : Int32} {limit : Nat}

/-- The frame up to the body says where every sidecar starts. -/
theorem Call.encodeHeader_ok {front : Bytes} (h : c.encodeHeader id limit = .ok front) :
    ∃ offsets, Body.offsets c.request.length c.options.sidecars = .ok offsets ∧
      Frame.encodePrefix (RequestHeader.codec.encode (c.header id offsets))
        (Body.size c.request c.options.sidecars) limit = .ok front :=
  Except.bind_eq_ok.mp h

/-- A call that is sent for the first time encodes the frame up to the body then. -/
theorem Call.serialize_ok {slices : List Bytes} (hid : c.id = some id) (hfirst : c.encoded = none)
    (h : (c.serialize limit).2 = .ok slices) :
    ∃ front, c.encodeHeader id limit = .ok front ∧
      slices = front :: c.request :: c.options.sidecars := by
  rw [serialize, hid, hfirst] at h
  simp only at h
  cases hfront : c.encodeHeader id limit with
  | error problem => simp [hfront] at h
  | ok front =>
      simp only [hfront] at h
      split at h
      · simp at h
      · exact ⟨front, rfl, (Except.ok.inj h).symm⟩

/-- A timeout is rounded down to whole milliseconds and said as far as the header can. -/
theorem Call.header_timeoutMillis (offsets : List UInt32) :
    (c.header id offsets).timeoutMillis.map UInt32.toNat =
      c.options.timeout.map fun t => min (t.nanos / 1000000) 4294967295 := by
  cases h : c.options.timeout with
  | none => simp only [header, h, Option.map_none]
  | some t =>
      have hlt : min (t.nanos / 1000000) 4294967295 < 4294967296 := by omega
      simp only [header, h, maxTimeoutMillis, Duration.toMillis, Option.map_some,
        UInt32.toNat_ofNat_of_lt' hlt]

/-- What is found at an index of a received call's sidecars. -/
theorem Inbound.sidecar_eq (i : Inbound) {sidecars : List Bytes}
    (h : i.sidecars.map (·.of i.transfer) = sidecars) (index : Nat) :
    i.sidecar index = match sidecars[index]? with
      | some s => .ok s
      | none => .error (.sidecarOutOfRange index sidecars.length) := by
  subst h
  rw [sidecar, getElem?_map, length_map]
  cases i.sidecars[index]? with
  | none => rfl
  | some s => rfl

/-- A call that is sent for the first time arrives as it was made: its id, its method, its request
id, the features that it requires from the least up, its timeout in whole milliseconds as far as the
header can say it, its message, and its sidecars in their order. -/
theorem request_round_trip (c : Call κ) (id : Int32) (limit : Nat) (slices : List Bytes)
    (remote : Address) (settings : CallSettings) (now : Instant) (hid : c.id = some id)
    (hfirst : c.encoded = none) (hslices : (c.serialize limit).2 = .ok slices)
    (hlimit : slices.flatten.length ≤ settings.limit) :
    ∃ i, Inbound.parse remote slices.flatten settings now = .ok i ∧
      i.header.callId = id ∧ i.header.method = c.method ∧
      i.header.requestId = c.options.requestId ∧
      i.header.requiredFeatures = c.options.features.keys ∧
      i.header.requiredFeatures.Pairwise (· < ·) ∧
      i.header.timeoutMillis.map UInt32.toNat =
        c.options.timeout.map (fun t => min (t.nanos / 1000000) 4294967295) ∧
      i.request = c.request ∧
      i.sidecars.length = c.options.sidecars.length ∧
      ∀ index, i.sidecar index = match c.options.sidecars[index]? with
        | some s => .ok s
        | none => .error (.sidecarOutOfRange index c.options.sidecars.length) := by
  obtain ⟨front, hfront, rfl⟩ := Call.serialize_ok hid hfirst hslices
  obtain ⟨offsets, hoffsets, hfront⟩ := Call.encodeHeader_ok hfront
  obtain ⟨f, l, hf, hheader, hl, hmessage, hsidecars⟩ :=
    Frame.parse_slices RequestHeader.codec_faithful hoffsets hfront hlimit
  have hoffset : f.header.sidecarOffsets = offsets := by rw [hheader]; rfl
  have hparse : Inbound.parse remote (front :: c.request :: c.options.sidecars).flatten settings
      now = .ok ⟨remote, f.header, (front :: c.request :: c.options.sidecars).flatten, l.message,
        l.sidecars, settings.limit, ⟨now, none, none⟩, [], false⟩ := by
    rw [Inbound.parse, Except.bind_eq_ok]
    refine ⟨f, hf, Except.bind_eq_ok.mpr ⟨l, ?_, rfl⟩⟩
    rw [hoffset, hl]
  refine ⟨_, hparse, ?_⟩
  rw [hheader]
  refine ⟨rfl, rfl, rfl, rfl, ?_, Call.header_timeoutMillis offsets, hmessage, ?_, ?_⟩
  · exact pairwise_map.mpr c.options.features.sorted
  · rw [← hsidecars, length_map]
  · exact Inbound.sidecar_eq _ hsidecars

/-- A call with all that a header can say, and an empty sidecar after another. -/
def wordyCall : Call Unit :=
  { Call.start ⟨.v4 127 0 0 1 7050, ⟨none⟩⟩ ⟨"s", "m"⟩
      ⟨some ⟨1500001⟩, none, some ⟨"c", 0, 0, 1⟩, .ofList [3, 1], [[1, 2], []]⟩ [42] () ⟨0⟩ with
    id := some 7 }

theorem request_round_trip_wordy : ∃ slices i, wordyCall.id = some 7 ∧ wordyCall.encoded = none ∧
    (wordyCall.serialize 200).2 = .ok slices ∧
    slices.flatten.length ≤ CallSettings.standard.limit ∧
    Inbound.parse (.v4 127 0 0 1 9) slices.flatten .standard ⟨5⟩ = .ok i ∧
    i.header.callId = 7 ∧ i.header.requestId = some ⟨"c", 0, 0, 1⟩ ∧
    i.header.requiredFeatures = [1, 3] ∧ i.header.timeoutMillis.map UInt32.toNat = some 1 ∧
    i.request = [42] ∧ i.sidecar 0 = .ok [1, 2] ∧ i.sidecar 1 = .ok [] ∧
    i.sidecar 2 = .error (.sidecarOutOfRange 2 2) := by
  obtain ⟨slices, hslices, hlimit⟩ : ∃ slices, (wordyCall.serialize 200).2 = .ok slices ∧
      slices.flatten.length ≤ CallSettings.standard.limit := by
    refine ⟨_, rfl, ?_⟩
    decide
  obtain ⟨i, hparse, hid, -, hrequest, hfeatures, -, htimeout, hmessage, -, hsidecar⟩ :=
    request_round_trip wordyCall 7 200 slices (.v4 127 0 0 1 9) .standard ⟨5⟩ rfl rfl hslices hlimit
  exact ⟨slices, i, rfl, rfl, hslices, hlimit, hparse, hid, hrequest, hfeatures, htimeout,
    hmessage, hsidecar 0, hsidecar 1, hsidecar 2⟩

end Request

/-! ## Responses -/

namespace Inbound

/-- What may be done with a received call before it is answered. -/
inductive Op where
  | attach (sidecar : Bytes)
  | receivedAgain (now : Instant)
  | handlingStarted (now : Instant)

/-- A sidecar that is refused changes nothing. -/
def apply (i : Inbound) : Op → Inbound
  | .attach sidecar =>
    match i.attach sidecar with
    | .ok (attached, _) => attached
    | .error _ => i
  | .receivedAgain now => i.receivedAgain now
  | .handlingStarted now => i.handlingStarted now

def run (i : Inbound) (ops : List Op) : Inbound := ops.foldl apply i

/-- The sidecar that an operation attaches, unless it is refused. -/
def accepts (i : Inbound) : Op → Option Bytes
  | .attach sidecar => (i.attach sidecar).toOption.map fun _ => sidecar
  | _ => none

/-- The sidecars that were accepted, in their order. -/
def accepted (i : Inbound) : List Op → List Bytes
  | [] => []
  | op :: ops => (i.accepts op).toList ++ (i.apply op).accepted ops

variable {i : Inbound}

theorem attach_eq_ok {sidecar : Bytes} {attached : Inbound} {index : Nat}
    (h : i.attach sidecar = .ok (attached, index)) :
    attached = { i with attached := i.attached ++ [sidecar] } := by
  unfold attach at h
  split at h
  · simp at h
  · split at h
    · simp at h
    · exact (congrArg Prod.fst (Except.ok.inj h)).symm

/-- An operation leaves the call as it was received, and attaches what it accepts. -/
theorem apply_eq (i : Inbound) (op : Op) : ∃ timing, i.apply op =
    { i with timing, attached := i.attached ++ (i.accepts op).toList } := by
  cases op with
  | attach sidecar =>
      cases h : i.attach sidecar with
      | ok result => exact ⟨i.timing, by simp [apply, accepts, h, attach_eq_ok h, Except.toOption]⟩
      | error problem => exact ⟨i.timing, by simp [apply, accepts, h, Except.toOption]⟩
  | receivedAgain now => exact ⟨_, by simp [apply, accepts, receivedAgain]; rfl⟩
  | handlingStarted now => exact ⟨_, by simp [apply, accepts, handlingStarted]; rfl⟩

theorem run_eq (i : Inbound) (ops : List Op) : ∃ timing, i.run ops =
    { i with timing, attached := i.attached ++ i.accepted ops } := by
  induction ops generalizing i with
  | nil => exact ⟨i.timing, by simp [run, accepted]⟩
  | cons op ops ih =>
      obtain ⟨_, hfirst⟩ := i.apply_eq op
      obtain ⟨timing, hrest⟩ := ih (i.apply op)
      refine ⟨timing, ?_⟩
      rw [run, foldl_cons, ← run, hrest, accepted]
      simp only [hfirst, append_assoc]

theorem parse_attached {remote : Address} {bs : Bytes} {settings : CallSettings} {now : Instant}
    (h : parse remote bs settings now = .ok i) : i.attached = [] := by
  obtain ⟨_, -, h⟩ := Except.bind_eq_ok.mp h
  obtain ⟨_, -, h⟩ := Except.bind_eq_ok.mp h
  exact (congrArg attached (Except.ok.inj h)).symm

/-- A response that was encoded is read with everything that went into it. -/
theorem parse_encodeResponse {isError : Bool} {message : Bytes} {sidecars : List Bytes}
    {r : OutboundResponse} {limit : Nat} (h : i.encodeResponse isError message sidecars = .ok r)
    (hlimit : r.frame.length ≤ limit) :
    r.callId = i.header.callId ∧ message.length < Nat.pow 256 8 ∧
      ∃ offsets, Response.parse r.frame limit =
        .ok ⟨⟨i.header.callId, isError, offsets⟩, message, sidecars⟩ := by
  obtain ⟨offsets, hoffsets, h⟩ := Except.bind_eq_ok.mp h
  obtain ⟨front, hfront, h⟩ := Except.bind_eq_ok.mp h
  obtain rfl := Except.ok.inj h
  obtain ⟨f, l, hf, hheader, hl, hmessage, hsidecars⟩ :=
    Frame.parse_slices ResponseHeader.codec_faithful hoffsets hfront hlimit
  have hfit : message.length ≤ Frame.maxLength := by
    have hsize := (Frame.encodePrefix_eq_ok_iff.mp hfront).2.1
    rw [Body.size] at hsize
    omega
  refine ⟨rfl, Nat.lt_of_le_of_lt hfit (by decide), offsets, ?_⟩
  rw [Response.parse, Except.bind_eq_ok]
  refine ⟨f, hf, Except.bind_eq_ok.mpr ⟨l, by rw [hheader]; exact hl, ?_⟩⟩
  rw [OutboundResponse.frame, hheader, hmessage, hsidecars]
  rfl

/-- A response is queued when it was encoded. -/
theorem respond_queued {isError : Bool} {message : Bytes} {now : Instant} {answered : Inbound}
    {r : OutboundResponse} (h : i.respond isError message now = some (answered, some r)) :
    i.encodeResponse isError message (if isError then [] else i.attached) = .ok r := by
  unfold respond at h
  split at h
  · simp at h
  · simp only [Option.some.injEq, Prod.mk.injEq] at h
    exact Except.toOption_eq_some.mp h.2

end Inbound

/-- The status in an error response is read as it was written. -/
theorem Response.errorStatus_encode (status : ErrorStatus) (callId : Int32)
    (offsets : List UInt32) (sidecars : List Bytes)
    (h : (ErrorStatus.codec.encode status).length < Nat.pow 256 8) :
    (Response.mk ⟨callId, true, offsets⟩ (ErrorStatus.codec.encode status) sidecars).errorStatus =
      .ok status := by
  have hvalue := ErrorStatus.codec_faithful.value_encode h []
  rw [append_nil] at hvalue
  simp [errorStatus, isSuccess, hvalue]

namespace Call

variable {κ : Type} {c : Call κ} {r : Response}

/-- A success finishes a call that is being sent or was sent, and its callback is told the
message. -/
theorem respond_success (hp : c.phase = .sending ∨ c.phase = .sent) (hr : r.isSuccess = true) :
    (c.respond r).transition = .applied ∧ (c.respond r).call.phase = .finishedSuccess ∧
      (c.respond r).call.outcome = .ok r.message ∧
      (c.respond r).fired = c.callback.map fun k => (k, .ok r.message) := by
  have hn : c.phase.canMoveTo .finishedSuccess = true := by
    rcases hp with hp | hp <;> rw [hp] <;> rfl
  rw [respond, if_pos hr, moveTo_eq hn]
  exact ⟨rfl, rfl, rfl, rfl⟩

/-- So does an error, and its callback is told the status. -/
theorem respond_error (hp : c.phase = .sending ∨ c.phase = .sent) (hr : r.isSuccess = false)
    {status : ErrorStatus} (hs : r.errorStatus = .ok status) :
    (c.respond r).transition = .applied ∧ (c.respond r).call.phase = .finishedError ∧
      (c.respond r).call.outcome = .error (.remote status) ∧
      (c.respond r).fired = c.callback.map fun k => (k, .error (.remote status)) := by
  have hn : c.phase.canMoveTo .finishedError = true := by
    rcases hp with hp | hp <;> rw [hp] <;> rfl
  rw [respond, hr, if_neg (by simp), hs, moveTo_eq hn]
  exact ⟨rfl, rfl, rfl, rfl⟩

end Call

/-- Whatever was done with a received call before: a response that is queued is read with the call's
id. A success has the message that was given and the sidecars that were accepted, in their order; an
error has no sidecars and the status that was given. A call that is being sent or was sent is
finished by it, and its callback is told the message or the status. -/
theorem response_round_trip (remote : Address) (bs : Bytes) (settings : CallSettings)
    (received : Instant) {parsed : Inbound}
    (hparse : Inbound.parse remote bs settings received = .ok parsed) (ops : List Inbound.Op)
    (now : Instant) {answered : Inbound} {r : OutboundResponse} {limit : Nat}
    (hlimit : r.frame.length ≤ limit) :
    (∀ message, (parsed.run ops).succeed message now = some (answered, some r) →
      r.callId = parsed.header.callId ∧ ∃ response, Response.parse r.frame limit = .ok response ∧
        response.callId = parsed.header.callId ∧ response.isSuccess = true ∧
        response.message = message ∧ response.sidecars = parsed.accepted ops ∧
        ∀ (κ : Type) (c : Call κ), c.phase = .sending ∨ c.phase = .sent →
          (c.respond response).transition = .applied ∧
          (c.respond response).call.phase = .finishedSuccess ∧
          (c.respond response).call.outcome = .ok message ∧
          (c.respond response).fired = c.callback.map fun k => (k, .ok message)) ∧
    (∀ status, (parsed.run ops).fail status now = some (answered, some r) →
      r.callId = parsed.header.callId ∧ ∃ response, Response.parse r.frame limit = .ok response ∧
        response.callId = parsed.header.callId ∧ response.isSuccess = false ∧
        response.sidecars = [] ∧ response.errorStatus = .ok status ∧
        ∀ (κ : Type) (c : Call κ), c.phase = .sending ∨ c.phase = .sent →
          (c.respond response).transition = .applied ∧
          (c.respond response).call.phase = .finishedError ∧
          (c.respond response).call.outcome = .error (.remote status) ∧
          (c.respond response).fired = c.callback.map fun k => (k, .error (.remote status))) := by
  obtain ⟨timing, hrun⟩ := parsed.run_eq ops
  have hheader : (parsed.run ops).header = parsed.header := by rw [hrun]
  have hattached : (parsed.run ops).attached = parsed.accepted ops := by
    rw [hrun, Inbound.parse_attached hparse, nil_append]
  constructor
  · intro message hr
    obtain ⟨hid, -, offsets, hresponse⟩ :=
      Inbound.parse_encodeResponse (Inbound.respond_queued hr) hlimit
    rw [hheader] at hid hresponse
    refine ⟨hid, _, hresponse, rfl, rfl, rfl, hattached, fun κ c hp => ?_⟩
    exact Call.respond_success hp rfl
  · intro status hr
    obtain ⟨hid, hfit, offsets, hresponse⟩ :=
      Inbound.parse_encodeResponse (Inbound.respond_queued hr) hlimit
    rw [hheader] at hid hresponse
    have hstatus := Response.errorStatus_encode status parsed.header.callId offsets [] hfit
    refine ⟨hid, _, hresponse, rfl, rfl, rfl, hstatus, fun κ c hp => ?_⟩
    exact Call.respond_error hp rfl hstatus

/-- A request frame that says nothing but its call's id, which is 7. -/
def bareRequest : Bytes := [0, 0, 0, 42, 0, 0, 0, 38, 7, 0, 0, 0] ++ replicate 34 0

/-- Two sidecars, one of them empty, attached before and after a handler takes the call up. A success
has them; an error says which features are missing, and has none. -/
theorem response_round_trip_sidecars :
    let ops : List Inbound.Op := [.attach [1, 2], .handlingStarted ⟨1⟩, .attach []]
    ∃ parsed, Inbound.parse (.v4 127 0 0 1 9) bareRequest .standard ⟨0⟩ = .ok parsed ∧
      (∃ answered r response,
        (parsed.run ops).succeed [42] ⟨2⟩ = some (answered, some r) ∧ r.frame.length ≤ 100 ∧
        r.callId = 7 ∧ Response.parse r.frame 100 = .ok response ∧ response.callId = 7 ∧
        response.isSuccess = true ∧ response.message = [42] ∧
        response.sidecars = [[1, 2], []] ∧
        ∀ c : Call Nat, c.phase = .sent → (c.respond response).call.outcome = .ok [42]) ∧
      ∃ answered r response,
        (parsed.run ops).fail (.lacking [3, 9]) ⟨2⟩ = some (answered, some r) ∧
        r.frame.length ≤ 200 ∧ r.callId = 7 ∧ Response.parse r.frame 200 = .ok response ∧
        response.callId = 7 ∧ response.isSuccess = false ∧ response.sidecars = [] ∧
        response.errorStatus = .ok (.lacking [3, 9]) ∧
        ∀ c : Call Nat, c.phase = .sent →
          (c.respond response).call.outcome = .error (.remote (.lacking [3, 9])) := by
  intro ops
  obtain ⟨parsed, hparse, hid, haccepted⟩ : ∃ parsed,
      Inbound.parse (.v4 127 0 0 1 9) bareRequest .standard ⟨0⟩ = .ok parsed ∧
      parsed.header.callId = 7 ∧ parsed.accepted ops = [[1, 2], []] := ⟨_, rfl, rfl, rfl⟩
  refine ⟨parsed, hparse, ?_, ?_⟩
  · obtain ⟨answered, r, hr, hlimit⟩ : ∃ answered r,
        (parsed.run ops).succeed [42] ⟨2⟩ = some (answered, some r) ∧ r.frame.length ≤ 100 := by
      obtain rfl := Except.ok.inj hparse
      exact ⟨_, _, rfl, by decide⟩
    obtain ⟨hcall, response, hresponse, hcallId, hsuccess, hmessage, hsidecars, htold⟩ :=
      (response_round_trip (.v4 127 0 0 1 9) bareRequest .standard ⟨0⟩ hparse ops ⟨2⟩ hlimit).1
        [42] hr
    rw [hid] at hcall hcallId
    exact ⟨answered, r, response, hr, hlimit, hcall, hresponse, hcallId, hsuccess, hmessage,
      hsidecars.trans haccepted, fun c hc => (htold Nat c (.inr hc)).2.2.1⟩
  · obtain ⟨answered, r, hr, hlimit⟩ : ∃ answered r,
        (parsed.run ops).fail (.lacking [3, 9]) ⟨2⟩ = some (answered, some r) ∧
          r.frame.length ≤ 200 := by
      obtain rfl := Except.ok.inj hparse
      exact ⟨_, _, rfl, by decide⟩
    obtain ⟨hcall, response, hresponse, hcallId, hfailed, hsidecars, hstatus, htold⟩ :=
      (response_round_trip (.v4 127 0 0 1 9) bareRequest .standard ⟨0⟩ hparse ops ⟨2⟩ hlimit).2
        (.lacking [3, 9]) hr
    rw [hid] at hcall hcallId
    exact ⟨answered, r, response, hr, hlimit, hcall, hresponse, hcallId, hfailed, hsidecars,
      hstatus, fun c hc => (htold Nat c (.inr hc)).2.2.1⟩

end OnceOnly
