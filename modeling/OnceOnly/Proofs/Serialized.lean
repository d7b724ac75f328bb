import OnceOnly.Proofs.RoundTrip

/-! # Serializing again: what is kept of a call's frame, and which limits it is held to -/

namespace OnceOnly

open List

theorem Frame.encodePrefix_of_lt {header : Bytes} {body limit : Nat}
    (h : limit < 8 + header.length + body) :
    encodePrefix header body limit =
      .error (.messageTooLarge (8 + header.length + body) limit) := by
  have hsize : 4 + (4 + header.length + body) = 8 + header.length + body := by omega
  simp only [encodePrefix, lengthSize, hsize, if_pos h]

namespace Call

variable {κ : Type} {c : Call κ} {id : Int32} {limit : Nat} {front : Bytes}

/-- The slices of a call's frame, by the frame up to the body. -/
def slices (c : Call κ) (front : Bytes) : List Bytes := front :: c.request :: c.options.sidecars

/-- The same call once the frame up to the body has been encoded. -/
def keep (c : Call κ) (front : Bytes) : Call κ := { c with encoded := some front }

/-! ## One limit -/

theorem length_slices (c : Call κ) (front : Bytes) : total List.length (c.slices front) =
    front.length + Body.size c.request c.options.sidecars := rfl

/-- A frame that was encoded under one limit is encoded the same under every limit that it keeps,
and refused under the others for its size alone. -/
theorem encodeHeader_of_ok (h : c.encodeHeader id limit = .ok front) (other : Nat) :
    c.encodeHeader id other =
      if total List.length (c.slices front) ≤ other then .ok front
      else .error (.messageTooLarge (total List.length (c.slices front)) other) := by
  obtain ⟨offsets, hoffsets, hfront⟩ := encodeHeader_ok h
  have hlength := Frame.length_of_encodePrefix hfront
  have hother : c.encodeHeader id other =
      Frame.encodePrefix (RequestHeader.codec.encode (c.header id offsets))
        (Body.size c.request c.options.sidecars) other := by
    rw [encodeHeader, hoffsets]
    rfl
  obtain ⟨-, hfit, hwritten⟩ := Frame.encodePrefix_eq_ok_iff.mp hfront
  rw [hother, length_slices, hlength]
  split
  · exact Frame.encodePrefix_eq_ok_iff.mpr ⟨by assumption, hfit, hwritten⟩
  · exact Frame.encodePrefix_of_lt (by omega)

theorem le_of_encodeHeader (h : c.encodeHeader id limit = .ok front) :
    total List.length (c.slices front) ≤ limit := by
  have hsame := encodeHeader_of_ok h limit
  rw [h] at hsame
  split at hsame
  · assumption
  · simp at hsame

/-- What can be encoded has no more slices than one transfer takes. -/
theorem slices_le_of_encodeHeader (h : c.encodeHeader id limit = .ok front) :
    (c.slices front).length ≤ Body.maxSlices := by
  obtain ⟨offsets, hoffsets, -⟩ := encodeHeader_ok h
  rw [Body.offsets] at hoffsets
  split at hoffsets
  · simp at hoffsets
  · simp only [slices, length_cons, Body.maxSidecars, Body.maxSlices] at *
    omega

/-- A call that was never serialized encodes its frame under the limit. -/
theorem serialize_fresh (hid : c.id = some id) (hfresh : c.encoded = none) :
    c.serialize limit = match c.encodeHeader id limit with
      | .error problem => (c, .error problem)
      | .ok front => (c.keep front, .ok (c.slices front)) := by
  cases hfront : c.encodeHeader id limit with
  | error problem => simp only [serialize, hid, hfresh, hfront]
  | ok front =>
      have hslices := slices_le_of_encodeHeader hfront
      simp only [slices] at hslices
      simp only [serialize, hid, hfresh, hfront, keep, slices, if_neg (Nat.not_lt.mpr hslices)]

theorem serialize_eq_ok_iff (hid : c.id = some id) (hfresh : c.encoded = none)
    {slices : List Bytes} : (c.serialize limit).2 = .ok slices ↔
      ∃ front, c.encodeHeader id limit = .ok front ∧ slices = c.slices front := by
  rw [serialize_fresh hid hfresh]
  cases hfront : c.encodeHeader id limit with
  | error problem => simp
  | ok front => simp [eq_comm]

/-- From then on it is held to no limit. -/
theorem serialize_keep (hid : c.id = some id) (h : c.encodeHeader id limit = .ok front)
    (other : Nat) : (c.keep front).serialize other = (c.keep front, .ok (c.slices front)) := by
  have hslices := slices_le_of_encodeHeader h
  simp only [slices] at hslices
  simp only [serialize, keep, hid, slices, if_neg (Nat.not_lt.mpr hslices)]

/-! ## One limit after the other -/

/-- The call after it was serialized under one limit after the other. -/
def serializeAll (c : Call κ) (limits : List Nat) : Call κ :=
  limits.foldl (fun c limit => (c.serialize limit).1) c

theorem serializeAll_keep (hid : c.id = some id) (h : c.encodeHeader id limit = .ok front)
    (limits : List Nat) : (c.keep front).serializeAll limits = c.keep front := by
  induction limits with
  | nil => rfl
  | cons first limits ih =>
      rw [serializeAll, foldl_cons, serialize_keep hid h]
      exact ih

/-- Limits that the frame does not keep leave the call as it was. -/
theorem serializeAll_of_refused (hid : c.id = some id) (hfresh : c.encoded = none)
    {limits : List Nat} (h : ∀ first ∈ limits, ∀ front, c.encodeHeader id first ≠ .ok front) :
    c.serializeAll limits = c := by
  induction limits with
  | nil => rfl
  | cons first limits ih =>
      rw [serializeAll, foldl_cons, serialize_fresh hid hfresh]
      cases hfront : c.encodeHeader id first with
      | error problem => exact ih fun later hlater => h later (mem_cons_of_mem _ hlater)
      | ok front => exact absurd hfront (h first mem_cons_self front)

/-- After the first limit that it keeps, the frame is there, and is the frame for all limits. -/
theorem serializeAll_of_admitted (hid : c.id = some id) (hfresh : c.encoded = none)
    {limits : List Nat} (hmem : limit ∈ limits) (h : c.encodeHeader id limit = .ok front) :
    c.serializeAll limits = c.keep front := by
  induction limits with
  | nil => simp at hmem
  | cons first limits ih =>
      rw [serializeAll, foldl_cons, serialize_fresh hid hfresh]
      cases hfirst : c.encodeHeader id first with
      | error problem =>
          have hne : limit ≠ first := by
            rintro rfl
            simp [hfirst] at h
          exact ih ((mem_cons.mp hmem).resolve_left hne)
      | ok kept =>
          have hsame := encodeHeader_of_ok hfirst limit
          rw [h] at hsame
          split at hsame
          · obtain rfl := Except.ok.inj hsame
            exact serializeAll_keep hid hfirst limits
          · simp at hsame

/-- A call that was never serialized yields slices that keep the limit. After other limits it yields
what it would have yielded then, unless its frame kept one of them and does not keep this one: what
was encoded is yielded whatever the limit, where the call would have been refused. -/
theorem serialize_again (c : Call κ) (id : Int32) (hid : c.id = some id) (hfresh : c.encoded = none)
    (earlier : List Nat) (limit : Nat) :
    let again := ((c.serializeAll earlier).serialize limit).2
    (again = (c.serialize limit).2 ↔ ¬ ∃ first ∈ earlier, ∃ slices,
      (c.serialize first).2 = .ok slices ∧ limit < total List.length slices) ∧
    (∀ slices, (c.serialize limit).2 = .ok slices → total List.length slices ≤ limit) ∧
    (∀ first ∈ earlier, ∀ slices, (c.serialize first).2 = .ok slices →
      again = .ok slices ∧
        (limit < total List.length slices →
          (c.serialize limit).2 = .error (.messageTooLarge (total List.length slices) limit))) := by
  intro again
  have hadmitted (first : Nat) (hfirst : first ∈ earlier) (slices : List Bytes)
      (h : (c.serialize first).2 = .ok slices) : again = .ok slices ∧
        (c.serialize limit).2 = if total List.length slices ≤ limit then .ok slices
          else .error (.messageTooLarge (total List.length slices) limit) := by
    obtain ⟨front, hfront, rfl⟩ := (serialize_eq_ok_iff hid hfresh).mp h
    refine ⟨?_, ?_⟩
    · simp only [again, serializeAll_of_admitted hid hfresh hfirst hfront,
        serialize_keep hid hfront]
    · rw [serialize_fresh hid hfresh, encodeHeader_of_ok hfront]
      by_cases hle : total List.length (c.slices front) ≤ limit
      · simp only [if_pos hle]
      · simp only [if_neg hle]
  refine ⟨⟨?_, fun h => ?_⟩, fun slices h => ?_, fun first hfirst slices h => ?_⟩
  · rintro hsame ⟨first, hfirst, slices, h, hlt⟩
    obtain ⟨hagain, hfresh'⟩ := hadmitted first hfirst slices h
    rw [hagain, hfresh', if_neg (Nat.not_le.mpr hlt)] at hsame
    simp at hsame
  · by_cases hsome : ∃ first ∈ earlier, ∃ slices, (c.serialize first).2 = .ok slices
    · obtain ⟨first, hfirst, slices, hok⟩ := hsome
      obtain ⟨hagain, hfresh'⟩ := hadmitted first hfirst slices hok
      have hle : total List.length slices ≤ limit :=
        Nat.not_lt.mp fun hlt => h ⟨first, hfirst, slices, hok, hlt⟩
      rw [hagain, hfresh', if_pos hle]
    · have hnone : c.serializeAll earlier = c :=
        serializeAll_of_refused hid hfresh fun first hfirst front hfront =>
          hsome ⟨first, hfirst, _, (serialize_eq_ok_iff hid hfresh).mpr ⟨front, hfront, rfl⟩⟩
      simp only [again, hnone]
  · obtain ⟨front, hfront, rfl⟩ := (serialize_eq_ok_iff hid hfresh).mp h
    exact le_of_encodeHeader hfront
  · obtain ⟨hagain, hfresh'⟩ := hadmitted first hfirst slices h
    exact ⟨hagain, fun hlt => by rw [hfresh', if_neg (Nat.not_le.mpr hlt)]⟩

/-- A call with a short message. -/
def shortCall : Call Unit :=
  { Call.start ⟨.v4 127 0 0 1 7050, ⟨none⟩⟩ ⟨"s", "m"⟩ ⟨none, none, none, ∅, []⟩ [] () ⟨0⟩ with
    id := some 7 }

theorem serialize_again_short : ∃ slices, shortCall.id = some 7 ∧ shortCall.encoded = none ∧
    (shortCall.serialize 100).2 = .ok slices ∧ total List.length slices = 48 ∧
    ((shortCall.serializeAll [10, 100]).serialize 10).2 = .ok slices ∧
    (shortCall.serialize 10).2 = .error (.messageTooLarge 48 10) ∧
    ((shortCall.serializeAll [10]).serialize 60).2 = (shortCall.serialize 60).2 := by
  obtain ⟨slices, hok, hlength⟩ : ∃ slices, (shortCall.serialize 100).2 = .ok slices ∧
      total List.length slices = 48 := ⟨_, rfl, by decide⟩
  obtain ⟨-, -, hkept⟩ := serialize_again shortCall 7 rfl rfl [10, 100] 10
  obtain ⟨hagain, hfresh⟩ := hkept 100 (by decide) slices hok
  rw [hlength] at hfresh
  have hsmall : (shortCall.serialize 10).2 = .error (.messageTooLarge 48 10) := hfresh (by decide)
  obtain ⟨hsame, -, -⟩ := serialize_again shortCall 7 rfl rfl [10] 60
  refine ⟨slices, rfl, rfl, hok, hlength, hagain, hsmall, hsame.mpr ?_⟩
  rintro ⟨first, hfirst, slices, h, -⟩
  obtain rfl := mem_singleton.mp hfirst
  simp [hsmall] at h

/-- So a frame of 48 bytes is yielded under a limit of 10. -/
theorem limit_forgotten : ((shortCall.serializeAll [100]).serialize 10).2.toOption.map
      (total List.length) = some 48 ∧
    (shortCall.serialize 10).2 = .error (.messageTooLarge 48 10) := by
  constructor
  · decide +kernel
  · rfl

end Call

end OnceOnly
