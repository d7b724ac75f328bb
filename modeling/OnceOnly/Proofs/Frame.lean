import OnceOnly.Proofs.Codec
import OnceOnly.Proofs.Spans

/-! # Frames are read as they were written: the header, the message and every sidecar -/

namespace OnceOnly

open List

/-! ## Frames -/

namespace Frame

@[simp] theorem length_lengthField (n : Nat) : (lengthField n).length = 4 := by
  simp [lengthField]

/-- A length field is read back, whatever follows it. -/
theorem readLength_lengthField {n : Nat} (h : n ≤ maxLength) (rest : Bytes) :
    readLength (lengthField n ++ rest) = n := by
  have hlt : n < Nat.pow 256 4 := Nat.lt_of_le_of_lt h (by decide)
  rw [readLength, take_left' (length_lengthField n), lengthField, reverse_reverse,
    Codec.ofLowBytes_lowBytes hlt]

/-- A prefix is made exactly when the frame keeps the limit and its length has a field. -/
theorem encodePrefix_eq_ok_iff {header front : Bytes} {body limit : Nat} :
    encodePrefix header body limit = .ok front ↔
      8 + header.length + body ≤ limit ∧ 4 + header.length + body ≤ maxLength ∧
        front = lengthField (4 + header.length + body) ++ lengthField header.length ++ header := by
  have hsize : 4 + (4 + header.length + body) = 8 + header.length + body := by omega
  simp only [encodePrefix, lengthSize, hsize]
  split
  · simp
    omega
  · split
    · simp
      omega
    · simp only [Except.ok.injEq]
      refine ⟨fun h => ⟨by omega, by omega, h.symm⟩, fun h => h.2.2.symm⟩

theorem length_of_encodePrefix {header front : Bytes} {body limit : Nat}
    (h : encodePrefix header body limit = .ok front) : front.length = 8 + header.length := by
  obtain ⟨-, -, rfl⟩ := encodePrefix_eq_ok_iff.mp h
  simp
  omega

section Parse

variable {η : Type} {codec : Codec η}

/-- All that a frame has to be for it to be read. -/
theorem parse_eq_ok_iff {bs : Bytes} {limit : Nat} {f : Frame η} :
    parse codec bs limit = .ok f ↔
      bs.length ≤ limit ∧ 8 ≤ bs.length ∧ readLength bs = bs.length - 4 ∧
        8 + readLength (bs.drop 4) ≤ bs.length ∧
        codec.value ((bs.drop 8).take (readLength (bs.drop 4))) = .ok f.header ∧
        f.body = ⟨8 + readLength (bs.drop 4), bs.length⟩ := by
  rw [parse]
  by_cases hlimit : limit < bs.length
  · simp only [hlimit, ite_true, reduceCtorEq, false_iff]
    omega
  by_cases hshort : bs.length < 2 * lengthSize
  · simp only [hlimit, hshort, ite_false, ite_true, reduceCtorEq, false_iff]
    simp only [lengthSize] at hshort
    omega
  by_cases hother : ¬ readLength bs = bs.length - lengthSize
  · simp only [hlimit, hshort, ne_eq, hother, not_false_eq_true, ite_false, ite_true, reduceCtorEq,
      false_iff]
    exact fun h => hother h.2.2.1
  have hsame : readLength bs = bs.length - lengthSize := Decidable.not_not.mp hother
  by_cases hover : bs.length < 2 * lengthSize + readLength (bs.drop lengthSize)
  · simp only [hlimit, hshort, ne_eq, hsame, not_true, hover, ite_false, ite_true, reduceCtorEq,
      false_iff]
    simp only [lengthSize] at hover
    omega
  simp only [hlimit, hshort, ne_eq, hsame, not_true, hover, ite_false]
  simp only [lengthSize] at hshort hsame hover ⊢
  cases hv : codec.value ((bs.drop 8).take (readLength (bs.drop 4))) with
  | error e => simp
  | ok h =>
      obtain ⟨header, body⟩ := f
      simp only [Except.ok.injEq, Frame.mk.injEq, eq_comm (a := body)]
      constructor
      · rintro ⟨rfl, rfl⟩
        exact ⟨by omega, by omega, trivial, by omega, rfl, rfl⟩
      · rintro ⟨-, -, -, -, rfl, rfl⟩
        exact ⟨rfl, rfl⟩

/-- A frame that was written is read within any limit that it keeps. -/
theorem parse_encodePrefix (hc : codec.Faithful) {h : η} {front body : Bytes} {limit max : Nat}
    (hfront : encodePrefix (codec.encode h) body.length limit = .ok front)
    (hmax : (front ++ body).length ≤ max) :
    parse codec (front ++ body) max = .ok ⟨h, ⟨front.length, (front ++ body).length⟩⟩ := by
  have hlength := length_of_encodePrefix hfront
  obtain ⟨-, hfit, hwritten⟩ := encodePrefix_eq_ok_iff.mp hfront
  have hbytes : front ++ body = lengthField (4 + (codec.encode h).length + body.length) ++
      (lengthField (codec.encode h).length ++ (codec.encode h ++ body)) := by
    simp only [hwritten, append_assoc]
  have hdrop : (front ++ body).drop 4 =
      lengthField (codec.encode h).length ++ (codec.encode h ++ body) := by
    rw [hbytes, drop_left' (length_lengthField _)]
  have hcarried : readLength (front ++ body) = 4 + (codec.encode h).length + body.length := by
    rw [hbytes, readLength_lengthField hfit]
  have hheader : readLength ((front ++ body).drop 4) = (codec.encode h).length := by
    rw [hdrop, readLength_lengthField (by omega)]
  have hrest : (front ++ body).drop 8 = codec.encode h ++ body := by
    rw [← drop_drop (i := 4) (j := 4), hdrop, drop_left' (length_lengthField _)]
  have hvalue : codec.value (codec.encode h) = .ok h := by
    have hlt : maxLength < Nat.pow 256 8 := by decide
    simpa using hc.value_encode (a := h) (by omega) []
  rw [parse_eq_ok_iff, hheader, hrest, take_left' rfl]
  rw [length_append] at hmax ⊢
  exact ⟨hmax, by omega, by omega, by omega, hvalue, by rw [hlength]⟩

end Parse

end Frame

/-! ## Bodies -/

/-- The bytes of a span that lies between two other parts. -/
theorem Span.of_middle (front part rest : Bytes) :
    Span.of ⟨front.length, front.length + part.length⟩ (front ++ (part ++ rest)) = part := by
  simp [Span.of, drop_left' rfl, take_left' rfl]

namespace Body

/-- Spans of the given sizes, one after the other, the first of them at `start`. -/
def tile (start : Nat) : List Nat → List Span
  | [] => []
  | size :: rest => ⟨start, start + size⟩ :: tile (start + size) rest

theorem shift_tile (base start : Nat) (sizes : List Nat) :
    (tile start sizes).map (·.shift base) = tile (base + start) sizes := by
  induction sizes generalizing start with
  | nil => rfl
  | cons size sizes ih =>
      have hfirst : Span.shift ⟨start, start + size⟩ base =
          ⟨base + start, base + start + size⟩ := by
        simp only [Span.shift, Span.mk.injEq]
        omega
      rw [tile, map_cons, ih, tile, hfirst, Nat.add_assoc]

/-- Parts that follow each other are cut out of the whole by the spans of their sizes. -/
theorem of_tile (front : Bytes) (parts : List Bytes) :
    (tile front.length (parts.map length)).map (·.of (front ++ parts.flatten)) = parts := by
  induction parts generalizing front with
  | nil => rfl
  | cons part parts ih =>
      have hrest := ih (front ++ part)
      rw [length_append, append_assoc] at hrest
      rw [map_cons, tile, map_cons, flatten_cons, Span.of_middle, hrest]

theorem starts_tile {start : Nat} {sizes : List Nat} {offsets : List UInt32}
    (h : starts start sizes = .ok offsets) :
    offsets.map UInt32.toNat = (tile start sizes).map Span.start := by
  induction sizes generalizing start offsets with
  | nil =>
      obtain rfl := Except.ok.inj h
      rfl
  | cons size sizes ih =>
      simp only [starts] at h
      split at h
      · simp at h
      · rename_i hfit
        split at h
        · simp at h
        · rename_i rest hrest
          obtain rfl := Except.ok.inj h
          have hstart : (UInt32.ofNat start).toNat = start :=
            UInt32.toNat_ofNat_of_lt (Nat.lt_succ_of_le (Nat.le_of_not_lt hfit))
          rw [map_cons, tile, map_cons, ih hrest, hstart]

/-- Every offset that fits its place can be said. -/
theorem exists_starts {start : Nat} {sizes : List Nat}
    (h : ∀ s ∈ tile start sizes, s.start ≤ Frame.maxLength) :
    ∃ offsets, starts start sizes = .ok offsets := by
  induction sizes generalizing start with
  | nil => exact ⟨[], rfl⟩
  | cons size sizes ih =>
      obtain ⟨offsets, hrest⟩ := ih fun s hs => h s (mem_cons_of_mem _ hs)
      have hstart : start ≤ Frame.maxLength := h _ mem_cons_self
      exact ⟨.ofNat start :: offsets, by rw [starts, if_neg (Nat.not_lt.mpr hstart), hrest]⟩

theorem tile_consecutive (start : Nat) (sizes : List Nat) :
    Consecutive start (tile start sizes) (start + total id sizes) := by
  induction sizes generalizing start with
  | nil => rfl
  | cons size sizes ih =>
      have htotal : start + total id (size :: sizes) = start + size + total id sizes :=
        (Nat.add_assoc ..).symm
      rw [htotal]
      exact ⟨rfl, Nat.le_add_right .., ih (start + size)⟩

theorem total_map_length (parts : List Bytes) :
    total id (parts.map length) = total length parts := by
  induction parts with
  | nil => rfl
  | cons part parts ih => rw [map_cons, total, total, ih, id]

theorem length_flatten (parts : List Bytes) : parts.flatten.length = total length parts := by
  induction parts with
  | nil => rfl
  | cons part parts ih => rw [flatten_cons, length_append, ih, total]

theorem size_eq (message : Bytes) (sidecars : List Bytes) :
    size message sidecars = (message ++ sidecars.flatten).length := by
  rw [size, length_append, length_flatten]

section Offsets

variable {size : Nat} {sidecars : List Bytes} {offsets : List UInt32}

theorem offsets_ok (h : Body.offsets size sidecars = .ok offsets) :
    sidecars.length ≤ maxSidecars ∧
      offsets.map UInt32.toNat = (tile size (sidecars.map length)).map Span.start := by
  unfold Body.offsets at h
  split at h
  · simp at h
  · rename_i hmax
    exact ⟨Nat.le_of_not_lt hmax, starts_tile h⟩

theorem length_tile (start : Nat) (sizes : List Nat) :
    (tile start sizes).length = sizes.length := by
  induction sizes generalizing start with
  | nil => rfl
  | cons size sizes ih => rw [tile, length_cons, ih, length_cons]

/-- There is one offset for each sidecar. -/
theorem length_offsets (h : Body.offsets size sidecars = .ok offsets) :
    offsets.length = sidecars.length := by
  rw [← length_map (f := UInt32.toNat), (offsets_ok h).2, length_map, length_tile, length_map]

/-- The offsets of a body divide it into its message and its sidecars. -/
theorem split_offsets (h : Body.offsets size sidecars = .ok offsets) :
    split (size + total length sidecars) offsets =
      .ok ⟨⟨0, size⟩, tile size (sidecars.map length)⟩ := by
  obtain ⟨hmax, hstarts⟩ := offsets_ok h
  have hsidecars := tile_consecutive size (sidecars.map length)
  rw [total_map_length] at hsidecars
  refine split_eq_ok_iff.mpr ⟨?_, ⟨rfl, Nat.zero_le _, hsidecars⟩, hstarts.symm⟩
  rw [length_offsets h]
  exact hmax

/-- In the bytes of the whole frame, message and sidecars lie where the layout says. -/
theorem layout_offsets {η : Type} {message : Bytes} (header : η) (front : Bytes)
    (h : Body.offsets message.length sidecars = .ok offsets) :
    ∃ l, layout ⟨header, ⟨front.length, (front ++ (message ++ sidecars.flatten)).length⟩⟩ offsets =
        .ok l ∧
      l.message.of (front ++ (message ++ sidecars.flatten)) = message ∧
      l.sidecars.map (·.of (front ++ (message ++ sidecars.flatten))) = sidecars := by
  have hbody : (front ++ (message ++ sidecars.flatten)).length - front.length =
      size message sidecars := by
    rw [size_eq, length_append]
    omega
  refine ⟨Layout.shift ⟨⟨0, message.length⟩, tile message.length (sidecars.map length)⟩
    front.length, ?_, ?_, ?_⟩
  · rw [layout, hbody, size, split_offsets h]
    rfl
  · simp only [Layout.shift, Span.shift, Nat.zero_add]
    rw [Nat.add_comm, Span.of_middle]
  · simp only [Layout.shift, shift_tile]
    rw [← append_assoc, ← length_append, of_tile]

end Offsets

end Body

/-- A frame with its body is read as it was written: the header, the message, every sidecar. -/
theorem Frame.parse_slices {η : Type} {codec : Codec η} (hc : codec.Faithful) {h : η}
    {front message : Bytes} {sidecars : List Bytes} {offsets : List UInt32} {limit max : Nat}
    (hoffsets : Body.offsets message.length sidecars = .ok offsets)
    (hfront : encodePrefix (codec.encode h) (Body.size message sidecars) limit = .ok front)
    (hmax : (front :: message :: sidecars).flatten.length ≤ max) :
    ∃ f l, parse codec (front :: message :: sidecars).flatten max = .ok f ∧ f.header = h ∧
      Body.layout f offsets = .ok l ∧
      l.message.of (front :: message :: sidecars).flatten = message ∧
      l.sidecars.map (·.of (front :: message :: sidecars).flatten) = sidecars := by
  rw [flatten_cons, flatten_cons] at hmax ⊢
  rw [Body.size_eq] at hfront
  obtain ⟨l, hl, hmessage, hsidecars⟩ := Body.layout_offsets h front hoffsets
  exact ⟨_, l, parse_encodePrefix hc hfront hmax, rfl, hl, hmessage, hsidecars⟩

end OnceOnly
