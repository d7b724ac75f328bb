import OnceOnly.Proofs.Frame
import OnceOnly.Proofs.Strict

/-! # The grammar of frames: writing and reading accept exactly the same ones -/

namespace OnceOnly.Frame

open List

/-! ## Length fields -/

/-- The number that bytes spell, the most significant of them first. -/
def bigEndian (bs : Bytes) : Nat := bs.foldl (fun n b => 256 * n + b.toNat) 0

theorem ofLowBytes_eq_foldr (bs : Bytes) :
    Codec.ofLowBytes bs = bs.foldr (fun b n => 256 * n + b.toNat) 0 := by
  induction bs with
  | nil => rfl
  | cons b bs ih => rw [Codec.ofLowBytes, ih, foldr_cons, Nat.add_comm]

theorem ofLowBytes_reverse (bs : Bytes) : Codec.ofLowBytes bs.reverse = bigEndian bs := by
  rw [ofLowBytes_eq_foldr, foldr_reverse, bigEndian]

theorem readLength_eq (bs : Bytes) : readLength bs = bigEndian (bs.take 4) := ofLowBytes_reverse _

theorem readLength_le (bs : Bytes) : readLength bs ≤ maxLength := by
  have hlt := Codec.ofLowBytes_lt (bs.take 4).reverse
  have hfour : (bs.take 4).reverse.length ≤ 4 := by
    rw [length_reverse]
    exact length_take_le 4 bs
  have hmono : Nat.pow 256 (bs.take 4).reverse.length ≤ Nat.pow 256 4 :=
    Nat.pow_le_pow_right (by decide) hfour
  have hmax : Nat.pow 256 4 = maxLength + 1 := by decide
  rw [readLength]
  omega

/-- The four bytes that a length was read from are its field. -/
theorem lengthField_readLength {bs : Bytes} (h : 4 ≤ bs.length) :
    lengthField (readLength bs) = bs.take 4 := by
  have hfour : (bs.take 4).reverse.length = 4 := by
    rw [length_reverse, length_take, Nat.min_eq_left h]
  have hback := Codec.lowBytes_ofLowBytes (bs.take 4).reverse
  rw [hfour] at hback
  rw [lengthField, readLength, hback, reverse_reverse]

/-! ## Both directions -/

section Exact

variable {η : Type} {codec : Codec η} {h : η} {bs body front : Bytes} {limit : Nat} {r : Span}

/-- A frame whose size is a size is written without overflow. -/
theorem encodePrefix?_eq {header : Bytes} {size : Nat}
    (hsize : 8 + header.length + size < Nat.pow 2 64) :
    encodePrefix? header size limit = .ok (encodePrefix header size limit) := by
  have hsum : sizeSum (2 * lengthSize + header.length) size = .ok (8 + header.length + size) :=
    if_pos hsize
  rw [encodePrefix?, hsum]
  rfl

/-- What lies where the header is to be is shorter than its length field can say. -/
theorem header_exactOn (hs : codec.Strict) (hf : codec.Faithful) (bs : Bytes) (n : Nat)
    (hn : n ≤ maxLength) : codec.ExactOn (bs.take n) := by
  refine hs.exactOn hf ?_
  have hle : (bs.take n).length ≤ n := length_take_le n bs
  have hmax : maxLength < Nat.pow 256 8 := by decide
  omega

theorem parse_iff_prefix (hs : codec.Strict) (hf : codec.Faithful) :
    parse codec bs limit = .ok ⟨h, r⟩ ↔
      8 ≤ bs.length ∧ bs.length ≤ limit ∧ bigEndian (bs.take 4) = bs.length - 4 ∧
        8 + bigEndian ((bs.drop 4).take 4) ≤ bs.length ∧
        codec.encode h <+: (bs.drop 8).take (bigEndian ((bs.drop 4).take 4)) ∧
        r = ⟨8 + bigEndian ((bs.drop 4).take 4), bs.length⟩ := by
  have hvalue := (header_exactOn hs hf (bs.drop 8) _ (readLength_le (bs.drop 4))).value_iff h
  rw [parse_eq_ok_iff, hvalue, readLength_eq, readLength_eq]
  constructor
  · rintro ⟨hlimit, hshort, hcarried, hover, hheader, hbody⟩
    exact ⟨hshort, hlimit, hcarried, hover, hheader, hbody⟩
  · rintro ⟨hshort, hlimit, hcarried, hover, hheader, hbody⟩
    exact ⟨hlimit, hshort, hcarried, hover, hheader, hbody⟩

/-- A frame that was read is what is written of its header, if that fills its place, and its
body. -/
theorem encodePrefix_of_parse (hparse : parse codec bs limit = .ok ⟨h, r⟩)
    (hfull : codec.encode h = (bs.drop 8).take (bigEndian ((bs.drop 4).take 4))) :
    ∃ front, encodePrefix (codec.encode h) (r.of bs).length limit = .ok front ∧
      bs = front ++ r.of bs := by
  obtain ⟨hlimit, hshort, hcarried, hover, -, rfl⟩ := parse_eq_ok_iff.mp hparse
  rw [← readLength_eq] at hfull
  have hfit := readLength_le bs
  generalize hn : readLength (bs.drop 4) = n at hover hfull
  have hlength : (codec.encode h).length = n := by
    rw [hfull, length_take, length_drop]
    omega
  have hbody : Span.of ⟨8 + n, bs.length⟩ bs = bs.drop (8 + n) := by
    rw [Span.of, ← length_drop, take_length]
  have hcut : (bs.drop (8 + n)).length = bs.length - (8 + n) := length_drop
  have htotal : 4 + n + (bs.drop (8 + n)).length = readLength bs := by omega
  have hsecond : lengthField n = (bs.drop 4).take 4 := by
    rw [← hn, lengthField_readLength]
    rw [length_drop]
    omega
  refine ⟨_, encodePrefix_eq_ok_iff.mpr ⟨?_, ?_, rfl⟩, ?_⟩
  · rw [hlength, hbody]
    omega
  · rw [hlength, hbody]
    omega
  · -- The two length fields, the header and the body are the bytes, cut at 4, 8 and `8 + n`.
    rw [hbody, hlength, htotal, lengthField_readLength (by omega), hsecond, hfull]
    calc
      bs = bs.take 4 ++ bs.drop 4 := (take_append_drop 4 bs).symm
      _ = bs.take 4 ++ ((bs.drop 4).take 4 ++ bs.drop 8) := by
        rw [← drop_drop (i := 4) (j := 4), take_append_drop 4 (bs.drop 4)]
      _ = bs.take 4 ++ ((bs.drop 4).take 4 ++ ((bs.drop 8).take n ++ bs.drop (8 + n))) := by
        rw [← drop_drop (i := n) (j := 8), take_append_drop n (bs.drop 8)]
      _ = bs.take 4 ++ (bs.drop 4).take 4 ++ (bs.drop 8).take n ++ bs.drop (8 + n) := by
        simp only [append_assoc]

/-- What is written is read within the same limit, with the body where the prefix ends. -/
theorem parse_written (hf : codec.Faithful)
    (hfront : encodePrefix (codec.encode h) body.length limit = .ok front) :
    parse codec (front ++ body) limit = .ok ⟨h, ⟨front.length, (front ++ body).length⟩⟩ ∧
      Span.of ⟨front.length, (front ++ body).length⟩ (front ++ body) = body := by
  obtain ⟨hlimit, -, -⟩ := encodePrefix_eq_ok_iff.mp hfront
  have hlength := length_of_encodePrefix hfront
  refine ⟨parse_encodePrefix hf hfront ?_, ?_⟩
  · rw [length_append]
    omega
  · have hmiddle := Span.of_middle front body []
    rwa [append_nil, ← length_append] at hmiddle

end Exact

/-- The frames of one kind of header. All that a frame of fewer than `2 ^ 64` bytes is measured by
is the limit and its length field, and what was written is read with its header and its body. What
is read has both lengths right and a header that begins the place it has; when it fills that place,
the bytes are those that are written. -/
structure Grammar {η : Type} (codec : Codec η) : Prop where
  written_iff (h : η) (body : Bytes) (limit : Nat)
      (hsize : 8 + (codec.encode h).length + body.length < Nat.pow 2 64) :
    (∃ front, encodePrefix? (codec.encode h) body.length limit = .ok (.ok front)) ↔
      8 + (codec.encode h).length + body.length ≤ limit ∧
        4 + (codec.encode h).length + body.length < Nat.pow 2 32
  read_written (h : η) (body front : Bytes) (limit : Nat)
      (hfront : encodePrefix? (codec.encode h) body.length limit = .ok (.ok front)) :
    parse codec (front ++ body) limit = .ok ⟨h, ⟨front.length, (front ++ body).length⟩⟩ ∧
      Span.of ⟨front.length, (front ++ body).length⟩ (front ++ body) = body
  read_iff (bs : Bytes) (limit : Nat) (h : η) (r : Span) :
    parse codec bs limit = .ok ⟨h, r⟩ ↔
      8 ≤ bs.length ∧ bs.length ≤ limit ∧ bigEndian (bs.take 4) = bs.length - 4 ∧
        8 + bigEndian ((bs.drop 4).take 4) ≤ bs.length ∧
        codec.encode h <+: (bs.drop 8).take (bigEndian ((bs.drop 4).take 4)) ∧
        r = ⟨8 + bigEndian ((bs.drop 4).take 4), bs.length⟩
  rewritten (bs : Bytes) (limit : Nat) (h : η) (r : Span)
      (hread : parse codec bs limit = .ok ⟨h, r⟩)
      (hfull : codec.encode h = (bs.drop 8).take (bigEndian ((bs.drop 4).take 4))) :
    ∃ front, encodePrefix? (codec.encode h) (r.of bs).length limit = .ok (.ok front) ∧
      bs = front ++ r.of bs

section Grammar

variable {η : Type} {codec : Codec η}

/-- A prefix that was written was written without overflow. -/
theorem encodePrefix?_eq_ok_iff {header front : Bytes} {size limit : Nat} :
    encodePrefix? header size limit = .ok (.ok front) ↔
      8 + header.length + size < Nat.pow 2 64 ∧ encodePrefix header size limit = .ok front := by
  by_cases hsize : 8 + header.length + size < Nat.pow 2 64
  · rw [encodePrefix?_eq hsize]
    simp [hsize]
  · have hsum : sizeSum (2 * lengthSize + header.length) size = .error .add := if_neg hsize
    rw [encodePrefix?, hsum]
    simp [Except.map, hsize]

theorem grammar_of_exact (hs : codec.Strict) (hf : codec.Faithful) : Grammar codec where
  written_iff h body limit hsize := by
    have hmax : Nat.pow 2 32 = maxLength + 1 := by decide
    simp only [encodePrefix?_eq_ok_iff, encodePrefix_eq_ok_iff, hmax]
    constructor
    · rintro ⟨front, -, hlimit, hfit, -⟩
      exact ⟨hlimit, by omega⟩
    · rintro ⟨hlimit, hfit⟩
      exact ⟨_, hsize, hlimit, by omega, rfl⟩
  read_written h body front limit hfront :=
    parse_written hf (encodePrefix?_eq_ok_iff.mp hfront).2
  read_iff bs limit h r := parse_iff_prefix hs hf
  rewritten bs limit h r hread hfull := by
    obtain ⟨front, hfront, hbs⟩ := encodePrefix_of_parse hread hfull
    obtain ⟨-, hfit, -⟩ := encodePrefix_eq_ok_iff.mp hfront
    have hmax : maxLength < Nat.pow 2 64 - 4 := by decide
    exact ⟨front, encodePrefix?_eq_ok_iff.mpr ⟨by omega, hfront⟩, hbs⟩

end Grammar

/-- Frames with requests and frames with responses are written and read by the same grammar. -/
theorem frames_exact : Grammar RequestHeader.codec ∧ Grammar ResponseHeader.codec :=
  ⟨grammar_of_exact RequestHeader.codec_strict RequestHeader.codec_faithful,
    grammar_of_exact ResponseHeader.codec_strict ResponseHeader.codec_faithful⟩

/-- A frame of 22 bytes keeps a limit of 22. -/
theorem frames_exact_at_limit :
    ∃ front, encodePrefix? (ResponseHeader.codec.encode ⟨7, false, []⟩) 1 22 = .ok (.ok front) ∧
      parse ResponseHeader.codec (front ++ [42]) 22 = .ok ⟨⟨7, false, []⟩, ⟨21, 22⟩⟩ := by
  obtain ⟨front, hfront⟩ := (frames_exact.2.written_iff ⟨7, false, []⟩ [42] 22 (by decide)).mpr
    (by decide)
  have hread := (frames_exact.2.read_written ⟨7, false, []⟩ [42] front 22 hfront).1
  have hlength : front.length = 21 := length_of_encodePrefix (encodePrefix?_eq_ok_iff.mp hfront).2
  rw [length_append, hlength] at hread
  exact ⟨front, hfront, hread⟩

end OnceOnly.Frame
