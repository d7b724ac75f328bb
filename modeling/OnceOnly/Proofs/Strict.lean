import OnceOnly.Proofs.Codec

/-!
# Codecs read nothing but what they write

Lengths and tags that lie about what follows are refused, so a value that is read was written at the
front of the bytes. With what codecs restore, bytes hold a value exactly when its encoding begins
them.
-/

namespace OnceOnly.Codec

open List

variable {α β : Type}

/-- What reads as `a` is what is written of `a`, and the rest. -/
def Strict (c : Codec α) : Prop :=
  ∀ bs a rest, c.decode bs = .ok (a, rest) → bs = c.encode a ++ rest

/-! ## Numbers -/

theorem ofLowBytes_lt (bs : Bytes) : ofLowBytes bs < Nat.pow 256 bs.length := by
  induction bs with
  | nil => decide
  | cons b bs ih =>
      have hb := b.toNat_lt
      have hpow : Nat.pow 256 (bs.length + 1) = Nat.pow 256 bs.length * 256 := rfl
      rw [ofLowBytes, length_cons, hpow]
      omega

theorem lowBytes_ofLowBytes (bs : Bytes) : lowBytes bs.length (ofLowBytes bs) = bs := by
  induction bs with
  | nil => rfl
  | cons b bs ih =>
      have hb := b.toNat_lt
      have hlow : (b.toNat + 256 * ofLowBytes bs) % 256 = b.toNat := by omega
      have hhigh : (b.toNat + 256 * ofLowBytes bs) / 256 = ofLowBytes bs := by omega
      rw [ofLowBytes, length_cons, lowBytes, hlow, hhigh, ih, UInt8.ofNat_toNat]

/-- A number that is read fits the bytes it was read from. -/
theorem readNat_ok {w n : Nat} {bs rest : Bytes} (h : readNat w bs = .ok (n, rest)) :
    n < Nat.pow 256 w ∧ bs = lowBytes w n ++ rest := by
  simp only [readNat] at h
  split at h
  · simp at h
  · rename_i hlong
    simp only [Except.ok.injEq, Prod.mk.injEq] at h
    obtain ⟨rfl, rfl⟩ := h
    have hlength : (bs.take w).length = w :=
      Nat.le_antisymm (length_take_le w bs) (Nat.le_of_not_lt hlong)
    have hlt := ofLowBytes_lt (bs.take w)
    have hback := lowBytes_ofLowBytes (bs.take w)
    rw [hlength] at hlt hback
    exact ⟨hlt, by rw [hback, take_append_drop]⟩

theorem nat_strict (w : Nat) : (nat w).Strict := fun _ _ _ h => (readNat_ok h).2

/-! ## Values made of others -/

section Parts

variable {c : Codec α} {d : Codec β}

/-- A value that is made of another one has to tell which. -/
theorem Strict.refine {toValue : α → Except CodecProblem β} {ofValue : β → α} (hc : c.Strict)
    (hb : ∀ bs a rest b, c.decode bs = .ok (a, rest) → toValue a = .ok b → ofValue b = a) :
    (c.refine toValue ofValue).Strict := by
  intro bs b rest h
  simp only [Codec.refine] at h ⊢
  split at h
  · simp at h
  · rename_i a rest' ha
    split at h
    · simp at h
    · rename_i b' hvalue
      simp only [Except.ok.injEq, Prod.mk.injEq] at h
      obtain ⟨rfl, rfl⟩ := h
      rw [hb bs a _ _ ha hvalue]
      exact hc bs a _ ha

theorem Strict.map {toValue : α → β} {ofValue : β → α} (hc : c.Strict)
    (hb : ∀ bs a rest, c.decode bs = .ok (a, rest) → ofValue (toValue a) = a) :
    (c.map toValue ofValue).Strict := by
  refine hc.refine fun bs a rest b ha hvalue => ?_
  obtain rfl := Except.ok.inj hvalue
  exact hb bs a rest ha

theorem Strict.pair (hc : c.Strict) (hd : d.Strict) : (c.pair d).Strict := by
  intro bs v rest h
  simp only [Codec.pair] at h ⊢
  split at h
  · simp at h
  · rename_i x after hx
    split at h
    · simp at h
    · rename_i y rest' hy
      simp only [Except.ok.injEq, Prod.mk.injEq] at h
      obtain ⟨rfl, rfl⟩ := h
      rw [hc bs x after hx, hd after y _ hy, append_assoc]

end Parts

/-! ## Fixed-size values -/

theorem byte_strict : byte.Strict :=
  (nat_strict 1).map fun _ _ _ h => UInt8.toNat_ofNat_of_lt (readNat_ok h).1

theorem word32_strict : word32.Strict :=
  (nat_strict 4).map fun _ _ _ h => UInt32.toNat_ofNat_of_lt (readNat_ok h).1

theorem int32_strict : int32.Strict := word32_strict.map fun _ n _ _ => n.toUInt32_toInt32

theorem int64_strict : int64.Strict :=
  ((nat_strict 8).map fun _ _ _ h => UInt64.toNat_ofNat_of_lt (readNat_ok h).1).map
    fun _ n _ _ => n.toUInt64_toInt64

theorem bool_strict : bool.Strict := by
  refine byte_strict.refine fun _ b _ a _ h => ?_
  split at h
  · rename_i hb
    obtain rfl := Except.ok.inj h
    exact hb.symm
  · split at h
    · rename_i hb
      obtain rfl := Except.ok.inj h
      exact hb.symm
    · simp at h

/-- No value may stand at two indices. -/
theorem variant_strict {values : List α} {index : α → Nat}
    (h : ∀ i a, values[i]? = some a → index a = i) : (variant values index).Strict := by
  refine word32_strict.refine fun _ i _ a _ ha => ?_
  split at ha
  · rename_i a' hi
    obtain rfl := Except.ok.inj ha
    rw [h i.toNat a' hi, UInt32.ofNat_toNat]
  · simp at ha

/-! ## Values of any size -/

section Sized

variable {c : Codec α}

theorem option_strict (hc : c.Strict) : (Codec.option c).Strict := by
  intro bs o rest h
  simp only [Codec.option] at h
  split at h
  · simp at h
  · rename_i tag after htag
    have hbs := byte_strict bs tag after htag
    split at h
    · rename_i hzero
      simp only [Except.ok.injEq, Prod.mk.injEq] at h
      obtain ⟨rfl, rfl⟩ := h
      rw [hbs, hzero]
      rfl
    · split at h
      · rename_i hone
        split at h
        · simp at h
        · rename_i a rest' ha
          simp only [Except.ok.injEq, Prod.mk.injEq] at h
          obtain ⟨rfl, rfl⟩ := h
          rw [hbs, hone, hc after a _ ha, ← append_assoc]
          rfl
      · simp at h

/-- So many values are read, and no others. -/
theorem readMany_ok (hc : c.Strict) {n : Nat} {read as : List α} {bs rest : Bytes}
    (h : readMany c n read bs = .ok (as, rest)) :
    ∃ here, here.length = n ∧ as = read.reverse ++ here ∧ bs = here.flatMap c.encode ++ rest := by
  induction n generalizing read bs with
  | zero =>
      simp only [readMany, Except.ok.injEq, Prod.mk.injEq] at h
      obtain ⟨rfl, rfl⟩ := h
      exact ⟨[], by simp⟩
  | succ n ih =>
      simp only [readMany] at h
      split at h
      · simp at h
      · rename_i a after ha
        obtain ⟨here, rfl, rfl, rfl⟩ := ih h
        refine ⟨a :: here, rfl, by simp, ?_⟩
        rw [hc bs a _ ha, flatMap_cons, append_assoc]

theorem list_strict (hc : c.Strict) : (Codec.list c).Strict := by
  intro bs as rest h
  simp only [Codec.list] at h ⊢
  split at h
  · simp at h
  · rename_i n after hn
    obtain ⟨here, rfl, rfl, rfl⟩ := readMany_ok hc h
    rw [append_assoc]
    exact nat_strict 8 bs _ _ hn

theorem string_strict : string.Strict := by
  intro bs s rest h
  simp only [string] at h ⊢
  split at h
  · simp at h
  · rename_i n after hn
    split at h
    · simp at h
    · rename_i hlong
      split at h
      · simp at h
      · rename_i s' hs
        simp only [Except.ok.injEq, Prod.mk.injEq] at h
        obtain ⟨rfl, rfl⟩ := h
        have hlength : (after.take n).length = n := by
          rw [length_take, Nat.min_eq_left (Nat.le_of_not_lt hlong)]
        rw [Utf8.encode_of_decode hs, hlength, append_assoc, take_append_drop]
        exact nat_strict 8 bs n after hn

end Sized

theorem words_strict : (Codec.list word32).Strict := list_strict word32_strict

end Codec

/-! ## The formats of the wire -/

open Codec

theorem RequestId.codec_strict : RequestId.codec.Strict :=
  (string_strict.pair (int64_strict.pair (int64_strict.pair int64_strict))).map fun _ _ _ _ => rfl

theorem Method.codec_strict : Method.codec.Strict :=
  (string_strict.pair string_strict).map fun _ _ _ _ => rfl

theorem RequestHeader.codec_strict : RequestHeader.codec.Strict :=
  (int32_strict.pair (Method.codec_strict.pair ((option_strict word32_strict).pair
    (words_strict.pair ((option_strict RequestId.codec_strict).pair words_strict))))).map
    fun _ _ _ _ => rfl

theorem ResponseHeader.codec_strict : ResponseHeader.codec.Strict :=
  (int32_strict.pair (bool_strict.pair words_strict)).map fun _ _ _ _ => rfl

theorem ErrorCode.codec_strict : ErrorCode.codec.Strict := by
  refine variant_strict fun i code h => ?_
  obtain ⟨hi, rfl⟩ := List.getElem?_eq_some_iff.mp h
  have hnodup : ErrorCode.all.Nodup := by decide
  exact hnodup.idxOf_getElem i hi

theorem AppError.codec_strict : AppError.codec.Strict :=
  (int32_strict.pair (list_strict byte_strict)).map fun _ _ _ _ => rfl

theorem ErrorStatus.codec_strict : ErrorStatus.codec.Strict :=
  (string_strict.pair (ErrorCode.codec_strict.pair
    (words_strict.pair (option_strict AppError.codec_strict)))).map fun _ _ _ _ => rfl

/-! ## Exactness -/

namespace Codec

variable {α : Type} {c : Codec α} {bs : Bytes}

/-- The bytes hold no value but the one whose encoding begins them, and what follows that is the
rest. -/
structure ExactOn (c : Codec α) (bs : Bytes) : Prop where
  value_iff (a : α) : c.value bs = .ok a ↔ c.encode a <+: bs
  decode_iff (a : α) (rest : Bytes) : c.decode bs = .ok (a, rest) ↔ bs = c.encode a ++ rest
  eq_of_prefix (a b : α) : c.encode a <+: bs → c.encode b <+: bs → a = b

theorem value_eq_ok_iff {a : α} : c.value bs = .ok a ↔ ∃ rest, c.decode bs = .ok (a, rest) := by
  cases h : c.decode bs with
  | error problem => simp [value, h]
  | ok read =>
      obtain ⟨b, rest⟩ := read
      simp [value, h]

theorem Strict.exactOn (hs : c.Strict) (hf : c.Faithful) (hbs : bs.length < Nat.pow 256 8) :
    c.ExactOn bs := by
  have hdecode (a : α) (rest : Bytes) :
      c.decode bs = .ok (a, rest) ↔ bs = c.encode a ++ rest := by
    refine ⟨hs bs a rest, ?_⟩
    rintro rfl
    rw [List.length_append] at hbs
    exact hf a (by omega) rest
  have hvalue (a : α) : c.value bs = .ok a ↔ c.encode a <+: bs := by
    rw [value_eq_ok_iff]
    constructor
    · rintro ⟨rest, hread⟩
      exact ⟨rest, ((hdecode a rest).mp hread).symm⟩
    · rintro ⟨rest, hwritten⟩
      exact ⟨rest, (hdecode a rest).mpr hwritten.symm⟩
  refine ⟨hvalue, hdecode, fun a b ha hb => ?_⟩
  have hread : c.value bs = .ok a := (hvalue a).mpr ha
  rw [(hvalue b).mpr hb] at hread
  exact (Except.ok.inj hread).symm

end Codec

/-- Every string of bytes, however hostile, reads as a header or as a status exactly when the
encoding of that value begins it. So what is written is read back, nothing but bytes that follow is
passed over, no value has two encodings, and no encoding begins that of another value. -/
theorem formats_exact (bs : Bytes) (hbs : bs.length < Nat.pow 2 64) :
    RequestHeader.codec.ExactOn bs ∧ ResponseHeader.codec.ExactOn bs ∧
      ErrorStatus.codec.ExactOn bs := by
  have hsize : Nat.pow 2 64 = Nat.pow 256 8 := by decide
  rw [hsize] at hbs
  exact ⟨RequestHeader.codec_strict.exactOn RequestHeader.codec_faithful hbs,
    ResponseHeader.codec_strict.exactOn ResponseHeader.codec_faithful hbs,
    ErrorStatus.codec_strict.exactOn ErrorStatus.codec_faithful hbs⟩

/-- A status with a character of two bytes and with what an application adds, and a byte that
follows. -/
theorem formats_exact_trailing :
    let status : ErrorStatus := ⟨"é", .requestStale, [7], some ⟨-1, [0]⟩⟩
    let bs : Bytes :=
      [2, 0, 0, 0, 0, 0, 0, 0, 0xc3, 0xa9, 6, 0, 0, 0, 1, 0, 0, 0, 0, 0, 0, 0, 7, 0, 0, 0, 1,
        255, 255, 255, 255, 1, 0, 0, 0, 0, 0, 0, 0, 0, 9]
    bs.length < Nat.pow 2 64 ∧ ErrorStatus.codec.encode status <+: bs ∧
      ErrorStatus.codec.value bs = .ok status ∧
      ∀ other, ErrorStatus.codec.encode other <+: bs → other = status := by
  intro status bs
  have hbs : bs.length < Nat.pow 2 64 := by decide
  have hwritten : ErrorStatus.codec.encode status <+: bs := ⟨[9], by decide⟩
  have hexact := (formats_exact bs hbs).2.2
  exact ⟨hbs, hwritten, (hexact.value_iff status).mpr hwritten,
    fun other ho => hexact.eq_of_prefix other status ho hwritten⟩

end OnceOnly
