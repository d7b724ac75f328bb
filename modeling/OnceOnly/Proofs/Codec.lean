import OnceOnly.Proofs.Utf8
import OnceOnly.Wire.Headers

/-!
# Codecs read back what they write

A length has eight bytes, so this holds of values that are written in fewer than `256 ^ 8` bytes.
-/

namespace OnceOnly.Codec

open List

variable {α β : Type}

/-- What is written of `a` reads as `a`, whatever follows it. -/
def Restores (c : Codec α) (a : α) : Prop := ∀ rest, c.decode (c.encode a ++ rest) = .ok (a, rest)

/-- Every value whose lengths can be written is read back. -/
def Faithful (c : Codec α) : Prop :=
  ∀ a, (c.encode a).length < Nat.pow 256 8 → c.Restores a

/-! ## Numbers -/

@[simp] theorem length_lowBytes (w n : Nat) : (lowBytes w n).length = w := by
  induction w generalizing n with
  | zero => rfl
  | succ w ih => simp [lowBytes, ih]

theorem ofLowBytes_lowBytes {w n : Nat} (h : n < Nat.pow 256 w) :
    ofLowBytes (lowBytes w n) = n := by
  induction w generalizing n with
  | zero =>
      have h : n < 1 := h
      simp only [lowBytes, ofLowBytes]
      omega
  | succ w ih =>
      have h : n < Nat.pow 256 w * 256 := h
      have hlow : (UInt8.ofNat (n % 256)).toNat = n % 256 := Utf8.toNat_ofNat (by omega)
      rw [lowBytes, ofLowBytes, hlow, ih (by omega)]
      omega

theorem readNat_append {w : Nat} {front : Bytes} (h : front.length = w) (rest : Bytes) :
    readNat w (front ++ rest) = .ok (ofLowBytes front, rest) := by
  simp [readNat, take_left' h, drop_left' h, h]

theorem nat_restores {w n : Nat} (h : n < Nat.pow 256 w) : (nat w).Restores n := by
  intro rest
  show readNat w (lowBytes w n ++ rest) = _
  rw [readNat_append (length_lowBytes w n), ofLowBytes_lowBytes h]

/-! ## Values made of others -/

section Parts

variable {c : Codec α} {d : Codec β}

theorem Restores.refine {toValue : α → Except CodecProblem β} {ofValue : β → α} {b : β}
    (h : c.Restores (ofValue b)) (hb : toValue (ofValue b) = .ok b) :
    (c.refine toValue ofValue).Restores b := by
  intro rest
  simp only [Codec.refine, h rest, hb]

theorem Restores.map {toValue : α → β} {ofValue : β → α} {b : β} (h : c.Restores (ofValue b))
    (hb : toValue (ofValue b) = b) : (c.map toValue ofValue).Restores b :=
  h.refine (congrArg Except.ok hb)

theorem Restores.pair {v : α × β} (hc : c.Restores v.1) (hd : d.Restores v.2) :
    (c.pair d).Restores v := by
  intro rest
  simp only [Codec.pair, append_assoc, hc _, hd _]

theorem Faithful.map {toValue : α → β} {ofValue : β → α} (h : c.Faithful)
    (hb : ∀ b, toValue (ofValue b) = b) : (c.map toValue ofValue).Faithful :=
  fun b hlt => (h (ofValue b) hlt).map (hb b)

theorem Faithful.pair (hc : c.Faithful) (hd : d.Faithful) : (c.pair d).Faithful := by
  intro v hlt
  have hlt : (c.encode v.1 ++ d.encode v.2).length < Nat.pow 256 8 := hlt
  rw [length_append] at hlt
  exact (hc v.1 (by omega)).pair (hd v.2 (by omega))

end Parts

/-! ## Fixed-size values -/

theorem byte_restores (b : UInt8) : byte.Restores b :=
  (nat_restores b.toNat_lt).map (by simp)

theorem word32_restores (n : UInt32) : word32.Restores n :=
  (nat_restores n.toNat_lt).map (by simp)

theorem int32_restores (n : Int32) : int32.Restores n :=
  (word32_restores _).map (by simp)

theorem int64_restores (n : Int64) : int64.Restores n :=
  ((nat_restores n.toUInt64.toNat_lt).map (by simp)).map (by simp)

theorem bool_restores (b : Bool) : bool.Restores b :=
  (byte_restores _).refine (by cases b <;> rfl)

theorem length_restores {n : Nat} (h : n < Nat.pow 256 8) : Codec.length.Restores n :=
  nat_restores h

theorem variant_restores {values : List α} {index : α → Nat} {a : α}
    (hlt : index a < Nat.pow 256 4) (ha : values[index a]? = some a) :
    (variant values index).Restores a := by
  refine (word32_restores _).refine ?_
  have hi : (UInt32.ofNat (index a)).toNat = index a := UInt32.toNat_ofNat_of_lt hlt
  simp [hi, ha]

/-! ## Values of any size -/

section Sized

variable {c : Codec α}

theorem option_faithful (h : c.Faithful) : (Codec.option c).Faithful := by
  intro o hlt rest
  cases o with
  | none => simp only [Codec.option, byte_restores 0 rest, ite_true]
  | some a =>
      have hlt : (byte.encode 1 ++ c.encode a).length < Nat.pow 256 8 := hlt
      have ha : c.Restores a := h a (by rw [length_append] at hlt; omega)
      simp only [Codec.option, append_assoc, byte_restores 1 _, ha rest, ite_true]
      simp

theorem readMany_flatMap {as : List α} (h : ∀ a ∈ as, c.Restores a) (read : List α)
    (rest : Bytes) : readMany c as.length read (as.flatMap c.encode ++ rest) =
      .ok (read.reverse ++ as, rest) := by
  induction as generalizing read with
  | nil => simp [readMany]
  | cons a as ih =>
      have ha := h a mem_cons_self (as.flatMap c.encode ++ rest)
      rw [length_cons, readMany, flatMap_cons, append_assoc, ha]
      simp only
      rw [ih fun a ha => h a (mem_cons_of_mem _ ha)]
      simp

/-- Values that take up bytes are no more than their bytes. -/
theorem length_le_flatMap (hpos : ∀ a, 0 < (c.encode a).length) (as : List α) :
    as.length ≤ (as.flatMap c.encode).length := by
  induction as with
  | nil => simp
  | cons a as ih =>
      have ha := hpos a
      rw [flatMap_cons, length_append, length_cons]
      omega

theorem length_encode_le {a : α} {as : List α} (h : a ∈ as) :
    (c.encode a).length ≤ (as.flatMap c.encode).length := by
  obtain ⟨before, after, rfl⟩ := append_of_mem h
  rw [flatMap_append, flatMap_cons, length_append, length_append]
  omega

theorem list_faithful (h : c.Faithful) (hpos : ∀ a, 0 < (c.encode a).length) :
    (Codec.list c).Faithful := by
  intro as hlt rest
  have hlt : (Codec.length.encode as.length ++ as.flatMap c.encode).length < Nat.pow 256 8 := hlt
  rw [length_append] at hlt
  have hcount := length_le_flatMap hpos as
  have hrest : ∀ a ∈ as, c.Restores a := by
    intro a ha
    have hle : (c.encode a).length ≤ (as.flatMap c.encode).length := length_encode_le ha
    exact h a (by omega)
  have hlen := length_restores (n := as.length) (by omega)
  simp only [Codec.list, append_assoc, hlen _, readMany_flatMap hrest]
  rfl

theorem string_faithful : string.Faithful := by
  intro s hlt rest
  have hlt : (Codec.length.encode (Utf8.encode s).length ++ Utf8.encode s).length <
      Nat.pow 256 8 := hlt
  rw [length_append] at hlt
  have hlen := length_restores (n := (Utf8.encode s).length) (by omega)
  simp only [string, append_assoc, hlen _]
  simp [Utf8.decode_encode]

end Sized

theorem faithful_of_restores {c : Codec α} (h : ∀ a, c.Restores a) : c.Faithful := fun a _ => h a

theorem length_word32 (n : UInt32) : 0 < (word32.encode n).length :=
  Nat.lt_of_lt_of_eq (by decide) (length_lowBytes 4 n.toNat).symm

theorem length_byte (b : UInt8) : 0 < (byte.encode b).length :=
  Nat.lt_of_lt_of_eq (by decide) (length_lowBytes 1 b.toNat).symm

theorem words_faithful : (Codec.list word32).Faithful :=
  list_faithful (faithful_of_restores word32_restores) length_word32

theorem bytes_faithful : (Codec.list byte).Faithful :=
  list_faithful (faithful_of_restores byte_restores) length_byte

end Codec

/-! ## The formats of the wire -/

open Codec

theorem RequestId.codec_faithful : RequestId.codec.Faithful :=
  have hint : int64.Faithful := faithful_of_restores int64_restores
  (string_faithful.pair (hint.pair (hint.pair hint))).map fun _ => rfl

theorem Method.codec_faithful : Method.codec.Faithful :=
  (string_faithful.pair string_faithful).map fun _ => rfl

theorem RequestHeader.codec_faithful : RequestHeader.codec.Faithful :=
  have hid : int32.Faithful := faithful_of_restores int32_restores
  have htimeout := option_faithful (faithful_of_restores word32_restores)
  (hid.pair (Method.codec_faithful.pair (htimeout.pair (words_faithful.pair
    ((option_faithful RequestId.codec_faithful).pair words_faithful))))).map fun _ => rfl

theorem ResponseHeader.codec_faithful : ResponseHeader.codec.Faithful :=
  have hid : int32.Faithful := faithful_of_restores int32_restores
  have herror : bool.Faithful := faithful_of_restores bool_restores
  (hid.pair (herror.pair words_faithful)).map fun _ => rfl

theorem ErrorCode.codec_restores (code : ErrorCode) : ErrorCode.codec.Restores code :=
  variant_restores (by cases code <;> decide) (by cases code <;> decide)

theorem AppError.codec_faithful : AppError.codec.Faithful :=
  have hext : int32.Faithful := faithful_of_restores int32_restores
  (hext.pair bytes_faithful).map fun _ => rfl

theorem ErrorStatus.codec_faithful : ErrorStatus.codec.Faithful :=
  have hcode : ErrorCode.codec.Faithful := faithful_of_restores ErrorCode.codec_restores
  (string_faithful.pair (hcode.pair
    (words_faithful.pair (option_faithful AppError.codec_faithful)))).map fun _ => rfl

/-- Bytes that follow the value are of no interest to who reads it alone. -/
theorem Codec.Faithful.value_encode {α : Type} {c : Codec α} (h : c.Faithful) {a : α}
    (hlt : (c.encode a).length < Nat.pow 256 8) (rest : Bytes) :
    c.value (c.encode a ++ rest) = .ok a := by
  simp only [value, h a hlt rest]

end OnceOnly
