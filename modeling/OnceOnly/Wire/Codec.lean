import OnceOnly.Problem

/-!
Codecs: an encoder and a decoder of one type, where the decoder answers the value at the front of
the bytes and what follows it. Numbers are little-endian of fixed width, lengths are eight bytes,
an optional value has a tag byte, an alternative a four-byte index.
-/

namespace OnceOnly

structure Codec (α : Type) where
  encode : α → Bytes
  decode : Bytes → Except CodecProblem (α × Bytes)

namespace Codec

variable {α β : Type}

/-- The `w` little-endian bytes of a number; what lies above them is dropped. -/
def lowBytes : (w : Nat) → Nat → Bytes
  | 0, _ => []
  | w + 1, n => .ofNat (n % 256) :: lowBytes w (n / 256)

/-- The number with the given little-endian bytes. -/
def ofLowBytes : Bytes → Nat
  | [] => 0
  | b :: bs => b.toNat + 256 * ofLowBytes bs

/-- The first `w` bytes, as a number. -/
def readNat (w : Nat) (bs : Bytes) : Except CodecProblem (Nat × Bytes) :=
  let front := bs.take w
  if front.length < w then .error .endOfInput else .ok (ofLowBytes front, bs.drop w)

/-- Reads with `c`, then makes a value or refuses. -/
def refine (c : Codec α) (toValue : α → Except CodecProblem β) (ofValue : β → α) : Codec β where
  encode b := c.encode (ofValue b)
  decode bs :=
    match c.decode bs with
    | .error e => .error e
    | .ok (a, rest) =>
      match toValue a with
      | .error e => .error e
      | .ok b => .ok (b, rest)

def map (c : Codec α) (toValue : α → β) (ofValue : β → α) : Codec β :=
  c.refine (fun a => .ok (toValue a)) ofValue

/-- One value, then another. -/
def pair (a : Codec α) (b : Codec β) : Codec (α × β) where
  encode v := a.encode v.1 ++ b.encode v.2
  decode bs :=
    match a.decode bs with
    | .error e => .error e
    | .ok (x, rest) =>
      match b.decode rest with
      | .error e => .error e
      | .ok (y, rest) => .ok ((x, y), rest)

def nat (w : Nat) : Codec Nat := ⟨lowBytes w, readNat w⟩

def byte : Codec UInt8 := (nat 1).map .ofNat UInt8.toNat

def word32 : Codec UInt32 := (nat 4).map .ofNat UInt32.toNat

def int32 : Codec Int32 := word32.map UInt32.toInt32 Int32.toUInt32

def int64 : Codec Int64 := ((nat 8).map UInt64.ofNat UInt64.toNat).map UInt64.toInt64 Int64.toUInt64

def length : Codec Nat := nat 8

def bool : Codec Bool :=
  byte.refine
    (fun b => if b = 0 then .ok false else if b = 1 then .ok true else .error (.notBool b))
    (fun b => if b then 1 else 0)

/-- A tag, 1 before a value and 0 for none. -/
def option (c : Codec α) : Codec (Option α) where
  encode
    | none => byte.encode 0
    | some a => byte.encode 1 ++ c.encode a
  decode bs :=
    match byte.decode bs with
    | .error e => .error e
    | .ok (tag, rest) =>
      if tag = 0 then .ok (none, rest)
      else if tag = 1 then
        match c.decode rest with
        | .error e => .error e
        | .ok (a, rest) => .ok (some a, rest)
      else .error (.notOptionTag tag)

/-- Reads `n` values more, after those that were read, the last of which comes first. -/
def readMany (c : Codec α) : (n : Nat) → (read : List α) → Bytes →
    Except CodecProblem (List α × Bytes)
  | 0, read, bs => .ok (read.reverse, bs)
  | n + 1, read, bs =>
    match c.decode bs with
    | .error e => .error e
    | .ok (a, rest) => readMany c n (a :: read) rest

/-- A count, then so many values. -/
def list (c : Codec α) : Codec (List α) where
  encode as := length.encode as.length ++ as.flatMap c.encode
  decode bs :=
    match length.decode bs with
    | .error e => .error e
    | .ok (n, rest) => readMany c n [] rest

/-- The number of bytes of a text, then its UTF-8. -/
def string : Codec String where
  encode s := length.encode (Utf8.encode s).length ++ Utf8.encode s
  decode bs :=
    match length.decode bs with
    | .error e => .error e
    | .ok (n, rest) =>
      if rest.length < n then .error .stringOverrun
      else
        match Utf8.decode (rest.take n) with
        | .error fault => .error (.notUtf8 fault)
        | .ok s => .ok (s, rest.drop n)

/-- One of the values listed, by its index. -/
def variant (values : List α) (index : α → Nat) : Codec α :=
  word32.refine
    (fun i =>
      match values[i.toNat]? with
      | some a => .ok a
      | none => .error (.noVariant i values.length))
    (fun a => .ofNat (index a))

/-- The value at the front of the bytes; what follows it is of no interest. -/
def value (c : Codec α) (bs : Bytes) : Except CodecProblem α :=
  match c.decode bs with
  | .error e => .error e
  | .ok (a, _) => .ok a

end Codec

end OnceOnly
