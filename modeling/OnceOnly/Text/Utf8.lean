/-!
UTF-8 as lists of bytes. Reading names the first place where a text stops being well formed: the
byte index, and how many bytes can be said to be wrong, none when the text merely ends too early.
-/

namespace OnceOnly

abbrev Bytes := List UInt8

namespace Utf8

/-- Where a text stops being well formed. -/
structure Fault where
  index : Nat
  /-- The bytes at `index` that begin no character; absent when more bytes could complete one. -/
  length : Option Nat
deriving DecidableEq, Repr

def Fault.text (f : Fault) : String :=
  match f.length with
  | some n => s!"invalid utf-8 sequence of {n} bytes from index {f.index}"
  | none => s!"incomplete utf-8 byte sequence from index {f.index}"

/-- One to four bytes, by the size of the code point. -/
def encodeChar (c : Char) : Bytes :=
  let n := c.toNat
  if n < 0x80 then [.ofNat n]
  else if n < 0x800 then [.ofNat (0xc0 + n / 64), .ofNat (0x80 + n % 64)]
  else if n < 0x10000 then
    [.ofNat (0xe0 + n / 4096), .ofNat (0x80 + n / 64 % 64), .ofNat (0x80 + n % 64)]
  else
    [.ofNat (0xf0 + n / 262144), .ofNat (0x80 + n / 4096 % 64), .ofNat (0x80 + n / 64 % 64),
      .ofNat (0x80 + n % 64)]

def encode (s : String) : Bytes := s.toList.flatMap encodeChar

/-- How many bytes a character with this first byte has; 0 for a byte that starts none. -/
def width (a : UInt8) : Nat :=
  if a < 0x80 then 1
  else if a < 0xc2 then 0
  else if a < 0xe0 then 2
  else if a < 0xf0 then 3
  else if a < 0xf5 then 4
  else 0

def isTail (b : UInt8) : Bool := decide (0x80 ≤ b ∧ b < 0xc0)

/-- The second byte after `a`: it rules out overlong forms, surrogates and what lies past the
last code point. -/
def isSecond (a b : UInt8) : Bool :=
  if a = 0xe0 then decide (0xa0 ≤ b ∧ b < 0xc0)
  else if a = 0xed then decide (0x80 ≤ b ∧ b < 0xa0)
  else if a = 0xf0 then decide (0x90 ≤ b ∧ b < 0xc0)
  else if a = 0xf4 then decide (0x80 ≤ b ∧ b < 0x90)
  else isTail b

def join2 (a b : UInt8) : Char := Char.ofNat (a.toNat % 32 * 64 + b.toNat % 64)

def join3 (a b c : UInt8) : Char :=
  Char.ofNat (a.toNat % 16 * 4096 + b.toNat % 64 * 64 + c.toNat % 64)

def join4 (a b c d : UInt8) : Char :=
  Char.ofNat (a.toNat % 8 * 262144 + b.toNat % 64 * 4096 + c.toNat % 64 * 64 + d.toNat % 64)

/-- The characters of a text from the byte at index `i` on, after those that were read, the last
of which comes first. -/
def decodeFrom (i : Nat) (read : List Char) : Bytes → Except Fault (List Char)
  | [] => .ok read.reverse
  | a :: rest =>
    match width a with
    | 1 => decodeFrom (i + 1) (Char.ofNat a.toNat :: read) rest
    | 2 =>
      match rest with
      | [] => .error ⟨i, none⟩
      | b :: rest =>
        if isTail b then decodeFrom (i + 2) (join2 a b :: read) rest
        else .error ⟨i, some 1⟩
    | 3 =>
      match rest with
      | [] => .error ⟨i, none⟩
      | [b] => if isSecond a b then .error ⟨i, none⟩ else .error ⟨i, some 1⟩
      | b :: c :: rest =>
        if !isSecond a b then .error ⟨i, some 1⟩
        else if isTail c then decodeFrom (i + 3) (join3 a b c :: read) rest
        else .error ⟨i, some 2⟩
    | 4 =>
      match rest with
      | [] => .error ⟨i, none⟩
      | [b] => if isSecond a b then .error ⟨i, none⟩ else .error ⟨i, some 1⟩
      | [b, c] =>
        if !isSecond a b then .error ⟨i, some 1⟩
        else if isTail c then .error ⟨i, none⟩
        else .error ⟨i, some 2⟩
      | b :: c :: d :: rest =>
        if !isSecond a b then .error ⟨i, some 1⟩
        else if !isTail c then .error ⟨i, some 2⟩
        else if isTail d then decodeFrom (i + 4) (join4 a b c d :: read) rest
        else .error ⟨i, some 3⟩
    | _ => .error ⟨i, some 1⟩

def decode (bytes : Bytes) : Except Fault String := (decodeFrom 0 [] bytes).map String.ofList

end Utf8

end OnceOnly
