import OnceOnly.Width
import OnceOnly.Wire.Codec

/-!
Frames: two big-endian lengths of four bytes, the header, the body. The first length counts every
byte after itself, the second the header. The prefix alone is encoded; bodies are never copied.
-/

namespace OnceOnly

/-- The positions from `start` up to and without `stop`. -/
structure Span where
  start : Nat
  stop : Nat
deriving DecidableEq, Repr

def Span.shift (s : Span) (base : Nat) : Span := ⟨s.start + base, s.stop + base⟩

def Span.of (s : Span) (bs : Bytes) : Bytes := (bs.drop s.start).take (s.stop - s.start)

/-- A header and where the body lies in the bytes that were read. -/
structure Frame (η : Type) where
  header : η
  body : Span
deriving DecidableEq, Repr

namespace Frame

/-- The size of each of the two length fields. -/
def lengthSize : Nat := 4

/-- The largest number that a length field holds. -/
def maxLength : Nat := 4294967295

/-- The size of a frame that is allowed when nothing else is said. -/
def defaultLimit : Nat := 50 * 1024 * 1024

def lengthField (n : Nat) : Bytes := (Codec.lowBytes 4 n).reverse

def readLength (bs : Bytes) : Nat := Codec.ofLowBytes (bs.take 4).reverse

/-- All of a frame but its body, for a header that is encoded already. -/
def encodePrefix (header : Bytes) (body limit : Nat) : Except Problem Bytes :=
  let total := lengthSize + header.length + body
  let size := lengthSize + total
  if limit < size then .error (.messageTooLarge size limit)
  else if maxLength < total then .error (.messageTooLarge size maxLength)
  else .ok (lengthField total ++ lengthField header.length ++ header)

/-- The same for a body of which only the size is known: the size of the frame is a size. -/
def encodePrefix? (header : Bytes) (body limit : Nat) : Except Overflow (Except Problem Bytes) :=
  (sizeSum (2 * lengthSize + header.length) body).map fun _ => encodePrefix header body limit

/-- Reads a whole frame. The header's bytes after its value are of no interest. -/
def parse {η : Type} (codec : Codec η) (bs : Bytes) (limit : Nat) : Except Problem (Frame η) :=
  let size := bs.length
  if limit < size then .error (.messageTooLarge size limit)
  else if size < 2 * lengthSize then .error (.invalidFrame (.shorterThanLengths size))
  else
    let declared := readLength bs
    let carried := size - lengthSize
    if declared ≠ carried then .error (.invalidFrame (.otherSize declared carried))
    else
      let header := readLength (bs.drop lengthSize)
      let stop := 2 * lengthSize + header
      if size < stop then .error (.invalidFrame (.headerOverrun header size))
      else
        match codec.value ((bs.drop (2 * lengthSize)).take header) with
        | .error e => .error (.codec e)
        | .ok h => .ok ⟨h, ⟨stop, size⟩⟩

end Frame

end OnceOnly
