import OnceOnly.Total
import OnceOnly.Wire.Frame

/-!
Bodies: the message, then the sidecars one after the other. The offsets where the sidecars start
divide a body; the sizes of its parts give the offsets back.
-/

namespace OnceOnly.Body

/-- The slices that one transfer may consist of. -/
def maxSlices : Nat := 10

/-- Header and message take two slices of a transfer. -/
def maxSidecars : Nat := maxSlices - 2

/-- Where message and sidecars lie. -/
structure Layout where
  message : Span
  sidecars : List Span
deriving DecidableEq, Repr

/-- The same layout in bytes that hold the body from `base` on. -/
def Layout.shift (l : Layout) (base : Nat) : Layout :=
  ⟨l.message.shift base, l.sidecars.map (·.shift base)⟩

/-- The same for any base: positions are sizes. -/
def Layout.shift? (l : Layout) (base : Nat) : Except Overflow Layout :=
  let last := (l.sidecars.getLast?.getD l.message).stop
  (sizeSum last base).map fun _ => l.shift base

/-- The sidecars that start at the given offsets, numbered from `index`; each ends where the next
one starts and the last at the end of the body. -/
def spans (size index : Nat) : List Nat → Except Problem (List Span)
  | [] => .ok []
  | start :: rest =>
    let stop := rest.head?.getD size
    if stop < start ∨ size < stop then
      .error (.invalidFrame (.sidecarSpan index start stop size))
    else
      match spans size (index + 1) rest with
      | .error e => .error e
      | .ok s => .ok (⟨start, stop⟩ :: s)

/-- Divides a body of `size` bytes at the offsets. -/
def split (size : Nat) (offsets : List UInt32) : Except Problem Layout :=
  if maxSidecars < offsets.length then .error (.tooManySidecars maxSidecars)
  else
    let starts := offsets.map UInt32.toNat
    let message := starts.head?.getD size
    if size < message then .error (.invalidFrame (.offsetBeyondBody message size))
    else
      match spans size 0 starts with
      | .error e => .error e
      | .ok s => .ok ⟨⟨0, message⟩, s⟩

/-- Where message and sidecars lie in the bytes of a frame. -/
def layout {η : Type} (f : Frame η) (offsets : List UInt32) : Except Problem Layout :=
  (split (f.body.stop - f.body.start) offsets).map fun l => l.shift f.body.start

/-- Where sidecars of the given sizes start, the first of them at `start`. -/
def starts (start : Nat) : List Nat → Except Problem (List UInt32)
  | [] => .ok []
  | size :: rest =>
    if Frame.maxLength < start then .error (.messageTooLarge start Frame.maxLength)
    else
      match starts (start + size) rest with
      | .error e => .error e
      | .ok s => .ok (.ofNat start :: s)

/-- The offsets of sidecars that follow a message. -/
def offsets (message : Nat) (sidecars : List Bytes) : Except Problem (List UInt32) :=
  if maxSidecars < sidecars.length then .error (.tooManySidecars maxSidecars)
  else starts message (sidecars.map List.length)

/-- The bytes of a message and its sidecars. -/
def size (message : Bytes) (sidecars : List Bytes) : Nat :=
  message.length + total List.length sidecars

end OnceOnly.Body
