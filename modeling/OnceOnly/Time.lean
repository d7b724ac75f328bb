/-!
Lengths of time and points in time, in nanoseconds. A point is counted from an origin that a
session fixes, so it may lie before it.
-/

namespace OnceOnly

structure Duration where
  nanos : Nat
deriving DecidableEq, Repr, Inhabited

structure Instant where
  nanos : Int
deriving DecidableEq, Repr, Inhabited

namespace Duration

def zero : Duration := ⟨0⟩

def ofMillis (n : Nat) : Duration := ⟨n * 1000000⟩

/-- Whole milliseconds, the rest dropped. -/
def toMillis (d : Duration) : Nat := d.nanos / 1000000

instance : LE Duration := ⟨fun a b => a.nanos ≤ b.nanos⟩

instance (a b : Duration) : Decidable (a ≤ b) := inferInstanceAs (Decidable (a.nanos ≤ b.nanos))

/-- The digits of `n` in `width` places without the zeros that end them. -/
def fractionDigits (width n : Nat) : List Char :=
  let digits := (toString n).toList
  ((List.replicate (width - digits.length) '0' ++ digits).reverse.dropWhile (· == '0')).reverse

/-- A count of `unit`s of `10 ^ width` nanoseconds, with the fraction that is left. -/
def textIn (d : Duration) (width : Nat) (unit : String) : String :=
  let fraction := fractionDigits width (d.nanos % Nat.pow 10 width)
  let whole := toString (d.nanos / Nat.pow 10 width)
  if fraction.isEmpty then whole ++ unit else whole ++ "." ++ String.ofList fraction ++ unit

/-- The text of a duration: in the largest of s, ms, µs and ns whose whole part is not 0. -/
def text (d : Duration) : String :=
  if 1000000000 ≤ d.nanos then d.textIn 9 "s"
  else if 1000000 ≤ d.nanos then d.textIn 6 "ms"
  else if 1000 ≤ d.nanos then d.textIn 3 "µs"
  else toString d.nanos ++ "ns"

end Duration

namespace Instant

instance : LE Instant := ⟨fun a b => a.nanos ≤ b.nanos⟩

instance (a b : Instant) : Decidable (a ≤ b) := inferInstanceAs (Decidable (a.nanos ≤ b.nanos))

def add (t : Instant) (d : Duration) : Instant := ⟨t.nanos + d.nanos⟩

/-- The time from `earlier` to `t`, zero when `t` does not lie after it. -/
def since (t earlier : Instant) : Duration := ⟨(t.nanos - earlier.nanos).toNat⟩

def ofMillis (n : Int) : Instant := ⟨n * 1000000⟩

end Instant

end OnceOnly
