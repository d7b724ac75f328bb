/-!
Numbers of limited width: signed words and sizes of 64 bits, and significands of 53 bits. A
calculation whose result has no place in its width overflows.
-/

namespace OnceOnly

/-- Why a calculation has no result. It ends the operation that it is part of; what the operation
did before stays done. -/
inductive Overflow where
  | add
  | subtract
  | negate
  | remainder
  | zeroDivisor
deriving DecidableEq, Repr

def Overflow.text : Overflow → String
  | .add => "attempt to add with overflow"
  | .subtract => "attempt to subtract with overflow"
  | .negate => "attempt to negate with overflow"
  | .remainder => "attempt to calculate the remainder with overflow"
  | .zeroDivisor => "attempt to calculate the remainder with a divisor of zero"

/-- A signed word of 64 bits holds the number. -/
def IsWord (n : Int) : Prop := Int64.minValue.toInt ≤ n ∧ n ≤ Int64.maxValue.toInt

instance (n : Int) : Decidable (IsWord n) :=
  inferInstanceAs (Decidable (Int64.minValue.toInt ≤ n ∧ n ≤ Int64.maxValue.toInt))

/-- What a signed word of 64 bits holds of a number: numbers that are a multiple of 2 ^ 64 apart
look the same. -/
def asWord (n : Int) : Int := (Int64.ofInt n).toInt

/-- The result of a calculation with words. -/
def wordOr (overflow : Overflow) (n : Int) : Except Overflow Int :=
  if IsWord n then .ok n else .error overflow

/-- The sum of sizes. -/
def sizeSum (a b : Nat) : Except Overflow Nat :=
  if a + b < Nat.pow 2 64 then .ok (a + b) else .error .add

/-- What is left of a word after division by another, from zero up. -/
def remainder (n modulus : Int) : Except Overflow Int :=
  if modulus = 0 then .error .zeroDivisor
  else if n = Int64.minValue.toInt ∧ modulus = -1 then .error .remainder
  else .ok (n % modulus)

/-- A number kept to the 53 bits of a double's significand, ties to even. -/
def round53 (n : Nat) : Nat :=
  let unit := Nat.pow 2 (n.log2 - 52)
  let q := n / unit
  let r := n % unit
  (if unit < 2 * r ∨ (unit = 2 * r ∧ q % 2 = 1) then q + 1 else q) * unit

/-- The double next to a number. -/
def asDouble (n : Int) : Int := n.sign * round53 n.natAbs

end OnceOnly
