import OnceOnly.Text.Utf8
import OnceOnly.Width

/-!
Number literals of JSON. A literal is a whole number of 64 bits, or a real number, which must lie
in the range of a double; a whole number in the settings is never written as a real.
-/

namespace OnceOnly.Settings

/-- Why a text is not the value that is read. -/
inductive Mismatch where
  /-- The text breaks the grammar. -/
  | malformed
  /-- The text ends too early. -/
  | truncated
  /-- The text is well formed, but of another kind or value. -/
  | otherValue
deriving DecidableEq, Repr

inductive Number where
  | natural (n : UInt64)
  /-- Below zero, and not below the least 64-bit integer. -/
  | negative (n : Int64)
  | real
deriving DecidableEq, Repr

namespace Number

def isDigit (b : UInt8) : Bool := decide (48 ≤ b ∧ b ≤ 57)

def digit (b : UInt8) : Nat := b.toNat - 48

/-- From half a unit above the largest double on, there is no double. -/
def doubleBound : Nat := Nat.pow 2 1024 - Nat.pow 2 970

/-- Refuses `n` times a power of ten when no double is next to it. -/
def real? (n : Nat) (exponent : Int) : Except Mismatch Number :=
  if n = 0 ∨ exponent < 0 then .ok .real
  else if 308 < exponent then .error .malformed
  else if doubleBound ≤ round53 n * round53 (Nat.pow 10 exponent.toNat) then .error .malformed
  else .ok .real

/-- Takes digits while the number stays below 2 ^ 64: the number, how many digits were taken, and
how many were not. `n` is the number so far, of `taken` digits. -/
def significand (n taken : Nat) : Bytes → Nat × Nat × Nat
  | [] => (n, taken, 0)
  | d :: ds =>
    if Nat.pow 2 64 ≤ n * 10 + digit d then (n, taken, ds.length + 1)
    else significand (n * 10 + digit d) (taken + 1) ds

/-- What follows `e`: a sign or none, then digits. -/
def readExponent (n : Nat) (shift : Int) (bs : Bytes) : Except Mismatch (Number × Bytes) :=
  let (up, bs) := match bs with
    | 43 :: rest => (true, rest)
    | 45 :: rest => (false, rest)
    | _ => (true, bs)
  match bs with
  | [] => .error .truncated
  | b :: _ =>
    if !isDigit b then .error .malformed
    else
      let digits := bs.takeWhile isDigit
      let rest := bs.dropWhile isDigit
      let e := digits.foldl (fun e d => e * 10 + digit d) 0
      if Nat.pow 2 31 ≤ e then
        if n ≠ 0 ∧ up then .error .malformed else .ok (.real, rest)
      else
        match real? n (if up then shift + e else shift - e) with
        | .error m => .error m
        | .ok v => .ok (v, rest)

/-- An exponent, if there is one. -/
def readScale (n : Nat) (shift : Int) (bs : Bytes) : Except Mismatch (Number × Bytes) :=
  match bs with
  | 101 :: rest => readExponent n shift rest
  | 69 :: rest => readExponent n shift rest
  | _ =>
    match real? n shift with
    | .error m => .error m
    | .ok v => .ok (v, bs)

/-- What follows the point: digits, then an exponent or none. -/
def readFraction (n : Nat) (shift : Nat) (bs : Bytes) : Except Mismatch (Number × Bytes) :=
  let digits := bs.takeWhile isDigit
  let rest := bs.dropWhile isDigit
  if digits.isEmpty then .error (if rest.isEmpty then .truncated else .malformed)
  else
    let (m, taken, _) := significand n 0 digits
    readScale m (shift - taken) rest

/-- A whole number; below zero there is room for 2 ^ 63, and there is no -0. -/
def whole (positive : Bool) (n : Nat) : Number :=
  if positive then .natural (.ofNat n)
  else if 0 < n ∧ n ≤ Nat.pow 2 63 then .negative (.ofInt (-n))
  else .real

/-- A number after its sign. -/
def read (positive : Bool) (bs : Bytes) : Except Mismatch (Number × Bytes) :=
  match bs with
  | [] => .error .truncated
  | b :: after =>
    if !isDigit b then .error .malformed
    else if b = 48 ∧ (after.head?.map isDigit).getD false then .error .malformed
    else
      let digits := bs.takeWhile isDigit
      let rest := bs.dropWhile isDigit
      let (n, _, left) := significand 0 0 digits
      match rest with
      | 46 :: rest => readFraction n left rest
      | 101 :: _ => readScale n left rest
      | 69 :: _ => readScale n left rest
      | _ => if left = 0 then .ok (whole positive n, rest) else readScale n left rest

end Number

end OnceOnly.Settings
