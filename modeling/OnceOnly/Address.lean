import OnceOnly.Text.Quoted

/-!
Addresses of network endpoints, as text: dotted quads, and groups of four hexadecimal digits in
brackets, in which one run of zero groups may be left out. The number of 16 bits after the colon
tells endpoints of one host apart.
-/

namespace OnceOnly

/-- There are eight groups in `v6`, and its scope is 0 where none is named. -/
inductive Address where
  | v4 (a b c d : UInt8) (endpoint : UInt16)
  | v6 (groups : List UInt16) (scope : UInt32) (endpoint : UInt16)
deriving DecidableEq, Repr

namespace Address

/-- What a reading of the front of a text gives: a value and the rest. -/
abbrev Reading (α : Type) := List Char → Option (α × List Char)

def digitValue (radix : Nat) (c : Char) : Option Nat :=
  let n := c.toNat
  let v :=
    if 48 ≤ n ∧ n ≤ 57 then n - 48
    else if 97 ≤ n ∧ n ≤ 102 then n - 87
    else if 65 ≤ n ∧ n ≤ 70 then n - 55
    else radix
  if v < radix then some v else none

/-- A number below `bound`, of at most `most` digits if that is given; a second digit after a zero
only with `zeros`. -/
def number (radix : Nat) (most : Option Nat) (zeros : Bool) (bound : Nat) : Reading Nat := fun cs =>
  let digits := cs.takeWhile fun c => (digitValue radix c).isSome
  let value := digits.foldl (fun n c => n * radix + (digitValue radix c).getD 0) 0
  let short := match most with
    | some m => decide (digits.length ≤ m)
    | none => true
  if digits.isEmpty || !short || (!zeros && digits.head? == some '0' && 1 < digits.length)
      || bound ≤ value then none
  else some (value, cs.drop digits.length)

def mark (m : Char) : Reading Unit
  | [] => none
  | c :: cs => if c = m then some ((), cs) else none

def quad : Reading (UInt8 × UInt8 × UInt8 × UInt8) := fun cs => do
  let (a, cs) ← number 10 (some 3) false 256 cs
  let (_, cs) ← mark '.' cs
  let (b, cs) ← number 10 (some 3) false 256 cs
  let (_, cs) ← mark '.' cs
  let (c, cs) ← number 10 (some 3) false 256 cs
  let (_, cs) ← mark '.' cs
  let (d, cs) ← number 10 (some 3) false 256 cs
  pure ((.ofNat a, .ofNat b, .ofNat c, .ofNat d), cs)

/-- A colon, then what `next` reads; no colon before the first group. -/
def afterColon {α : Type} (first : Bool) (next : Reading α) : Reading α := fun cs =>
  if first then next cs else do
    let (_, cs) ← mark ':' cs
    next cs

/-- At most `room` groups; a dotted quad stands for the last two. Answers the groups, whether a
quad ended them, and the rest. -/
def groups (first : Bool) : (room : Nat) → List Char → List UInt16 × Bool × List Char
  | 0, cs => ([], false, cs)
  | room + 1, cs =>
    match if 0 < room then afterColon first quad cs else none with
    | some ((a, b, c, d), cs) =>
      ([a.toUInt16 * 256 + b.toUInt16, c.toUInt16 * 256 + d.toUInt16], true, cs)
    | none =>
      match afterColon first (number 16 (some 4) true 65536) cs with
      | some (g, cs) =>
        let (gs, quadEnds, cs) := groups false room cs
        (.ofNat g :: gs, quadEnds, cs)
      | none => ([], false, cs)

def eightGroups : Reading (List UInt16) := fun cs =>
  let (front, quadEnds, cs) := groups true 8 cs
  if front.length = 8 then some (front, cs)
  else if quadEnds then none
  else do
    let (_, cs) ← mark ':' cs
    let (_, cs) ← mark ':' cs
    let (back, _, cs) := groups true (7 - front.length) cs
    pure (front ++ List.replicate (8 - front.length - back.length) 0 ++ back, cs)

def endpoint : Reading UInt16 := fun cs => do
  let (_, cs) ← mark ':' cs
  let (p, cs) ← number 10 none true 65536 cs
  pure (.ofNat p, cs)

def readV4 : Reading Address := fun cs => do
  let ((a, b, c, d), cs) ← quad cs
  let (p, cs) ← endpoint cs
  pure (.v4 a b c d p, cs)

def readV6 : Reading Address := fun cs => do
  let (_, cs) ← mark '[' cs
  let (gs, cs) ← eightGroups cs
  let (scope, cs) ← match mark '%' cs with
    | some (_, cs) => number 10 none true 4294967296 cs
    | none => some (0, cs)
  let (_, cs) ← mark ']' cs
  let (p, cs) ← endpoint cs
  pure (.v6 gs (.ofNat scope) p, cs)

/-- The address that a whole text spells. -/
def parse? (s : String) : Option Address :=
  match (readV4 s.toList).orElse fun _ => readV6 s.toList with
  | some (a, []) => some a
  | _ => none

/-- The first longest run of zeros: where it starts and how long it is. -/
def longestZeros (gs : List UInt16) : Nat × Nat :=
  (List.range gs.length).foldl
    (fun best i =>
      let run := ((gs.drop i).takeWhile (· == 0)).length
      if best.2 < run then (i, run) else best)
    (0, 0)

def groupText (gs : List UInt16) : String := ":".intercalate (gs.map fun g => Text.hex g.toNat)

def quadText (a b c d : Nat) : String := s!"{a}.{b}.{c}.{d}"

/-- Eight groups as text: a dotted quad after `::ffff:`, else the longest run of two or more zero
groups left out. -/
def groupsText (gs : List UInt16) : String :=
  match gs with
  | [0, 0, 0, 0, 0, 0xffff, g, h] =>
    "::ffff:" ++ quadText (g.toNat / 256) (g.toNat % 256) (h.toNat / 256) (h.toNat % 256)
  | _ =>
    let (start, run) := longestZeros gs
    if 1 < run then groupText (gs.take start) ++ "::" ++ groupText (gs.drop (start + run))
    else groupText gs

def text : Address → String
  | .v4 a b c d n => quadText a.toNat b.toNat c.toNat d.toNat ++ s!":{n.toNat}"
  | .v6 gs scope n =>
    "[" ++ groupsText gs ++ (if scope = 0 then "" else s!"%{scope.toNat}") ++ s!"]:{n.toNat}"

end Address

end OnceOnly
