import OnceOnly.Settings.Number

/-!
Reading records from JSON text. A record is an object, whose unknown members are skipped and
whose missing ones keep their defaults, or an array of its fields in order, the last of which may
be missing. What is wrong with a text is found in reading order.
-/

namespace OnceOnly.Settings.Json

def isBlank (b : UInt8) : Bool := b == 32 || b == 10 || b == 9 || b == 13

def skipBlanks (bs : Bytes) : Bytes := bs.dropWhile isBlank

/-- The bytes of an ASCII word. -/
def word (s : String) : Bytes := Utf8.encode s

/-- Reads past the given bytes. -/
def literal : (expected : Bytes) → Bytes → Except Mismatch Bytes
  | [], bs => .ok bs
  | _ :: _, [] => .error .truncated
  | e :: es, b :: bs => if e = b then literal es bs else .error .malformed

/-! ## Strings -/

def hexValue (b : UInt8) : Option Nat :=
  if 48 ≤ b ∧ b ≤ 57 then some (b.toNat - 48)
  else if 97 ≤ b ∧ b ≤ 102 then some (b.toNat - 87)
  else if 65 ≤ b ∧ b ≤ 70 then some (b.toNat - 55)
  else none

def hexUnit (a b c d : UInt8) : Option Nat := do
  let a ← hexValue a
  let b ← hexValue b
  let c ← hexValue c
  let d ← hexValue d
  pure (((a * 16 + b) * 16 + c) * 16 + d)

def isLeading (n : Nat) : Bool := decide (0xd800 ≤ n ∧ n ≤ 0xdbff)

def isTrailing (n : Nat) : Bool := decide (0xdc00 ≤ n ∧ n ≤ 0xdfff)

/-- What a letter after a backslash stands for. -/
def escape (b : UInt8) : Option UInt8 :=
  if b = 34 ∨ b = 92 ∨ b = 47 then some b
  else if b = 98 then some 8
  else if b = 102 then some 12
  else if b = 110 then some 10
  else if b = 114 then some 13
  else if b = 116 then some 9
  else none

/-- The bytes of a character after those that were read, the last of which comes first. -/
def withChar (n : Nat) (read : Bytes) : Bytes := (Utf8.encodeChar (Char.ofNat n)).reverse ++ read

/-- The content of a string up to its closing quote, after the bytes that were read, the last of
which comes first. Escapes above the basic plane come in pairs. -/
def readContent (read : Bytes) : Bytes → Except Mismatch (Bytes × Bytes)
  | [] => .error .truncated
  | b :: bs =>
    if b = 34 then .ok (read.reverse, bs)
    else if b = 92 then
      match bs with
      | [] => .error .truncated
      | e :: bs =>
        if e = 117 then
          match bs with
          | h₁ :: h₂ :: h₃ :: h₄ :: bs =>
            match hexUnit h₁ h₂ h₃ h₄ with
            | none => .error .malformed
            | some n =>
              if isTrailing n then .error .malformed
              else if !isLeading n then readContent (withChar n read) bs
              else
                match bs with
                | [] => .error .truncated
                | s :: bs =>
                  if s ≠ 92 then .error .malformed
                  else
                    match bs with
                    | [] => .error .truncated
                    | u :: bs =>
                      if u ≠ 117 then .error .malformed
                      else
                        match bs with
                        | l₁ :: l₂ :: l₃ :: l₄ :: bs =>
                          match hexUnit l₁ l₂ l₃ l₄ with
                          | none => .error .malformed
                          | some m =>
                            if !isTrailing m then .error .malformed
                            else
                              let c := (n - 0xd800) * 1024 + (m - 0xdc00) + 0x10000
                              readContent (withChar c read) bs
                        | _ => .error .truncated
          | _ => .error .truncated
        else
          match escape e with
          | some c => readContent (c :: read) bs
          | none => .error .malformed
    else if b < 32 then .error .malformed
    else readContent (b :: read) bs

/-- The content of a string after its opening quote. -/
def readString (bs : Bytes) : Except Mismatch (Bytes × Bytes) := readContent [] bs

/-- Past the content of a string of no interest; a surrogate may stand alone there. -/
def skipString : Bytes → Except Mismatch Bytes
  | [] => .error .truncated
  | b :: bs =>
    if b = 34 then .ok bs
    else if b = 92 then
      match bs with
      | [] => .error .truncated
      | e :: bs =>
        if e = 117 then
          match bs with
          | h₁ :: h₂ :: h₃ :: h₄ :: bs =>
            if (hexUnit h₁ h₂ h₃ h₄).isSome then skipString bs else .error .malformed
          | _ => .error .truncated
        else if (escape e).isSome then skipString bs
        else .error .malformed
    else if b < 32 then .error .malformed
    else skipString bs

/-! ## Values of no interest -/

/-- Past digits, of which there must be one. -/
def skipDigits (bs : Bytes) : Except Mismatch Bytes :=
  match bs with
  | b :: _ => if Number.isDigit b then .ok (bs.dropWhile Number.isDigit) else .error .malformed
  | [] => .error .malformed

def skipScale (bs : Bytes) : Except Mismatch Bytes :=
  match bs with
  | [] => .ok []
  | b :: rest =>
    if b = 101 ∨ b = 69 then
      match rest with
      | [] => skipDigits rest
      | s :: after => if s = 43 ∨ s = 45 then skipDigits after else skipDigits rest
    else .ok bs

/-- Past a number after its sign. Its end is always an error of form. -/
def skipNumber (bs : Bytes) : Except Mismatch Bytes :=
  match bs with
  | 48 :: b :: rest =>
    if Number.isDigit b then .error .malformed
    else if b = 46 then skipDigits rest >>= skipScale
    else skipScale (b :: rest)
  | _ => do
    match ← skipDigits bs with
    | 46 :: rest => skipDigits rest >>= skipScale
    | rest => skipScale rest

inductive Bracket where
  | square
  | brace
deriving DecidableEq, Repr

/-- Past a member's key and colon; the opening quote comes first. -/
def skipKey (bs : Bytes) : Except Mismatch Bytes :=
  match skipBlanks bs with
  | [] => .error .truncated
  | 34 :: rest => do
    match skipBlanks (← skipString rest) with
    | [] => .error .truncated
    | 58 :: rest => .ok rest
    | _ => .error .malformed
  | _ => .error .malformed

/-- Past a value within the open brackets, and on to the end of the outermost value. `inside` is
false before a value and true after one. Every turn reads a byte but the last, so twice as much
`fuel` as there are bytes is enough. -/
def skipFrom : (fuel : Nat) → (inside : Bool) → List Bracket → Bytes → Except Mismatch Bytes
  | 0, _, _, _ => .error .malformed
  | fuel + 1, false, stack, bs =>
    match skipBlanks bs with
    | [] => .error .truncated
    | b :: rest =>
      if b = 110 then do skipFrom fuel true stack (← literal (word "ull") rest)
      else if b = 116 then do skipFrom fuel true stack (← literal (word "rue") rest)
      else if b = 102 then do skipFrom fuel true stack (← literal (word "alse") rest)
      else if b = 45 then do skipFrom fuel true stack (← skipNumber rest)
      else if Number.isDigit b then do skipFrom fuel true stack (← skipNumber (b :: rest))
      else if b = 34 then do skipFrom fuel true stack (← skipString rest)
      else if b = 91 then
        match skipBlanks rest with
        | [] => .error .truncated
        | 93 :: rest => skipFrom fuel true stack rest
        | rest => skipFrom fuel false (.square :: stack) rest
      else if b = 123 then
        match skipBlanks rest with
        | [] => .error .truncated
        | 125 :: rest => skipFrom fuel true stack rest
        | rest => do skipFrom fuel false (.brace :: stack) (← skipKey rest)
      else .error .malformed
  | _ + 1, true, [], bs => .ok bs
  | fuel + 1, true, bracket :: stack, bs =>
    match skipBlanks bs with
    | [] => .error .truncated
    | b :: rest =>
      match bracket with
      | .square =>
        if b = 44 then skipFrom fuel false (.square :: stack) rest
        else if b = 93 then skipFrom fuel true stack rest
        else .error .malformed
      | .brace =>
        if b = 44 then do skipFrom fuel false (.brace :: stack) (← skipKey rest)
        else if b = 125 then skipFrom fuel true stack rest
        else .error .malformed

/-- Past one value of any kind, in a text of `size` bytes at most. -/
def skipValue (size : Nat) (bs : Bytes) : Except Mismatch Bytes :=
  skipFrom (2 * size + 2) false [] bs

/-! ## Values of a given kind -/

/-- What is wrong with a value of another kind that starts with `b`: its own form, if that is
broken at its front, else its kind. -/
def wrongKind {α : Type} (b : UInt8) (rest : Bytes) : Except Mismatch α :=
  if b = 110 then do let _ ← literal (word "ull") rest; .error .otherValue
  else if b = 116 then do let _ ← literal (word "rue") rest; .error .otherValue
  else if b = 102 then do let _ ← literal (word "alse") rest; .error .otherValue
  else if b = 45 then do let _ ← Number.read false rest; .error .otherValue
  else if Number.isDigit b then do let _ ← Number.read true (b :: rest); .error .otherValue
  else if b = 34 then do let _ ← readString rest; .error .otherValue
  else if b = 91 ∨ b = 123 then .error .otherValue
  else .error .malformed

def readNumber (bs : Bytes) : Except Mismatch (Number × Bytes) :=
  match skipBlanks bs with
  | [] => .error .truncated
  | b :: rest =>
    if b = 45 then Number.read false rest
    else if Number.isDigit b then Number.read true (b :: rest)
    else wrongKind b rest

def readNatural (bs : Bytes) : Except Mismatch (UInt64 × Bytes) := do
  match ← readNumber bs with
  | (.natural n, rest) => pure (n, rest)
  | _ => .error .otherValue

def readInteger (bs : Bytes) : Except Mismatch (Int64 × Bytes) := do
  match ← readNumber bs with
  | (.natural n, rest) =>
    if n.toNat < Nat.pow 2 63 then pure (.ofNat n.toNat, rest) else .error .otherValue
  | (.negative n, rest) => pure (n, rest)
  | (.real, _) => .error .otherValue

/-- A value, or `null` in its place. -/
def readOption {α : Type} (read : Bytes → Except Mismatch (α × Bytes)) (bs : Bytes) :
    Except Mismatch (Option α × Bytes) :=
  match skipBlanks bs with
  | 110 :: rest => do pure (none, ← literal (word "ull") rest)
  | bs => do
    let (a, rest) ← read bs
    pure (some a, rest)

def readNull (bs : Bytes) : Except Mismatch Bytes :=
  match skipBlanks bs with
  | [] => .error .truncated
  | b :: rest => if b = 110 then literal (word "ull") rest else wrongKind b rest

/-- A key, from its opening quote on; nothing else is a key. -/
def readKey (bs : Bytes) : Except Mismatch (Bytes × Bytes) :=
  match skipBlanks bs with
  | [] => .error .truncated
  | b :: rest => if b = 34 then readString rest else .error .malformed

def readColon (bs : Bytes) : Except Mismatch Bytes :=
  match skipBlanks bs with
  | [] => .error .truncated
  | b :: rest => if b = 58 then .ok rest else .error .malformed

/-- One of the named choices, as a string or as an object with that one key and the value null. -/
def readChoice {α : Type} (choose : Bytes → Option α) (bs : Bytes) : Except Mismatch (α × Bytes) :=
  match skipBlanks bs with
  | [] => .error .truncated
  | b :: rest =>
    if b = 34 then do
      let (name, rest) ← readString rest
      match choose name with
      | some a => pure (a, rest)
      | none => .error .otherValue
    else if b = 123 then do
      let (name, rest) ← readKey rest
      match choose name with
      | none => .error .otherValue
      | some a =>
        match skipBlanks (← readNull (← readColon rest)) with
        | [] => .error .truncated
        | b :: rest => if b = 125 then pure (a, rest) else .error .malformed
    else .error .malformed

/-! ## Records -/

/-- The fields of a record of type `σ`: their names in order, and how the value of each is read
into the record. -/
structure Fields (σ : Type) where
  names : List Bytes
  read : (field : Nat) → σ → Bytes → Except Mismatch (σ × Bytes)

variable {σ : Type}

/-- Past the comma to the opening quote of the next key, past the closing brace, or neither. -/
def nextKey (first : Bool) (bs : Bytes) : Except Mismatch (Bool × Bytes) :=
  match skipBlanks bs with
  | [] => .error .truncated
  | b :: rest =>
    if b = 125 then .ok (false, rest)
    else if first then if b = 34 then .ok (true, rest) else .error .malformed
    else if b = 44 then
      match skipBlanks rest with
      | [] => .error .truncated
      | b :: rest => if b = 34 then .ok (true, rest) else .error .malformed
    else .error .malformed

/-- The members of an object up to its end; `seen` holds the fields that were read. Every turn
reads a byte, so `fuel` need not exceed their number. -/
def readMembers (fields : Fields σ) :
    (fuel : Nat) → (first : Bool) → (seen : List Nat) → σ → Bytes → Except Mismatch (σ × Bytes)
  | 0, _, _, _, _ => .error .malformed
  | fuel + 1, first, seen, s, bs => do
    match ← nextKey first bs with
    | (false, rest) => pure (s, rest)
    | (true, rest) =>
      let (key, rest) ← readString rest
      match fields.names.idxOf? key with
      | some field =>
        if field ∈ seen then .error .otherValue
        else
          let (s, rest) ← fields.read field s (← readColon rest)
          readMembers fields fuel false (field :: seen) s rest
      | none => readMembers fields fuel false seen s (← skipValue fuel (← readColon rest))

/-- Whether another element follows in an array, and where it starts. -/
def nextElement (first : Bool) (bs : Bytes) : Except Mismatch (Bool × Bytes) :=
  match skipBlanks bs with
  | [] => .error .truncated
  | b :: rest =>
    if b = 93 then .ok (false, b :: rest)
    else if first then .ok (true, b :: rest)
    else if b = 44 then
      match skipBlanks rest with
      | [] => .error .truncated
      | b :: rest => if b = 93 then .error .malformed else .ok (true, b :: rest)
    else .error .malformed

/-- The elements of an array as the fields from `field` on, of which `count` are left. -/
def readElements (fields : Fields σ) :
    (count : Nat) → (field : Nat) → (first : Bool) → σ → Bytes → Except Mismatch (σ × Bytes)
  | 0, _, _, s, bs => .ok (s, bs)
  | count + 1, field, first, s, bs => do
    match ← nextElement first bs with
    | (false, rest) => pure (s, rest)
    | (true, rest) =>
      let (s, rest) ← fields.read field s rest
      readElements fields count (field + 1) false s rest

/-- Past the end of an array, where nothing else may stand. -/
def closeArray (bs : Bytes) : Except Mismatch Bytes :=
  match skipBlanks bs with
  | [] => .error .truncated
  | b :: rest => if b = 93 then .ok rest else .error .malformed

/-- A record, from its defaults. -/
def readRecord (fields : Fields σ) (defaults : σ) (bs : Bytes) : Except Mismatch (σ × Bytes) :=
  match skipBlanks bs with
  | [] => .error .truncated
  | b :: rest =>
    if b = 91 then do
      let (s, rest) ← readElements fields fields.names.length 0 true defaults rest
      pure (s, ← closeArray rest)
    else if b = 123 then readMembers fields (rest.length + 1) true [] defaults rest
    else wrongKind b rest

/-- A record that is the whole of a text. -/
def ofText (fields : Fields σ) (defaults : σ) (text : String) : Except Mismatch σ := do
  let (s, rest) ← readRecord fields defaults (Utf8.encode text)
  if (skipBlanks rest).isEmpty then pure s else .error .malformed

end OnceOnly.Settings.Json
