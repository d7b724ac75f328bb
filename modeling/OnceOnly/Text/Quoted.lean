import OnceOnly.Text.Unprintable
import OnceOnly.Text.Utf8

/-!
Values inside diagnostic texts: strings and byte strings in quotation marks with escapes, lists in
brackets, records in braces, optional values.
-/

namespace OnceOnly.Text

def hexDigit (n : Nat) : Char := Char.ofNat (if n < 10 then 48 + n else 87 + n)

/-- Lower-case hexadecimal digits without leading zeros. -/
def hex (n : Nat) : String := String.ofList (Nat.toDigits 16 n)

/-- A character within quotation marks: marks, backslashes and control characters are escaped, and
so is what has no glyph. -/
def quoteChar (c : Char) : String :=
  if c = '"' then "\\\""
  else if c = '\\' then "\\\\"
  else if c = '\n' then "\\n"
  else if c = '\r' then "\\r"
  else if c = '\t' then "\\t"
  else if c = '\x00' then "\\0"
  else if c.toNat < 0x20 ∨ c.toNat = 0x7f ∨ isUnprintable c then
    "\\u\x7b" ++ hex c.toNat ++ "\x7d"
  else c.toString

def quote (s : String) : String :=
  "\"" ++ String.join (s.toList.map quoteChar) ++ "\""

/-- A byte within quotation marks: printable ASCII as it stands, all else by two digits. -/
def quoteByte (b : UInt8) : String :=
  if b = 10 then "\\n"
  else if b = 13 then "\\r"
  else if b = 9 then "\\t"
  else if b = 92 then "\\\\"
  else if b = 34 then "\\\""
  else if b = 0 then "\\0"
  else if 0x20 ≤ b ∧ b < 0x7f then (Char.ofNat b.toNat).toString
  else "\\x" ++ String.ofList [hexDigit (b.toNat / 16), hexDigit (b.toNat % 16)]

def quoteBytes (bs : Bytes) : String := "b\"" ++ String.join (bs.map quoteByte) ++ "\""

def list (items : List String) : String := "[" ++ ", ".intercalate items ++ "]"

/-- The members of a set or the entries of a map. -/
def braces (items : List String) : String := "\x7b" ++ ", ".intercalate items ++ "\x7d"

def option (item : Option String) : String :=
  match item with
  | some s => "Some(" ++ s ++ ")"
  | none => "None"

/-- A record: its name, then its fields in order. -/
def record (name : String) (fields : List (String × String)) : String :=
  name ++ " \x7b " ++ ", ".intercalate (fields.map fun f => f.1 ++ ": " ++ f.2) ++ " \x7d"

def bool (b : Bool) : String := if b then "true" else "false"

end OnceOnly.Text
