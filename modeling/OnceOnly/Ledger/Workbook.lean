import OnceOnly.Ledger.Books
import OnceOnly.Text.Quoted

/-!
Books whose maps have numbers or texts for keys and values of a given footprint, and the operations
on them.
-/

namespace OnceOnly.Ledger

/-- Keys of both kinds; a map holds keys of one. -/
inductive Key where
  | int (n : Int64)
  | text (s : String)
deriving DecidableEq, Repr

namespace Key

def lt : Key → Key → Prop
  | int a, int b => a < b
  | int _, text _ => True
  | text _, int _ => False
  | text a, text b => a < b

instance : LT Key := ⟨lt⟩

instance : DecidableLT Key := fun a b =>
  match a, b with
  | int a, int b => inferInstanceAs (Decidable (a < b))
  | int _, text _ => .isTrue trivial
  | text _, int _ => .isFalse id
  | text a, text b => inferInstanceAs (Decidable (a < b))

instance : StrictKey Key where
  irrefl a := by
    cases a with
    | int n => exact StrictKey.irrefl n
    | text s => exact StrictKey.irrefl s
  trans {a b c} hab hbc := by
    match a, b, c with
    | int a, int b, int c =>
      have h : a < c := StrictKey.trans (show a < b from hab) (show b < c from hbc)
      exact h
    | int _, _, text _ => trivial
    | text a, text b, text c =>
      have h : a < c := StrictKey.trans (show a < b from hab) (show b < c from hbc)
      exact h
  connex a b := by
    match a, b with
    | int a, int b => exact (StrictKey.connex a b).imp id (Or.imp (congrArg int) id)
    | int _, text _ => exact .inl trivial
    | text _, int _ => exact .inr (.inr trivial)
    | text a, text b => exact (StrictKey.connex a b).imp id (Or.imp (congrArg text) id)

instance : Footprint Key where
  footprint
    | int n => footprint n
    | text s => footprint s

/-- The number that selects entries: the key, or the bytes of its text. -/
def number : Key → Int
  | int n => n.toInt
  | text s => s.utf8ByteSize

def debugText : Key → String
  | int n => toString n.toInt
  | text s => Text.quote s

end Key

/-- A value of a given footprint. -/
structure Blob where
  size : Nat
  tag : Int
deriving DecidableEq, Repr

instance : Footprint Blob := ⟨Blob.size⟩

def Blob.debugText (b : Blob) : String :=
  Text.record "Blob" [("size", toString b.size), ("tag", toString b.tag)]

/-- What is set in a value, and what is left. -/
structure Edit where
  size : Option Nat
  tag : Option Int
deriving DecidableEq, Repr

def Edit.apply (e : Edit) (b : Blob) : Blob := ⟨e.size.getD b.size, e.tag.getD b.tag⟩

inductive MapStep where
  | insert (key : Key) (blob : Blob)
  | remove (key : Key)
  | get (key : Key)
  | contains (key : Key)
  | edit (key : Key) (edit : Edit)
  | getOrInsert (key : Key) (blob : Blob) (edit : Option Edit)
  /-- Edits every entry, and keeps those whose number leaves `rest` when divided by `modulus`. -/
  | retain (edit : Edit) (modulus rest : Int)
  | entries
  | keys
  | values

inductive MapAnswer where
  | value (blob : Option Blob)
  | flag (b : Bool)
  | made (isNew : Bool) (blob : Blob)
  | seen (keys : List Key)
  | entries (entries : List (Key × Blob))
  | keys (keys : List Key)
  | values (blobs : List Blob)

abbrev BlobMap := ChargedMap Key Blob

/-- One operation on a map and its budget. -/
def MapStep.run : MapStep → Counting Key Blob MapAnswer
  | insert k b => return .value (← Account.insert k b)
  | remove k => return .value (← Account.erase k)
  | get k => return .value (← Account.get? k)
  | contains k => return .flag (← Account.get? k).isSome
  | edit k e => return .value (← Account.edit k e.apply)
  | getOrInsert k b e => do
    let (isNew, held) ← Account.getOrInsert k b fun b => (e.map fun e => e.apply b).getD b
    return .made isNew held
  | retain e modulus rest => do
    let seen := (← Account.entries).keys
    Account.retain fun k b => (e.apply b, (remainder k.number modulus).map (· == rest))
    return .seen seen
  | entries => return .entries (← Account.entries).toList
  | keys => return .keys (← Account.entries).keys
  | values => return .values (← Account.entries).values

def debugText (m : BlobMap) : String :=
  Text.braces (m.toList.map fun e => e.1.debugText ++ ": " ++ e.2.debugText)

inductive Step where
  | newBudget (name id : String) (limit : Option Int)
  | consume (budget : String) (bytes : Int)
  /-- Takes bytes off the count. -/
  | giveBack (budget : String) (bytes : Int)
  | newMap (name budget : String)
  | dropMap (name : String)
  | onMap (name : String) (step : MapStep)
  | describe (budget map : String)

inductive Answer where
  | done
  | budget (b : Budget)
  | existed (b : Bool)
  | map (answer : MapAnswer)
  | texts (texts : List String)
  | overflow (overflow : Overflow)
  /-- A name that nothing has. -/
  | unknown

abbrev Workbook := Books Key Blob

namespace Workbook

def empty : Workbook := Books.empty

/-- Answers a result in its own way, an overflow and a name that is not known in the same. -/
def answer {β : Type} (w : Workbook) (outcome : Outcome β) (f : β → Answer) : Workbook × Answer :=
  (w, match outcome with
    | none => .unknown
    | some (.error overflow) => .overflow overflow
    | some (.ok b) => f b)

def step (w : Workbook) : Step → Workbook × Answer
  | .newBudget name id limit =>
    let b := Budget.ofLimit id limit
    (w.newBudget name b, .budget b)
  | .consume budget bytes =>
    let (w, outcome) := w.onBudget budget (Account.consume bytes)
    answer w outcome fun _ => .done
  | .giveBack budget bytes =>
    let (w, outcome) := w.onBudget budget (Account.giveBack bytes)
    answer w outcome fun _ => .done
  | .newMap name budget =>
    let (w, outcome) := w.newMap name budget
    answer w outcome fun _ => .done
  | .dropMap name =>
    match w.dropMap name with
    | (w, none) => (w, .existed false)
    | (w, outcome) => answer w outcome fun _ => .existed true
  | .onMap name op =>
    let (w, outcome) := w.onMap name op.run
    answer w outcome .map
  | .describe budget map =>
    match w.budget? budget with
    | none => (w, .unknown)
    | some b =>
      let mapText := (w.sheets.get? map).map fun s => debugText s.map
      (w, .texts (b.debugText :: mapText.toList))

end Workbook

end OnceOnly.Ledger
