/-!
Sums over lists, of sizes and of changes.
-/

namespace OnceOnly

variable {α : Type}

/-- The sizes of all members together. -/
def total (size : α → Nat) : List α → Nat
  | [] => 0
  | a :: as => size a + total size as

/-- What the members change, together. -/
def balance (change : α → Int) : List α → Int
  | [] => 0
  | a :: as => change a + balance change as

end OnceOnly
