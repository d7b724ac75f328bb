import OnceOnly.Text.Quoted
import OnceOnly.Width

/-!
Budgets count bytes. A charge never fails for its size: the limit is advice to those who charge. It
overflows when no word holds the count, which then goes on as a word. The peak is the highest count
after any single charge that did not overflow.
-/

namespace OnceOnly

structure Budget where
  id : String
  limit : Option Int
  consumption : Int
  peak : Int
deriving DecidableEq, Repr

namespace Budget

def ofLimit (id : String) (limit : Option Int) : Budget := ⟨id, limit, 0, 0⟩

/-- Counts bytes that come, or below zero that go, exactly. -/
def charge (b : Budget) (bytes : Int) : Budget :=
  let consumption := b.consumption + bytes
  { b with consumption, peak := max b.peak consumption }

/-- Charges one after the other. -/
def chargeAll (b : Budget) (charges : List Int) : Budget := charges.foldl charge b

/-- Charges as far as a word reaches; `.error` has what is left of a budget that overflowed. To
charge nothing changes nothing. -/
def charge? (b : Budget) (bytes : Int) : Except Budget Budget :=
  if bytes = 0 then .ok b
  else if IsWord (b.consumption + bytes) then .ok (b.charge bytes)
  else .error { b with consumption := asWord (b.consumption + bytes) }

def exceeded (b : Budget) : Bool :=
  match b.limit with
  | some limit => decide (limit < b.consumption)
  | none => false

def debugText (b : Budget) : String :=
  Text.record "MemoryBudget"
    [("id", Text.quote b.id), ("consumption", toString b.consumption), ("peak", toString b.peak),
      ("limit", Text.option (b.limit.map toString))]

end Budget

end OnceOnly
