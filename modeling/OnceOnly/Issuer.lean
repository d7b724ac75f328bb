import OnceOnly.Keyed.SortedMap
import OnceOnly.RequestId

/-!
A client's numbering of its requests. Numbers are issued in order and never again; the least one
still outstanding travels with every request, so that servers know what they may forget.
-/

namespace OnceOnly

structure Issuer where
  client : String
  /-- The number to be issued next. -/
  next : SeqNo
  outstanding : SortedSet SeqNo

namespace Issuer

def start (client : String) : Issuer := ⟨client, 0, ∅⟩

/-- The least outstanding number, or the next one when none is outstanding. -/
def firstIncomplete (i : Issuer) : SeqNo := i.outstanding.keys.head?.getD i.next

/-- Issues a number. A number that has no next one is never issued. -/
def newSeq (i : Issuer) : Except Overflow (Issuer × SeqNo) :=
  (wordOr .add (i.next.toInt + 1)).map fun next =>
    ({ i with next := .ofInt next, outstanding := SortedSet.add i.outstanding i.next }, i.next)

/-- Issues a number as the first attempt at a request. -/
def newRequest (i : Issuer) : Except Overflow (Issuer × RequestId) :=
  i.newSeq.map fun (i, seq) => (i, ⟨i.client, seq, i.firstIncomplete, 0⟩)

/-- The result of a request is not needed any more. -/
def complete (i : Issuer) (seq : SeqNo) : Issuer :=
  { i with outstanding := i.outstanding.erase seq }

end Issuer

end OnceOnly
