import OnceOnly.Text.Quoted
import OnceOnly.Width

/-!
The identity of one attempt at a request. Retries keep client and sequence number and differ in
the attempt number alone, which is what lets a server run a request once for all of them.
-/

namespace OnceOnly

/-- A client's numbering of its requests. -/
abbrev SeqNo := Int64

/-- Tells the retries of one request apart. -/
abbrev AttemptNo := Int64

/-- Stands where there is no sequence number, and no driving attempt. -/
def noSeqNo : Int64 := -1

structure RequestId where
  client : String
  seq : SeqNo
  /-- The client has no use any more for the results of the requests below this one. -/
  firstIncomplete : SeqNo
  attempt : AttemptNo
deriving DecidableEq, Repr

namespace RequestId

def withAttempt (r : RequestId) (attempt : AttemptNo) : RequestId := { r with attempt }

/-- The retry of the same request that comes so many attempts later. -/
def laterAttempt (r : RequestId) (later : Nat) : Except Overflow RequestId :=
  (wordOr .add (r.attempt.toInt + later)).map fun n => r.withAttempt (.ofInt n)

/-- The next retry of the same request. -/
def nextAttempt (r : RequestId) : Except Overflow RequestId := r.laterAttempt 1

def text (r : RequestId) : String :=
  s!"{r.client}:{r.seq.toInt} (attempt {r.attempt.toInt}, first incomplete " ++
    s!"{r.firstIncomplete.toInt})"

def debugText (r : RequestId) : String :=
  Text.record "RequestId"
    [("client_id", Text.quote r.client), ("seq_no", toString r.seq.toInt),
      ("first_incomplete_seq_no", toString r.firstIncomplete.toInt),
      ("attempt_no", toString r.attempt.toInt)]

end RequestId

end OnceOnly
