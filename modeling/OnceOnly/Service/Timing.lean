import OnceOnly.Time

/-!
The marks of a call's way through a server.
-/

namespace OnceOnly

structure Timing where
  received : Instant
  handled : Option Instant
  completed : Option Instant
deriving DecidableEq, Repr

namespace Timing

/-- The time until a handler took the call up. -/
def queueTime (t : Timing) : Option Duration := t.handled.map fun h => h.since t.received

/-- The time from there, or from the start if no handler took it up, to the answer. -/
def processingTime (t : Timing) : Option Duration :=
  t.completed.map fun c => c.since (t.handled.getD t.received)

def totalTime (t : Timing) : Option Duration := t.completed.map fun c => c.since t.received

end Timing

end OnceOnly
