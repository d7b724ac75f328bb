/-!
The life of a call. A response may overtake the news that sending has ended, so success is reached
from `sending` as well as from `sent`; the three terminal phases have no way out.
-/

namespace OnceOnly

inductive CallPhase where
  | ready
  | onOutboundQueue
  | sending
  | sent
  | timedOut
  | finishedError
  | finishedSuccess
deriving DecidableEq, Repr

namespace CallPhase

def isTerminal : CallPhase → Bool
  | timedOut | finishedError | finishedSuccess => true
  | _ => false

/-- The table of moves. -/
def canMoveTo (p next : CallPhase) : Bool :=
  match p, next with
  | ready, onOutboundQueue => true
  | onOutboundQueue, sending => true
  | sending, sent => true
  | sending, finishedSuccess => true
  | sent, finishedSuccess => true
  | p, timedOut => !p.isTerminal
  | p, finishedError => !p.isTerminal
  | _, _ => false

def name : CallPhase → String
  | ready => "READY"
  | onOutboundQueue => "ON_OUTBOUND_QUEUE"
  | sending => "SENDING"
  | sent => "SENT"
  | timedOut => "TIMED_OUT"
  | finishedError => "FINISHED_ERROR"
  | finishedSuccess => "FINISHED_SUCCESS"

def debugText : CallPhase → String
  | ready => "Ready"
  | onOutboundQueue => "OnOutboundQueue"
  | sending => "Sending"
  | sent => "Sent"
  | timedOut => "TimedOut"
  | finishedError => "FinishedError"
  | finishedSuccess => "FinishedSuccess"

def all : List CallPhase :=
  [ready, onOutboundQueue, sending, sent, timedOut, finishedError, finishedSuccess]

def ofName? (s : String) : Option CallPhase := all.find? fun p => p.debugText == s

end CallPhase

/-- What comes of asking a call to move on. -/
inductive Transition where
  | applied
  /-- The call had finished before; nothing changed. -/
  | alreadyTerminal (phase : CallPhase)
  /-- The move is not in the table; nothing changed. -/
  | rejected (source target : CallPhase)
deriving DecidableEq, Repr

def Transition.isApplied (t : Transition) : Bool := decide (t = applied)

end OnceOnly
