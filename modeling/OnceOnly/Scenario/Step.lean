import OnceOnly.Call.Controller
import OnceOnly.Call.Exchange
import OnceOnly.Dedup.Interrupted
import OnceOnly.Issuer
import OnceOnly.Service.Inbound

/-!
Scenarios: steps on named objects of both sides of a connection. A callback and an answered
attempt may carry a script of further steps, which runs when the call finishes or the answer
arrives.
-/

namespace OnceOnly.Scenario

/-- A frame that was stored under a name, or its bytes. -/
inductive FrameArg where
  | stored (name : String)
  | literal (bytes : Bytes)

/-- An id that was stored under a name, so many attempts later; or the id itself. -/
inductive IdArg where
  | stored (name : String) (later : Nat)
  | literal (id : RequestId)

/-- Where the outcome of a call goes: into the record of events, into a channel, or nowhere. -/
inductive CallbackKind where
  | record
  | channel
  | discard

/-- What a call is for. -/
structure Target where
  conn : ConnectionId
  method : Method
  request : Bytes

/-- What a call is started with when no controller says it. -/
structure OptionsArg where
  timeout : Option Duration
  deadline : Option Instant
  requestId : Option IdArg
  features : List UInt32
  sidecars : List Bytes

inductive IssuerStep where
  | start (client : String)
  | newSeq
  | newRequest (store : Option String)
  | complete (seq : SeqNo)
  | info

inductive ControllerStep where
  | setTimeout (timeout : Duration)
  | setDeadline (deadline : Instant)
  /-- The time that is left; `coarse` asks only whether there is any. -/
  | timeLeft (coarse : Bool)
  | setRequestId (id : IdArg)
  | require (feature : UInt32)
  | addSidecar (sidecar : Bytes)
  | sidecar (index : Nat)
  | reset
  | debugText
  | info

/-- A point in time as it is, or counted from the start of the call. -/
inductive TimeArg where
  | instant (t : Instant)
  | afterStart (d : Duration)

/-- What the holder of a call and of its channel does with them. -/
inductive HoldStep where
  | drop
  | receive
  | forgetReceiver

inductive CallStep where
  | assignId (id : Int32)
  | queued
  | sending
  | sent
  | timeOut
  | fail (error : CallError)
  | respond (frame : FrameArg) (limit : Nat)
  | checkDeadline (time : TimeArg)
  | checkFeatures (server : List Feature)
  | serialize (limit : Nat) (store : Option String)
  | debugText
  | info

inductive RegistryStep where
  | register (call : String)
  | get (id : Int32)
  | remove (id : Int32)
  | handle (frame : FrameArg)
  | abort (error : CallError)
  | expire (now : Instant)
  | reap
  | info

inductive DeadlineStep where
  | schedule (call : String)
  | expire (now : Instant)
  | next
  | info

inductive ConnectionStep where
  | setAlive (alive : Bool)
  | take (store : Option String)

inductive InboundStep where
  | info
  | unsupported (supported : List UInt32)
  | attach (sidecar : Bytes)
  | received
  | started
  | succeed (message : Bytes)
  | fail (status : ErrorStatus)

inductive BudgetStep where
  | start (limit : Option Int)
  | consume (bytes : Int)
  | info

/-- Selects completed requests that meet every condition that is given. -/
structure Selection where
  client : Option String
  minSeq : Option Int
  maxSeq : Option Int
  minFootprint : Option Int
  minAge : Option Duration

def Selection.matches (s : Selection) (c : Dedup.Candidate) : Bool :=
  (s.client.all fun name => name == c.client) &&
    (s.minSeq.all fun n => decide (n ≤ c.seq.toInt)) &&
    (s.maxSeq.all fun n => decide (c.seq.toInt ≤ n)) &&
    (s.minFootprint.all fun n => decide (n ≤ (c.footprint : Int))) &&
    (s.minAge.all fun d => decide (d ≤ c.age))

inductive DedupStep where
  | complete (id : IdArg) (response : Bytes)
  | fail (id : IdArg) (status : ErrorStatus)
  | isDriver (id : IdArg)
  | sweep
  | collect
  /-- Selects nothing if there is no selection; `footprints` are part of the answer on request. -/
  | sweepWith (selection : Option Selection) (footprints : Bool)
  /-- Collects in the background until so many records are left. -/
  | background (records : Nat)
  | query (client : String) (seq : SeqNo)
  | bytes
  | exceeded
  | text
  | debugText

/-- Who is tracked: an attempt with a place of its own to answer to, or a received call. -/
inductive TrackArg where
  | attempt (id : IdArg) (context : String) (reachable always : Bool)
  | inbound (name : String)

inductive Step where
  | settings (json : String)
  | metrics (gauges : Bool)
  | issuer (name : String) (step : IssuerStep)
  | controller (name : String) (step : ControllerStep)
  | hold (name : String) (step : HoldStep)
  | call (name : String) (step : CallStep)
  | registry (step : RegistryStep)
  | deadlines (step : DeadlineStep)
  | connection (name : String) (step : ConnectionStep)
  | inbound (name : String) (step : InboundStep)
  | budget (name : String) (step : BudgetStep)
  | setReachable (context : String) (reachable : Bool)
  | dedup (name : String) (step : DedupStep)
  | newCall (name : String) (target : Target) (options : OptionsArg) (kind : CallbackKind)
      (script : List Step)
  | startCall (controller name : String) (target : Target) (kind : CallbackKind)
      (script : List Step)
  | track (dedup : String) (who : TrackArg) (takeOver : Bool) (script : List Step)
  | startController (name : String) (settings : Option String)
  | dropController (name : String)
  | startConnection (name : String) (remote : Address) (credentials : Credentials)
  /-- With `bare`, nothing is known of the connection's user, and it counts as alive. -/
  | parse (name conn : String) (frame : FrameArg) (settings : Option String) (bare : Bool)
  | startDedup (name : String) (settings : String) (budget : Option String)
  | dropDedup (name : String)

mutual

/-- The steps of a step: itself and those of its script. -/
def Step.count : Step → Nat
  | .newCall _ _ _ _ script => 1 + countAll script
  | .startCall _ _ _ _ script => 1 + countAll script
  | .track _ _ _ script => 1 + countAll script
  | _ => 1

/-- The steps of a script. -/
def countAll : List Step → Nat
  | [] => 0
  | s :: rest => s.count + countAll rest

end

end OnceOnly.Scenario
