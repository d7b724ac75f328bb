import OnceOnly.Dedup.Client

/-!
A server's memory of requests, by client and sequence number. The first attempt at a request drives
it; the others wait. A completed request answers from its cached response; a failed one is free for
the next attempt. Operations read the clock and ask who can be answered through their arguments,
and answer what they charge and whom they reply to, in order.
-/

namespace OnceOnly

structure Dedup (χ : Type) where
  settings : DedupSettings
  clients : ChargedMap String (Dedup.Client χ)

namespace Dedup

variable {χ : Type}

/-- What an operation comes to. The replies go out after the state has changed. -/
structure Effect (χ : Type) (α : Type) where
  dedup : Dedup χ
  charges : List Int
  replies : List (Reply χ)
  result : α

def start (settings : DedupSettings) : Dedup χ := ⟨settings, .empty⟩

/-- An attempt arrives. Only one that is told `fresh` has to run the request; the others are
answered without it. -/
def track (reachable : χ → Bool) (now : Instant) (d : Dedup χ) (id : RequestId) (context : χ)
    (takeOver : Bool) : Effect χ Phase :=
  let (clients, opened) := d.clients.insertNew id.client (.start now)
  let client := { (clients.get? id.client).getD (.start now) with lastHeard := now }
  let moved := client.advance id.client d.settings.stalePolicy id.firstIncomplete
  let (entered, phase) := moved.client.arrive reachable now id context takeOver
  let (clients, closed) := clients.update id.client entered.client
  { dedup := { d with clients }
    charges := opened ++ moved.charges ++ entered.charges ++ closed
    replies := moved.replies ++ entered.replies
    result := phase }

/-- Why a report is not taken. -/
inductive ReportError where
  | alreadyCompleted (id : RequestId)
  | notDriver (id : RequestId) (driver : AttemptNo)
  | stale (id : RequestId)
deriving DecidableEq, Repr

def ReportError.text : ReportError → String
  | .alreadyCompleted id => s!"request {id.text} already completed; keeping the cached response"
  | .notDriver id driver => s!"request {id.text} is not driving (driver attempt {driver.toInt})"
  | .stale id => s!"request {id.text} fell below its client's watermark and was abandoned"

/-- What becomes of a report. Reporting on a request that was never tracked is a mistake of the
caller's. -/
inductive Verdict where
  | accepted
  | rejected (error : ReportError)
  | unknownClient (id : RequestId)
  | unknownRequest (id : RequestId)
deriving DecidableEq, Repr

/-- The words of a mistake of the caller's. -/
def Verdict.misuse? : Verdict → Option String
  | .unknownClient id => some s!"outcome reported for untracked client of request {id.text}"
  | .unknownRequest id => some s!"outcome reported for untracked request {id.text}"
  | _ => none

/-- What a report by the driver makes of a record: the record, the replies, and whether it goes. -/
abbrev Outcome (χ : Type) := Record χ → Record χ × List (Reply χ) × Bool

/-- Only the driver of a record in progress may report. An attempt that reports on a completed
record has its own entries answered from the cache. -/
def reportOn (r : Record χ) (id : RequestId) (outcome : Outcome χ) :
    Record χ × List (Reply χ) × Bool × Verdict :=
  if r.phase = .completed then
    match r.response with
    | some cached =>
      (r.dropHandled id.attempt, Record.repliesTo (r.handled id.attempt) (.success cached), false,
        .rejected (.alreadyCompleted id))
    | none => (r, [], false, .rejected (.alreadyCompleted id))
  else if r.driver ≠ id.attempt then (r, [], false, .rejected (.notDriver id r.driver))
  else
    let (r, replies, goes) := outcome r
    (r, replies, goes, .accepted)

/-- A report to one client's requests. A missing record is expected only below the mark. -/
def Client.report (c : Client χ) (id : RequestId) (outcome : Outcome χ) : Change χ × Verdict :=
  match c.records.get? id.seq with
  | none =>
    (⟨{ c with abandoned := c.abandoned.erase id.seq }, [], []⟩,
      if id.seq < c.staleBefore then .rejected (.stale id) else .unknownRequest id)
  | some r =>
    let (r, replies, goes, verdict) := reportOn r id outcome
    let (records, settled) := c.records.update id.seq r
    let (records, erased) := if goes then records.erase id.seq else (records, [])
    (⟨{ c with records }, settled ++ erased, replies⟩, verdict)

def report (d : Dedup χ) (id : RequestId) (outcome : Outcome χ) : Effect χ Verdict :=
  match d.clients.get? id.client with
  | none => ⟨d, [], [], .unknownClient id⟩
  | some c =>
    let (change, verdict) := c.report id outcome
    let (clients, closed) := d.clients.update id.client change.client
    ⟨{ d with clients }, change.charges ++ closed, change.replies, verdict⟩

def completion (now : Instant) (id : RequestId) (response : Bytes) : Outcome χ := fun r =>
  let (r, replies) := r.complete now id.attempt response
  (r, replies, false)

def failure (now : Instant) (id : RequestId) (status : ErrorStatus) : Outcome χ := fun r =>
  r.fail now id.attempt status

/-- The driver reports a response, which is cached and never replaced. -/
def complete (now : Instant) (d : Dedup χ) (id : RequestId) (response : Bytes) : Effect χ Verdict :=
  d.report id (completion now id response)

/-- The driver reports a failure, which is not cached. -/
def fail (now : Instant) (d : Dedup χ) (id : RequestId) (status : ErrorStatus) : Effect χ Verdict :=
  d.report id (failure now id status)

/-! ## Questions -/

def record? (d : Dedup χ) (client : String) (seq : SeqNo) : Option (Record χ) :=
  d.clients.get? client >>= fun c => c.records.get? seq

/-- The attempt should go on working: the request was not given up, completed or taken over. -/
def isDriver (d : Dedup χ) (id : RequestId) : Bool :=
  match d.record? id.client id.seq with
  | some r => (r.phase == .inProgress || r.phase == .stale) && r.driver == id.attempt
  | none => false

def staleBefore? (d : Dedup χ) (client : String) : Option SeqNo :=
  (d.clients.get? client).map Client.staleBefore

def outstanding (d : Dedup χ) (client : String) : Nat :=
  ((d.clients.get? client).map Client.outstanding).getD 0

def recordCount (d : Dedup χ) : Nat := total (fun e => e.2.records.size) d.clients.toList

/-- What goes back to the budget when the whole memory is dropped: the clients, then the records
of each. -/
def release (d : Dedup χ) : List Int :=
  d.clients.release ++ d.clients.toList.flatMap fun e => e.2.records.release

/-! ## Texts -/

/-- A listing of all clients and requests; `ago` words the time since a client was heard from. -/
def text (ago : Duration → String) (now : Instant) (d : Dedup χ) (consumption : Int) : String :=
  s!"ResultTracker: {d.clients.size} clients, {consumption} bytes " ++
    s!"({d.settings.stalePolicy.debugText} policy)\n" ++
    String.join (d.clients.toList.map fun e =>
      s!"  client {e.1}: stale before {e.2.staleBefore.toInt}, last heard from " ++
        ago (now.since e.2.lastHeard) ++ " ago\n" ++
        String.join (e.2.records.toList.map fun r => s!"    {r.1.toInt}: " ++ r.2.text ++ "\n"))

def debugText (d : Dedup χ) (consumption : Int) : String :=
  Text.record "ResultTracker"
    [("config", d.settings.debugText), ("clients", toString d.clients.size),
      ("bytes", toString consumption)]

end Dedup

end OnceOnly
