import OnceOnly.Dedup.Record
import OnceOnly.Settings.Dedup

/-!
What a server remembers of one client: its low-water mark, its requests, and the requests that it
gave up while their drivers were still at work.
-/

namespace OnceOnly.Dedup

structure Client (χ : Type) where
  lastHeard : Instant
  /-- The client has no use any more for the requests below it. -/
  staleBefore : SeqNo
  records : ChargedMap SeqNo (Record χ)
  /-- Requests given up whose drivers have not reported. -/
  abandoned : SortedSet SeqNo

variable {χ : Type}

/-- The records are charged by their own map. -/
instance : Footprint (Client χ) where
  footprint c := 88 + 8 * c.abandoned.size

def staleStatus (client : String) (seq staleBefore : SeqNo) : ErrorStatus :=
  .plain .requestStale
    (s!"request {client}:{seq.toInt} is below the client's first incomplete sequence number " ++
      toString staleBefore.toInt)

/-- A change to a client: the client after it, what it charges in order, and whom it answers. -/
structure Change (χ : Type) where
  client : Client χ
  charges : List Int
  replies : List (Reply χ)

namespace Client

def start (now : Instant) : Client χ := ⟨now, 0, .empty, ∅⟩

/-- Whether a record below a new mark goes: its waiters, if it has no driver to answer them, or
under `abandonEarly` if its driver need not. -/
def isReleased (policy : StalePolicy) (mark : SeqNo) (seq : SeqNo) (r : Record χ) : Bool :=
  decide (seq < mark) &&
    (r.phase == .fresh || (r.phase == .inProgress && policy == .abandonEarly))

/-- Whether a record below a new mark goes while its driver is at work. -/
def isAbandoned (policy : StalePolicy) (mark : SeqNo) (seq : SeqNo) (r : Record χ) : Bool :=
  decide (seq < mark) && r.phase == .inProgress && policy == .abandonEarly

/-- What a new mark makes of a record that stays. -/
def settled (mark : SeqNo) (seq : SeqNo) (r : Record χ) : Record χ :=
  if seq < mark ∧ r.phase = .inProgress then { r with phase := .stale } else r

/-- Moves the mark up, never down, and settles the records that fall below it. Completed ones are
left to be collected. -/
def advance (name : String) (policy : StalePolicy) (c : Client χ) (mark : SeqNo) : Change χ :=
  if mark ≤ c.staleBefore then ⟨c, [], []⟩
  else
    let released := c.records.toList.filter fun e => isReleased policy mark e.1 e.2
    let abandoned := c.records.toList.filter fun e => isAbandoned policy mark e.1 e.2
    let (records, charges) := c.records.filterMap fun seq r =>
      if isReleased policy mark seq r then none else some (settled mark seq r)
    { client := { c with
        staleBefore := mark
        records
        abandoned := abandoned.foldl (fun s e => SortedSet.add s e.1) c.abandoned }
      charges
      replies := released.flatMap fun e =>
        Record.repliesTo e.2.waiting (.failure (staleStatus name e.1 mark)) }

/-- An attempt at a request arrives: it joins the record, or is refused below the mark, or starts
a record. -/
def arrive (reachable : χ → Bool) (now : Instant) (c : Client χ) (id : RequestId) (context : χ)
    (takeOver : Bool) : Change χ × Phase :=
  match c.records.get? id.seq with
  | some r =>
    let (r, replies, phase) := r.join reachable now id.attempt context takeOver
    let (records, charges) := c.records.update id.seq r
    (⟨{ c with records }, charges, replies⟩, phase)
  | none =>
    if id.seq < c.staleBefore then
      (⟨c, [], [⟨context, .failure (staleStatus id.client id.seq c.staleBefore)⟩]⟩, .stale)
    else
      let (records, charges) := c.records.insert id.seq (.start id.attempt context now)
      (⟨{ c with records }, charges, []⟩, .fresh)

/-- The requests whose drivers have not reported. -/
def outstanding (c : Client χ) : Nat :=
  (c.records.toList.filter fun e => e.2.phase == .inProgress || e.2.phase == .stale).length

end Client

end OnceOnly.Dedup
