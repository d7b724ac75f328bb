import OnceOnly.Dedup.Basic
import OnceOnly.Ledger.Budget

/-!
Collecting what is not needed any more: completed requests below their client's mark or of idle
clients, those that the caller selects, and idle clients of which nothing is left.
-/

namespace OnceOnly.Dedup

/-- A completed request that the caller may select. -/
structure Candidate where
  client : String
  seq : SeqNo
  /-- The time since the record last changed. -/
  age : Duration
  footprint : Nat
deriving DecidableEq, Repr

variable {χ : Type}

/-- What collecting from one client, or from all, comes to. -/
structure Sweep (α : Type) where
  rest : α
  charges : List Int
  evicted : Nat
  /-- The requests that were offered for selection, in order. -/
  offered : List Candidate

namespace Client

def isIdle (ttl : Duration) (now : Instant) (c : Client χ) : Bool :=
  decide (ttl ≤ now.since c.lastHeard)

def candidate (now : Instant) (name : String) (seq : SeqNo) (r : Record χ) : Candidate :=
  ⟨name, seq, now.since r.updated, footprint r⟩

/-- Goes without being offered. -/
def isExpired (c : Client χ) (idle : Bool) (seq : SeqNo) : Bool :=
  decide (seq < c.staleBefore) || idle

def isEvicted (now : Instant) (name : String) (idle : Bool) (force : Candidate → Bool)
    (c : Client χ) (seq : SeqNo) (r : Record χ) : Bool :=
  r.phase == .completed && (c.isExpired idle seq || force (candidate now name seq r))

/-- Takes out completed requests. -/
def sweep (now : Instant) (name : String) (idle : Bool) (force : Candidate → Bool) (c : Client χ) :
    Sweep (Client χ) :=
  let (records, charges) := c.records.filterMap fun seq r =>
    if c.isEvicted now name idle force seq r then none else some r
  { rest := { c with records }
    charges
    evicted := (c.records.toList.filter fun e => c.isEvicted now name idle force e.1 e.2).length
    offered := (c.records.toList.filter fun e =>
        e.2.phase == .completed && !c.isExpired idle e.1).map fun e => candidate now name e.1 e.2 }

/-- What becomes of a request, and what the caller is asked to decide it. -/
structure Decision where
  evicted : Bool
  asked : Option Candidate

/-- The decision about a request, step by step. The caller is asked last. -/
def decision (now : Instant) (name : String) (idle : Bool) (force : Candidate → Bool)
    (c : Client χ) (seq : SeqNo) (r : Record χ) : Decision :=
  if r.phase == .completed then
    if c.isExpired idle seq then ⟨true, none⟩
    else
      let x := candidate now name seq r
      ⟨force x, some x⟩
  else ⟨false, none⟩

section Decision

variable {now : Instant} {name : String} {idle : Bool} {force : Candidate → Bool} {c : Client χ}
  {seq : SeqNo} {r : Record χ}

/-- The caller is asked about just the completed requests that do not go anyway. -/
theorem decision_eq : c.decision now name idle force seq r =
    ⟨c.isEvicted now name idle force seq r,
      if r.phase == .completed && !c.isExpired idle seq then some (candidate now name seq r)
      else none⟩ := by
  rw [decision, isEvicted]
  cases r.phase == .completed with
  | false => rfl
  | true =>
      cases c.isExpired idle seq with
      | false | true => rfl

theorem sweep_evicted : (c.sweep now name idle force).evicted =
    (c.records.toList.filter fun e => (c.decision now name idle force e.1 e.2).evicted).length := by
  simp only [sweep, decision_eq]

/-- What is offered is what the caller is asked, in the order of asking. -/
theorem sweep_offered : (c.sweep now name idle force).offered =
    c.records.toList.filterMap fun e => (c.decision now name idle force e.1 e.2).asked := by
  have hasked (e : SeqNo × Record χ) : (c.decision now name idle force e.1 e.2).asked =
      (Option.guard (fun e => e.2.phase == .completed && !c.isExpired idle e.1) e).map
        fun e => candidate now name e.1 e.2 := by
    rw [decision_eq, Option.guard]
    cases e.2.phase == .completed && !c.isExpired idle e.1 with
    | false | true => rfl
  simp only [sweep, hasked]
  rw [← List.filterMap_eq_filter, List.map_filterMap]

/-- What becomes of a request depends on the caller only by the answer to what is asked. -/
theorem isEvicted_congr {force' : Candidate → Bool}
    (h : ∀ x ∈ (c.decision now name idle force seq r).asked, force' x = force x) :
    c.isEvicted now name idle force' seq r = c.isEvicted now name idle force seq r := by
  rw [decision_eq] at h
  rw [isEvicted, isEvicted]
  cases hp : r.phase == .completed with
  | false => rfl
  | true =>
      cases hexpired : c.isExpired idle seq with
      | true => rfl
      | false =>
          have hsame := h (candidate now name seq r) (by simp [hp, hexpired])
          rw [hsame]

end Decision

/-- Nothing is left of an idle client, and no driver is at work for it. -/
def isGone (idle : Bool) (c : Client χ) : Bool := idle && c.records.isEmpty && c.abandoned.isEmpty

end Client

/-- Collects from one client. -/
def sweepClient (now : Instant) (force : Candidate → Bool) (d : Dedup χ) (name : String)
    (c : Client χ) : Sweep (Client χ) :=
  c.sweep now name (c.isIdle d.settings.clientTtl now) force

/-- Whether a client goes of which so much is left. -/
def isDropped (now : Instant) (d : Dedup χ) (c rest : Client χ) : Bool :=
  rest.isGone (c.isIdle d.settings.clientTtl now)

/-- What collecting from one client charges: what was collected, and when the client goes what its
records still count. -/
def clientCharges (now : Instant) (force : Candidate → Bool) (d : Dedup χ) (name : String)
    (c : Client χ) : List Int :=
  let s := d.sweepClient now force name c
  s.charges ++ if d.isDropped now c s.rest then s.rest.records.release else []

/-- Collects from all clients, in their order. -/
def sweep (now : Instant) (force : Candidate → Bool) (d : Dedup χ) : Sweep (Dedup χ) :=
  let swept := d.clients.toList.map fun e => d.sweepClient now force e.1 e.2
  let (clients, closed) := d.clients.filterMap fun name c =>
    let rest := (d.sweepClient now force name c).rest
    if d.isDropped now c rest then none else some rest
  { rest := { d with clients }
    charges := (d.clients.toList.flatMap fun e => d.clientCharges now force e.1 e.2) ++ closed
    evicted := total (·.evicted) swept
    offered := swept.flatMap (·.offered) }

/-- What is offered is what the caller is asked, client by client. -/
theorem sweep_offered (now : Instant) (force : Candidate → Bool) (d : Dedup χ) :
    (d.sweep now force).offered = d.clients.toList.flatMap fun e =>
      e.2.records.toList.filterMap fun x =>
        (e.2.decision now e.1 (e.2.isIdle d.settings.clientTtl now) force x.1 x.2).asked := by
  simp only [sweep, List.flatMap_map, sweepClient, Client.sweep_offered]

/-- A request that goes while memory is short. -/
def isOld (d : Dedup χ) (c : Candidate) : Bool := decide (d.settings.pressureMinAge ≤ c.age)

/-- One scheduled collection: a plain one, and while the budget is over its limit another that takes
completed requests of the minimum age as well. The two read the clock separately. -/
def collect (now later : Instant) (d : Dedup χ) (b : Budget) : Sweep (Dedup χ) :=
  let first := d.sweep now fun _ => false
  if (b.chargeAll first.charges).exceeded then
    let second := first.rest.sweep later first.rest.isOld
    { rest := second.rest
      charges := first.charges ++ second.charges
      evicted := first.evicted + second.evicted
      offered := second.offered }
  else first

end OnceOnly.Dedup
