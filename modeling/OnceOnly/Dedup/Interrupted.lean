import OnceOnly.Dedup.Sweep

/-!
Operations that are interrupted. A charge of an operation may overflow the budget; the operation
ends there and answers nobody. What it did before stays done, and the entries that it holds are
charged for what has become of them. `done` is everywhere the number of charges that went through
before the one that overflowed.
-/

namespace OnceOnly.Dedup

variable {χ : Type}

/-- What is left of an interrupted operation. -/
structure Remains (χ : Type) where
  dedup : Dedup χ
  /-- What is charged on the way out. -/
  settled : List Int
  /-- The collection that was finished before another was interrupted. -/
  finished : Option (Sweep (Dedup χ))

/-- Nothing is held any more. -/
def Remains.of (dedup : Dedup χ) : Remains χ := ⟨dedup, [], none⟩

/-- A client is held, and has become `c`. -/
def Remains.holding (d : Dedup χ) (name : String) (c : Client χ) : Remains χ :=
  let (clients, settled) := d.clients.update name c
  ⟨{ d with clients }, settled, none⟩

/-- An arrival that is interrupted: a client or a record that was to be new is counted by its map
and is not in it. -/
def trackUntil (done : Nat) (reachable : χ → Bool) (now : Instant) (d : Dedup χ) (id : RequestId)
    (context : χ) (takeOver : Bool) : Remains χ :=
  let (clients, opened) := d.clients.insertNew id.client (.start now)
  let counted : Dedup χ := { d with clients }
  let client := { (clients.get? id.client).getD (.start now) with lastHeard := now }
  let moved := client.advance id.client d.settings.stalePolicy id.firstIncomplete
  let entered := (moved.client.arrive reachable now id context takeOver).1
  let before := opened.length + moved.charges.length
  if done < opened.length then
    .of { d with clients := { d.clients with charged := clients.charged } }
  else if done < before then .holding counted id.client moved.client
  else if done < before + entered.charges.length then
    let records := moved.client.records
    .holding counted id.client
      (if records.contains id.seq then entered.client
      else { moved.client with
        records := { records with charged := entered.client.records.charged } })
  else .of (Remains.holding counted id.client entered.client).dedup

/-- A report that is interrupted: a record that was to go may still be there. -/
def reportUntil (done : Nat) (d : Dedup χ) (id : RequestId) (outcome : Outcome χ) : Remains χ :=
  match d.clients.get? id.client with
  | none => .of d
  | some c =>
    let change := (c.report id outcome).1
    let closed := Remains.holding d id.client change.client
    match c.records.get? id.seq with
    | none => .of closed.dedup
    | some r =>
      let (records, settled) := c.records.update id.seq (reportOn r id outcome).1
      if done < settled.length then .holding d id.client { c with records }
      else if done < change.charges.length then closed
      else .of closed.dedup

def completeUntil (done : Nat) (now : Instant) (d : Dedup χ) (id : RequestId) (response : Bytes) :
    Remains χ :=
  d.reportUntil done id (completion now id response)

def failUntil (done : Nat) (now : Instant) (d : Dedup χ) (id : RequestId) (status : ErrorStatus) :
    Remains χ :=
  d.reportUntil done id (failure now id status)

/-- The client at whose charges a collection was interrupted, and how many of them went through. -/
def interruptedAt (charges : String → Client χ → List Int) (done : Nat) :
    List (String × Client χ) → Option (String × Nat)
  | [] => none
  | (name, c) :: rest =>
    let own := (charges name c).length
    if done < own then some (name, done) else interruptedAt charges (done - own) rest

/-- A collection that is interrupted: the clients before the one it was at are done with, that one
is kept while its records are counted, and those after it are untouched. -/
def sweepUntil (done : Nat) (now : Instant) (force : Candidate → Bool) (d : Dedup χ) : Remains χ :=
  match interruptedAt (d.clientCharges now force) done d.clients.toList with
  | none => .of (d.sweep now force).rest
  | some (last, counted) =>
    let map := d.clients.map.filterMap fun name c =>
      let rest := (d.sweepClient now force name c).rest
      if last < name then some c
      else if d.isDropped now c rest ∧ (name < last ∨ 0 < counted) then none
      else some rest
    .of { d with clients := { d.clients with map } }

/-- A scheduled collection that is interrupted, in its first pass or in its second. -/
def collectUntil (done : Nat) (now later : Instant) (d : Dedup χ) : Remains χ :=
  let first := d.sweep now fun _ => false
  if done < first.charges.length then d.sweepUntil done now fun _ => false
  else { first.rest.sweepUntil (done - first.charges.length) later first.rest.isOld with
    finished := some first }

end OnceOnly.Dedup
