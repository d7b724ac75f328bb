import OnceOnly.Proofs.Charges
import OnceOnly.Proofs.Run
import OnceOnly.Scenario.World

/-! # Metering: a budget that one memory of requests charges alone counts exactly what is there -/

namespace OnceOnly.Dedup

open List

variable {χ : Type}

/-! ## What one client charges for its records -/

namespace Client

theorem advance_booked (name : String) (policy : StalePolicy) (c : Client χ) (mark : SeqNo) :
    c.records.Booked (c.advance name policy mark).charges
      (c.advance name policy mark).client.records := by
  simp only [advance]
  split
  · exact ChargedMap.Booked.refl c.records
  · exact c.records.filterMap_booked fun seq r =>
      if isReleased policy mark seq r then none else some (settled mark seq r)

theorem arrive_booked (reachable : χ → Bool) (now : Instant) (c : Client χ) (id : RequestId)
    (context : χ) (takeOver : Bool) :
    c.records.Booked (c.arrive reachable now id context takeOver).1.charges
      (c.arrive reachable now id context takeOver).1.client.records := by
  simp only [arrive]
  split
  · exact c.records.update_booked _ _
  · split
    · exact ChargedMap.Booked.refl c.records
    · exact c.records.insert_booked _ _

/-- Also when the report is rejected. -/
theorem report_booked (c : Client χ) (id : RequestId) (outcome : Outcome χ) :
    c.records.Booked (c.report id outcome).1.charges (c.report id outcome).1.client.records := by
  cases hr : c.records.get? id.seq with
  | none => simpa only [report, hr] using ChargedMap.Booked.refl c.records
  | some r =>
      have hu := c.records.update_booked id.seq (reportOn r id outcome).1
      simp only [report, hr]
      split
      · exact hu.trans (ChargedMap.erase_booked _ _)
      · simpa using hu

theorem sweep_booked (now : Instant) (name : String) (idle : Bool) (force : Candidate → Bool)
    (c : Client χ) : c.records.Booked (c.sweep now name idle force).charges
      (c.sweep now name idle force).rest.records :=
  c.records.filterMap_booked fun seq r =>
    if c.isEvicted now name idle force seq r then none else some r

end Client

/-! ## What is there -/

/-- All that a memory takes up: the name and the state of every client, and the number and the
record of every request. -/
def bytes (d : Dedup χ) : Nat :=
  total (fun c => footprint c.1 + footprint c.2 +
    total (fun r => footprint r.1 + footprint r.2) c.2.records.toList) d.clients.toList

/-- The clients' part and the records' part. -/
theorem bytes_eq (d : Dedup χ) :
    (d.bytes : Int) = d.clients.bytes + balance (fun c => c.2.records.bytes) d.clients.toList := by
  simp only [bytes, total_eq_balance, ChargedMap.bytes, ChargedMap.bytesOf,
    ChargedMap.entryFootprint, Int.natCast_add, ← balance_add]

theorem bytes_of_isEmpty {d : Dedup χ} (h : d.clients.isEmpty = true) : d.bytes = 0 := by
  have hl : d.clients.toList = [] := (SortedMap.isEmpty_iff d.clients.map).mp h
  simp [bytes, hl, total]

/-- Every client's records are counted right. -/
def Counted (d : Dedup χ) : Prop :=
  ∀ name c, d.clients.get? name = some c → c.records.Balanced

/-- What the charges of an operation come to is what changes in the memory. -/
structure Metes (d : Dedup χ) (charges : List Int) (d' : Dedup χ) : Prop where
  bytes_eq : (d'.bytes : Int) = d.bytes + net charges
  counted : d'.Counted

theorem Metes.trans {d d' d'' : Dedup χ} {charges charges' : List Int} (h : Metes d charges d')
    (h' : Metes d' charges' d'') : Metes d (charges ++ charges') d'' := by
  refine ⟨?_, h'.counted⟩
  rw [h'.bytes_eq, h.bytes_eq, net_append, Int.add_assoc]

/-- A client that is new has no records yet. -/
theorem Counted.insertNew {d : Dedup χ} (hd : d.Counted) (name : String) (now : Instant) :
    Metes d (d.clients.insertNew name (.start now)).2
      { d with clients := (d.clients.insertNew name (.start now)).1 } := by
  refine ⟨?_, ?_⟩
  · have hclients := (d.clients.insertNew_booked name (.start now)).bytes_eq
    have hnew := d.clients.balance_insertNew (fun c => c.2.records.bytes) name (.start now)
    have hold := d.clients.balance_toList (fun c => c.2.records.bytes) name
    have hstart : (Client.start now : Client χ).records.bytes = 0 := rfl
    simp only [Dedup.bytes_eq]
    cases hc : d.clients.get? name with
    | none =>
        simp only [hc, Option.map_none, Option.getD_none, hstart] at hold hnew
        omega
    | some c =>
        simp only [hc, Option.map_some, Option.getD_some] at hold hnew
        omega
  · intro other c hc
    rw [ChargedMap.get?_insertNew] at hc
    split at hc
    · obtain rfl := Option.some.inj hc
      cases hg : d.clients.get? name with
      | none => exact ChargedMap.empty_balanced
      | some c => exact hd name c hg
    · exact hd other c hc

/-- What becomes of a client is charged for, and so is what becomes of its records. -/
theorem Counted.update {d : Dedup χ} (hd : d.Counted) {name : String} {c c' : Client χ}
    {charges : List Int} (hc : d.clients.get? name = some c)
    (hr : c.records.Booked charges c'.records) :
    Metes d (charges ++ (d.clients.update name c').2)
      { d with clients := (d.clients.update name c').1 } := by
  refine ⟨?_, ?_⟩
  · have hclients := (d.clients.update_booked name c').bytes_eq
    have hnew := ChargedMap.balance_update (fun c => c.2.records.bytes) hc c'
    have hold := d.clients.balance_toList (fun c => c.2.records.bytes) name
    have hrecords := hr.bytes_eq
    simp only [hc, Option.map_some, Option.getD_some] at hold hnew
    simp only [Dedup.bytes_eq, net_append]
    omega
  · intro other c₀ hc₀
    rw [ChargedMap.get?_update] at hc₀
    split at hc₀
    · rw [hc] at hc₀
      obtain rfl := Option.some.inj hc₀
      exact hr.balanced (hd name c hc)
    · exact hd other c₀ hc₀

/-- An arrival at a client that is new is charged for the client as well. -/
theorem Counted.track {d : Dedup χ} (hd : d.Counted) (reachable : χ → Bool) (now : Instant)
    (id : RequestId) (context : χ) (takeOver : Bool) :
    Metes d (track reachable now d id context takeOver).charges
      (track reachable now d id context takeOver).dedup := by
  have hopened := hd.insertNew id.client now
  have hclient : (d.clients.insertNew id.client (.start now)).1.get? id.client =
      some ((d.clients.get? id.client).getD (.start now)) := by
    simp [ChargedMap.get?_insertNew]
  have hmoved : ((d.clients.get? id.client).getD (.start now)).records.Booked
      (d.moved now id).charges (d.moved now id).client.records :=
    Client.advance_booked _ _ (d.heard now id.client) _
  have hentered := (d.moved now id).client.arrive_booked reachable now id context takeOver
  have hclosed := hopened.counted.update hclient (hmoved.trans hentered)
  simpa only [track_eq, append_assoc] using hopened.trans hclosed

/-- Also when the report is rejected, and when it is a mistake of the caller's. -/
theorem Counted.report {d : Dedup χ} (hd : d.Counted) (id : RequestId) (outcome : Outcome χ) :
    Metes d (d.report id outcome).charges (d.report id outcome).dedup := by
  cases hc : d.clients.get? id.client with
  | none => simpa only [Dedup.report, hc] using ⟨by simp, hd⟩
  | some c => simpa only [Dedup.report, hc] using hd.update hc (c.report_booked id outcome)

/-- What one client's records take up is gone or left after a pass, and charged for: a client goes
with its records, of which none is left by then. -/
theorem Counted.keep {p : Pass χ} (hd : p.before.Counted) {name : String} {c : Client χ}
    (hc : p.before.clients.get? name = some c) :
    ((p.keep name c).map fun c => c.records.bytes).getD 0 =
      c.records.bytes + net (p.before.clientCharges p.now p.force name c) := by
  have hs : c.records.Booked (p.before.sweepClient p.now p.force name c).charges
      (p.before.sweepClient p.now p.force name c).rest.records := Client.sweep_booked _ _ _ _ _
  have hb := hs.bytes_eq
  by_cases hdrop : p.before.isDropped p.now c (p.before.sweepClient p.now p.force name c).rest
  · have hempty : (p.before.sweepClient p.now p.force name c).rest.records.isEmpty = true := by
      simp only [isDropped, Client.isGone, Bool.and_eq_true] at hdrop
      exact hdrop.1.2
    have hzero := ChargedMap.bytes_of_isEmpty hempty
    have hbalanced : ChargedMap.Balanced _ := hs.balanced (hd name c hc)
    rw [ChargedMap.Balanced] at hbalanced
    simp only [Pass.keep, clientCharges, hdrop, ite_true, Option.map_none, Option.getD_none,
      ChargedMap.release, net_append, net_cons, net_nil]
    omega
  · simp only [Pass.keep, clientCharges, hdrop, Bool.false_eq_true, ite_false, Option.map_some,
      Option.getD_some, net_append, net_nil]
    omega

theorem Counted.pass {p : Pass χ} (hd : p.before.Counted) :
    Metes p.before (p.before.sweep p.now p.force).charges p.after := by
  refine ⟨?_, ?_⟩
  · have hclients : p.before.clients.Booked (p.before.clients.filterMap p.keep).2 p.after.clients :=
      ChargedMap.filterMap_booked _ _
    have hrecords : balance (fun c => c.2.records.bytes) p.after.clients.toList =
        balance (fun c => c.2.records.bytes) p.before.clients.toList +
          net (p.before.clients.toList.flatMap fun e =>
            p.before.clientCharges p.now p.force e.1 e.2) := by
      rw [Pass.after_clients, ChargedMap.toList_filterMap, balance_filterMap, net, balance_flatMap,
        ← balance_add]
      refine balance_congr fun e he => ?_
      have hk := hd.keep (ChargedMap.mem_toList_iff.mp he)
      rw [← net, ← hk]
      cases p.keep e.1 e.2 <;> rfl
    have hcharges : (p.before.sweep p.now p.force).charges =
        (p.before.clients.toList.flatMap fun e =>
          p.before.clientCharges p.now p.force e.1 e.2) ++
          (p.before.clients.filterMap p.keep).2 := rfl
    have hc := hclients.bytes_eq
    rw [hcharges, Dedup.bytes_eq, Dedup.bytes_eq, net_append]
    omega
  · intro name c' hc'
    cases p.swept name with
    | unknown _ ha => simp [ha] at hc'
    | dropped _ ha => simp [ha] at hc'
    | kept hb ha =>
        obtain rfl := Option.some.inj (ha.symm.trans hc')
        exact (Client.sweep_booked _ _ _ _ _).balanced (hd name _ hb)

theorem Counted.sweep {d : Dedup χ} (hd : d.Counted) (now : Instant) (force : Candidate → Bool) :
    Metes d (Dedup.sweep now force d).charges (Dedup.sweep now force d).rest :=
  Counted.pass (p := ⟨d, now, force⟩) hd

theorem Counted.apply {d : Dedup χ} (hd : d.Counted) (op : Op χ) :
    Metes d (d.apply op).charges (d.apply op).dedup := by
  have hreport {id : RequestId} {outcome : Outcome χ} (hop : op.report? = some (id, outcome)) :
      Metes d (d.apply op).charges (d.apply op).dedup := by
    simpa only [d.apply_report hop, Effect.map] using hd.report id outcome
  cases op with
  | track reachable now id context takeOver =>
      simpa only [Dedup.apply, Effect.map] using hd.track reachable now id context takeOver
  | complete => exact hreport rfl
  | fail => exact hreport rfl
  | sweep now force =>
      simpa only [Dedup.apply, Sweep.effect] using hd.sweep now force
  | collect now later budget =>
      have hfirst := hd.sweep now fun _ => false
      simp only [Dedup.apply, Sweep.effect, collect]
      split
      · exact hfirst.trans (hfirst.counted.sweep later _)
      · exact hfirst

end OnceOnly.Dedup

namespace OnceOnly.Scenario

open List

/-- Where words hold every count, all charges go through and the budget is left with them. -/
theorem World.charge_eq {w : World} {place : Nat} {b : Budget} {charges : List Int}
    (hb : w.budgets[place]? = some b) (hp : b.Peaked) (hw : InWords b.consumption charges) :
    (w.charge place charges).2 = none ∧
      (w.charge place charges).1.budgets[place]? = some (b.chargeAll charges) := by
  induction charges generalizing w b with
  | nil => exact ⟨rfl, hb⟩
  | cons bytes charges ih =>
      obtain ⟨hfirst, hrest⟩ := inWords_cons.mp hw
      have hlt : place < w.budgets.length := (List.getElem?_eq_some_iff.mp hb).1
      have hone : (w.chargeOne place bytes).2 = false ∧
          (w.chargeOne place bytes).1.budgets[place]? = some (b.charge bytes) := by
        simp [chargeOne, hb, hp.charge?_eq hfirst, getElem?_set_self hlt]
      obtain ⟨hdone, hnext⟩ := ih hone.2 (Budget.Peaked.charge bytes) hrest
      rw [World.charge]
      generalize w.chargeOne place bytes = step at hone hdone hnext
      obtain ⟨w', overflowed⟩ := step
      obtain rfl : overflowed = false := hone.1
      exact ⟨by simp [hdone], hnext⟩

end OnceOnly.Scenario

namespace OnceOnly.Dedup

open List

variable {χ : Type}

/-! ## A memory and its own budget -/

/-- A memory of requests with the budget that it alone charges. -/
structure Metered (χ : Type) where
  dedup : Dedup χ
  budget : Budget

namespace Metered

def start (settings : DedupSettings) (id : String) (limit : Option Int) : Metered χ :=
  ⟨.start settings, .ofLimit id limit⟩

/-- What an operation comes to. A scheduled collection goes by the memory's own budget. -/
def effect (m : Metered χ) : Op χ → Effect χ Result
  | .collect now later _ => m.dedup.apply (.collect now later m.budget)
  | op => m.dedup.apply op

def apply (m : Metered χ) (op : Op χ) : Metered χ :=
  ⟨(m.effect op).dedup, m.budget.chargeAll (m.effect op).charges⟩

def run (m : Metered χ) (ops : List (Op χ)) : Metered χ := ops.foldl apply m

/-- What the budget counts is what is there. -/
structure Exact (m : Metered χ) : Prop where
  consumption_eq : m.budget.consumption = m.dedup.bytes
  counted : m.dedup.Counted
  peaked : m.budget.Peaked

theorem start_exact (settings : DedupSettings) (id : String) (limit : Option Int) :
    (start settings id limit : Metered χ).Exact where
  consumption_eq := rfl
  counted name c hc := by simp [start, Dedup.start] at hc
  peaked := Budget.ofLimit_peaked id limit

theorem Exact.effect_metes {m : Metered χ} (h : m.Exact) (op : Op χ) :
    Metes m.dedup (m.effect op).charges (m.effect op).dedup := by
  cases op <;> exact h.counted.apply _

theorem Exact.apply {m : Metered χ} (h : m.Exact) (op : Op χ) : (m.apply op).Exact := by
  have hm := h.effect_metes op
  refine ⟨?_, hm.counted, h.peaked.chargeAll _⟩
  rw [Metered.apply, Budget.chargeAll_consumption, hm.bytes_eq, h.consumption_eq]

theorem Exact.run {m : Metered χ} (h : m.Exact) (ops : List (Op χ)) : (m.run ops).Exact := by
  induction ops generalizing m with
  | nil => exact h
  | cons op ops ih => exact ih (h.apply op)

/-- After any operations, also reports that are rejected or mistaken, the budget counts the bytes of
all clients and records, and none when there is no client. The charges of the next operation go
through one by one and lead to the budget after it, as long as words hold the counts on the way. -/
theorem consumption_exact (settings : DedupSettings) (id : String) (limit : Option Int)
    (ops : List (Op χ)) :
    let m := (start settings id limit).run ops
    m.budget.consumption = m.dedup.bytes ∧ 0 ≤ m.budget.consumption ∧
      (m.dedup.clients.isEmpty = true → m.budget.consumption = 0) ∧
      ∀ (w : Scenario.World) (place : Nat) (op : Op χ), w.budgets[place]? = some m.budget →
        InWords m.budget.consumption (m.effect op).charges →
          (w.charge place (m.effect op).charges).2 = none ∧
            (w.charge place (m.effect op).charges).1.budgets[place]? =
              some (m.apply op).budget := by
  intro m
  have h : m.Exact := (start_exact settings id limit).run ops
  refine ⟨h.consumption_eq, ?_, ?_, ?_⟩
  · rw [h.consumption_eq]
    exact Int.natCast_nonneg _
  · intro he
    rw [h.consumption_eq, bytes_of_isEmpty he, Int.natCast_zero]
  · intro w place op hb hw
    exact Scenario.World.charge_eq hb h.peaked hw

/-- A call that is completed, and answered from the cache when it comes again; a report that comes
too late. -/
def cachedCall : List (Op Nat) :=
  [.track (fun _ => true) ⟨0⟩ ⟨"c", 0, 0, 0⟩ 7 false, .complete ⟨1⟩ ⟨"c", 0, 0, 0⟩ [4, 2],
    .track (fun _ => true) ⟨2⟩ ⟨"c", 0, 0, 1⟩ 8 true,
    .fail ⟨3⟩ ⟨"c", 0, 0, 0⟩ (.plain .requestStale "")]

/-- What operations leave in a memory that is new and lets its clients go at once. -/
def leftBy (ops : List (Op Nat)) : Metered Nat :=
  (start ⟨1000, 0, 10000, none, .alwaysComplete⟩ "b" none).run ops

def collectAll : Op Nat := .sweep ⟨4⟩ fun _ => false

/-- The response is charged for, and given back when the client is collected. -/
theorem consumption_exact_cached :
    let w : Scenario.World := { Scenario.World.start with budgets := [(leftBy cachedCall).budget] }
    (leftBy cachedCall).budget.consumption = 211 ∧ (leftBy cachedCall).dedup.bytes = 211 ∧
      InWords 211 ((leftBy cachedCall).effect collectAll).charges ∧
      (w.charge 0 ((leftBy cachedCall).effect collectAll).charges).1.budgets[0]? =
        some ((leftBy cachedCall).apply collectAll).budget ∧
      (leftBy (cachedCall ++ [collectAll])).dedup.clients.isEmpty = true ∧
      (leftBy (cachedCall ++ [collectAll])).budget.consumption = 0 := by
  intro w
  have h := consumption_exact ⟨1000, 0, 10000, none, .alwaysComplete⟩ "b" none cachedCall
  have hswept := consumption_exact ⟨1000, 0, 10000, none, .alwaysComplete⟩ "b" none
    (cachedCall ++ [collectAll])
  have hm : (leftBy cachedCall).budget.consumption = 211 := by decide +kernel
  have hw : InWords 211 ((leftBy cachedCall).effect collectAll).charges := by decide +kernel
  have hempty : (leftBy (cachedCall ++ [collectAll])).dedup.clients.isEmpty = true := by
    decide +kernel
  refine ⟨hm, ?_, hw, ?_, hempty, hswept.2.2.1 hempty⟩
  · exact Int.ofNat_inj.mp (h.1.symm.trans hm)
  · exact (h.2.2.2 w 0 collectAll getElem?_cons_zero (hm ▸ hw)).2

end Metered

end OnceOnly.Dedup
