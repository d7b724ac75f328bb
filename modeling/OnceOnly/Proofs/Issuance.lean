import Mathlib.Data.List.Induction
import OnceOnly.Proofs.Issuer

/-!
# What an issuer has issued, whatever it is asked

Numbers may be completed in any order, twice, or without having been issued. An operation that finds
no number left is refused and changes nothing.
-/

namespace OnceOnly.Issuer

open List

/-! ## Runs -/

inductive Op where
  | newSeq
  | newRequest
  | complete (seq : SeqNo)
deriving DecidableEq, Repr

/-- The operation asks for a number. -/
def Op.asks : Op → Bool
  | .newSeq => true
  | .newRequest => true
  | .complete _ => false

/-- What comes of an operation: the number that is issued, and the request that it is issued for. -/
structure Outcome where
  after : Issuer
  number : Option SeqNo
  request : Option RequestId

/-- An operation in its place in a run. -/
structure Event where
  before : Issuer
  op : Op

def Event.outcome (e : Event) : Outcome :=
  match e.op with
  | .newSeq =>
    match e.before.newSeq with
    | .ok (after, seq) => ⟨after, some seq, none⟩
    | .error _ => ⟨e.before, none, none⟩
  | .newRequest =>
    match e.before.newRequest with
    | .ok (after, id) => ⟨after, some id.seq, some id⟩
    | .error _ => ⟨e.before, none, none⟩
  | .complete seq => ⟨e.before.complete seq, none, none⟩

def events (i : Issuer) : List Op → List Event
  | [] => []
  | op :: ops => ⟨i, op⟩ :: events (Event.outcome ⟨i, op⟩).after ops

def run (i : Issuer) (ops : List Op) : Issuer :=
  ops.foldl (fun i op => (Event.outcome ⟨i, op⟩).after) i

theorem run_concat (i : Issuer) (ops : List Op) (op : Op) :
    i.run (ops ++ [op]) = (Event.outcome ⟨i.run ops, op⟩).after := by
  rw [run, foldl_append]
  rfl

theorem events_concat (i : Issuer) (ops : List Op) (op : Op) :
    i.events (ops ++ [op]) = i.events ops ++ [⟨i.run ops, op⟩] := by
  induction ops generalizing i with
  | nil => rfl
  | cons first ops ih => simp only [cons_append, events, run, foldl_cons, ih]

/-! ## What was issued, and what is awaited -/

/-- The numbers that were issued, in order. -/
def issued (es : List Event) : List SeqNo := es.filterMap fun e => e.outcome.number

/-- The number was issued, and these events came after that. -/
def IssuedBefore (es : List Event) (seq : SeqNo) (later : List Event) : Prop :=
  ∃ earlier e, es = earlier ++ e :: later ∧ e.outcome.number = some seq

/-- The number was issued and has not been completed since. -/
def Awaited (es : List Event) (seq : SeqNo) : Prop :=
  ∃ later, IssuedBefore es seq later ∧ ∀ e ∈ later, e.op ≠ .complete seq

theorem mem_issued {es : List Event} {seq : SeqNo} :
    seq ∈ issued es ↔ ∃ later, IssuedBefore es seq later := by
  simp only [issued, mem_filterMap]
  constructor
  · rintro ⟨e, he, hseq⟩
    obtain ⟨earlier, later, rfl⟩ := append_of_mem he
    exact ⟨later, earlier, e, rfl, hseq⟩
  · rintro ⟨later, earlier, e, rfl, hseq⟩
    exact ⟨e, by simp, hseq⟩

/-- The last event issues a number, or leaves it awaited. -/
theorem awaited_concat (es : List Event) (e : Event) (seq : SeqNo) :
    Awaited (es ++ [e]) seq ↔
      e.outcome.number = some seq ∨ (Awaited es seq ∧ e.op ≠ .complete seq) := by
  constructor
  · rintro ⟨later, ⟨earlier, e', hsplit, hseq⟩, hopen⟩
    rcases eq_nil_or_concat later with rfl | ⟨later, last, rfl⟩
    · obtain ⟨-, rfl⟩ := append_singleton_inj.mp hsplit
      exact .inl hseq
    · rw [concat_eq_append] at hsplit hopen
      rw [← cons_append, ← append_assoc] at hsplit
      obtain ⟨rfl, rfl⟩ := append_singleton_inj.mp hsplit
      refine .inr ⟨⟨later, ⟨earlier, e', rfl, hseq⟩, fun x hx => ?_⟩, ?_⟩
      · exact hopen x (mem_append_left _ hx)
      · exact hopen e (by simp)
  · rintro (hseq | ⟨⟨later, ⟨earlier, e', rfl, hseq⟩, hopen⟩, hlast⟩)
    · exact ⟨[], ⟨es, e, rfl, hseq⟩, by simp⟩
    · refine ⟨later ++ [e], ⟨earlier, e', by simp, hseq⟩, fun x hx => ?_⟩
      rcases mem_append.mp hx with hx | hx
      · exact hopen x hx
      · obtain rfl := mem_singleton.mp hx
        exact hlast

/-! ## One operation -/

/-- The greatest number that has a next one is the last to be issued. -/
def capacity : Nat := 9223372036854775807

/-- All that an operation can come to. -/
inductive Event.Came (e : Event) : Prop where
  | issued (hop : e.op.asks = true) (hseq : e.outcome.number = some e.before.next)
      (hnew : e.before.newSeq = .ok (e.outcome.after, e.before.next))
      (hnext : e.outcome.after.next.toInt = e.before.next.toInt + 1)
  | refused (hop : e.op.asks = true) (hseq : e.outcome.number = none)
      (hfull : e.before.next.toInt = capacity) (ha : e.outcome.after = e.before)
  | completed (seq : SeqNo) (hop : e.op = .complete seq) (hseq : e.outcome.number = none)
      (ha : e.outcome.after = e.before.complete seq)

/-- A request is issued with a number of its own. -/
theorem newRequest_eq (i : Issuer) : i.newRequest =
    i.newSeq.map fun issued => (issued.1, ⟨issued.1.client, issued.2, issued.1.firstIncomplete, 0⟩) :=
  rfl

theorem Valid.newSeq_cases {i : Issuer} (h : i.Valid) :
    (∃ i', i.newSeq = .ok (i', i.next) ∧ i'.next.toInt = i.next.toInt + 1) ∨
      (i.newSeq = .error .add ∧ i.next.toInt = capacity) := by
  have hmin : Int64.minValue.toInt ≤ 0 := by decide
  have hmax : Int64.maxValue.toInt = capacity := by decide
  have h0 : 0 ≤ i.next.toInt := Int64.le_iff_toInt_le.mp h.next
  have hle : i.next.toInt ≤ capacity := hmax ▸ i.next.toInt_le
  by_cases hfull : i.next.toInt = capacity
  · have hw : ¬ IsWord (i.next.toInt + 1) := by
      rw [IsWord]
      omega
    refine .inr ⟨?_, hfull⟩
    rw [Issuer.newSeq, wordOr, if_neg hw]
    rfl
  · have hw : IsWord (i.next.toInt + 1) := by
      rw [IsWord]
      omega
    refine .inl ⟨_, by rw [Issuer.newSeq, wordOr, if_pos hw]; rfl, ?_⟩
    simp only [capacity] at hle hfull
    exact Int64.toInt_ofInt_of_le (by omega) (by omega)

theorem Event.came {e : Event} (h : e.before.Valid) : e.Came := by
  obtain ⟨i, op⟩ := e
  have hcases := Valid.newSeq_cases h
  simp only at hcases
  cases op with
  | complete seq => exact .completed seq rfl rfl rfl
  | newSeq =>
      rcases hcases with ⟨i', hnew, hnext⟩ | ⟨hnew, hfull⟩
      · have ho : Event.outcome ⟨i, .newSeq⟩ = ⟨i', some i.next, none⟩ := by
          simp only [outcome, hnew]
        exact .issued rfl (by rw [ho]) (by rw [ho]; exact hnew) (by rw [ho]; exact hnext)
      · have ho : Event.outcome ⟨i, .newSeq⟩ = ⟨i, none, none⟩ := by simp only [outcome, hnew]
        exact .refused rfl (by rw [ho]) hfull (by rw [ho])
  | newRequest =>
      rcases hcases with ⟨i', hnew, hnext⟩ | ⟨hnew, hfull⟩
      · have ho : Event.outcome ⟨i, .newRequest⟩ =
            ⟨i', some i.next, some ⟨i'.client, i.next, i'.firstIncomplete, 0⟩⟩ := by
          simp only [outcome, newRequest_eq, hnew, Except.map]
        exact .issued rfl (by rw [ho]) (by rw [ho]; exact hnew) (by rw [ho]; exact hnext)
      · have ho : Event.outcome ⟨i, .newRequest⟩ = ⟨i, none, none⟩ := by
          simp only [outcome, newRequest_eq, hnew, Except.map]
        exact .refused rfl (by rw [ho]) hfull (by rw [ho])

/-- The least outstanding number never goes down. -/
theorem Event.firstIncomplete_le {e : Event} (h : e.before.Valid) :
    e.before.firstIncomplete ≤ e.outcome.after.firstIncomplete := by
  cases Event.came h with
  | issued _ _ hnew => exact Int64.le_of_eq (h.firstIncomplete_newSeq hnew).symm
  | refused _ _ _ ha => rw [ha]; exact Int64.le_refl _
  | completed seq _ _ ha => rw [ha]; exact h.firstIncomplete_le_complete seq

theorem Event.after_valid {e : Event} (h : e.before.Valid) : e.outcome.after.Valid := by
  cases Event.came h with
  | issued _ _ hnew => exact h.newSeq hnew
  | refused _ _ _ ha => rwa [ha]
  | completed seq _ _ ha => rw [ha]; exact h.complete seq

/-- A request travels with the least outstanding number, its own included. -/
theorem Event.request_mark {e : Event} (h : e.before.Valid) {id : RequestId}
    (hid : e.outcome.request = some id) : id.firstIncomplete ≤ id.seq ∧
      id.firstIncomplete = e.outcome.after.firstIncomplete := by
  obtain ⟨i, op⟩ := e
  cases op with
  | complete seq => simp [outcome] at hid
  | newSeq =>
      cases hn : i.newSeq <;> simp [outcome, hn] at hid
  | newRequest =>
      cases hn : i.newRequest with
      | error overflow => simp [outcome, hn] at hid
      | ok issued =>
          obtain ⟨after, id'⟩ := issued
          have ho : Event.outcome ⟨i, .newRequest⟩ = ⟨after, some id'.seq, some id'⟩ := by
            simp only [outcome, hn]
          rw [ho] at hid ⊢
          obtain rfl : id' = id := Option.some.inj hid
          obtain ⟨hnew, -, hmark⟩ := newRequest_ok hn
          obtain ⟨hseq, -, -, hout⟩ := newSeq_ok hnew
          have hown : after.outstanding.contains id'.seq = true := by
            rw [hout, SortedSet.contains_add]
            exact .inl hseq
          rw [hmark]
          exact ⟨(Valid.newSeq h hnew).firstIncomplete_le hown, rfl⟩

/-! ## Whole runs -/

theorem before_valid {i : Issuer} {ops : List Op} (h : i.Valid) {e : Event}
    (he : e ∈ i.events ops) : e.before.Valid := by
  induction ops generalizing i with
  | nil => simp [events] at he
  | cons op ops ih =>
      rcases mem_cons.mp he with rfl | he
      · exact h
      · exact ih (Event.after_valid h) he

/-- The issuer that is left when so many numbers were asked for. -/
structure Kept (es : List Event) (asked : Nat) (i : Issuer) : Prop where
  valid : i.Valid
  next : i.next.toInt = (min asked capacity : Nat)
  issued : (issued es).map Int64.toInt = (range (min asked capacity)).map Nat.cast
  outstanding (seq : SeqNo) : i.outstanding.contains seq = true ↔ Awaited es seq

theorem issued_concat (es : List Event) (e : Event) :
    issued (es ++ [e]) = issued es ++ e.outcome.number.toList := by
  cases h : e.outcome.number <;> simp [issued, h]

theorem Kept.event {es : List Event} {asked : Nat} {e : Event} (h : Kept es asked e.before) :
    Kept (es ++ [e]) (asked + if e.op.asks then 1 else 0) e.outcome.after := by
  have hnext := h.next
  have hvalid := Event.after_valid h.valid
  have hcomplete (hop : e.op.asks = true) (seq : SeqNo) : e.op ≠ .complete seq := by
    rintro he
    simp [he, Op.asks] at hop
  cases Event.came h.valid with
  | issued hop hseq hnew hmore =>
      obtain ⟨-, -, -, hout⟩ := newSeq_ok hnew
      -- The next number is a number too, so this one was below the greatest.
      have hle : e.outcome.after.next.toInt ≤ capacity :=
        e.outcome.after.next.toInt_le
      have hcount : min (asked + 1) capacity = min asked capacity + 1 := by omega
      refine ⟨hvalid, ?_, ?_, fun seq => ?_⟩
      · rw [if_pos hop, hcount, hmore, hnext]
        rfl
      · rw [issued_concat, hseq, if_pos hop, hcount, range_succ, map_append, map_append, h.issued]
        simp [hnext]
      · rw [awaited_concat, hseq, hout, SortedSet.contains_add, h.outstanding]
        simp [hcomplete hop, eq_comm]
  | refused hop hseq hfull ha =>
      have hcount : min (asked + 1) capacity = min asked capacity := by omega
      refine ⟨hvalid, ?_, ?_, fun seq => ?_⟩
      · rw [if_pos hop, hcount, ha, hnext]
      · rw [issued_concat, hseq, if_pos hop, hcount, ← h.issued]
        simp
      · rw [awaited_concat, hseq, ha, h.outstanding]
        simp [hcomplete hop]
  | completed done hop hseq ha =>
      refine ⟨hvalid, ?_, ?_, fun seq => ?_⟩
      · simpa [hop, Op.asks, ha, complete] using hnext
      · simpa [issued_concat, hseq, hop, Op.asks] using h.issued
      · rw [awaited_concat, hseq, ha, complete, SortedSet.contains_erase, h.outstanding, hop]
        simp [and_comm, eq_comm]

theorem kept_run (client : String) (ops : List Op) :
    Kept ((start client).events ops) (ops.countP Op.asks) ((start client).run ops) := by
  -- The last operation is taken off, not the first: what is awaited hangs on all that came before.
  induction ops using reverseRecOn with
  | nil =>
      refine ⟨start_valid client, rfl, rfl, fun seq => ?_⟩
      simp [start, run, events, SortedMap.contains, Awaited, IssuedBefore]
  | append_singleton ops op ih =>
      rw [events_concat, run_concat, countP_append, countP_singleton]
      exact ih.event

/-- Among the outstanding numbers the first incomplete one is the least; there is none when it is
the next one. -/
theorem firstIncomplete_cases (i : Issuer) : i.outstanding.contains i.firstIncomplete = true ∨
    (i.firstIncomplete = i.next ∧ ∀ seq, i.outstanding.contains seq = false) := by
  cases hk : i.outstanding.keys.head? with
  | none =>
      refine .inr ⟨by rw [firstIncomplete, hk, Option.getD_none], fun seq => ?_⟩
      rw [← Bool.not_eq_true, ← SortedMap.mem_keys, head?_eq_none_iff.mp hk]
      exact not_mem_nil
  | some least =>
      refine .inl ?_
      rw [firstIncomplete, hk, Option.getD_some]
      exact SortedMap.mem_keys.mp (mem_of_mem_head? hk)

theorem Kept.mem_issued {es : List Event} {asked : Nat} {i : Issuer} (h : Kept es asked i)
    {seq : SeqNo} (h0 : 0 ≤ seq) (hlt : seq < i.next) : seq ∈ Issuer.issued es := by
  have hrange : seq.toInt ∈ (Issuer.issued es).map Int64.toInt := by
    have h0 : 0 ≤ seq.toInt := Int64.le_iff_toInt_le.mp h0
    have hlt := Int64.lt_iff_toInt_lt.mp hlt
    rw [h.next] at hlt
    rw [h.issued]
    exact mem_map.mpr ⟨seq.toInt.toNat, mem_range.mpr (by omega), by omega⟩
  obtain ⟨seq', hseq, heq⟩ := mem_map.mp hrange
  rwa [← Int64.toInt_inj.mp heq]

/-- What an issuer has done, whatever it was asked. The numbers that it issued are 0, 1, 2 and so on
in this order, one for each time it was asked while there was one left. Outstanding are exactly the
numbers that were issued and have not been completed since. The first incomplete number is the least
of them, or the next to be issued when there is none; below it all were issued and then completed.
It never goes down, and every request travels with the one that holds right after it, which is not
above its own number. -/
theorem numbered (client : String) (ops : List Op) :
    let i := (start client).run ops
    let es := (start client).events ops
    (issued es).map Int64.toInt = (range (min (ops.countP Op.asks) capacity)).map Nat.cast ∧
    (∀ seq, i.outstanding.contains seq = true ↔ Awaited es seq) ∧
    (∀ seq, i.outstanding.contains seq = true →
      i.outstanding.contains i.firstIncomplete = true ∧ i.firstIncomplete ≤ seq) ∧
    ((∀ seq, i.outstanding.contains seq = false) →
      i.firstIncomplete.toInt = (issued es).length) ∧
    (∀ seq, 0 ≤ seq → seq < i.firstIncomplete →
      ∃ later, IssuedBefore es seq later ∧ ∃ e ∈ later, e.op = .complete seq) ∧
    ∀ e ∈ es, e.before.firstIncomplete ≤ e.outcome.after.firstIncomplete ∧
      ∀ id, e.outcome.request = some id →
        id.firstIncomplete ≤ id.seq ∧ id.firstIncomplete = e.outcome.after.firstIncomplete := by
  intro i es
  have hkept : Kept es (ops.countP Op.asks) i := kept_run client ops
  refine ⟨hkept.issued, hkept.outstanding, fun seq hs => ?_, fun hnone => ?_, ?_, fun e he => ?_⟩
  · refine ⟨?_, hkept.valid.firstIncomplete_le hs⟩
    rcases i.firstIncomplete_cases with hleast | ⟨-, hnone⟩
    · exact hleast
    · simp [hnone] at hs
  · have hlength := congrArg length hkept.issued
    rw [length_map, length_map, length_range] at hlength
    rcases i.firstIncomplete_cases with hleast | ⟨hnext, -⟩
    · simp [hnone] at hleast
    · rw [hnext, hkept.next, hlength]
  · intro seq h0 hlt
    have hnext := ((hkept.valid.le_firstIncomplete_iff _).mp (Int64.le_refl _)).1
    obtain ⟨later, hissued⟩ := mem_issued.mp (hkept.mem_issued h0 (Int64.lt_of_lt_of_le hlt hnext))
    refine ⟨later, hissued, ?_⟩
    -- A number that was not completed would be outstanding, and so not below.
    by_contra hopen
    have hs : i.outstanding.contains seq = true := by
      refine (hkept.outstanding seq).mpr ⟨later, hissued, fun e he hop => hopen ⟨e, he, hop⟩⟩
    exact Int64.not_lt.mpr (hkept.valid.firstIncomplete_le hs) hlt
  · have hvalid : e.before.Valid := before_valid (start_valid client) he
    exact ⟨Event.firstIncomplete_le hvalid, fun id hid => Event.request_mark hvalid hid⟩

end OnceOnly.Issuer
