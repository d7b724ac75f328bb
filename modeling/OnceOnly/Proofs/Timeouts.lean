import Mathlib.Data.List.Basic
import OnceOnly.Call.Registry
import OnceOnly.Proofs.SortedMap

/-!
# Calls by deadline: what is taken out when it is due

The deadlines are kept by key in a queue that is only known to take out an earliest one, whichever
of several. The calls are kept beside it under the same keys.
-/

namespace OnceOnly

open List

theorem Instant.le_trans {a b c : Instant} (h : a ≤ b) (h' : b ≤ c) : a ≤ c :=
  Int.le_trans (a := a.nanos) h h'

/-- A queue of keyed deadlines, by the entries that it holds. -/
structure DeadlineHeap (η : Type) where
  entries : η → List (Nat × Instant)
  empty : η
  push : η → Nat → Instant → η
  peek? : η → Option (Nat × Instant)
  pop? : η → Option ((Nat × Instant) × η)
  entries_empty : entries empty = []
  entries_push {s : η} {key : Nat} (due : Instant) : key ∉ (entries s).map (·.1) →
    entries (push s key due) ~ (key, due) :: entries s
  peek?_eq_none {s : η} : peek? s = none → entries s = []
  peek?_eq_some {s : η} {e : Nat × Instant} : peek? s = some e →
    e ∈ entries s ∧ ∀ e' ∈ entries s, e.2 ≤ e'.2
  pop?_eq_none {s : η} : pop? s = none → entries s = []
  pop?_eq_some {s s' : η} {e : Nat × Instant} : pop? s = some (e, s') →
    entries s ~ e :: entries s' ∧ ∀ e' ∈ entries s, e.2 ≤ e'.2

/-- Calls that wait for their deadlines. No key is given twice. -/
structure Timeouts (η : Type) where
  nextKey : Nat
  heap : η
  calls : SortedMap Nat CallRef

namespace Timeouts

variable {η : Type} (H : DeadlineHeap η)

def empty : Timeouts η := ⟨0, H.empty, ∅⟩

def schedule (q : Timeouts η) (due : Instant) (ref : CallRef) : Timeouts η :=
  ⟨q.nextKey + 1, H.push q.heap q.nextKey due, q.calls.insert q.nextKey ref⟩

/-- Takes out what is due at `now`, entry by entry: the calls of those entries that are alive, and
the queue without them. -/
def takeDue (now : Instant) (isAlive : CallRef → Bool) (q : Timeouts η) :
    List CallRef × Timeouts η :=
  if (H.peek? q.heap).any fun e => decide (e.2 ≤ now) then
    match _hpop : H.pop? q.heap with
    | none => ([], q)
    | some (e, heap) =>
      let (due, q') := takeDue now isAlive { q with heap, calls := q.calls.erase e.1 }
      (((q.calls.get? e.1).filter isAlive).toList ++ due, q')
  else ([], q)
termination_by (H.entries q.heap).length
decreasing_by
  have hlength := (H.pop?_eq_some _hpop).1.length_eq
  simp only [length_cons] at hlength
  omega

/-! ## Queue and calls stay in step -/

/-- Every entry has its call under its key, and no call is without an entry. -/
structure InStep (q : Timeouts η) : Prop where
  nodup : ((H.entries q.heap).map (·.1)).Nodup
  below {key : Nat} : key ∈ (H.entries q.heap).map (·.1) → key < q.nextKey
  contains_iff (key : Nat) :
    q.calls.contains key = true ↔ key ∈ (H.entries q.heap).map (·.1)

theorem empty_inStep : (empty H).InStep H where
  nodup := by simp [empty, H.entries_empty]
  below h := by simp [empty, H.entries_empty] at h
  contains_iff key := by simp [empty, H.entries_empty, SortedMap.contains]

variable {H} {q : Timeouts η}

theorem InStep.schedule (h : q.InStep H) (due : Instant) (ref : CallRef) :
    (q.schedule H due ref).InStep H := by
  have hnew : q.nextKey ∉ (H.entries q.heap).map (·.1) := fun hm => Nat.lt_irrefl _ (h.below hm)
  have hperm := (H.entries_push due hnew).map (·.1)
  refine ⟨hperm.nodup_iff.mpr (nodup_cons.mpr ⟨hnew, h.nodup⟩), fun {key} hm => ?_, fun key => ?_⟩
  · rcases mem_cons.mp (hperm.mem_iff.mp hm) with rfl | hm
    · exact Nat.lt_succ_self _
    · exact Nat.lt_succ_of_lt (h.below hm)
  · refine Iff.trans ?_ (hperm.mem_iff.trans mem_cons).symm
    rw [← h.contains_iff, SortedMap.contains, Timeouts.schedule, SortedMap.get?_insert]
    split
    · simp_all
    · simp_all [SortedMap.contains]

/-- The queue once an entry has been taken out. -/
theorem InStep.pop {heap : η} {e : Nat × Instant} (h : q.InStep H)
    (hpop : H.pop? q.heap = some (e, heap)) :
    InStep H { q with heap, calls := q.calls.erase e.1 } := by
  have hperm := (H.pop?_eq_some hpop).1.map (·.1)
  have hnodup := hperm.nodup_iff.mp h.nodup
  obtain ⟨hnew, hrest⟩ := nodup_cons.mp hnodup
  refine ⟨hrest, fun {key} hm => h.below (hperm.mem_iff.mpr (mem_cons_of_mem _ hm)), fun key => ?_⟩
  have hkey := (h.contains_iff key).trans (hperm.mem_iff.trans mem_cons)
  rw [SortedMap.contains, SortedMap.get?_erase]
  split
  · rename_i he
    simp [he, hnew]
  · rename_i hne
    simpa [SortedMap.contains, hne] using hkey

/-! ## Taking out what is due -/

/-- What taking out comes to, by the entries that were taken, in their order. -/
structure Taken (H : DeadlineHeap η) (now : Instant) (isAlive : CallRef → Bool) (q : Timeouts η)
    (taken : List (Nat × Instant)) (due : List CallRef) (q' : Timeouts η) : Prop where
  perm : H.entries q.heap ~ taken ++ H.entries q'.heap
  reached : ∀ e ∈ taken, e.2 ≤ now
  late : ∀ e ∈ H.entries q'.heap, ¬ e.2 ≤ now
  ordered : taken.Pairwise fun a b => a.2 ≤ b.2
  due_eq : due = taken.filterMap fun e => (q.calls.get? e.1).filter isAlive
  inStep : q'.InStep H
  get?_eq {key : Nat} : key ∈ (H.entries q'.heap).map (·.1) →
    q'.calls.get? key = q.calls.get? key

variable {now : Instant} {isAlive : CallRef → Bool}

theorem Taken.nothing (h : q.InStep H) (hlate : ∀ e ∈ H.entries q.heap, ¬ e.2 ≤ now) :
    Taken H now isAlive q [] [] q where
  perm := .refl _
  reached e he := by simp at he
  late := hlate
  ordered := .nil
  due_eq := rfl
  inStep := h
  get?_eq _ := rfl

/-- An earliest entry, then the others. -/
theorem Taken.pop {heap : η} {e : Nat × Instant} {taken : List (Nat × Instant)}
    {due : List CallRef} {q' : Timeouts η} (h : q.InStep H)
    (hpop : H.pop? q.heap = some (e, heap)) (hdue : e.2 ≤ now)
    (ht : Taken H now isAlive { q with heap, calls := q.calls.erase e.1 } taken due q') :
    Taken H now isAlive q (e :: taken) (((q.calls.get? e.1).filter isAlive).toList ++ due) q' := by
  obtain ⟨hperm, hleast⟩ := H.pop?_eq_some hpop
  have hnew : e.1 ∉ (H.entries heap).map (·.1) :=
    (nodup_cons.mp ((hperm.map (·.1)).nodup_iff.mp h.nodup)).1
  have hmem {e' : Nat × Instant} (he' : e' ∈ taken ++ H.entries q'.heap) : e' ∈ H.entries heap :=
    ht.perm.mem_iff.mpr he'
  have hget {key : Nat} (hk : key ∈ (H.entries heap).map (·.1)) :
      (q.calls.erase e.1).get? key = q.calls.get? key := by
    rw [SortedMap.get?_erase, if_neg]
    rintro rfl
    exact hnew hk
  refine ⟨?_, ?_, ht.late, ?_, ?_, ht.inStep, fun {key} hk => ?_⟩
  · exact hperm.trans (ht.perm.cons e)
  · intro e' he'
    rcases mem_cons.mp he' with rfl | he'
    · exact hdue
    · exact ht.reached e' he'
  · refine pairwise_cons.mpr ⟨fun e' he' => hleast e' ?_, ht.ordered⟩
    exact hperm.mem_iff.mpr (mem_cons_of_mem _ (hmem (mem_append_left _ he')))
  · have hsame : taken.filterMap (fun e' => ((q.calls.erase e.1).get? e'.1).filter isAlive) =
        taken.filterMap fun e' => (q.calls.get? e'.1).filter isAlive :=
      filterMap_congr fun e' he' => by
        rw [hget (mem_map_of_mem (hmem (mem_append_left _ he')))]
    rw [ht.due_eq, hsame, filterMap_cons]
    cases (q.calls.get? e.1).filter isAlive with
    | none => rfl
    | some ref => rfl
  · rw [ht.get?_eq hk]
    obtain ⟨e', he', rfl⟩ := mem_map.mp hk
    exact hget (mem_map_of_mem (hmem (mem_append_right _ he')))

theorem InStep.takeDue (h : q.InStep H) (now : Instant) (isAlive : CallRef → Bool) :
    ∃ taken, Taken H now isAlive q taken
      (q.takeDue H now isAlive).1 (q.takeDue H now isAlive).2 := by
  fun_induction Timeouts.takeDue H now isAlive q with
  | case1 q hany hpop =>
      refine ⟨[], .nothing h fun e he => ?_⟩
      simp [H.pop?_eq_none hpop] at he
  | case2 q hany e heap hpop due q' hrest ih =>
      obtain ⟨taken, ht⟩ := ih (h.pop hpop)
      rw [hrest] at ht
      obtain ⟨p, hp, hle⟩ : ∃ p, H.peek? q.heap = some p ∧ p.2 ≤ now := by
        simpa [Option.any_eq_true] using hany
      have hdue := Instant.le_trans ((H.pop?_eq_some hpop).2 p (H.peek?_eq_some hp).1) hle
      exact ⟨e :: taken, ht.pop h hpop hdue⟩
  | case3 q hnot =>
      refine ⟨[], .nothing h fun e he hle => hnot ?_⟩
      cases hp : H.peek? q.heap with
      | none => simp [H.peek?_eq_none hp] at he
      | some p =>
          have hfirst := Instant.le_trans ((H.peek?_eq_some hp).2 e he) hle
          simpa using hfirst

section Taken

variable {taken : List (Nat × Instant)} {due : List CallRef} {q' : Timeouts η}

/-- Exactly the entries that are not due are left. -/
theorem Taken.entries_perm (ht : Taken H now isAlive q taken due q') :
    H.entries q'.heap ~ (H.entries q.heap).filter fun e => !decide (e.2 ≤ now) := by
  have hdue : taken.filter (fun e => !decide (e.2 ≤ now)) = [] :=
    filter_eq_nil_iff.mpr fun e he => by simpa using ht.reached e he
  have hlate : (H.entries q'.heap).filter (fun e => !decide (e.2 ≤ now)) = H.entries q'.heap :=
    filter_eq_self.mpr fun e he => by simpa using ht.late e he
  have hperm := ht.perm.filter fun e => !decide (e.2 ≤ now)
  rw [filter_append, hdue, hlate, nil_append] at hperm
  exact hperm.symm

/-- Their calls are left with them. -/
theorem Taken.get?_iff (ht : Taken H now isAlive q taken due q') {key : Nat} {ref : CallRef} :
    q'.calls.get? key = some ref ↔
      q.calls.get? key = some ref ∧ key ∈ (H.entries q'.heap).map (·.1) := by
  constructor
  · intro hget
    have hkey : key ∈ (H.entries q'.heap).map (·.1) :=
      (ht.inStep.contains_iff key).mp (by simp [SortedMap.contains, hget])
    exact ⟨ht.get?_eq hkey ▸ hget, hkey⟩
  · rintro ⟨hget, hkey⟩
    exact (ht.get?_eq hkey).trans hget

theorem Taken.mem_due_iff (ht : Taken H now isAlive q taken due q') (ref : CallRef) :
    ref ∈ due ↔ isAlive ref = true ∧
      ∃ e ∈ H.entries q.heap, e.2 ≤ now ∧ q.calls.get? e.1 = some ref := by
  simp only [ht.due_eq, mem_filterMap, Option.filter_eq_some_iff]
  constructor
  · rintro ⟨e, he, hget, halive⟩
    exact ⟨halive, e, ht.perm.mem_iff.mpr (mem_append_left _ he), ht.reached e he, hget⟩
  · rintro ⟨halive, e, he, hle, hget⟩
    have htaken : e ∈ taken :=
      (mem_append.mp (ht.perm.mem_iff.mp he)).resolve_right fun hm => ht.late e hm hle
    exact ⟨e, htaken, hget, halive⟩

end Taken

/-! ## Entries and the deadlines of their calls -/

/-- Each entry is at the deadline of its call. -/
def Dated (H : DeadlineHeap η) (deadline? : CallRef → Option Instant) (q : Timeouts η) : Prop :=
  ∀ e ∈ H.entries q.heap, ∀ ref, q.calls.get? e.1 = some ref → deadline? ref = some e.2

section Dated

variable {deadline? : CallRef → Option Instant} {taken : List (Nat × Instant)}
  {due : List CallRef} {q' : Timeouts η}

theorem Dated.schedule {time : Instant} {ref : CallRef} (hd : q.Dated H deadline?)
    (h : q.InStep H) (htime : deadline? ref = some time) :
    (q.schedule H time ref).Dated H deadline? := by
  have hnew : q.nextKey ∉ (H.entries q.heap).map (·.1) := fun hm => Nat.lt_irrefl _ (h.below hm)
  intro e he other hget
  rw [Timeouts.schedule, SortedMap.get?_insert] at hget
  rcases mem_cons.mp ((H.entries_push time hnew).mem_iff.mp he) with rfl | he
  · rw [if_pos rfl] at hget
    exact Option.some.inj hget ▸ htime
  · have hne : e.1 ≠ q.nextKey := fun hk => hnew (hk ▸ mem_map_of_mem he)
    rw [if_neg hne] at hget
    exact hd e he other hget

theorem Taken.dated (ht : Taken H now isAlive q taken due q') (hd : q.Dated H deadline?) :
    q'.Dated H deadline? := by
  intro e he ref hget
  exact hd e (ht.perm.mem_iff.mpr (mem_append_right _ he)) ref (ht.get?_iff.mp hget).1

/-- What is due comes out from the earliest deadline on. -/
theorem Taken.due_ordered (ht : Taken H now isAlive q taken due q') (hd : q.Dated H deadline?) :
    due.Pairwise fun a b => ∃ s t, deadline? a = some s ∧ deadline? b = some t ∧ s ≤ t := by
  have hdate {e : Nat × Instant} {ref : CallRef} (he : e ∈ taken)
      (hget : (q.calls.get? e.1).filter isAlive = some ref) : deadline? ref = some e.2 :=
    hd e (ht.perm.mem_iff.mpr (mem_append_left _ he)) ref (Option.filter_eq_some_iff.mp hget).1
  rw [ht.due_eq, pairwise_filterMap]
  refine ht.ordered.imp_of_mem fun {a b} ha hb hle ref hget ref' hget' => ?_
  exact ⟨a.2, b.2, hdate ha hget, hdate hb hget', hle⟩

end Dated

end Timeouts

/-! ## Entries in order -/

namespace Deadlines

theorem place_perm (due : Instant) (ref : CallRef) (xs : List (Instant × CallRef)) :
    place due ref xs ~ (due, ref) :: xs := by
  fun_induction place due ref xs with
  | case1 => exact .refl _
  | case2 e es _ ih => exact (ih.cons e).trans (.swap ..)
  | case3 e es => exact .refl _

theorem place_ordered (due : Instant) (ref : CallRef) {xs : List (Instant × CallRef)}
    (h : xs.Pairwise fun a b => a.1 ≤ b.1) :
    (place due ref xs).Pairwise fun a b => a.1 ≤ b.1 := by
  fun_induction place due ref xs with
  | case1 => exact pairwise_singleton _ _
  | case2 e es hle ih =>
      obtain ⟨hfirst, hrest⟩ := pairwise_cons.mp h
      refine pairwise_cons.mpr ⟨fun e' he' => ?_, ih hrest⟩
      rcases mem_cons.mp ((place_perm due ref es).mem_iff.mp he') with rfl | he'
      · exact hle
      · exact hfirst e' he'
  | case3 e es hle =>
      have hlt : due ≤ e.1 := Int.le_of_lt (Int.not_le.mp hle)
      refine pairwise_cons.mpr ⟨fun e' he' => ?_, h⟩
      rcases mem_cons.mp he' with rfl | he'
      · exact hlt
      · exact Instant.le_trans hlt ((pairwise_cons.mp h).1 e' he')

/-- Entries by key are placed like their calls. -/
theorem filterMap_place {f g : Nat → Option CallRef} {key : Nat} {ref : CallRef} (due : Instant)
    (xs : List (Instant × Nat)) (hkey : f key = some ref)
    (hxs : ∀ e ∈ xs, f e.2 = g e.2 ∧ (g e.2).isSome) :
    (place due key xs).filterMap (fun e => (f e.2).map (e.1, ·)) =
      place due ref (xs.filterMap fun e => (g e.2).map (e.1, ·)) := by
  induction xs with
  | nil => simp [place, hkey]
  | cons x xs ih =>
      obtain ⟨hsame, hsome⟩ := hxs x mem_cons_self
      obtain ⟨other, hother⟩ := Option.isSome_iff_exists.mp hsome
      have hrest := ih fun e he => hxs e (mem_cons_of_mem _ he)
      have hall : xs.filterMap (fun e => (f e.2).map (e.1, ·)) =
          xs.filterMap fun e => (g e.2).map (e.1, ·) :=
        filterMap_congr fun e he => by rw [(hxs e (mem_cons_of_mem _ he)).1]
      by_cases hle : x.1 ≤ due
      · simp [place, hle, hsame, hother, hrest]
      · simp [place, hle, hsame, hother, hkey, hall]

end Deadlines

/-- Entries from the earliest on; of equal deadlines the one that came first. -/
abbrev InOrder := { xs : List (Instant × Nat) // xs.Pairwise fun a b => a.1 ≤ b.1 }

namespace InOrder

theorem first_le {x : Instant × Nat} {xs : List (Instant × Nat)}
    (h : (x :: xs).Pairwise fun a b => a.1 ≤ b.1) :
    ∀ e ∈ (x :: xs).map Prod.swap, x.1 ≤ e.2 := by
  intro e he
  obtain ⟨y, hy, rfl⟩ := mem_map.mp he
  rcases mem_cons.mp hy with rfl | hy
  · exact Int.le_refl y.1.nanos
  · exact (pairwise_cons.mp h).1 y hy

def heap : DeadlineHeap InOrder where
  entries s := s.1.map Prod.swap
  empty := ⟨[], .nil⟩
  push s key due := ⟨Deadlines.place due key s.1, Deadlines.place_ordered due key s.2⟩
  peek? s := s.1.head?.map Prod.swap
  pop? s := match s with
    | ⟨[], _⟩ => none
    | ⟨e :: es, h⟩ => some (e.swap, ⟨es, (pairwise_cons.mp h).2⟩)
  entries_empty := rfl
  entries_push {s key} due _ := (Deadlines.place_perm due key s.1).map Prod.swap
  peek?_eq_none {s} h := by
    simpa using h
  peek?_eq_some {s e} h := by
    obtain ⟨xs, hxs⟩ := s
    cases xs with
    | nil => simp at h
    | cons x xs =>
        obtain rfl : x.swap = e := by simpa using h
        exact ⟨mem_map_of_mem mem_cons_self, first_le hxs⟩
  pop?_eq_none {s} h := by
    obtain ⟨xs, hxs⟩ := s
    cases xs with
    | nil => rfl
    | cons x xs => simp at h
  pop?_eq_some {s s' e} h := by
    obtain ⟨xs, hxs⟩ := s
    cases xs with
    | nil => simp at h
    | cons x xs =>
        obtain ⟨rfl, rfl⟩ : x.swap = e ∧ ⟨xs, (pairwise_cons.mp hxs).2⟩ = s' := by simpa using h
        exact ⟨.refl _, first_le hxs⟩

/-- The calls by deadline, without their keys. -/
def deadlines (q : Timeouts InOrder) : Deadlines :=
  ⟨q.heap.1.filterMap fun e => (q.calls.get? e.2).map (e.1, ·)⟩

variable {q : Timeouts InOrder}

theorem deadlines_schedule (h : q.InStep heap) (due : Instant) (ref : CallRef) :
    deadlines (q.schedule heap due ref) = (deadlines q).schedule due ref := by
  have hkeys {e : Instant × Nat} (he : e ∈ q.heap.1) : e.2 ∈ (heap.entries q.heap).map (·.1) :=
    mem_map_of_mem (f := Prod.fst) (mem_map_of_mem (f := Prod.swap) he)
  have hnew : (q.calls.insert q.nextKey ref).get? q.nextKey = some ref := by
    rw [SortedMap.get?_insert, if_pos rfl]
  refine congrArg Deadlines.mk (Deadlines.filterMap_place due q.heap.1 hnew fun e he => ?_)
  have hne : e.2 ≠ q.nextKey := Nat.ne_of_lt (h.below (hkeys he))
  have hsame : (q.calls.insert q.nextKey ref).get? e.2 = q.calls.get? e.2 := by
    rw [SortedMap.get?_insert, if_neg hne]
  exact ⟨hsame, (h.contains_iff e.2).mpr (hkeys he)⟩

theorem pop?_eq {s s' : InOrder} {e : Nat × Instant} (h : heap.pop? s = some (e, s')) :
    s.1 = e.swap :: s'.1 := by
  obtain ⟨xs, hxs⟩ := s
  cases xs with
  | nil => simp [heap] at h
  | cons x xs =>
      obtain ⟨rfl, rfl⟩ : x.swap = e ∧ ⟨xs, (pairwise_cons.mp hxs).2⟩ = s' := by
        simpa [heap] using h
      rfl

/-- The first entry comes with its call. -/
theorem deadlines_of_cons (h : q.InStep heap) {x : Instant × Nat} {xs : List (Instant × Nat)}
    (hq : q.heap.1 = x :: xs) : ∃ ref, q.calls.get? x.2 = some ref ∧
      (deadlines q).entries =
        (x.1, ref) :: xs.filterMap fun e => (q.calls.get? e.2).map (e.1, ·) := by
  have hkey : q.calls.contains x.2 = true := (h.contains_iff x.2).mpr (by simp [heap, hq])
  obtain ⟨ref, hget⟩ := Option.isSome_iff_exists.mp hkey
  have hget' : q.calls.get? x.2 = some ref := hget
  exact ⟨ref, hget, by simp [deadlines, hq, hget']⟩

theorem deadlines_pop (h : q.InStep heap) {e : Nat × Instant} {rest : InOrder}
    (hpop : heap.pop? q.heap = some (e, rest)) : ∃ ref, q.calls.get? e.1 = some ref ∧
      (deadlines q).entries =
        (e.2, ref) :: (deadlines { q with heap := rest, calls := q.calls.erase e.1 }).entries := by
  obtain ⟨ref, hget, hentries⟩ := deadlines_of_cons h (pop?_eq hpop)
  have hnew : e.1 ∉ (heap.entries rest).map (·.1) :=
    (nodup_cons.mp (((heap.pop?_eq_some hpop).1.map (·.1)).nodup_iff.mp h.nodup)).1
  refine ⟨ref, hget, hentries.trans (congrArg (_ :: ·) (filterMap_congr fun x hx => ?_))⟩
  have hkey : x.2 ∈ (heap.entries rest).map (·.1) :=
    mem_map_of_mem (f := Prod.fst) (mem_map_of_mem (f := Prod.swap) hx)
  have hne : x.2 ≠ e.1 := fun he => hnew (he ▸ hkey)
  rw [SortedMap.get?_erase, if_neg hne]

theorem deadlines_takeDue (h : q.InStep heap) (now : Instant) (isAlive : CallRef → Bool) :
    (q.takeDue heap now isAlive).1 = ((deadlines q).takeDue now).1.filter isAlive ∧
      deadlines (q.takeDue heap now isAlive).2 = ((deadlines q).takeDue now).2 := by
  fun_induction Timeouts.takeDue heap now isAlive q with
  | case1 q hany hpop =>
      have hnone : q.heap.1 = [] := map_eq_nil_iff.mp (heap.pop?_eq_none hpop)
      simp [heap, hnone] at hany
  | case2 q hany e rest hpop due q' hrest ih =>
      obtain ⟨ref, hget, hentries⟩ := deadlines_pop h hpop
      obtain ⟨hdue, hq'⟩ := ih (h.pop hpop)
      have hle : e.2 ≤ now := by simpa [heap, pop?_eq hpop] using hany
      rw [hrest] at hdue hq'
      constructor
      · have hdue : due = _ := hdue
        rw [hdue]
        cases ha : isAlive ref with
        | true => simp [Deadlines.takeDue, hentries, hle, hget, Option.filter, ha]
        | false => simp [Deadlines.takeDue, hentries, hle, hget, Option.filter, ha]
      · simp [hq', Deadlines.takeDue, hentries, hle]
  | case3 q hnot =>
      cases hq : q.heap.1 with
      | nil => simp [Deadlines.takeDue, deadlines, hq]
      | cons x xs =>
          obtain ⟨ref, -, hentries⟩ := deadlines_of_cons h hq
          have hlate : ¬ x.1 ≤ now := by simpa [heap, hq] using hnot
          constructor
          · simp [Deadlines.takeDue, hentries, hlate]
          · show deadlines q = ⟨(deadlines q).entries.dropWhile fun e => decide (e.1 ≤ now)⟩
            rw [hentries, dropWhile_cons_of_neg (by simpa using hlate), ← hentries]

end InOrder

end OnceOnly
