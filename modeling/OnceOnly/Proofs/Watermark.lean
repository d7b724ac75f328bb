import Mathlib.Data.List.Forall2
import OnceOnly.Proofs.Charges
import OnceOnly.Proofs.Mark

/-! # Low-water marks: what several marks come to does not depend on their order -/

namespace OnceOnly

open List

namespace Dedup

variable {χ : Type}

/-! ## One record and two marks -/

namespace Client

variable {policy : StalePolicy} {a b : SeqNo} {seq : SeqNo} {r : Record χ}

/-- What a new mark leaves of a record. -/
def leaves (policy : StalePolicy) (mark : SeqNo) (seq : SeqNo) (r : Record χ) :
    Option (Record χ) :=
  if isReleased policy mark seq r then none else some (settled mark seq r)

/-- A lower mark before a higher one makes no difference to a record. -/
theorem leaves_leaves (h : a < b) (seq : SeqNo) (r : Record χ) :
    (leaves policy a seq r >>= leaves policy b seq) = leaves policy b seq r := by
  have hb : seq < a → seq < b := by grind
  cases hp : r.phase <;> cases policy <;> by_cases hs : seq < a <;>
    simp [leaves, isReleased, settled, hp, hs, hb]

/-- Nor to whether it is given up. -/
theorem isAbandoned_leaves (policy : StalePolicy) (h : a < b) (seq : SeqNo) (r : Record χ) :
    (∃ r', leaves policy a seq r = some r' ∧ isAbandoned policy b seq r' = true) ∨
        isAbandoned policy a seq r = true ↔ isAbandoned policy b seq r = true := by
  have hb : seq < a → seq < b := by grind
  cases hp : r.phase <;> cases policy <;> by_cases hs : seq < a <;>
    simp [leaves, isReleased, isAbandoned, settled, hp, hs, hb]

/-- Those that the lower mark releases come first. -/
theorem filter_isReleased (h : a < b) {xs : List (SeqNo × Record χ)} (hxs : Entries.Sorted xs) :
    xs.filter (fun e => isReleased policy a e.1 e.2) ++
        (xs.filterMap fun e => (leaves policy a e.1 e.2).map (e.1, ·)).filter
          (fun e => isReleased policy b e.1 e.2) =
      xs.filter fun e => isReleased policy b e.1 e.2 := by
  induction xs with
  | nil => rfl
  | cons x xs ih =>
      have hrest := ih hxs.of_cons
      by_cases hs : x.1 < a
      · have hb : x.1 < b := by grind
        have hsame : isReleased policy b x.1 x.2 = isReleased policy a x.1 x.2 := by
          simp [isReleased, hs, hb]
        have hsettled : isReleased policy b x.1 (settled a x.1 x.2) = true →
            isReleased policy a x.1 x.2 = true := by
          cases hp : x.2.phase <;> simp [isReleased, settled, hs, hb, hp]
        cases hr : isReleased policy a x.1 x.2 with
        | true =>
            have hgone : leaves policy a x.1 x.2 = none := by simp [leaves, hr]
            simp [hgone, hr, hsame, hrest]
        | false =>
            have hkept : isReleased policy b x.1 (settled a x.1 x.2) = false := by
              simpa [hr] using hsettled
            have hstays : leaves policy a x.1 x.2 = some (settled a x.1 x.2) := by
              simp [leaves, hr]
            simp [hstays, hr, hsame, hkept, hrest]
      · have hnone : xs.filter (fun e => isReleased policy a e.1 e.2) = [] := by
          refine filter_eq_nil_iff.mpr fun e he => ?_
          have hlt : x.1 < e.1 := rel_of_pairwise_cons hxs he
          have he : ¬ e.1 < a := by grind
          simp [isReleased, he]
        have hfirst : isReleased policy a x.1 x.2 = false := by simp [isReleased, hs]
        have hsame : leaves policy a x.1 x.2 = some x.2 := by simp [leaves, settled, hs, hfirst]
        rw [hnone, nil_append] at hrest
        simp [hsame, hnone, hfirst, filter_cons, hrest]

/-! ## One client and two marks -/

/-- Those who are told that a new mark has passed their requests, from the least request up. -/
def refused (policy : StalePolicy) (c : Client χ) (mark : SeqNo) : List (SeqNo × Waiter χ) :=
  if mark ≤ c.staleBefore then []
  else
    let released := c.records.toList.filter fun e => decide (e.1 < mark ∧
      (e.2.phase = .fresh ∨ e.2.phase = .inProgress ∧ policy = .abandonEarly))
    released.flatMap fun e => e.2.waiting.map (e.1, ·)

variable {name : String} {c : Client χ} {mark : SeqNo}

theorem refused_eq (policy : StalePolicy) (c : Client χ) (h : ¬ mark ≤ c.staleBefore) :
    c.refused policy mark = (c.records.toList.filter fun e =>
      isReleased policy mark e.1 e.2).flatMap fun e => e.2.waiting.map (e.1, ·) := by
  have hreleased : (fun e : SeqNo × Record χ => isReleased policy mark e.1 e.2) =
      fun e => decide (e.1 < mark ∧
        (e.2.phase = .fresh ∨ e.2.phase = .inProgress ∧ policy = .abandonEarly)) := by
    funext e
    simp [isReleased, Bool.beq_eq_decide_eq]
  simp only [refused, h, ite_false, hreleased]

theorem advance_of_lt (h : ¬ mark ≤ c.staleBefore) : c.advance name policy mark =
    { client := { c with
        staleBefore := mark
        records := (c.records.filterMap (leaves policy mark)).1
        abandoned := (c.advance name policy mark).client.abandoned }
      charges := (c.records.filterMap (leaves policy mark)).2
      replies := (c.refused policy mark).map fun x =>
        ⟨x.2.context, .failure (staleStatus name x.1 mark)⟩ } := by
  rw [refused_eq policy c h]
  simp only [advance, h, ite_false, map_flatMap, map_map, Function.comp_def, Record.repliesTo]
  rfl

theorem refused_advance (h : a < b) (hs : ¬ a ≤ c.staleBefore) :
    c.refused policy a ++ (c.advance name policy a).client.refused policy b =
      c.refused policy b := by
  have hb : ¬ b ≤ c.staleBefore := by grind
  have hb' : ¬ b ≤ (c.advance name policy a).client.staleBefore := by
    rw [advance_staleBefore]
    grind
  rw [refused_eq policy c hs, refused_eq policy c hb, refused_eq policy _ hb', ← flatMap_append,
    advance_of_lt hs]
  exact congrArg (flatMap _) (filter_isReleased h c.records.map.sorted)

theorem abandoned_advance_advance (name : String) (policy : StalePolicy) (h : a < b)
    (hs : ¬ a ≤ c.staleBefore) :
    ((c.advance name policy a).client.advance name policy b).client.abandoned =
      (c.advance name policy b).client.abandoned := by
  have hb : ¬ b ≤ c.staleBefore := by grind
  have hb' : ¬ b ≤ (c.advance name policy a).client.staleBefore := by
    rw [advance_staleBefore]
    grind
  refine SortedSet.ext_contains fun seq => ?_
  rw [advance_abandoned _ _ _ _ hb', advance_abandoned _ _ _ _ hs, advance_abandoned _ _ _ _ hb,
    advance_get? _ _ _ _ hs, ← or_assoc]
  refine or_congr_left ?_
  cases hr : c.records.get? seq with
  | none => simp
  | some r => simpa [leaves] using isAbandoned_leaves policy h seq r

/-- A mark after a lower one comes to the same as on its own. -/
theorem advance_after_lower (name : String) (policy : StalePolicy) (h : a < b)
    (hs : ¬ a ≤ c.staleBefore) :
    ((c.advance name policy a).client.advance name policy b).client =
        (c.advance name policy b).client ∧
      net ((c.advance name policy a).charges ++
          ((c.advance name policy a).client.advance name policy b).charges) =
        net (c.advance name policy b).charges := by
  have hb : ¬ b ≤ c.staleBefore := by grind
  have hb' : ¬ b ≤ (c.advance name policy a).client.staleBefore := by
    rw [advance_staleBefore]
    grind
  have hleaves : (fun seq r => leaves policy a seq r >>= leaves policy b seq) =
      (leaves policy b : SeqNo → Record χ → _) := by
    funext seq r
    exact leaves_leaves h seq r
  have habandoned := abandoned_advance_advance name policy h hs
  have hrecords := c.records.filterMap_filterMap (leaves policy a) (leaves policy b)
  have hcharges := c.records.filterMap_filterMap_charges (leaves policy a) (leaves policy b)
  rw [hleaves] at hrecords hcharges
  constructor
  · rw [advance_of_lt hb', habandoned, advance_of_lt hb, advance_of_lt hs]
    simp only [hrecords]
  · rw [advance_of_lt hb', advance_of_lt hb, advance_of_lt hs]
    exact hcharges

theorem refused_of_le (policy : StalePolicy) {c : Client χ} (h : mark ≤ c.staleBefore) :
    c.refused policy mark = [] := by
  simp [refused, h]

/-- A mark that has been passed makes no difference to what another comes to. -/
theorem advance_max_of_le (name : String) (policy : StalePolicy) (b : SeqNo)
    (h : a ≤ c.staleBefore) : c.advance name policy (max a b) = c.advance name policy b ∧
      c.refused policy (max a b) = c.refused policy b := by
  have hmax : max a b = if a ≤ b then b else a := rfl
  by_cases hab : a ≤ b
  · rw [hmax, if_pos hab]
    exact ⟨rfl, rfl⟩
  · have hb : b ≤ c.staleBefore := by grind
    rw [hmax, if_neg hab, advance_of_le name policy c a h, advance_of_le name policy c b hb,
      refused_of_le policy h, refused_of_le policy hb]
    exact ⟨rfl, rfl⟩

/-- Two marks come to the greater one: the same client, the same bytes, and the same answers. -/
theorem advance_advance (name : String) (policy : StalePolicy) (c : Client χ) (a b : SeqNo) :
    let first := c.advance name policy a
    let second := first.client.advance name policy b
    let once := c.advance name policy (max a b)
    second.client = once.client ∧ net (first.charges ++ second.charges) = net once.charges ∧
      c.refused policy a ++ first.client.refused policy b = c.refused policy (max a b) := by
  intro first second once
  have hmax : max a b = if a ≤ b then b else a := rfl
  by_cases ha : a ≤ c.staleBefore
  · obtain ⟨hsame, hrefused⟩ := advance_max_of_le name policy b ha
    have hfirst : first = ⟨c, [], []⟩ := advance_of_le name policy c a ha
    simp only [second, once, hfirst, hsame, hrefused, refused_of_le policy ha, nil_append, and_self]
  by_cases hb : b ≤ a
  · have honce : max a b = a := by grind
    have hb' : b ≤ first.client.staleBefore := by
      rw [advance_staleBefore]
      grind
    have hsecond : second = ⟨first.client, [], []⟩ := advance_of_le name policy _ b hb'
    simp only [first, hsecond, once, honce, refused_of_le policy hb', append_nil, and_self]
  have hlt : a < b := by grind
  have honce : max a b = b := by grind
  obtain ⟨hclient, hcharges⟩ := advance_after_lower name policy hlt ha
  simp only [first, second, once, honce]
  exact ⟨hclient, hcharges, refused_advance hlt ha⟩

/-! ## Several marks -/

/-- Moves the mark to one value after the other. -/
def advanceAll (name : String) (policy : StalePolicy) (c : Client χ) : List SeqNo → Change χ
  | [] => ⟨c, [], []⟩
  | mark :: marks =>
    let first := c.advance name policy mark
    let rest := advanceAll name policy first.client marks
    ⟨rest.client, first.charges ++ rest.charges, first.replies ++ rest.replies⟩

/-- A waiter is told that a mark has passed its request, whichever mark the text names. -/
def Refusal (name : String) (x : SeqNo × Waiter χ) (reply : Reply χ) : Prop :=
  ∃ mark, reply = ⟨x.2.context, .failure (staleStatus name x.1 mark)⟩

/-- A change that comes to a mark. -/
structure MovedTo (name : String) (policy : StalePolicy) (c : Client χ) (mark : SeqNo)
    (change : Change χ) : Prop where
  client_eq : change.client = (c.advance name policy mark).client
  net_eq : net change.charges = net (c.advance name policy mark).charges
  /-- One refusal each, in order. -/
  refusals : Forall₂ (Refusal name) (c.refused policy mark) change.replies

theorem advance_movedTo (name : String) (policy : StalePolicy) (c : Client χ) (mark : SeqNo) :
    MovedTo name policy c mark (c.advance name policy mark) where
  client_eq := rfl
  net_eq := rfl
  refusals := by
    by_cases h : mark ≤ c.staleBefore
    · rw [advance_of_le name policy c mark h, refused_of_le policy h]
      exact .nil
    · rw [advance_of_lt h]
      exact forall₂_map_right_iff.mpr (forall₂_same.mpr fun x _ => ⟨mark, rfl⟩)

theorem MovedTo.trans {x y : Change χ} (hx : MovedTo name policy c a x)
    (hy : MovedTo name policy x.client b y) :
    MovedTo name policy c (max a b) ⟨y.client, x.charges ++ y.charges, x.replies ++ y.replies⟩ := by
  obtain ⟨hclient, hnet, hrefused⟩ := advance_advance name policy c a b
  refine ⟨?_, ?_, ?_⟩
  · rw [hy.client_eq, hx.client_eq, hclient]
  · rw [net_append, hy.net_eq, hx.net_eq, hx.client_eq, ← hnet, net_append]
  · rw [← hrefused, ← hx.client_eq]
    exact rel_append hx.refusals hy.refusals

theorem le_foldl_max {mark : SeqNo} (marks : List SeqNo) {least : SeqNo} (h : mark ≤ least) :
    mark ≤ marks.foldl max least := by
  induction marks generalizing least with
  | nil => exact h
  | cons next marks ih =>
      have hmax : max least next = if least ≤ next then next else least := rfl
      exact ih (by grind)

/-- However many marks come in whatever order, they come to the greatest. -/
theorem advanceAll_movedTo (name : String) (policy : StalePolicy) (c : Client χ)
    (marks : List SeqNo) : MovedTo name policy c (marks.foldl max c.staleBefore)
      (c.advanceAll name policy marks) := by
  induction marks generalizing c with
  | nil =>
      have h := advance_movedTo name policy c c.staleBefore
      rwa [advance_of_le name policy c _ (Int64.le_refl _)] at h
  | cons mark marks ih =>
      have hfirst := advance_movedTo name policy c mark
      have hmax : max c.staleBefore mark = if c.staleBefore ≤ mark then mark else c.staleBefore :=
        rfl
      have hmark : (c.advance name policy mark).client.staleBefore = max c.staleBefore mark := by
        rw [advance_staleBefore]
        grind
      have hle : mark ≤ marks.foldl max (max c.staleBefore mark) :=
        le_foldl_max marks (by grind)
      have hall := hfirst.trans (ih (c.advance name policy mark).client)
      rw [hmark] at hall
      have habsorbed : max mark (marks.foldl max (max c.staleBefore mark)) =
          marks.foldl max (max c.staleBefore mark) := if_pos hle
      rwa [habsorbed] at hall

/-- Whatever two marks are brought in whatever order, and whether one after the other or only the
greater one: the client ends as the same, the same bytes are charged, and the same waiters are told,
each once and in the same order. A mark that has been passed changes nothing and tells nobody. Told
are those who wait for requests below the new mark that nobody drives, and when the policy is to
abandon early for those in progress, which are given up. -/
theorem marks_commute (name : String) (policy : StalePolicy) (c : Client χ) (a b : SeqNo) :
    MovedTo name policy c (max a b) (c.advanceAll name policy [a, b]) ∧
      MovedTo name policy c (max a b) (c.advanceAll name policy [b, a]) ∧
      MovedTo name policy c (max a b) (c.advance name policy (max a b)) ∧
      (∀ mark ≤ c.staleBefore, c.advance name policy mark = ⟨c, [], []⟩) ∧
      ∀ mark, c.staleBefore < mark → ∀ seq,
        (∀ w, (seq, w) ∈ c.refused policy mark ↔ ∃ r, c.records.get? seq = some r ∧ w ∈ r.waiting ∧
          seq < mark ∧ (r.phase = .fresh ∨ r.phase = .inProgress ∧ policy = .abandonEarly)) ∧
        ((c.advance name policy mark).client.abandoned.contains seq = true ↔
          c.abandoned.contains seq = true ∨ ∃ r, c.records.get? seq = some r ∧
            seq < mark ∧ r.phase = .inProgress ∧ policy = .abandonEarly) := by
  have hcomm : max b a = max a b := by
    have hab : max a b = if a ≤ b then b else a := rfl
    have hba : max b a = if b ≤ a then a else b := rfl
    grind
  have hpair (a b : SeqNo) : MovedTo name policy c (max a b) (c.advanceAll name policy [a, b]) := by
    have h := (advance_movedTo name policy c a).trans (advance_movedTo name policy _ b)
    simpa only [advanceAll, append_nil] using h
  refine ⟨hpair a b, hcomm ▸ hpair b a, advance_movedTo name policy c _,
    fun mark h => advance_of_le name policy c mark h, fun mark h seq => ⟨fun w => ?_, ?_⟩⟩
  · have hmark : ¬ mark ≤ c.staleBefore := by grind
    simp only [refused, hmark, ite_false, mem_flatMap, mem_filter, mem_map, Prod.exists,
      ChargedMap.mem_toList_iff, decide_eq_true_eq, Prod.mk.injEq]
    constructor
    · rintro ⟨_, r, ⟨hr, hs⟩, _, hw, rfl, rfl⟩
      exact ⟨r, hr, hw, hs⟩
    · rintro ⟨r, hr, hw, hs⟩
      exact ⟨seq, r, ⟨hr, hs⟩, w, hw, rfl, rfl⟩
  · have hmark : ¬ mark ≤ c.staleBefore := by grind
    rw [advance_abandoned name policy c mark hmark, or_comm]
    simp only [isAbandoned, Bool.and_eq_true, decide_eq_true_eq, beq_iff_eq, and_assoc]

end Client

end Dedup

end OnceOnly
