import OnceOnly.Wire.Body

/-! # Spans that follow each other: which offsets divide a body, and into what -/

namespace OnceOnly

open List

/-- The position lies in the span. -/
def Span.has (s : Span) (p : Nat) : Bool := decide (s.start ≤ p ∧ p < s.stop)

def Span.size (s : Span) : Nat := s.stop - s.start

namespace Body

/-- Spans without a gap between them, the first from `start` on and the last up to `stop`. -/
def Consecutive (start : Nat) (parts : List Span) (stop : Nat) : Prop :=
  match parts with
  | [] => start = stop
  | s :: rest => s.start = start ∧ s.start ≤ s.stop ∧ Consecutive s.stop rest stop

namespace Consecutive

variable {start stop : Nat} {parts : List Span}

theorem le (h : Consecutive start parts stop) : start ≤ stop := by
  induction parts generalizing start with
  | nil => exact Nat.le_of_eq h
  | cons s rest ih =>
      obtain ⟨rfl, hle, hrest⟩ := h
      exact Nat.le_trans hle (ih hrest)

theorem within (h : Consecutive start parts stop) :
    ∀ s ∈ parts, start ≤ s.start ∧ s.start ≤ s.stop ∧ s.stop ≤ stop := by
  induction parts generalizing start with
  | nil => simp
  | cons s rest ih =>
      obtain ⟨rfl, hle, hrest⟩ := h
      intro part hpart
      rcases mem_cons.mp hpart with rfl | hpart
      · exact ⟨Nat.le_refl _, hle, hrest.le⟩
      · obtain ⟨hstart, hstop⟩ := ih hrest part hpart
        exact ⟨Nat.le_trans hle hstart, hstop⟩

/-- Every position from `start` up to `stop` lies in one of the spans only, and no other position
lies in any. -/
theorem countP_has (h : Consecutive start parts stop) (p : Nat) :
    parts.countP (·.has p) = if start ≤ p ∧ p < stop then 1 else 0 := by
  induction parts generalizing start with
  | nil =>
      obtain rfl : start = stop := h
      have hempty : ¬ (start ≤ p ∧ p < start) := by omega
      simp [hempty]
  | cons s rest ih =>
      obtain ⟨rfl, hle, hrest⟩ := h
      have hstop := hrest.le
      rw [countP_cons, ih hrest]
      simp only [Span.has, decide_eq_true_eq]
      split <;> split <;> split <;> omega

theorem shift (h : Consecutive start parts stop) (base : Nat) :
    Consecutive (start + base) (parts.map (·.shift base)) (stop + base) := by
  induction parts generalizing start with
  | nil => exact congrArg (· + base) h
  | cons s rest ih =>
      obtain ⟨rfl, hle, hrest⟩ := h
      exact ⟨rfl, Nat.add_le_add_right hle base, ih hrest⟩

/-- The last span ends where all of them end. -/
theorem stop_getLast {s : Span} (h : Consecutive start (s :: parts) stop) :
    (parts.getLast?.getD s).stop = stop := by
  induction parts generalizing start s with
  | nil => exact h.2.2
  | cons next parts ih =>
      rw [getLast?_cons, Option.getD_some]
      exact ih h.2.2

/-- What the spans cut out of bytes is what lies between `start` and `stop`. -/
theorem flatten_of (h : Consecutive start parts stop) (bs : Bytes) :
    (parts.map (·.of bs)).flatten = Span.of ⟨start, stop⟩ bs := by
  induction parts generalizing start with
  | nil =>
      obtain rfl : start = stop := h
      simp [Span.of]
  | cons s rest ih =>
      obtain ⟨rfl, hle, hrest⟩ := h
      have hstop := hrest.le
      have hsplit : stop - s.start = (s.stop - s.start) + (stop - s.stop) := by omega
      have hskip : s.start + (s.stop - s.start) = s.stop := by omega
      rw [map_cons, flatten_cons, ih hrest]
      simp only [Span.of]
      rw [hsplit, take_add, drop_drop, hskip]

/-- Spans start in order, and within the ends. -/
theorem starts_sorted (h : Consecutive start parts stop) :
    (parts.map Span.start).Pairwise (· ≤ ·) ∧ ∀ p ∈ parts.map Span.start, start ≤ p ∧ p ≤ stop := by
  induction parts generalizing start with
  | nil => simp
  | cons s rest ih =>
      obtain ⟨rfl, hle, hrest⟩ := h
      obtain ⟨hsorted, hbounds⟩ := ih hrest
      have hstop := hrest.le
      refine ⟨pairwise_cons.mpr ⟨fun p hp => Nat.le_trans hle (hbounds p hp).1, hsorted⟩, ?_⟩
      intro p hp
      rcases mem_cons.mp hp with rfl | hp
      · exact ⟨Nat.le_refl _, Nat.le_trans hle hstop⟩
      · obtain ⟨hstart, hend⟩ := hbounds p hp
        exact ⟨Nat.le_trans hle hstart, hend⟩

end Consecutive

/-! ## Sidecars -/

section Spans

variable {start size index : Nat} {starts : List Nat} {parts : List Span}

theorem head_starts (h : Consecutive start parts size) :
    (parts.map Span.start).head?.getD size = start := by
  cases parts with
  | nil => exact h.symm
  | cons s rest => exact h.1

/-- Spans are found by where they start, up to the end of the last one. -/
theorem spans_of_consecutive (h : Consecutive start parts size) (index : Nat) :
    spans size index (parts.map Span.start) = .ok parts := by
  induction parts generalizing start index with
  | nil => rfl
  | cons s rest ih =>
      obtain ⟨rfl, hle, hrest⟩ := h
      have hstop := hrest.le
      have hfits : ¬ (s.stop < s.start ∨ size < s.stop) := by omega
      rw [map_cons, spans]
      simp only [head_starts hrest, if_neg hfits, ih hrest]

/-- Only spans that follow each other up to the end of the body are found. -/
theorem consecutive_of_spans (h : spans size index starts = .ok parts) :
    parts.map Span.start = starts ∧ Consecutive (starts.head?.getD size) parts size := by
  induction starts generalizing index parts with
  | nil =>
      obtain rfl := Except.ok.inj h
      exact ⟨rfl, rfl⟩
  | cons start rest ih =>
      simp only [spans] at h
      split at h
      · simp at h
      · rename_i hfits
        split at h
        · simp at h
        · rename_i found hfound
          obtain rfl := Except.ok.inj h
          obtain ⟨hstarts, hrest⟩ := ih hfound
          have hle : start ≤ rest.head?.getD size := by omega
          exact ⟨by rw [map_cons, hstarts], rfl, hle, hrest⟩

/-- Starts that do not decrease and lie in the body are those of spans. -/
theorem exists_consecutive (hsorted : starts.Pairwise (· ≤ ·)) (hbody : ∀ p ∈ starts, p ≤ size) :
    ∃ parts : List Span, parts.map Span.start = starts ∧
      Consecutive (starts.head?.getD size) parts size := by
  induction starts with
  | nil => exact ⟨[], rfl, rfl⟩
  | cons start rest ih =>
      obtain ⟨hfirst, hsorted⟩ := pairwise_cons.mp hsorted
      obtain ⟨parts, hstarts, hparts⟩ := ih hsorted fun p hp => hbody p (mem_cons_of_mem _ hp)
      have hle : start ≤ rest.head?.getD size := by
        cases rest with
        | nil => exact hbody start mem_cons_self
        | cons next rest => exact hfirst next mem_cons_self
      exact ⟨⟨start, rest.head?.getD size⟩ :: parts, by rw [map_cons, hstarts], rfl, hle, hparts⟩

end Spans

/-! ## Message and sidecars -/

section Split

variable {size : Nat} {offsets : List UInt32} {l : Layout}

/-- A body is divided into a message and sidecars that follow each other from its start to its end,
the sidecars from the offsets on; there is no other way to divide it. -/
theorem split_eq_ok_iff : split size offsets = .ok l ↔ offsets.length ≤ maxSidecars ∧
    Consecutive 0 (l.message :: l.sidecars) size ∧
      l.sidecars.map Span.start = offsets.map UInt32.toNat := by
  obtain ⟨message, sidecars⟩ := l
  constructor
  · intro h
    simp only [split] at h
    split at h
    · simp at h
    · rename_i hmost
      split at h
      · simp at h
      · split at h
        · simp at h
        · rename_i found hfound
          obtain ⟨rfl, rfl⟩ := Layout.mk.inj (Except.ok.inj h)
          obtain ⟨hstarts, hsidecars⟩ := consecutive_of_spans hfound
          exact ⟨Nat.le_of_not_lt hmost, ⟨rfl, Nat.zero_le _, hsidecars⟩, hstarts⟩
  · rintro ⟨hmost, ⟨hstart, -, hsidecars⟩, hstarts⟩
    obtain ⟨start, stop⟩ := message
    obtain rfl : start = 0 := hstart
    have hstop : ¬ size < stop := Nat.not_lt.mpr hsidecars.le
    have hfirst := head_starts hsidecars
    have hspans := spans_of_consecutive hsidecars 0
    rw [hstarts] at hfirst hspans
    rw [split, if_neg (Nat.not_lt.mpr hmost)]
    simp only [hfirst, if_neg hstop, hspans]

/-- Offsets divide a body when there are not too many of them, they do not decrease, and none lies
beyond its end. -/
theorem exists_split_iff : (∃ l, split size offsets = .ok l) ↔ offsets.length ≤ maxSidecars ∧
    offsets.Pairwise (· ≤ ·) ∧ ∀ o ∈ offsets, o.toNat ≤ size := by
  have hwords : (offsets.map UInt32.toNat).Pairwise (· ≤ ·) ↔ offsets.Pairwise (· ≤ ·) :=
    pairwise_map
  constructor
  · rintro ⟨l, h⟩
    obtain ⟨hmost, ⟨-, -, hsidecars⟩, hstarts⟩ := split_eq_ok_iff.mp h
    obtain ⟨hsorted, hbody⟩ := hsidecars.starts_sorted
    rw [hstarts] at hsorted hbody
    exact ⟨hmost, hwords.mp hsorted, fun o ho => (hbody o.toNat (mem_map_of_mem ho)).2⟩
  · rintro ⟨hmost, hsorted, hbody⟩
    have hstarts : ∀ p ∈ offsets.map UInt32.toNat, p ≤ size := by
      intro p hp
      obtain ⟨o, ho, rfl⟩ := mem_map.mp hp
      exact hbody o ho
    obtain ⟨sidecars, hstarts, hsidecars⟩ := exists_consecutive (hwords.mpr hsorted) hstarts
    exact ⟨⟨⟨0, _⟩, sidecars⟩,
      split_eq_ok_iff.mpr ⟨hmost, ⟨rfl, Nat.zero_le _, hsidecars⟩, hstarts⟩⟩

/-- A layout has a place in other bytes when the end of the body has. -/
theorem shift?_of_split (h : split size offsets = .ok l) (base : Nat) : l.shift? base =
    if size + base < Nat.pow 2 64 then .ok (l.shift base) else .error .add := by
  obtain ⟨-, hparts, -⟩ := split_eq_ok_iff.mp h
  rw [Layout.shift?]
  simp only [hparts.stop_getLast, sizeSum]
  split
  · rfl
  · rfl

end Split

end Body

end OnceOnly
