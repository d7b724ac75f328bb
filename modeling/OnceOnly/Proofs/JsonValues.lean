import OnceOnly.Proofs.Decimal

/-!
# Values of no interest: whatever is well formed is read past

The grammar says which bytes a value is spelled with, and the reader reads past just these. A number
ends where it cannot go on; all other values end by themselves. The induction is on how a value is
spelled, and every turn of the reader is accounted for by a byte.
-/

namespace OnceOnly.Settings.Json

open List

/-! ## Tokens -/

/-- What may stand between tokens. -/
def Blank (ws : Bytes) : Prop := ∀ b ∈ ws, isBlank b = true

section Blank

variable {ws rest : Bytes} {b : UInt8}

theorem blank_nil : Blank [] := by
  intro b h
  simp at h

theorem Blank.append {ws' : Bytes} (h : Blank ws) (h' : Blank ws') : Blank (ws ++ ws') := by
  intro b hb
  rcases mem_append.mp hb with hb | hb
  · exact h b hb
  · exact h' b hb

theorem skipBlanks_append (h : Blank ws) (rest : Bytes) :
    skipBlanks (ws ++ rest) = skipBlanks rest :=
  dropWhile_append_of_pos h

theorem skipBlanks_cons (hb : isBlank b = false) (rest : Bytes) :
    skipBlanks (b :: rest) = b :: rest := by
  rw [skipBlanks, dropWhile_cons_of_neg (by simp [hb])]

theorem skipBlanks_append_cons (h : Blank ws) (hb : isBlank b = false) (rest : Bytes) :
    skipBlanks (ws ++ b :: rest) = b :: rest := by
  rw [skipBlanks_append h, skipBlanks_cons hb]

theorem isBlank_of_isDigit (h : Number.isDigit b = true) : isBlank b = false := by
  refine Bool.eq_false_iff.mpr fun hblank => ?_
  simp only [isBlank, Bool.or_eq_true, beq_iff_eq] at hblank
  rcases hblank with ((rfl | rfl) | rfl) | rfl <;> exact absurd h (by decide)

/-- A number ends before blanks, and before what ends a value. -/
theorem Blank.ended (h : Blank ws) (hb : b = 44 ∨ b = 93 ∨ b = 125) (rest : Bytes) :
    Number.Ended (ws ++ b :: rest) := by
  have hstops (a : UInt8) (ha : isBlank a = true ∨ a = 44 ∨ a = 93 ∨ a = 125) :
      Number.isDigit a = false ∧ a ≠ 46 ∧ a ≠ 101 ∧ a ≠ 69 := by
    simp only [isBlank, Bool.or_eq_true, beq_iff_eq] at ha
    rcases ha with (((rfl | rfl) | rfl) | rfl) | rfl | rfl | rfl <;> decide
  intro a as has
  cases ws with
  | nil =>
      obtain ⟨rfl, -⟩ := cons.inj has
      exact hstops _ (.inr hb)
  | cons w ws =>
      obtain ⟨rfl, -⟩ := cons.inj has
      exact hstops _ (.inl (h _ mem_cons_self))

end Blank

@[simp] theorem ok_bind {α β : Type} (a : α) (f : α → Except Mismatch β) :
    (.ok a >>= f) = f a :=
  rfl

@[simp] theorem literal_append (expected rest : Bytes) :
    literal expected (expected ++ rest) = .ok rest := by
  induction expected with
  | nil => rfl
  | cons e es ih => simp [literal, ih]

/-! ## Numbers -/

/-- One digit at least. -/
def Digits (ds : Bytes) : Prop := ds ≠ [] ∧ ∀ d ∈ ds, Number.isDigit d = true

/-- Digits, no zero before others. -/
def Whole (ds : Bytes) : Prop := Digits ds ∧ (ds.head? = some 48 → ds = [48])

inductive Fraction : Bytes → Prop where
  | none : Fraction []
  | some {ds : Bytes} (hds : Digits ds) : Fraction (46 :: ds)

inductive Scale : Bytes → Prop where
  | none : Scale []
  | plain {e : UInt8} {ds : Bytes} (he : e = 101 ∨ e = 69) (hds : Digits ds) : Scale (e :: ds)
  | signed {e s : UInt8} {ds : Bytes} (he : e = 101 ∨ e = 69) (hs : s = 43 ∨ s = 45)
      (hds : Digits ds) : Scale (e :: s :: ds)

/-- A number after its sign. -/
inductive Numeral : Bytes → Prop where
  | mk {whole fraction scale : Bytes} (hw : Whole whole) (hf : Fraction fraction)
      (hs : Scale scale) : Numeral (whole ++ (fraction ++ scale))

section Numbers

variable {ds rest bs fraction scale : Bytes} {b : UInt8}

theorem Digits.cons (h : Digits ds) : ∃ d tail, ds = d :: tail ∧ Number.isDigit d = true := by
  obtain ⟨hne, hall⟩ := h
  cases ds with
  | nil => exact absurd rfl hne
  | cons d tail => exact ⟨d, tail, rfl, hall d mem_cons_self⟩

theorem skipDigits_append (h : Digits ds) (hrest : Number.Undigited rest) :
    skipDigits (ds ++ rest) = .ok rest := by
  obtain ⟨d, tail, rfl, hd⟩ := h.cons
  have hdrop := hrest.dropWhile_append h.2
  rw [cons_append] at hdrop ⊢
  simp only [skipDigits, hd, if_true, hdrop]

theorem Scale.undigited (h : Scale scale) (hrest : Number.Ended rest) :
    Number.Undigited (scale ++ rest) := by
  cases h with
  | none => exact hrest.undigited
  | plain he hds => exact Number.undigited_cons (by rcases he with rfl | rfl <;> decide)
  | signed he hs hds => exact Number.undigited_cons (by rcases he with rfl | rfl <;> decide)

theorem skipScale_append (h : Scale scale) (hrest : Number.Ended rest) :
    skipScale (scale ++ rest) = .ok rest := by
  cases h with
  | none =>
      cases rest with
      | nil => rfl
      | cons b bs =>
          obtain ⟨-, -, hlower, hupper⟩ := hrest b bs rfl
          simp [skipScale, hlower, hupper]
  | @plain e ds he hds =>
      have hskip := skipDigits_append hds hrest.undigited
      obtain ⟨d, tail, rfl, hd⟩ := hds.cons
      have hsign : ¬ (d = 43 ∨ d = 45) :=
        not_or.mpr ⟨Number.ne_of_isDigit hd (by decide), Number.ne_of_isDigit hd (by decide)⟩
      simpa [skipScale, he, hsign] using hskip
  | signed he hs hds =>
      simpa [skipScale, he, hs] using skipDigits_append hds hrest.undigited

/-- Past what may follow the digits of a whole number. -/
def skipTail (bs : Bytes) : Except Mismatch Bytes :=
  match bs with
  | 46 :: rest => skipDigits rest >>= skipScale
  | rest => skipScale rest

theorem skipTail_of_ne (h : ∀ b as, bs = b :: as → b ≠ 46) : skipTail bs = skipScale bs := by
  unfold skipTail
  split
  · exact absurd rfl (h _ _ rfl)
  · rfl

theorem skipTail_append (hf : Fraction fraction) (hs : Scale scale) (hrest : Number.Ended rest) :
    skipTail (fraction ++ (scale ++ rest)) = .ok rest := by
  have hscale := skipScale_append hs hrest
  cases hf with
  | none =>
      have hpoint : ∀ b as, scale ++ rest = b :: as → b ≠ 46 := by
        intro b as heq
        cases hs with
        | none => exact (hrest b as heq).2.1
        | plain he hds | signed he hs hds =>
            obtain ⟨rfl, -⟩ := cons.inj heq
            rcases he with rfl | rfl <;> decide
      rw [nil_append, skipTail_of_ne hpoint, hscale]
  | @some ds hds =>
      calc skipTail (46 :: (ds ++ (scale ++ rest)))
          = skipDigits (ds ++ (scale ++ rest)) >>= skipScale := rfl
        _ = .ok rest := by rw [skipDigits_append hds (hs.undigited hrest), ok_bind, hscale]

theorem Fraction.undigited (hf : Fraction fraction) (hs : Number.Undigited bs) :
    Number.Undigited (fraction ++ bs) := by
  cases hf with
  | none => exact hs
  | some hds => exact Number.undigited_cons (by decide)

theorem skipNumber_whole (h : Whole ds) (hrest : Number.Undigited rest) :
    skipNumber (ds ++ rest) = skipTail rest := by
  obtain ⟨hds, hzero⟩ := h
  have hskip := skipDigits_append hds hrest
  unfold skipNumber
  split
  · rename_i b after heq
    obtain ⟨d, tail, rfl, -⟩ := hds.cons
    obtain ⟨rfl, htail⟩ := cons.inj heq
    obtain ⟨-, rfl⟩ := cons.inj (hzero rfl)
    have hrest' : rest = b :: after := htail
    rw [hrest', if_neg (by simp [hrest b after hrest'])]
    by_cases hb : b = 46
    · rw [if_pos hb, hb]
      rfl
    · rw [if_neg hb, skipTail_of_ne]
      intro a as has
      obtain ⟨rfl, -⟩ := cons.inj has
      exact hb
  · rw [hskip]
    rfl

theorem skipNumber_append {n : Bytes} (h : Numeral n) (hrest : Number.Ended rest) :
    skipNumber (n ++ rest) = .ok rest := by
  obtain ⟨hw, hf, hs⟩ := h
  rw [append_assoc, append_assoc, skipNumber_whole hw (hf.undigited (hs.undigited hrest)),
    skipTail_append hf hs hrest]

theorem Numeral.cons {n : Bytes} (h : Numeral n) :
    ∃ d tail, n = d :: tail ∧ Number.isDigit d = true := by
  obtain ⟨hw, hf, hs⟩ := h
  obtain ⟨d, tail, rfl, hd⟩ := hw.1.cons
  exact ⟨d, _, rfl, hd⟩

end Numbers

/-! ## Strings -/

/-- Stands for itself between quotes. -/
def isPlain (b : UInt8) : Bool := decide (32 ≤ b ∧ b ≠ 34 ∧ b ≠ 92)

/-- The content of a string that is not looked at. -/
inductive Content : Bytes → Prop where
  | nil : Content []
  | plain {b : UInt8} {bs : Bytes} (hb : isPlain b = true) (h : Content bs) : Content (b :: bs)
  | escaped {e : UInt8} {bs : Bytes} (he : (escape e).isSome = true) (h : Content bs) :
      Content (92 :: e :: bs)
  | unit {h₁ h₂ h₃ h₄ : UInt8} {bs : Bytes} (hu : (hexUnit h₁ h₂ h₃ h₄).isSome = true)
      (h : Content bs) : Content (92 :: 117 :: h₁ :: h₂ :: h₃ :: h₄ :: bs)

theorem skipString_append {content : Bytes} (h : Content content) (rest : Bytes) :
    skipString (content ++ 34 :: rest) = .ok rest := by
  induction h with
  | nil =>
      unfold skipString
      simp
  | plain hb h ih =>
      obtain ⟨hleast, hquote, hslash⟩ := of_decide_eq_true hb
      unfold skipString
      simpa [hquote, hslash, UInt8.not_lt.mpr hleast] using ih
  | @escaped e bs he h ih =>
      have hunit : e ≠ 117 := by
        rintro rfl
        exact absurd he (by decide)
      unfold skipString
      simpa [hunit, he] using ih
  | unit hu h ih =>
      unfold skipString
      simpa [hu] using ih

/-- A key and its colon. -/
inductive Key : Bytes → Prop where
  | mk {before content after : Bytes} (hb : Blank before) (hc : Content content)
      (ha : Blank after) : Key (before ++ 34 :: (content ++ 34 :: (after ++ [58])))

theorem skipKey_append {key : Bytes} (h : Key key) (rest : Bytes) :
    skipKey (key ++ rest) = .ok rest := by
  obtain ⟨hb, hc, ha⟩ := h
  have hquote := skipBlanks_append_cons hb (show isBlank 34 = false by decide)
  have hcolon := skipBlanks_append_cons ha (show isBlank 58 = false by decide) rest
  simp only [append_assoc, cons_append, nil_append, skipKey, hquote, skipString_append hc, ok_bind,
    hcolon]

/-! ## Values -/

def Bracket.opening : Bracket → UInt8
  | square => 91
  | brace => 123

def Bracket.closing : Bracket → UInt8
  | square => 93
  | brace => 125

/-- The values with no others in them. -/
inductive Token : Bytes → Prop where
  | null : Token (word "null")
  | yes : Token (word "true")
  | no : Token (word "false")
  | number {n : Bytes} (hn : Numeral n) : Token n
  | negative {n : Bytes} (hn : Numeral n) : Token (45 :: n)
  | string {content : Bytes} (hc : Content content) : Token (34 :: (content ++ [34]))
  | empty (bracket : Bracket) {ws : Bytes} (hws : Blank ws) :
      Token (bracket.opening :: (ws ++ [bracket.closing]))

/-- What stands before a value within a bracket: blanks, after its key in an object. -/
inductive Ahead : Bracket → Bytes → Prop where
  | element {ws : Bytes} (hws : Blank ws) : Ahead .square ws
  | member {key ws : Bytes} (hk : Key key) (hws : Blank ws) : Ahead .brace (key ++ ws)

inductive Part where
  | value
  /-- What stands within a bracket that is not empty. -/
  | items (bracket : Bracket)

/-- How values are spelled, without blanks around them. -/
inductive Spells : Part → Bytes → Prop where
  | token {v : Bytes} (ht : Token v) : Spells .value v
  | bracketed {bracket : Bracket} {items : Bytes} (hitems : Spells (.items bracket) items) :
      Spells .value (bracket.opening :: (items ++ [bracket.closing]))
  | one {bracket : Bracket} {ahead v after : Bytes} (hahead : Ahead bracket ahead)
      (hv : Spells .value v) (ha : Blank after) : Spells (.items bracket) (ahead ++ (v ++ after))
  | more {bracket : Bracket} {ahead v after items : Bytes} (hahead : Ahead bracket ahead)
      (hv : Spells .value v) (ha : Blank after) (hitems : Spells (.items bracket) items) :
      Spells (.items bracket) (ahead ++ (v ++ (after ++ 44 :: items)))

/-- After blanks, a byte that is no closing bracket. -/
def Starts (bs : Bytes) : Prop :=
  ∃ ws b tail, bs = ws ++ b :: tail ∧ Blank ws ∧ isBlank b = false ∧ b ≠ 93 ∧ b ≠ 125

theorem Starts.append {bs : Bytes} (h : Starts bs) (rest : Bytes) : Starts (bs ++ rest) := by
  obtain ⟨ws, b, tail, rfl, hstart⟩ := h
  exact ⟨ws, b, tail ++ rest, by rw [append_assoc, cons_append], hstart⟩

theorem Token.starts {v : Bytes} (h : Token v) : Starts v := by
  cases h with
  | null => exact ⟨[], 110, word "ull", rfl, blank_nil, by decide⟩
  | yes => exact ⟨[], 116, word "rue", rfl, blank_nil, by decide⟩
  | no => exact ⟨[], 102, word "alse", rfl, blank_nil, by decide⟩
  | number hn =>
      obtain ⟨d, tail, rfl, hd⟩ := hn.cons
      exact ⟨[], d, tail, rfl, blank_nil, isBlank_of_isDigit hd,
        Number.ne_of_isDigit hd (by decide), Number.ne_of_isDigit hd (by decide)⟩
  | negative _ => exact ⟨[], 45, _, rfl, blank_nil, by decide⟩
  | string _ => exact ⟨[], 34, _, rfl, blank_nil, by decide⟩
  | empty bracket _ => exact ⟨[], bracket.opening, _, rfl, blank_nil, by cases bracket <;> decide⟩

theorem Ahead.starts {bracket : Bracket} {ahead v : Bytes} (h : Ahead bracket ahead)
    (hv : Starts v) : Starts (ahead ++ v) := by
  cases h with
  | element hws =>
      obtain ⟨ws, b, tail, rfl, hblank, hstart⟩ := hv
      exact ⟨_ ++ ws, b, tail, (append_assoc ..).symm, hws.append hblank, hstart⟩
  | member hk _ =>
      obtain ⟨hb, _, _⟩ := hk
      exact ⟨_, 34, _, by simp only [append_assoc, cons_append]; rfl, hb, by decide⟩

theorem Spells.starts {part : Part} {bs : Bytes} (h : Spells part bs) : Starts bs := by
  induction h with
  | token ht => exact ht.starts
  | @bracketed bracket _ _ _ =>
      exact ⟨[], bracket.opening, _, rfl, blank_nil, by cases bracket <;> decide⟩
  | one hahead _ _ ih => exact hahead.starts (ih.append _)
  | more hahead _ _ _ ih _ => exact hahead.starts (ih.append _)

/-! ## Turns of the reader -/

/-- On to the first value within a bracket, or to the next one. -/
def enter (fuel : Nat) (stack : List Bracket) (bracket : Bracket) (bs : Bytes) :
    Except Mismatch Bytes :=
  match bracket with
  | .square => skipFrom fuel false (.square :: stack) bs
  | .brace => skipKey bs >>= skipFrom fuel false (.brace :: stack)

section Turns

variable {fuel : Nat} {stack : List Bracket} {bracket : Bracket} {ws bs rest : Bytes}

theorem skipFrom_append (hws : Blank ws) :
    skipFrom fuel false stack (ws ++ bs) = skipFrom fuel false stack bs := by
  cases fuel with
  | zero => rfl
  | succ fuel => simp only [skipFrom, skipBlanks_append hws]

theorem enter_append {ahead : Bytes} (h : Ahead bracket ahead) :
    enter fuel stack bracket (ahead ++ bs) = skipFrom fuel false (bracket :: stack) bs := by
  cases h with
  | element hws => exact skipFrom_append hws
  | member hk hws =>
      rw [enter, append_assoc, skipKey_append hk]
      exact skipFrom_append hws

theorem skipFrom_token {v : Bytes} (h : Token v) (hrest : Number.Ended rest) :
    skipFrom (fuel + 1) false stack (v ++ rest) = skipFrom fuel true stack rest := by
  cases h with
  | null =>
      rw [show word "null" = 110 :: word "ull" by decide, cons_append, skipFrom,
        skipBlanks_cons (by decide)]
      simp
  | yes =>
      rw [show word "true" = 116 :: word "rue" by decide, cons_append, skipFrom,
        skipBlanks_cons (by decide)]
      simp
  | no =>
      rw [show word "false" = 102 :: word "alse" by decide, cons_append, skipFrom,
        skipBlanks_cons (by decide)]
      simp
  | number hn =>
      have hskip := skipNumber_append hn hrest
      obtain ⟨d, tail, rfl, hd⟩ := hn.cons
      have hnull : d ≠ 110 := Number.ne_of_isDigit hd (by decide)
      have hyes : d ≠ 116 := Number.ne_of_isDigit hd (by decide)
      have hno : d ≠ 102 := Number.ne_of_isDigit hd (by decide)
      have hminus : d ≠ 45 := Number.ne_of_isDigit hd (by decide)
      rw [cons_append] at hskip ⊢
      rw [skipFrom, skipBlanks_cons (isBlank_of_isDigit hd)]
      simp only [hnull, hyes, hno, hminus, hd, hskip, if_true, if_false, ok_bind]
  | negative hn =>
      rw [cons_append, skipFrom, skipBlanks_cons (by decide)]
      simp [skipNumber_append hn hrest]
  | string hc =>
      rw [cons_append, append_assoc, skipFrom, skipBlanks_cons (by decide)]
      simp [skipString_append hc, show Number.isDigit 34 = false by decide]
  | empty bracket hws =>
      rw [cons_append, append_assoc]
      cases bracket with
      | square =>
          have hclose := skipBlanks_append_cons hws (show isBlank 93 = false by decide) rest
          rw [Bracket.opening, skipFrom, skipBlanks_cons (by decide)]
          simp [Bracket.closing, hclose, show Number.isDigit 91 = false by decide]
      | brace =>
          have hclose := skipBlanks_append_cons hws (show isBlank 125 = false by decide) rest
          rw [Bracket.opening, skipFrom, skipBlanks_cons (by decide)]
          simp [Bracket.closing, hclose, show Number.isDigit 123 = false by decide]

theorem skipFrom_open (h : Starts bs) :
    skipFrom (fuel + 1) false stack (bracket.opening :: bs) = enter fuel stack bracket bs := by
  obtain ⟨ws, b, tail, rfl, hws, hb, hsquare, hbrace⟩ := h
  have hskip := skipBlanks_append_cons hws hb tail
  cases bracket with
  | square =>
      rw [enter, skipFrom_append hws, Bracket.opening, skipFrom, skipBlanks_cons (by decide)]
      simp [hskip, hsquare, show Number.isDigit 91 = false by decide]
  | brace =>
      rw [enter, skipKey, Bracket.opening, skipFrom, skipBlanks_cons (by decide)]
      simp [hskip, hbrace, show Number.isDigit 123 = false by decide, skipKey, skipBlanks_cons hb]

theorem skipFrom_comma (hws : Blank ws) :
    skipFrom (fuel + 1) true (bracket :: stack) (ws ++ 44 :: rest) =
      enter fuel stack bracket rest := by
  cases bracket with
  | square | brace =>
      simp [skipFrom, enter, skipBlanks_append_cons hws (show isBlank 44 = false by decide)]

theorem skipFrom_close (hws : Blank ws) :
    skipFrom (fuel + 1) true (bracket :: stack) (ws ++ bracket.closing :: rest) =
      skipFrom fuel true stack rest := by
  cases bracket with
  | square =>
      simp [skipFrom, Bracket.closing,
        skipBlanks_append_cons hws (show isBlank 93 = false by decide)]
  | brace =>
      simp [skipFrom, Bracket.closing,
        skipBlanks_append_cons hws (show isBlank 125 = false by decide)]

end Turns

/-! ## Past what is well formed -/

/-- Enough turns take the reader past what is spelled, and past the bracket that closes it. -/
def Past : Part → Bytes → Prop
  | .value, bs => ∃ turns ≤ bs.length, ∀ fuel stack rest, Number.Ended rest →
      skipFrom (fuel + turns) false stack (bs ++ rest) = skipFrom fuel true stack rest
  | .items bracket, bs => ∃ turns ≤ bs.length + 1, ∀ fuel stack rest,
      enter (fuel + turns) stack bracket (bs ++ bracket.closing :: rest) =
        skipFrom fuel true stack rest

theorem Spells.past {part : Part} {bs : Bytes} (h : Spells part bs) : Past part bs := by
  -- a token is a turn; so is an opening bracket, a comma and a closing bracket, a byte each
  induction h with
  | token ht =>
      refine ⟨1, ?_, fun _ _ _ hrest => skipFrom_token ht hrest⟩
      obtain ⟨ws, b, tail, rfl, -⟩ := ht.starts
      simp only [length_append, length_cons]
      omega
  | @bracketed bracket items hitems ih =>
      obtain ⟨turns, hturns, hpast⟩ := ih
      refine ⟨turns + 1, ?_, fun fuel stack rest _ => ?_⟩
      · simp only [length_cons, length_append, length_nil]
        omega
      · have hinside := hpast fuel stack rest
        rw [cons_append, append_assoc, ← Nat.add_assoc, skipFrom_open (hitems.starts.append _)]
        exact hinside
  | @one bracket ahead v after hahead _ ha ih =>
      obtain ⟨turns, hturns, hpast⟩ := ih
      refine ⟨1 + turns, ?_, fun fuel stack rest => ?_⟩
      · simp only [length_append]
        omega
      · have hended : Number.Ended (after ++ bracket.closing :: rest) :=
          ha.ended (by cases bracket <;> decide) rest
        rw [append_assoc, append_assoc, enter_append hahead, ← Nat.add_assoc, hpast _ _ _ hended,
          skipFrom_close ha]
  | @more bracket ahead v after items hahead _ ha _ ih ihs =>
      obtain ⟨turns, hturns, hpast⟩ := ih
      obtain ⟨others, hothers, hothersPast⟩ := ihs
      refine ⟨others + 1 + turns, ?_, fun fuel stack rest => ?_⟩
      · simp only [length_append, length_cons]
        omega
      · have hended := ha.ended (.inl rfl) (items ++ bracket.closing :: rest)
        simp only [append_assoc, cons_append]
        rw [enter_append hahead, ← Nat.add_assoc, hpast _ _ _ hended, ← Nat.add_assoc,
          skipFrom_comma ha, hothersPast]

/-- A value of no interest is read past, whatever is nested in it. -/
theorem skipValue_append {size : Nat} {ws v rest : Bytes} (hws : Blank ws)
    (hv : Spells .value v) (hsize : v.length ≤ size) (hrest : Number.Ended rest) :
    skipValue size (ws ++ (v ++ rest)) = .ok rest := by
  obtain ⟨turns, hturns, hpast⟩ := hv.past
  have hfuel : 2 * size + 2 = (2 * size + 1 - turns) + 1 + turns := by omega
  rw [skipValue, skipFrom_append hws, hfuel, hpast _ _ _ hrest]
  rfl

end OnceOnly.Settings.Json
