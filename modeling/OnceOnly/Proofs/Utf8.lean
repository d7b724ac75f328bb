import OnceOnly.Text.Utf8

/-! # UTF-8: reading gives back what was written, and only that is read -/

namespace OnceOnly.Utf8

/-- A code point is no surrogate and lies within Unicode. -/
theorem toNat_valid (c : Char) :
    c.toNat < 0xd800 ∨ (0xdfff < c.toNat ∧ c.toNat < 0x110000) := c.valid

/-! ## Bytes by their numbers -/

section Bytes

variable {a b : UInt8}

theorem toNat_ofNat {n : Nat} (h : n < 256) : (UInt8.ofNat n).toNat = n :=
  UInt8.toNat_ofNat_of_lt h

theorem width_one (h : a.toNat < 0x80) : width a = 1 := by
  simp only [width, UInt8.lt_iff_toNat_lt]
  simp [h]

theorem width_two (h : 0xc2 ≤ a.toNat) (h' : a.toNat < 0xe0) : width a = 2 := by
  have h80 : ¬ a.toNat < 0x80 := by omega
  have hc2 : ¬ a.toNat < 0xc2 := by omega
  simp only [width, UInt8.lt_iff_toNat_lt]
  simp [h80, hc2, h']

theorem width_three (h : 0xe0 ≤ a.toNat) (h' : a.toNat < 0xf0) : width a = 3 := by
  have h80 : ¬ a.toNat < 0x80 := by omega
  have hc2 : ¬ a.toNat < 0xc2 := by omega
  have he0 : ¬ a.toNat < 0xe0 := by omega
  simp only [width, UInt8.lt_iff_toNat_lt]
  simp [h80, hc2, he0, h']

theorem width_four (h : 0xf0 ≤ a.toNat) (h' : a.toNat < 0xf5) : width a = 4 := by
  have h80 : ¬ a.toNat < 0x80 := by omega
  have hc2 : ¬ a.toNat < 0xc2 := by omega
  have he0 : ¬ a.toNat < 0xe0 := by omega
  have hf0 : ¬ a.toNat < 0xf0 := by omega
  simp only [width, UInt8.lt_iff_toNat_lt]
  simp [h80, hc2, he0, hf0, h']

theorem isTail_iff : isTail b = true ↔ 0x80 ≤ b.toNat ∧ b.toNat < 0xc0 := by
  simp [isTail, UInt8.lt_iff_toNat_lt, UInt8.le_iff_toNat_le]

/-- The second byte is a tail byte that four first bytes narrow down. -/
theorem isSecond_of (hb : 0x80 ≤ b.toNat ∧ b.toNat < 0xc0)
    (he0 : a.toNat = 0xe0 → 0xa0 ≤ b.toNat) (hed : a.toNat = 0xed → b.toNat < 0xa0)
    (hf0 : a.toNat = 0xf0 → 0x90 ≤ b.toNat) (hf4 : a.toNat = 0xf4 → b.toNat < 0x90) :
    isSecond a b = true := by
  simp only [isSecond, isTail, ← UInt8.toNat_inj, UInt8.lt_iff_toNat_lt, UInt8.le_iff_toNat_le]
  simp
  grind

end Bytes

/-! ## Reading a character, by its width -/

section Read

variable {a b c d : UInt8} (i : Nat) (read : List Char) (rest : Bytes)

theorem decodeFrom_one (ha : width a = 1) :
    decodeFrom i read (a :: rest) = decodeFrom (i + 1) (Char.ofNat a.toNat :: read) rest := by
  rw [decodeFrom.eq_def]
  simp only [ha]

theorem decodeFrom_two (ha : width a = 2) (hb : isTail b = true) :
    decodeFrom i read (a :: b :: rest) = decodeFrom (i + 2) (join2 a b :: read) rest := by
  rw [decodeFrom, ha]
  simp only [hb, ite_true]

theorem decodeFrom_three (ha : width a = 3) (hb : isSecond a b = true) (hc : isTail c = true) :
    decodeFrom i read (a :: b :: c :: rest) = decodeFrom (i + 3) (join3 a b c :: read) rest := by
  rw [decodeFrom, ha]
  simp only [hb, hc, Bool.not_true, Bool.false_eq_true, ite_false, ite_true]

theorem decodeFrom_four (ha : width a = 4) (hb : isSecond a b = true) (hc : isTail c = true)
    (hd : isTail d = true) : decodeFrom i read (a :: b :: c :: d :: rest) =
      decodeFrom (i + 4) (join4 a b c d :: read) rest := by
  rw [decodeFrom, ha]
  simp only [hb, hc, hd, Bool.not_true, Bool.false_eq_true, ite_false, ite_true]

end Read

/-! ## Whole texts -/

/-- A tail byte carries six bits. -/
theorem toNat_tail (n : Nat) : (UInt8.ofNat (0x80 + n % 64)).toNat = 0x80 + n % 64 :=
  toNat_ofNat (by omega)

theorem isTail_tail (n : Nat) : isTail (UInt8.ofNat (0x80 + n % 64)) = true := by
  rw [isTail_iff, toNat_tail]
  omega

/-- What is written of a character reads as that character. -/
theorem decodeFrom_encodeChar (i : Nat) (read : List Char) (c : Char) (rest : Bytes) :
    ∃ j, decodeFrom i read (encodeChar c ++ rest) = decodeFrom j (c :: read) rest := by
  have hvalid := toNat_valid c
  have hc := Char.ofNat_toNat c
  rw [encodeChar]
  generalize c.toNat = n at hvalid hc
  by_cases h1 : n < 0x80
  · have ha : (UInt8.ofNat n).toNat = n := toNat_ofNat (by omega)
    have hw : width (UInt8.ofNat n) = 1 := width_one (by omega)
    rw [if_pos h1, List.singleton_append, decodeFrom_one _ _ _ hw, ha, hc]
    exact ⟨_, rfl⟩
  by_cases h2 : n < 0x800
  · have ha : (UInt8.ofNat (0xc0 + n / 64)).toNat = 0xc0 + n / 64 := toNat_ofNat (by omega)
    have hw : width (UInt8.ofNat (0xc0 + n / 64)) = 2 := width_two (by omega) (by omega)
    have hn : (0xc0 + n / 64) % 32 * 64 + (0x80 + n % 64) % 64 = n := by omega
    rw [if_neg h1, if_pos h2, List.cons_append, List.singleton_append,
      decodeFrom_two _ _ _ hw (isTail_tail n), join2, ha, toNat_tail, hn, hc]
    exact ⟨_, rfl⟩
  by_cases h3 : n < 0x10000
  · have ha : (UInt8.ofNat (0xe0 + n / 4096)).toNat = 0xe0 + n / 4096 := toNat_ofNat (by omega)
    have hw : width (UInt8.ofNat (0xe0 + n / 4096)) = 3 := width_three (by omega) (by omega)
    have hs : isSecond (.ofNat (0xe0 + n / 4096)) (.ofNat (0x80 + n / 64 % 64)) = true := by
      apply isSecond_of <;> (rw [toNat_tail]; omega)
    have hn : (0xe0 + n / 4096) % 16 * 4096 + (0x80 + n / 64 % 64) % 64 * 64 +
        (0x80 + n % 64) % 64 = n := by omega
    rw [if_neg h1, if_neg h2, if_pos h3, List.cons_append, List.cons_append,
      List.singleton_append, decodeFrom_three _ _ _ hw hs (isTail_tail n), join3, ha, toNat_tail,
      toNat_tail, hn, hc]
    exact ⟨_, rfl⟩
  · have ha : (UInt8.ofNat (0xf0 + n / 262144)).toNat = 0xf0 + n / 262144 :=
      toNat_ofNat (by omega)
    have hw : width (UInt8.ofNat (0xf0 + n / 262144)) = 4 := width_four (by omega) (by omega)
    have hs : isSecond (.ofNat (0xf0 + n / 262144)) (.ofNat (0x80 + n / 4096 % 64)) = true := by
      apply isSecond_of <;> (rw [toNat_tail]; omega)
    have hn : (0xf0 + n / 262144) % 8 * 262144 + (0x80 + n / 4096 % 64) % 64 * 4096 +
        (0x80 + n / 64 % 64) % 64 * 64 + (0x80 + n % 64) % 64 = n := by omega
    rw [if_neg h1, if_neg h2, if_neg h3, List.cons_append, List.cons_append, List.cons_append,
      List.singleton_append, decodeFrom_four _ _ _ hw hs (isTail_tail _) (isTail_tail n), join4,
      ha, toNat_tail, toNat_tail, toNat_tail, hn, hc]
    exact ⟨_, rfl⟩

theorem decodeFrom_flatMap (i : Nat) (read cs : List Char) :
    decodeFrom i read (cs.flatMap encodeChar) = .ok (read.reverse ++ cs) := by
  induction cs generalizing i read with
  | nil => simp [decodeFrom]
  | cons c cs ih =>
      obtain ⟨j, hj⟩ := decodeFrom_encodeChar i read c (cs.flatMap encodeChar)
      rw [List.flatMap_cons, hj, ih]
      simp

theorem decode_encode (s : String) : decode (encode s) = .ok s := by
  rw [decode, encode, decodeFrom_flatMap]
  simp [Except.map]

/-! ## Only what is written is read -/

section Read

variable {a b c d : UInt8}

theorem toNat_charOfNat {n : Nat} (h : n < 0xd800 ∨ (0xdfff < n ∧ n < 0x110000)) :
    (Char.ofNat n).toNat = n := by
  have hvalid : n.isValidChar := h
  rw [Char.ofNat, dif_pos hvalid]
  rfl

theorem ofNat_eq {n : Nat} (h : n = a.toNat) : UInt8.ofNat n = a := by
  rw [h, UInt8.ofNat_toNat]

theorem bounds_of_width (a : UInt8) :
    (width a = 1 → a.toNat < 0x80) ∧ (width a = 2 → 0xc2 ≤ a.toNat ∧ a.toNat < 0xe0) ∧
      (width a = 3 → 0xe0 ≤ a.toNat ∧ a.toNat < 0xf0) ∧
      (width a = 4 → 0xf0 ≤ a.toNat ∧ a.toNat < 0xf5) := by
  simp only [width, UInt8.lt_iff_toNat_lt]
  simp
  grind

theorem bounds_of_isSecond (h : isSecond a b = true) :
    (0x80 ≤ b.toNat ∧ b.toNat < 0xc0) ∧ (a.toNat = 0xe0 → 0xa0 ≤ b.toNat) ∧
      (a.toNat = 0xed → b.toNat < 0xa0) ∧ (a.toNat = 0xf0 → 0x90 ≤ b.toNat) ∧
      (a.toNat = 0xf4 → b.toNat < 0x90) := by
  simp only [isSecond, isTail, ← UInt8.toNat_inj, UInt8.lt_iff_toNat_lt, UInt8.le_iff_toNat_le] at h
  simp at h
  grind

theorem encodeChar_one (ha : width a = 1) : encodeChar (Char.ofNat a.toNat) = [a] := by
  have ha := (bounds_of_width a).1 ha
  rw [encodeChar, toNat_charOfNat (by omega), if_pos ha, UInt8.ofNat_toNat]

theorem encodeChar_join2 (ha : width a = 2) (hb : isTail b = true) :
    encodeChar (join2 a b) = [a, b] := by
  have ha := (bounds_of_width a).2.1 ha
  have hb := isTail_iff.mp hb
  rw [encodeChar, join2, toNat_charOfNat (by omega), if_neg (by omega), if_pos (by omega),
    ofNat_eq (a := a) (by omega), ofNat_eq (a := b) (by omega)]

/-- The ranges of the second byte leave out overlong forms and surrogates. -/
theorem encodeChar_join3 (ha : width a = 3) (hb : isSecond a b = true) (hc : isTail c = true) :
    encodeChar (join3 a b c) = [a, b, c] := by
  have ha := (bounds_of_width a).2.2.1 ha
  obtain ⟨hb, he0, hed, -, -⟩ := bounds_of_isSecond hb
  have hc := isTail_iff.mp hc
  rw [encodeChar, join3, toNat_charOfNat (by omega), if_neg (by omega), if_neg (by omega),
    if_pos (by omega), ofNat_eq (a := a) (by omega), ofNat_eq (a := b) (by omega),
    ofNat_eq (a := c) (by omega)]

/-- And here what lies past the last code point. -/
theorem encodeChar_join4 (ha : width a = 4) (hb : isSecond a b = true) (hc : isTail c = true)
    (hd : isTail d = true) : encodeChar (join4 a b c d) = [a, b, c, d] := by
  have ha := (bounds_of_width a).2.2.2 ha
  obtain ⟨hb, -, -, hf0, hf4⟩ := bounds_of_isSecond hb
  have hc := isTail_iff.mp hc
  have hd := isTail_iff.mp hd
  rw [encodeChar, join4, toNat_charOfNat (by omega), if_neg (by omega), if_neg (by omega),
    if_neg (by omega), ofNat_eq (a := a) (by omega), ofNat_eq (a := b) (by omega),
    ofNat_eq (a := c) (by omega), ofNat_eq (a := d) (by omega)]

end Read

/-- What is read from some place on was written from there on. -/
theorem of_decodeFrom {i : Nat} {read cs : List Char} {bs : Bytes}
    (h : decodeFrom i read bs = .ok cs) :
    ∃ here : List Char, cs = read.reverse ++ here ∧ bs = here.flatMap encodeChar := by
  have hnext {x : Char} {read : List Char} {front rest : Bytes} (hx : encodeChar x = front)
      (ih : ∃ here : List Char, cs = (x :: read).reverse ++ here ∧
        rest = here.flatMap encodeChar) :
      ∃ here : List Char, cs = read.reverse ++ here ∧
        front ++ rest = here.flatMap encodeChar := by
    obtain ⟨here, rfl, rfl⟩ := ih
    exact ⟨x :: here, by simp, by rw [List.flatMap_cons, hx]⟩
  -- One case for each way to read a character; all others are faults.
  fun_induction decodeFrom i read bs with
  | case1 i read => exact ⟨[], by simpa using h.symm, rfl⟩
  | case2 i read a rest ha ih => exact hnext (encodeChar_one ha) (ih h)
  | case4 i read a ha b rest hb ih => exact hnext (encodeChar_join2 ha hb) (ih h)
  | case10 i read a ha b c rest hb hc ih =>
      exact hnext (encodeChar_join3 ha (by simpa using hb) hc) (ih h)
  | case20 i read a ha b c d rest hb hc hd ih =>
      exact hnext (encodeChar_join4 ha (by simpa using hb) (by simpa using hc) hd) (ih h)
  | _ => cases h

theorem encode_of_decode {bs : Bytes} {s : String} (h : decode bs = .ok s) : encode s = bs := by
  rw [decode] at h
  cases hcs : decodeFrom 0 [] bs with
  | error fault => simp [hcs, Except.map] at h
  | ok cs =>
      obtain ⟨here, rfl, rfl⟩ := of_decodeFrom hcs
      simp only [hcs, Except.map, Except.ok.injEq] at h
      rw [← h, encode]
      simp

end OnceOnly.Utf8
