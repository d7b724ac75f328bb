import OnceOnly.Settings.Json

/-! # Decimals: a number that is printed is read again -/

namespace OnceOnly

open List

/-! ## Texts as bytes -/

namespace Utf8

theorem encode_append (s t : String) : encode (s ++ t) = encode s ++ encode t := by
  rw [encode, String.toList_append, flatMap_append]
  rfl

theorem encodeChar_of_lt {c : Char} (h : c.toNat < 0x80) : encodeChar c = [.ofNat c.toNat] := by
  simp only [encodeChar, if_pos h]

end Utf8

namespace Settings.Number

/-! ## Printing -/

/-- The digits of a number, the last of which is the lowest. -/
def decimal (n : Nat) : Bytes := Utf8.encode (toString n)

theorem decimal_eq (n : Nat) :
    decimal n = (Nat.toDigits 10 n).map fun c => UInt8.ofNat c.toNat := by
  have hdigits : ∀ c ∈ Nat.toDigits 10 n, Utf8.encodeChar c = [UInt8.ofNat c.toNat] := by
    intro c hc
    have hdigit := Nat.isDigit_of_mem_toDigits (by decide) (Nat.le_refl 10) hc
    refine Utf8.encodeChar_of_lt ?_
    simp only [Char.isDigit, Bool.and_eq_true, decide_eq_true_eq] at hdigit
    have hmost : c.toNat ≤ 57 := hdigit.2
    omega
  rw [decimal, Utf8.encode, Nat.toString_eq_ofList_toDigits, String.toList_ofList]
  generalize Nat.toDigits 10 n = cs at hdigits
  induction cs with
  | nil => rfl
  | cons c cs ih =>
      rw [flatMap_cons, hdigits c mem_cons_self, ih fun c hc => hdigits c (mem_cons_of_mem _ hc)]
      rfl

theorem decimal_of_lt {n : Nat} (h : n < 10) : decimal n = [UInt8.ofNat (48 + n)] := by
  rw [decimal_eq, Nat.toDigits_of_lt_base h, map_singleton, Nat.toNat_digitChar_of_lt_ten h]

theorem decimal_of_le {n : Nat} (h : 10 ≤ n) :
    decimal n = decimal (n / 10) ++ [UInt8.ofNat (48 + n % 10)] := by
  have hlast := Nat.toNat_digitChar_of_lt_ten (Nat.mod_lt n (show 0 < 10 by decide))
  rw [decimal_eq, decimal_eq, Nat.toDigits_of_base_le (by decide) h, map_append, map_singleton,
    hlast]

theorem ne_of_isDigit {b c : UInt8} (hb : isDigit b = true) (hc : isDigit c = false) : b ≠ c := by
  rintro rfl
  simp [hb] at hc

section Digit

variable {d : Nat}

theorem isDigit_ofNat (h : d < 10) : isDigit (UInt8.ofNat (48 + d)) = true := by
  have hall : ∀ d < 10, isDigit (UInt8.ofNat (48 + d)) = true := by decide
  exact hall d h

theorem digit_ofNat (h : d < 10) : digit (UInt8.ofNat (48 + d)) = d := by
  have hall : ∀ d < 10, digit (UInt8.ofNat (48 + d)) = d := by decide
  exact hall d h

end Digit

theorem isDigit_of_mem_decimal {n : Nat} {b : UInt8} (h : b ∈ decimal n) : isDigit b = true := by
  induction n using Nat.strongRecOn with
  | ind n ih =>
      by_cases hn : n < 10
      · rw [decimal_of_lt hn, mem_singleton] at h
        exact h ▸ isDigit_ofNat hn
      · have hle : 10 ≤ n := Nat.le_of_not_lt hn
        rw [decimal_of_le hle, mem_append, mem_singleton] at h
        rcases h with h | rfl
        · exact ih (n / 10) (Nat.div_lt_self (by omega) (by decide)) h
        · exact isDigit_ofNat (Nat.mod_lt n (by decide))

/-- No number but zero starts with a zero. -/
theorem decimal_cons {n : Nat} (h : 0 < n) : ∃ d ds, decimal n = d :: ds ∧ d ≠ 48 := by
  induction n using Nat.strongRecOn with
  | ind n ih =>
      by_cases hn : n < 10
      · have hall : ∀ n < 10, 0 < n → UInt8.ofNat (48 + n) ≠ 48 := by decide
        exact ⟨_, [], decimal_of_lt hn, hall n hn h⟩
      · have hle : 10 ≤ n := Nat.le_of_not_lt hn
        obtain ⟨d, ds, hfront, hd⟩ := ih (n / 10) (Nat.div_lt_self h (by decide)) (by omega)
        exact ⟨d, _, by rw [decimal_of_le hle, hfront, cons_append], hd⟩

theorem decimal_starts (n : Nat) :
    ∃ d ds, decimal n = d :: ds ∧ isDigit d = true ∧ (d = 48 → ds = []) := by
  rcases Nat.eq_zero_or_pos n with rfl | hpos
  · exact ⟨48, [], decimal_of_lt (by decide), by decide, fun _ => rfl⟩
  · obtain ⟨d, ds, hcons, hd⟩ := decimal_cons hpos
    have hdigit := isDigit_of_mem_decimal (n := n) (b := d) (hcons ▸ mem_cons_self)
    exact ⟨d, ds, hcons, hdigit, fun hzero => absurd hzero hd⟩

/-! ## Reading -/

/-- One digit more, as long as the number stays below 2 ^ 64. -/
theorem significand_concat {n taken m count : Nat} {ds : Bytes} {d : UInt8}
    (h : significand n taken ds = (m, count, 0)) (hfit : m * 10 + digit d < Nat.pow 2 64) :
    significand n taken (ds ++ [d]) = (m * 10 + digit d, count + 1, 0) := by
  induction ds generalizing n taken with
  | nil =>
      simp only [significand, Prod.mk.injEq] at h
      obtain ⟨rfl, rfl, -⟩ := h
      simp [significand, Nat.not_le.mpr hfit]
  | cons first ds ih =>
      rw [significand] at h
      split at h
      · simp at h
      · rename_i hfirst
        rw [cons_append, significand, if_neg hfirst]
        exact ih h

theorem significand_decimal {n : Nat} (h : n < Nat.pow 2 64) :
    significand 0 0 (decimal n) = (n, (decimal n).length, 0) := by
  induction n using Nat.strongRecOn with
  | ind n ih =>
      by_cases hn : n < 10
      · have hfit : ¬ Nat.pow 2 64 ≤ 0 * 10 + n := by omega
        rw [decimal_of_lt hn]
        simp only [significand, digit_ofNat hn, if_neg hfit]
        simp
      · have hle : 10 ≤ n := Nat.le_of_not_lt hn
        have hlast := digit_ofNat (Nat.mod_lt n (show 0 < 10 by decide))
        have hsum : n / 10 * 10 + n % 10 = n := by omega
        have hfront := ih (n / 10) (Nat.div_lt_self (by omega) (by decide)) (by omega)
        have hall := significand_concat hfront (d := UInt8.ofNat (48 + n % 10)) (by omega)
        rw [hlast, hsum] at hall
        rw [decimal_of_le hle, hall, length_append, length_singleton]

/-- No digit comes first. -/
def Undigited (rest : Bytes) : Prop := ∀ b bs, rest = b :: bs → isDigit b = false

/-- No number goes on with these bytes. -/
def Ended (rest : Bytes) : Prop :=
  ∀ b bs, rest = b :: bs → isDigit b = false ∧ b ≠ 46 ∧ b ≠ 101 ∧ b ≠ 69

section Ends

variable {ds rest : Bytes} {b : UInt8}

theorem undigited_cons (h : isDigit b = false) : Undigited (b :: rest) := by
  intro a as has
  obtain ⟨rfl, -⟩ := cons.inj has
  exact h

theorem Undigited.takeWhile_append (h : Undigited rest) (hds : ∀ d ∈ ds, isDigit d = true) :
    (ds ++ rest).takeWhile isDigit = ds := by
  rw [takeWhile_append_of_pos hds]
  cases rest with
  | nil => simp
  | cons b bs => simp [h b bs rfl]

theorem Undigited.dropWhile_append (h : Undigited rest) (hds : ∀ d ∈ ds, isDigit d = true) :
    (ds ++ rest).dropWhile isDigit = rest := by
  rw [dropWhile_append_of_pos hds]
  cases rest with
  | nil => rfl
  | cons b bs => simp [h b bs rfl]

theorem Ended.undigited (h : Ended rest) : Undigited rest := fun b bs hb => (h b bs hb).1

end Ends

/-- A number that was printed is read up to its end. -/
theorem read_decimal {n : Nat} {rest : Bytes} (positive : Bool) (h : n < Nat.pow 2 64)
    (hrest : Ended rest) : read positive (decimal n ++ rest) = .ok (whole positive n, rest) := by
  obtain ⟨d, ds, hcons, hfirst, hzero⟩ := decimal_starts n
  have hdigits : ∀ b ∈ d :: ds, isDigit b = true := fun b hb => isDigit_of_mem_decimal (hcons ▸ hb)
  have hleading : ¬ (d = 48 ∧ ((ds ++ rest).head?.map isDigit).getD false = true) := by
    rintro ⟨hd, hnext⟩
    rw [hzero hd, nil_append] at hnext
    cases rest with
    | nil => simp at hnext
    | cons b bs => simp [(hrest b bs rfl).1] at hnext
  have hall := significand_decimal h
  rw [hcons] at hall ⊢
  have htake := hrest.undigited.takeWhile_append hdigits
  have hdrop := hrest.undigited.dropWhile_append hdigits
  rw [cons_append] at htake hdrop ⊢
  simp only [read, hfirst, hleading, htake, hdrop, hall, Bool.not_true, Bool.false_eq_true,
    if_false, if_true]
  split
  · exact absurd rfl (hrest _ _ rfl).2.1
  · exact absurd rfl (hrest _ _ rfl).2.2.1
  · exact absurd rfl (hrest _ _ rfl).2.2.2
  · rfl

end Settings.Number

end OnceOnly
