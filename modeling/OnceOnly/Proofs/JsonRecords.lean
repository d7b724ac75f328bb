import OnceOnly.Proofs.JsonValues

/-!
# Records: any of the fields in any order, whatever stands between them

A record that reads each of its fields from that field's value reads them from every object that
has some of them, each once. The induction is on the members of the object; after each turn the
record holds just the fields that were seen.
-/

namespace OnceOnly.Settings.Json

open List

/-! ## Keys -/

/-- How the bytes of a text are spelled between quotes. Escapes above the basic plane come in
pairs. -/
inductive Quotes : (content spelled : Bytes) → Prop where
  | nil : Quotes [] []
  | plain {b : UInt8} {content spelled : Bytes} (hb : isPlain b = true)
      (h : Quotes content spelled) : Quotes (b :: content) (b :: spelled)
  | escaped {e c : UInt8} {content spelled : Bytes} (he : escape e = some c)
      (h : Quotes content spelled) : Quotes (c :: content) (92 :: e :: spelled)
  | unit {h₁ h₂ h₃ h₄ : UInt8} {n : Nat} {content spelled : Bytes}
      (hn : hexUnit h₁ h₂ h₃ h₄ = some n) (halone : isLeading n = false ∧ isTrailing n = false)
      (h : Quotes content spelled) :
      Quotes (Utf8.encodeChar (Char.ofNat n) ++ content)
        (92 :: 117 :: h₁ :: h₂ :: h₃ :: h₄ :: spelled)
  | pair {h₁ h₂ h₃ h₄ l₁ l₂ l₃ l₄ : UInt8} {n m : Nat} {content spelled : Bytes}
      (hn : hexUnit h₁ h₂ h₃ h₄ = some n) (hleading : isLeading n = true)
      (hm : hexUnit l₁ l₂ l₃ l₄ = some m) (htrailing : isTrailing m = true)
      (h : Quotes content spelled) :
      Quotes (Utf8.encodeChar (Char.ofNat ((n - 0xd800) * 1024 + (m - 0xdc00) + 0x10000)) ++
          content)
        (92 :: 117 :: h₁ :: h₂ :: h₃ :: h₄ :: 92 :: 117 :: l₁ :: l₂ :: l₃ :: l₄ :: spelled)

theorem quotes_self {content : Bytes} (h : content.all isPlain = true) :
    Quotes content content := by
  induction content with
  | nil => exact .nil
  | cons b content ih =>
      rw [all_cons, Bool.and_eq_true] at h
      exact .plain h.1 (ih h.2)

theorem readContent_append {content spelled : Bytes} (h : Quotes content spelled)
    (read rest : Bytes) :
    readContent read (spelled ++ 34 :: rest) = .ok (read.reverse ++ content, rest) := by
  induction h generalizing read with
  | nil =>
      unfold readContent
      simp
  | @plain b content spelled hb h ih =>
      obtain ⟨hleast, hquote, hslash⟩ := of_decide_eq_true hb
      unfold readContent
      simpa [hquote, hslash, UInt8.not_lt.mpr hleast] using ih (b :: read)
  | @escaped e c content spelled he h ih =>
      have hunit : e ≠ 117 := by
        rintro rfl
        simp [escape] at he
      unfold readContent
      simpa [hunit, he] using ih (c :: read)
  | @unit h₁ h₂ h₃ h₄ n content spelled hn halone h ih =>
      obtain ⟨hleading, htrailing⟩ := halone
      unfold readContent
      simpa [hn, hleading, htrailing, withChar] using ih (withChar n read)
  | @pair h₁ h₂ h₃ h₄ l₁ l₂ l₃ l₄ n m content spelled hn hleading hm htrailing h ih =>
      have hboth : isTrailing n = false := by
        simp only [isLeading, isTrailing, decide_eq_true_eq, decide_eq_false_iff_not] at hleading ⊢
        omega
      unfold readContent
      simpa [hn, hleading, hboth, hm, htrailing, withChar] using ih (withChar _ read)

theorem readString_append {content spelled : Bytes} (h : Quotes content spelled) (rest : Bytes) :
    readString (spelled ++ 34 :: rest) = .ok (content, rest) :=
  readContent_append h [] rest

theorem readColon_append {ws : Bytes} (h : Blank ws) (rest : Bytes) :
    readColon (ws ++ 58 :: rest) = .ok rest := by
  simp [readColon, skipBlanks_append_cons h (show isBlank 58 = false by decide)]

/-! ## Objects -/

section Grammar

variable (written : List (Bytes × Bytes))

/-- A member of an object next to the written members of a record: one of these, which go by their
places, or one with another key and any value. -/
inductive Member : (given : List Nat) → Bytes → Prop where
  | known {i : Nat} {key value spelled after before : Bytes} (hi : written[i]? = some (key, value))
      (hk : Quotes key spelled) (ha : Blank after) (hb : Blank before) :
      Member [i] (34 :: (spelled ++ 34 :: (after ++ 58 :: (before ++ value))))
  | unknown {key value spelled after before : Bytes} (hkey : key ∉ written.map Prod.fst)
      (hk : Quotes key spelled) (ha : Blank after) (hb : Blank before)
      (hv : Spells .value value) :
      Member [] (34 :: (spelled ++ 34 :: (after ++ 58 :: (before ++ value))))

inductive Members : (given : List Nat) → Bytes → Prop where
  | one {given : List Nat} {before m after : Bytes} (hb : Blank before)
      (hm : Member written given m) (ha : Blank after) : Members given (before ++ (m ++ after))
  | more {given others : List Nat} {before m after ms : Bytes} (hb : Blank before)
      (hm : Member written given m) (ha : Blank after) (hms : Members others ms) :
      Members (given ++ others) (before ++ (m ++ (after ++ 44 :: ms)))

/-- A text that is one object. -/
inductive Document : (given : List Nat) → Bytes → Prop where
  | empty {before inside after : Bytes} (hb : Blank before) (hi : Blank inside) (ha : Blank after) :
      Document [] (before ++ 123 :: (inside ++ 125 :: after))
  | object {given : List Nat} {before ms after : Bytes} (hb : Blank before)
      (hms : Members written given ms) (ha : Blank after) :
      Document given (before ++ 123 :: (ms ++ 125 :: after))

end Grammar

/-! ## Objects without blanks -/

/-- Members with nothing but commas between them. -/
def compact : List (Bytes × Bytes) → Bytes
  | [] => []
  | [m] => 34 :: (m.1 ++ 34 :: 58 :: m.2)
  | m :: ms => 34 :: (m.1 ++ 34 :: 58 :: (m.2 ++ 44 :: compact ms))

/-- The bytes of a name and of the text of a value. -/
def spelled (m : String × String) : Bytes × Bytes := (word m.1, Utf8.encode m.2)

def memberText (m : String × String) : String := "\"" ++ m.1 ++ "\":" ++ m.2

def objectText (ms : List (String × String)) : String :=
  "\x7b" ++ ",".intercalate (ms.map memberText) ++ "\x7d"

section Compact

variable {written : List (Bytes × Bytes)} {ms : List (String × String)}

theorem members_compact (front : List (Bytes × Bytes)) (hne : written ≠ [])
    (hkeys : ∀ m ∈ written, m.1.all isPlain = true) :
    Members (front ++ written) (range' front.length written.length) (compact written) := by
  induction written generalizing front with
  | nil => exact absurd rfl hne
  | cons m ms ih =>
      have hquotes := quotes_self (hkeys m mem_cons_self)
      have hmember : Member (front ++ m :: ms) [front.length] (34 :: (m.1 ++ 34 :: 58 :: m.2)) :=
        .known (by simp) hquotes blank_nil blank_nil
      cases ms with
      | nil => simpa [compact] using Members.one blank_nil hmember blank_nil
      | cons next ms =>
          have hothers := ih (front ++ [m]) (by simp) fun m hm => hkeys m (mem_cons_of_mem _ hm)
          simp only [append_assoc, cons_append, nil_append, length_append, length_cons,
            length_nil] at hothers
          simpa [compact, range'_succ] using Members.more blank_nil hmember blank_nil hothers

theorem encode_memberText (m : String × String) :
    Utf8.encode (memberText m) = 34 :: (word m.1 ++ 34 :: 58 :: Utf8.encode m.2) := by
  simp only [memberText, Utf8.encode_append, append_assoc]
  rfl

theorem encode_intercalate :
    Utf8.encode (",".intercalate (ms.map memberText)) = compact (ms.map spelled) := by
  induction ms with
  | nil => rfl
  | cons m ms ih =>
      cases ms with
      | nil =>
          rw [map_singleton, String.intercalate_singleton, encode_memberText]
          rfl
      | cons next ms =>
          rw [map_cons, String.intercalate_cons_of_ne_nil (by simp), Utf8.encode_append,
            Utf8.encode_append, ih, encode_memberText]
          simp only [append_assoc, cons_append]
          rfl

/-- The object of the written members is a document with all of them. -/
theorem document_objectText (hne : ms ≠ [])
    (hnames : ∀ m ∈ ms, (word m.1).all isPlain = true) :
    Document (ms.map spelled) (range ms.length) (Utf8.encode (objectText ms)) := by
  have hkeys : ∀ m ∈ ms.map spelled, m.1.all isPlain = true := by
    intro m hm
    obtain ⟨field, hfield, rfl⟩ := mem_map.mp hm
    exact hnames field hfield
  have hmembers := members_compact [] (by simpa using hne) hkeys
  rw [nil_append, length_nil, length_map, ← range_eq_range'] at hmembers
  have htext : Utf8.encode (objectText ms) =
      [] ++ 123 :: (compact (ms.map spelled) ++ 125 :: []) := by
    rw [objectText, Utf8.encode_append, Utf8.encode_append, encode_intercalate]
    rfl
  exact htext ▸ .object blank_nil hmembers blank_nil

end Compact

/-! ## Reading -/

/-- Reads a spelled value up to its end, with blanks before it, as the given value. -/
def Decodes {α : Type} (read : Bytes → Except Mismatch (α × Bytes)) (spelled : Bytes) (a : α) :
    Prop :=
  ∀ ⦃ws rest : Bytes⦄, Blank ws → Number.Ended rest →
    read (ws ++ (spelled ++ rest)) = .ok (a, rest)

/-- A record that reads each of its fields from the member that was written for it, whichever were
read before. `kept` is the record that holds the fields at the given places. -/
structure Reads {σ : Type} (fields : Fields σ) (written : List (Bytes × Bytes))
    (kept : List Nat → σ) : Prop where
  named : fields.names = written.map Prod.fst
  distinct : fields.names.Nodup
  read : ∀ (i : Nat) (hi : i < written.length) (seen : List Nat),
    Decodes (fields.read i (kept seen)) written[i].2 (kept (i :: seen))
  unordered : ∀ given, kept given.reverse = kept given

/-- What stands before the blanks and the quote of a key. -/
inductive Lead : (first : Bool) → Bytes → Prop where
  | first : Lead true []
  | next {ws : Bytes} (hws : Blank ws) : Lead false (ws ++ [44])

section Reading

variable {σ : Type} {fields : Fields σ} {written : List (Bytes × Bytes)} {kept : List Nat → σ}
  {given seen : List Nat} {first : Bool} {lead ws ms rest : Bytes}

theorem nextKey_append (hl : Lead first lead) (hws : Blank ws) (rest : Bytes) :
    nextKey first (lead ++ (ws ++ 34 :: rest)) = .ok (true, rest) := by
  have hquote := skipBlanks_append_cons hws (show isBlank 34 = false by decide)
  cases hl with
  | first => simp [nextKey, hquote]
  | next hlead =>
      have hcomma := skipBlanks_append_cons hlead (show isBlank 44 = false by decide)
      simp [nextKey, hcomma, hquote]

theorem nextKey_close (hws : Blank ws) (rest : Bytes) :
    nextKey first (ws ++ 125 :: rest) = .ok (false, rest) := by
  simp [nextKey, skipBlanks_append_cons hws (show isBlank 125 = false by decide)]

theorem Reads.idxOf?_key {i : Nat} {key value : Bytes} (hr : Reads fields written kept)
    (hi : written[i]? = some (key, value)) : fields.names.idxOf? key = some i := by
  have hname : fields.names[i]? = some key := by simp [hr.named, hi]
  obtain ⟨hlt, hget⟩ := List.getElem?_eq_some_iff.mp hname
  rw [idxOf?_eq_some_iff]
  refine ⟨hlt, hget, fun j hj hsame => ?_⟩
  exact Nat.ne_of_lt hj ((getElem_inj hr.distinct).mp (hsame.trans hget.symm))

theorem Member.length_pos {m : Bytes} (hm : Member written given m) :
    0 < m.length := by
  cases hm with
  | known | unknown => simp

/-- One turn: the field of a known member is read, and any other member is read past. -/
theorem readMembers_member {m : Bytes} {fuel : Nat} (hr : Reads fields written kept)
    (hm : Member written given m) (hl : Lead first lead) (hws : Blank ws)
    (hfresh : ∀ i ∈ given, i ∉ seen) (hfuel : m.length ≤ fuel) (hrest : Number.Ended rest) :
    readMembers fields (fuel + 1) first seen (kept seen) (lead ++ (ws ++ (m ++ rest))) =
      readMembers fields fuel false (given.reverse ++ seen) (kept (given.reverse ++ seen))
        rest := by
  cases hm with
  | @known i key value spelled after before hi hk ha hb =>
      have hplace := hr.idxOf?_key hi
      obtain ⟨hlt, hget⟩ := List.getElem?_eq_some_iff.mp hi
      have hread := hr.read i hlt seen hb hrest
      rw [hget] at hread
      simp only [cons_append, append_assoc]
      rw [readMembers, nextKey_append hl hws]
      simp [readString_append hk, readColon_append ha, hplace, hfresh i mem_cons_self, hread]
  | @unknown key value spelled after before hkey hk ha hb hv =>
      have hplace : fields.names.idxOf? key = none :=
        idxOf?_eq_none_iff.mpr (hr.named.symm ▸ hkey)
      have hsize : value.length ≤ fuel := by
        simp only [length_cons, length_append] at hfuel
        omega
      have hskip := skipValue_append hb hv hsize hrest
      simp only [cons_append, append_assoc]
      rw [readMembers, nextKey_append hl hws]
      simp [readString_append hk, readColon_append ha, hplace, hskip]

/-- All turns: the fields of the members are read, each in its turn. -/
theorem readMembers_append {fuel : Nat} (hr : Reads fields written kept)
    (hms : Members written given ms) (hl : Lead first lead) (hnodup : given.Nodup)
    (hfresh : ∀ i ∈ given, i ∉ seen) (hfuel : ms.length < fuel) (rest : Bytes) :
    readMembers fields fuel first seen (kept seen) (lead ++ (ms ++ 125 :: rest)) =
      .ok (kept (given.reverse ++ seen), rest) := by
  induction hms generalizing fuel first lead seen with
  | @one given before m after hb hm ha =>
      have hpos := hm.length_pos
      simp only [length_append] at hfuel
      obtain ⟨fuel, rfl⟩ : ∃ left, fuel = left + 2 := ⟨fuel - 2, by omega⟩
      rw [append_assoc, append_assoc, readMembers_member hr hm hl hb hfresh (by omega)
        (ha.ended (.inr (.inr rfl)) rest), readMembers, nextKey_close ha]
      rfl
  | @more given others before m after ms hb hm ha hms ih =>
      have hpos := hm.length_pos
      simp only [length_append, length_cons] at hfuel
      obtain ⟨fuel, rfl⟩ : ∃ left, fuel = left + 1 := ⟨fuel - 1, by omega⟩
      obtain ⟨-, hothers, hapart⟩ := nodup_append.mp hnodup
      -- a field of the other members is neither seen before nor given by this one
      have hfirst : ∀ i ∈ given, i ∉ seen := fun i hi => hfresh i (mem_append_left _ hi)
      have hlater : ∀ i ∈ others, i ∉ given.reverse ++ seen := by
        intro i hi hseen
        rcases mem_append.mp hseen with hgiven | hseen
        · exact hapart i (mem_reverse.mp hgiven) i hi rfl
        · exact hfresh i (mem_append_right _ hi) hseen
      have hsize : m.length ≤ fuel := by omega
      have hleft : ms.length < fuel := by omega
      have hmember := readMembers_member hr hm hl hb hfirst hsize
        (ha.ended (.inl rfl) (ms ++ 125 :: rest))
      have hrest := ih (.next ha) hothers hlater hleft
      simp only [append_assoc, cons_append, nil_append, reverse_append] at hmember hrest ⊢
      rw [hmember, hrest]

theorem readRecord_document {bs : Bytes} (hr : Reads fields written kept) (hnodup : given.Nodup)
    (hd : Document written given bs) :
    ∃ after, Blank after ∧ readRecord fields (kept []) bs = .ok (kept given, after) := by
  cases hd with
  | @empty before inside after hb hi ha =>
      refine ⟨after, ha, ?_⟩
      have hread : readMembers fields ((inside ++ 125 :: after).length + 1) true [] (kept [])
          (inside ++ 125 :: after) = .ok (kept [], after) := by
        rw [readMembers, nextKey_close hi]
        rfl
      rw [readRecord, skipBlanks_append_cons hb (by decide)]
      exact hread
  | @object given before ms after hb hms ha =>
      refine ⟨after, ha, ?_⟩
      have hfuel : ms.length < (ms ++ 125 :: after).length + 1 := by
        simp only [length_append, length_cons]
        omega
      have hread := readMembers_append hr hms .first hnodup (fun _ _ => not_mem_nil) hfuel after
      rw [append_nil, hr.unordered] at hread
      rw [readRecord, skipBlanks_append_cons hb (by decide)]
      exact hread

/-- A text that is an object with some of the written members is the record that holds these. -/
theorem ofText_document {text : String} (hr : Reads fields written kept) (hnodup : given.Nodup)
    (hd : Document written given (Utf8.encode text)) :
    ofText fields (kept []) text = .ok (kept given) := by
  obtain ⟨after, ha, hread⟩ := readRecord_document hr hnodup hd
  have hclosed : skipBlanks after = [] := by
    rw [← append_nil after, skipBlanks_append ha]
    rfl
  rw [ofText, hread]
  simp only [ok_bind, hclosed]
  rfl

end Reading

end OnceOnly.Settings.Json
