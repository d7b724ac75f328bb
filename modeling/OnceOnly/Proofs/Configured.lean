import OnceOnly.Proofs.JsonRecords
import OnceOnly.Settings.Dedup

/-!
# Settings survive their JSON form

Each field of the settings is read from the text it is written as, whatever follows. So settings
are read back from their own JSON, and from every object with some of its members among others,
the missing ones at their defaults.
-/

namespace OnceOnly

open List

namespace Settings.Json

/-! ## Numbers -/

section Numbers

variable {n : Nat} {ws rest : Bytes}

theorem readNumber_decimal (hn : n < Nat.pow 2 64) (hws : Blank ws) (hrest : Number.Ended rest) :
    readNumber (ws ++ (Number.decimal n ++ rest)) = .ok (.natural (.ofNat n), rest) := by
  have hread := Number.read_decimal true hn hrest
  obtain ⟨d, ds, hcons, hd, -⟩ := Number.decimal_starts n
  have hminus : d ≠ 45 := Number.ne_of_isDigit hd (by decide)
  rw [hcons, cons_append] at hread ⊢
  rw [readNumber, skipBlanks_append_cons hws (isBlank_of_isDigit hd)]
  simp only [if_neg hminus, if_pos hd, hread, Number.whole, if_true]

theorem readNumber_negative (hpos : 0 < n) (hn : n ≤ Nat.pow 2 63) (hws : Blank ws)
    (hrest : Number.Ended rest) :
    readNumber (ws ++ (45 :: Number.decimal n ++ rest)) = .ok (.negative (.ofInt (-n)), rest) := by
  have hread := Number.read_decimal false (Nat.lt_of_le_of_lt hn (by decide)) hrest
  rw [readNumber, cons_append, skipBlanks_append_cons hws (by decide)]
  simp only [if_true, hread, Number.whole, Bool.false_eq_true, if_false, if_pos (And.intro hpos hn)]

end Numbers

theorem decodes_natural (n : UInt64) :
    Decodes readNatural (Utf8.encode (toString n.toNat)) n := by
  intro ws rest hws hrest
  have hread := readNumber_decimal n.toNat_lt hws hrest
  rw [UInt64.ofNat_toNat] at hread
  rw [readNatural, ← Number.decimal, hread]
  rfl

theorem encode_toString_of_nonneg {z : Int} (h : 0 ≤ z) :
    Utf8.encode (toString z) = Number.decimal z.toNat := by
  rw [show toString z = z.repr from rfl, Int.repr_eq_if, if_pos h]
  rfl

theorem encode_toString_of_neg {z : Int} (h : z < 0) :
    Utf8.encode (toString z) = 45 :: Number.decimal (-z).toNat := by
  rw [show toString z = z.repr from rfl, Int.repr_eq_if, if_neg (Int.not_le.mpr h),
    Utf8.encode_append]
  rfl

theorem decodes_integer (n : Int64) : Decodes readInteger (Utf8.encode (toString n.toInt)) n := by
  intro ws rest hws hrest
  have hmost := n.toInt_lt
  have hleast := n.le_toInt
  have hpow : Nat.pow 2 63 = 2 ^ 63 := rfl
  have hsize : UInt64.size = 2 ^ 64 := rfl
  rcases Int.lt_or_le n.toInt 0 with hneg | hnonneg
  · have hread := readNumber_negative (n := (-n.toInt).toNat) (by omega) (by omega) hws hrest
    have hback : -((-n.toInt).toNat : Int) = n.toInt := by omega
    rw [hback, Int64.ofInt_toInt] at hread
    rw [readInteger, encode_toString_of_neg hneg, hread]
    rfl
  · have hfits : n.toInt.toNat < UInt64.size := by omega
    have hread := readNumber_decimal hfits hws hrest
    have hsame : (UInt64.ofNat n.toInt.toNat).toNat = n.toInt.toNat :=
      UInt64.toNat_ofNat_of_lt' hfits
    have hback : Int64.ofNat n.toInt.toNat = n := by
      rw [← Int64.ofInt_eq_ofNat, Int.toNat_of_nonneg hnonneg, Int64.ofInt_toInt]
    have hroom : n.toInt.toNat < Nat.pow 2 63 := by omega
    rw [readInteger, encode_toString_of_nonneg hnonneg, hread]
    simp only [ok_bind, hsame, hback, if_pos hroom]
    rfl

/-! ## Options -/

/-- Starts as a number does, so not as `null`. -/
def Signed (bs : Bytes) : Prop :=
  ∃ b tail, bs = b :: tail ∧ (b = 45 ∨ Number.isDigit b = true)

theorem signed_toString (z : Int) : Signed (Utf8.encode (toString z)) := by
  rcases Int.lt_or_le z 0 with hneg | hnonneg
  · exact ⟨45, _, encode_toString_of_neg hneg, .inl rfl⟩
  · obtain ⟨d, ds, hcons, hd, -⟩ := Number.decimal_starts z.toNat
    exact ⟨d, ds, (encode_toString_of_nonneg hnonneg).trans hcons, .inr hd⟩

theorem signed_natural (n : UInt64) : Signed (Utf8.encode (toString n.toNat)) :=
  signed_toString n.toNat

section Options

variable {α : Type} {read : Bytes → Except Mismatch (α × Bytes)}

theorem decodes_some {bs : Bytes} {a : α} (h : Decodes read bs a) (hbs : Signed bs) :
    Decodes (readOption read) bs (some a) := by
  intro ws rest hws hrest
  obtain ⟨b, tail, rfl, hb⟩ := hbs
  have hfirst : isBlank b = false ∧ b ≠ 110 := by
    rcases hb with rfl | hb
    · decide
    · exact ⟨isBlank_of_isDigit hb, Number.ne_of_isDigit hb (by decide)⟩
  have hread := h blank_nil hrest
  rw [cons_append, nil_append] at hread
  rw [readOption, cons_append, skipBlanks_append_cons hws hfirst.1]
  split
  · rename_i heq
    exact absurd (cons.inj heq).1 hfirst.2
  · rw [hread]
    rfl

theorem decodes_option {render : α → String}
    (hread : ∀ a, Decodes read (Utf8.encode (render a)) a)
    (hrender : ∀ a, Signed (Utf8.encode (render a))) (o : Option α) :
    Decodes (readOption read) (Utf8.encode (CallSettings.optionText render o)) o := by
  cases o with
  | none =>
      intro ws rest hws hrest
      have hnull : Utf8.encode (CallSettings.optionText render none) = 110 :: word "ull" := by
        change word "null" = 110 :: word "ull"
        decide
      rw [readOption, hnull, cons_append, skipBlanks_append_cons hws (by decide)]
      simp only [literal_append]
      rfl
  | some a => exact decodes_some (hread a) (hrender a)

end Options

/-- A value that is read is put into the record. -/
theorem decodes_put {α σ : Type} {read : Bytes → Except Mismatch (α × Bytes)} {bs : Bytes} {a : α}
    {s : σ} (put : α → σ) (h : Decodes read bs a) (hput : put a = s) :
    Decodes (fun bs => do
      let (a, rest) ← read bs
      pure (put a, rest)) bs s := by
  intro ws rest hws hrest
  simp only [h hws hrest, ok_bind, hput]
  rfl

end Settings.Json

open Settings.Json

/-! ## Call settings -/

namespace CallSettings

variable (s : CallSettings)

/-- The members of the settings as they are written. -/
def members : List (String × String) :=
  [("max_message_size", toString s.maxMessageSize.toNat),
    ("default_timeout_ms", optionText (fun n => toString n.toNat) s.defaultTimeoutMillis)]

theorem toJson_eq : s.toJson = objectText s.members := by
  have hfirst : "\x7b\"max_message_size\":" = "\x7b" ++ ("\"" ++ "max_message_size" ++ "\":") := by
    decide
  have hnext : ",\"default_timeout_ms\":" = "," ++ ("\"" ++ "default_timeout_ms" ++ "\":") := by
    decide
  have htext (size timeout : String) :
      "\x7b\"max_message_size\":" ++ size ++ ",\"default_timeout_ms\":" ++ timeout ++ "\x7d" =
        objectText [("max_message_size", size), ("default_timeout_ms", timeout)] := by
    rw [hfirst, hnext]
    simp only [objectText, map_cons, map_nil, memberText, String.intercalate_cons_cons,
      String.intercalate_singleton, String.append_assoc]
  exact htext _ _

/-- The given fields of the settings, the others at their defaults. -/
def kept (given : List Nat) : CallSettings where
  maxMessageSize := if 0 ∈ given then s.maxMessageSize else standard.maxMessageSize
  defaultTimeoutMillis :=
    if 1 ∈ given then s.defaultTimeoutMillis else standard.defaultTimeoutMillis

theorem reads : Reads fields (s.members.map spelled) s.kept where
  named := by simp [fields, members, spelled]
  distinct := by decide
  read := by
    intro i hi seen
    match i, hi with
    | 0, _ =>
        refine decodes_put (fun n => { s.kept seen with maxMessageSize := n })
          (decodes_natural s.maxMessageSize) ?_
        simp [kept]
    | 1, _ =>
        refine decodes_put (fun n => { s.kept seen with defaultTimeoutMillis := n })
          (decodes_option decodes_natural signed_natural s.defaultTimeoutMillis) ?_
        simp [kept]
  unordered given := by simp only [kept, mem_reverse]

theorem document_toJson :
    Document (s.members.map spelled) (range s.members.length) (Utf8.encode s.toJson) := by
  have hplain : ∀ name ∈ ["max_message_size", "default_timeout_ms"],
      (word name).all isPlain = true := by
    decide
  rw [toJson_eq]
  exact document_objectText (by simp [members]) (by simpa [members] using hplain)

theorem ofJson_of_document {text : String} {given : List Nat} (hnodup : given.Nodup)
    (hd : Document (s.members.map spelled) given (Utf8.encode text)) :
    ofJson text = .ok (s.kept given) :=
  ofText_document s.reads hnodup hd

end CallSettings

/-! ## Dedup settings -/

namespace StalePolicy

theorem decodes (p : StalePolicy) :
    Decodes (readChoice ofName?) (Utf8.encode ("\"" ++ p.name ++ "\"")) p := by
  have hquotes : Quotes (word p.name) (word p.name) := by
    refine quotes_self ?_
    cases p with
    | alwaysComplete | abandonEarly => decide
  have hchosen : ofName? (word p.name) = some p := by
    cases p with
    | alwaysComplete | abandonEarly => decide
  have htext : Utf8.encode ("\"" ++ p.name ++ "\"") = 34 :: (word p.name ++ [34]) := by
    rw [Utf8.encode_append, Utf8.encode_append]
    rfl
  intro ws rest hws hrest
  rw [htext, readChoice, cons_append, append_assoc, skipBlanks_append_cons hws (by decide)]
  simp only [if_true, cons_append, nil_append, readString_append hquotes, ok_bind, hchosen]
  rfl

end StalePolicy

namespace DedupSettings

variable (s : DedupSettings)

/-- The members of the settings as they are written. -/
def members : List (String × String) := names.zip s.jsonValues

theorem toJson_eq : s.toJson = objectText s.members := rfl

/-- The given fields of the settings, the others at their defaults. -/
def kept (given : List Nat) : DedupSettings where
  collectEveryMillis := if 0 ∈ given then s.collectEveryMillis else standard.collectEveryMillis
  clientTtlMillis := if 1 ∈ given then s.clientTtlMillis else standard.clientTtlMillis
  pressureMinAgeMillis :=
    if 2 ∈ given then s.pressureMinAgeMillis else standard.pressureMinAgeMillis
  memoryLimit := if 3 ∈ given then s.memoryLimit else standard.memoryLimit
  stalePolicy := if 4 ∈ given then s.stalePolicy else standard.stalePolicy

theorem reads : Reads fields (s.members.map spelled) s.kept where
  named := by simp [fields, members, spelled, names, jsonValues]
  distinct := by decide
  read := by
    intro i hi seen
    match i, hi with
    | 0, _ =>
        refine decodes_put (fun n => { s.kept seen with collectEveryMillis := n })
          (decodes_natural s.collectEveryMillis) ?_
        simp [kept]
    | 1, _ =>
        refine decodes_put (fun n => { s.kept seen with clientTtlMillis := n })
          (decodes_natural s.clientTtlMillis) ?_
        simp [kept]
    | 2, _ =>
        refine decodes_put (fun n => { s.kept seen with pressureMinAgeMillis := n })
          (decodes_natural s.pressureMinAgeMillis) ?_
        simp [kept]
    | 3, _ =>
        refine decodes_put (fun n => { s.kept seen with memoryLimit := n })
          (decodes_option decodes_integer (fun n => signed_toString n.toInt) s.memoryLimit) ?_
        simp [kept]
    | 4, _ =>
        refine decodes_put (fun p => { s.kept seen with stalePolicy := p })
          s.stalePolicy.decodes ?_
        simp [kept]
  unordered given := by simp only [kept, mem_reverse]

theorem document_toJson :
    Document (s.members.map spelled) (range s.members.length) (Utf8.encode s.toJson) := by
  have hplain : ∀ name ∈ names, (word name).all isPlain = true := by decide
  rw [toJson_eq]
  refine document_objectText (by simp [members, names, jsonValues]) fun m hm => ?_
  exact hplain m.1 (of_mem_zip hm).1

theorem ofJson_of_document {text : String} {given : List Nat} (hnodup : given.Nodup)
    (hd : Document (s.members.map spelled) given (Utf8.encode text)) :
    ofJson text = .ok (s.kept given) :=
  ofText_document s.reads hnodup hd

end DedupSettings

/-! ## Both settings -/

/-- Settings are read back from their own text, and from every object with some of its members,
each once, in any order and among any others. -/
theorem settings_survive :
    (∀ s : CallSettings, s.toJson = objectText s.members ∧ CallSettings.ofJson s.toJson = .ok s ∧
      ∀ (text : String) (given : List Nat), given.Nodup →
        Document (s.members.map spelled) given (Utf8.encode text) →
          CallSettings.ofJson text = .ok (s.kept given)) ∧
    (∀ s : DedupSettings, s.toJson = objectText s.members ∧ DedupSettings.ofJson s.toJson = .ok s ∧
      ∀ (text : String) (given : List Nat), given.Nodup →
        Document (s.members.map spelled) given (Utf8.encode text) →
          DedupSettings.ofJson text = .ok (s.kept given)) := by
  refine ⟨fun s => ⟨s.toJson_eq, ?_, fun _ _ => s.ofJson_of_document⟩,
    fun s => ⟨s.toJson_eq, ?_, fun _ _ => s.ofJson_of_document⟩⟩
  · have hkept : s.kept (range s.members.length) = s := by
      simp [CallSettings.kept, CallSettings.members]
    rw [s.ofJson_of_document nodup_range s.document_toJson, hkept]
  · have hkept : s.kept (range s.members.length) = s := by
      simp [DedupSettings.kept, DedupSettings.members, DedupSettings.names,
        DedupSettings.jsonValues]
    rw [s.ofJson_of_document nodup_range s.document_toJson, hkept]

theorem settings_survive_unknown_member :
    CallSettings.ofJson "\x7b\"note\": [1.5e+3,\"\\ud800\"] ,\"max_message_size\":7\x7d" =
        .ok ⟨7, none⟩ ∧
      DedupSettings.ofJson "\x7b\"stale_policy\":\"abandon_early\",\"gc_interval_ms\":7\x7d" =
        .ok ⟨7, 3600000, 10000, none, .abandonEarly⟩ := by
  have hdigit {d : UInt8} (hd : Settings.Number.isDigit d = true) : Digits [d] :=
    ⟨cons_ne_nil _ _, by simpa using hd⟩
  have hnumber : Numeral ([49] ++ ([46, 53] ++ [101, 43, 51])) :=
    ⟨⟨hdigit (by decide), by decide⟩, .some (hdigit (by decide)),
      .signed (.inl rfl) (.inl rfl) (hdigit (by decide))⟩
  have hlone : Content (word "\\ud800") := .unit (by decide) .nil
  have hnote : Quotes (word "note") (word "note") := quotes_self (by decide)
  have hsize : Quotes (word "max_message_size") (word "max_message_size") :=
    quotes_self (by decide)
  have hstale : Quotes (word "stale_policy") (word "stale_policy") :=
    quotes_self (by decide)
  have hcollect : Quotes (word "gc_interval_ms") (word "gc_interval_ms") :=
    quotes_self (by decide)
  have hspace : Blank [32] := by simp [Blank, isBlank]
  have hlist := Spells.bracketed (.more (.element blank_nil) (.token (.number hnumber)) blank_nil
    (.one (.element blank_nil) (.token (.string hlone)) blank_nil))
  constructor
  · refine ((settings_survive.1 ⟨7, some 5⟩).2.2 _ [0] (by decide)
      ?_).trans (congrArg _ (by decide))
    refine Eq.mp (congrArg (Document _ _) ?_) (.object blank_nil
      (.more blank_nil (.unknown (by decide) hnote blank_nil hspace hlist) hspace
        (.one blank_nil (.known (i := 0) rfl hsize blank_nil blank_nil) blank_nil)) blank_nil)
    decide
  · refine ((settings_survive.2 ⟨7, 8, 9, none, .abandonEarly⟩).2.2 _ [4, 0] (by decide)
      ?_).trans (congrArg _ (by decide))
    refine Eq.mp (congrArg (Document _ _) ?_) (.object blank_nil
      (.more blank_nil (.known (i := 4) rfl hstale blank_nil blank_nil) blank_nil
        (.one blank_nil (.known (i := 0) rfl hcollect blank_nil blank_nil) blank_nil)) blank_nil)
    decide

end OnceOnly
