import OnceOnly.Ledger.Workbook
import OnceOnly.Proofs.Reference

/-!
# Conservation: a budget counts what is charged to it directly and what its maps hold

Counted with words, the operations come to what they come to in the reference.
-/

namespace OnceOnly.Ledger

open List ChargedMap

variable {κ α : Type} [LT κ]

/-! ## Books and the reference -/

namespace Books

theorem execute_eq {β : Type} {b : Books κ α} {place : Nat} {budget budget' : Budget}
    {m m' : ChargedMap κ α} {op : Counting κ α β} {x : β} (hb : b.budgets[place]? = some budget)
    (h : op.Ends ⟨m, budget⟩ x ⟨m', budget'⟩) : b.execute place m op =
      ({ b with budgets := b.budgets.set place budget' }, m', some (.ok x)) := by
  rw [Counting.Ends] at h
  simp only [execute, hb, h]

theorem execute_map {β γ : Type} (b : Books κ α) (place : Nat) (m : ChargedMap κ α)
    (op : Counting κ α β) (f : β → γ) : b.execute place m (f <$> op) =
      ((b.execute place m op).1, (b.execute place m op).2.1,
        (b.execute place m op).2.2.map (Except.map f)) := by
  simp only [execute]
  cases b.budgets[place]? with
  | none => rfl
  | some budget =>
      simp only [ExceptT.run_map, StateT.run_map]
      rfl

/-- What is made of an answer does not matter to the books. -/
theorem onMap_map {β γ : Type} (b : Books κ α) (name : String) (op : Counting κ α β)
    (f : β → γ) : (b.onMap name (f <$> op)).1 = (b.onMap name op).1 := by
  simp only [onMap, execute_map]
  cases b.sheets.get? name <;> rfl

/-- What is in the maps, each with the place of its budget. -/
def contents (b : Books κ α) : SortedMap String (Nat × SortedMap κ α) :=
  b.sheets.filterMap fun _ s => some (s.budget, s.map.map)

/-- The bytes charged by the maps on the budget at a place. -/
def charged (b : Books κ α) (place : Nat) : Int :=
  balance (fun e => if e.2.budget = place then e.2.map.charged else 0) b.sheets.toList

end Books

variable [Footprint κ] [Footprint α]

/-- The map counts what is there, in a word, and is on one of the budgets. -/
structure Sheet.Sound (s : Sheet κ α) (budgets : Nat) : Prop where
  balanced : s.map.Balanced
  word : IsWord s.map.charged
  placed : s.budget < budgets

namespace Sheet.Sound

variable {s : Sheet κ α} {budgets : Nat}

theorem account (h : s.Sound budgets) {budget : Budget} (hp : budget.Peaked) :
    Account.Sound ⟨s.map, budget⟩ :=
  ⟨h.balanced, h.word, hp⟩

theorem after (h : s.Sound budgets) {charges : List Int} {m : ChargedMap κ α}
    (hw : InWords s.map.charged charges) (hm : s.map.Booked charges m) :
    Sheet.Sound ⟨s.budget, m⟩ budgets where
  balanced := hm.balanced h.balanced
  word := hm.charged_eq ▸ hw.net h.word
  placed := h.placed

end Sheet.Sound

/-- The maps of the books are sound and those of the reference. -/
structure Mirrors (sheets : SortedMap String (Sheet κ α))
    (maps : SortedMap String (Nat × SortedMap κ α)) (budgets : Nat) : Prop where
  maps_eq : ∀ name, (sheets.get? name).map (fun s => (s.budget, s.map.map)) = maps.get? name
  sound : ∀ name s, sheets.get? name = some s → s.Sound budgets

namespace Mirrors

variable {sheets : SortedMap String (Sheet κ α)} {maps : SortedMap String (Nat × SortedMap κ α)}
  {budgets : Nat} {s : Sheet κ α}

theorem insert (h : Mirrors sheets maps budgets) (name : String) (hs : s.Sound budgets) :
    Mirrors (sheets.insert name s) (maps.insert name (s.budget, s.map.map)) budgets := by
  constructor
  · intro other
    rw [SortedMap.get?_insert, SortedMap.get?_insert]
    split
    · rfl
    · exact h.maps_eq other
  · intro other s' hs'
    rw [SortedMap.get?_insert] at hs'
    split at hs'
    · exact Option.some.inj hs' ▸ hs
    · exact h.sound other s' hs'

theorem erase (h : Mirrors sheets maps budgets) (name : String) :
    Mirrors (sheets.erase name) (maps.erase name) budgets := by
  constructor
  · intro other
    rw [SortedMap.get?_erase, SortedMap.get?_erase]
    split
    · rfl
    · exact h.maps_eq other
  · intro other s hs
    rw [SortedMap.get?_erase] at hs
    split at hs
    · cases hs
    · exact h.sound other s hs

theorem get?_maps (h : Mirrors sheets maps budgets) {name : String}
    (hs : sheets.get? name = some s) : maps.get? name = some (s.budget, s.map.map) := by
  rw [← h.maps_eq, hs]
  rfl

theorem get?_maps_none (h : Mirrors sheets maps budgets) {name : String}
    (hs : sheets.get? name = none) : maps.get? name = none := by
  rw [← h.maps_eq, hs]
  rfl

/-- The count of a map, and what the reference takes its bytes to be. -/
theorem charged_eq (h : Mirrors sheets maps budgets) {name : String}
    (hs : sheets.get? name = some s) : s.map.charged = bytesOf s.map.map.toList :=
  (h.sound name s hs).balanced

end Mirrors

/-- The budgets of the books have the counts and the peaks of the reference. -/
structure Totals (budgets : List Budget) (p : Reference κ α) : Prop where
  length_eq : budgets.length = p.tallies.length
  consumption_eq : ∀ (place : Nat) (budget : Budget), budgets[place]? = some budget →
    budget.consumption = p.consumption place
  peak_eq : ∀ (place : Nat) (budget : Budget) (tally : Tally), budgets[place]? = some budget →
    p.tallies[place]? = some tally → budget.peak = tally.counts.foldl max 0
  peaked : ∀ (place : Nat) (budget : Budget), budgets[place]? = some budget → budget.Peaked

namespace Totals

variable {budgets : List Budget} {p p' : Reference κ α} {q : Posting} {budget : Budget}

/-- Charges go to one budget, and are noted there. -/
theorem post (h : Totals budgets p) (hb : budgets[q.place]? = some budget)
    (ht : p'.tallies = p.post q)
    (hc : ∀ place, p'.consumption place =
      p.consumption place + if q.place = place then net q.charges else 0) :
    Totals (budgets.set q.place (budget.chargeAll q.charges)) p' := by
  have hget (place : Nat) (b : Budget)
      (hplace : (budgets.set q.place (budget.chargeAll q.charges))[place]? = some b) :
      (q.place = place ∧ b = budget.chargeAll q.charges) ∨
        (q.place ≠ place ∧ budgets[place]? = some b) := by
    rw [getElem?_set] at hplace
    by_cases hp : q.place = place
    · rw [if_pos hp] at hplace
      split at hplace
      · exact .inl ⟨hp, (Option.some.inj hplace).symm⟩
      · cases hplace
    · rw [if_neg hp] at hplace
      exact .inr ⟨hp, hplace⟩
  constructor
  · simp [ht, Reference.post, h.length_eq]
  · intro place b hplace
    rw [hc]
    rcases hget place b hplace with ⟨rfl, rfl⟩ | ⟨hne, hold⟩
    · simp [h.consumption_eq _ _ hb]
    · simp [hne, h.consumption_eq _ _ hold]
  · intro place b tally hplace htally
    rw [ht, Reference.post, getElem?_modify] at htally
    rcases hget place b hplace with ⟨rfl, rfl⟩ | ⟨hne, hold⟩
    · cases hp : p.tallies[q.place]? with
      | none => simp [hp] at htally
      | some t =>
          simp only [hp, ite_true, Option.map_eq_map, Option.map_some, Option.some.injEq] at htally
          rw [← htally, Budget.chargeAll_peak, h.peak_eq _ _ _ hb hp, h.consumption_eq _ _ hb,
            foldl_append]
    · simp only [hne, ite_false, Option.map_eq_map, Option.map_id'] at htally
      exact h.peak_eq _ _ _ hold htally
  · intro place b hplace
    rcases hget place b hplace with ⟨rfl, rfl⟩ | ⟨-, hold⟩
    · exact (h.peaked _ _ hb).chargeAll _
    · exact h.peaked _ _ hold

/-- Maps of the same bytes make no difference. -/
theorem of_held_eq (h : Totals budgets p) (ht : p'.tallies = p.tallies)
    (hm : ∀ place, Reference.held place p'.maps = Reference.held place p.maps) :
    Totals budgets p' := by
  have hc (place : Nat) : p'.consumption place = p.consumption place := by
    rw [Reference.consumption, Reference.consumption, ht, hm]
  constructor
  · rw [ht, h.length_eq]
  · exact fun place budget hb => (h.consumption_eq place budget hb).trans (hc place).symm
  · exact fun place budget tally hb htally => h.peak_eq place budget tally hb (ht ▸ htally)
  · exact h.peaked

/-- A budget that is new counts nothing: no map is on it. -/
theorem new (h : Totals budgets p) (id : String) (limit : Option Int)
    (ht : p'.tallies = p.tallies ++ [⟨0, []⟩]) (hm : p'.maps = p.maps)
    (hplaced : Reference.held p.tallies.length p.maps = 0) :
    Totals (budgets ++ [.ofLimit id limit]) p' := by
  have hget (place : Nat) (b : Budget)
      (hplace : (budgets ++ [.ofLimit id limit])[place]? = some b) :
      (place < p.tallies.length ∧ budgets[place]? = some b) ∨
        (place = p.tallies.length ∧ b = .ofLimit id limit) := by
    rw [← h.length_eq]
    rcases Nat.lt_trichotomy place budgets.length with hlt | rfl | hgt
    · rw [getElem?_append_left hlt] at hplace
      exact .inl ⟨hlt, hplace⟩
    · rw [getElem?_concat_length] at hplace
      exact .inr ⟨rfl, (Option.some.inj hplace).symm⟩
    · rw [getElem?_eq_none (by simp; omega)] at hplace
      cases hplace
  constructor
  · simp [ht, h.length_eq]
  · intro place b hplace
    rw [Reference.consumption, ht, hm]
    rcases hget place b hplace with ⟨hlt, hold⟩ | ⟨rfl, rfl⟩
    · rw [getElem?_append_left hlt]
      exact h.consumption_eq _ _ hold
    · simp [hplaced, Budget.ofLimit]
  · intro place b tally hplace htally
    rw [ht] at htally
    rcases hget place b hplace with ⟨hlt, hold⟩ | ⟨rfl, rfl⟩
    · rw [getElem?_append_left hlt] at htally
      exact h.peak_eq _ _ _ hold htally
    · simp only [getElem?_concat_length, Option.some.injEq] at htally
      simp [← htally, Budget.ofLimit]
  · intro place b hplace
    rcases hget place b hplace with ⟨-, hold⟩ | ⟨-, rfl⟩
    · exact h.peaked _ _ hold
    · exact Budget.ofLimit_peaked id limit

end Totals

/-- The books have what the reference has. -/
structure Books.Matches (b : Books κ α) (p : Reference κ α) : Prop where
  names : b.budgetNames = p.budgetNames
  named : ∀ name place, p.budgetNames.get? name = some place → place < p.tallies.length
  mirrors : Mirrors b.sheets p.maps p.tallies.length
  totals : Totals b.budgets p

namespace Books.Matches

variable {b : Books κ α} {p : Reference κ α} {q : Posting}

/-- The budget of a posting that fits has room for its charges. -/
theorem budget (h : b.Matches p) (hq : q.place < p.tallies.length)
    (hf : InWords (p.consumption q.place) q.charges) :
    ∃ budget, b.budgets[q.place]? = some budget ∧ budget.Peaked ∧
      InWords budget.consumption q.charges := by
  have hlt : q.place < b.budgets.length := h.totals.length_eq ▸ hq
  have hb := getElem?_eq_getElem hlt
  refine ⟨_, hb, h.totals.peaked _ _ hb, ?_⟩
  rwa [h.totals.consumption_eq _ _ hb]

/-- An operation that charges what fits, with any change of the maps that the charges are for. -/
theorem execute (h : b.Matches p) {β : Type} {op : Counting κ α β} {m m' : ChargedMap κ α} {x : β}
    {sheets : SortedMap String (Sheet κ α)} {maps : SortedMap String (Nat × SortedMap κ α)}
    (hq : q.place < p.tallies.length) (hf : InWords (p.consumption q.place) q.charges)
    (hop : ∀ budget : Budget, budget.Peaked → InWords budget.consumption q.charges →
      op.Ends ⟨m, budget⟩ x ⟨m', budget.chargeAll q.charges⟩)
    (hm : Mirrors sheets maps p.tallies.length)
    (hheld : ∀ place, Reference.held place maps = Reference.held place p.maps +
      if q.place = place then net q.charges - q.direct else 0) :
    ∃ budgets, b.execute q.place m op = ({ b with budgets }, m', some (.ok x)) ∧
      Books.Matches { b with budgets, sheets } { p with tallies := p.post q, maps } := by
  obtain ⟨budget, hb, hp, hw⟩ := h.budget hq hf
  refine ⟨_, execute_eq hb (hop budget hp hw), h.names, ?_, ?_, ?_⟩
  · simpa using h.named
  · simpa using hm
  · exact h.totals.post hb rfl (Reference.consumption_post hq rfl hheld)

theorem contents_eq (h : b.Matches p) : b.contents = p.maps := by
  refine SortedMap.ext_get? fun name => ?_
  rw [contents, SortedMap.get?_filterMap, ← h.mirrors.maps_eq]
  cases b.sheets.get? name <;> rfl

/-- What the maps on a budget have charged is what they hold. -/
theorem charged_eq (h : b.Matches p) (place : Nat) :
    b.charged place = Reference.held place p.maps := by
  rw [charged, ← h.contents_eq, Reference.held, contents, SortedMap.toList_filterMap,
    balance_filterMap]
  refine balance_congr fun e he => ?_
  have hc := h.mirrors.charged_eq (SortedMap.mem_toList_iff.mp he)
  simp only [Option.map_some, Option.getD_some, hc]

end Books.Matches

theorem empty_matches : (Books.empty : Books κ α).Matches .empty where
  names := rfl
  named name place h := by simp [Reference.empty] at h
  mirrors := by constructor <;> simp [Books.empty, Reference.empty]
  totals := by constructor <;> simp [Books.empty, Reference.empty]

/-! ## Operation by operation -/

variable [DecidableLT κ] [StrictKey κ]

namespace Books

def apply (b : Books κ α) : Operation κ α → Books κ α × Outcome Unit
  | .newBudget name id limit => (b.newBudget name (.ofLimit id limit), some (.ok ()))
  | .consume budget bytes => b.onBudget budget (Account.consume bytes)
  | .giveBack budget bytes => b.onBudget budget (Account.giveBack bytes)
  | .newMap name budget => b.newMap name budget
  | .dropMap name => b.dropMap name
  | .onMap name act => b.onMap name act.run

def run (b : Books κ α) (ops : List (Operation κ α)) : Books κ α :=
  ops.foldl (fun b op => (b.apply op).1) b

/-- What the operations answer, one after the other. -/
def outcomes (b : Books κ α) : List (Operation κ α) → List (Outcome Unit)
  | [] => []
  | op :: ops => (b.apply op).2 :: (b.apply op).1.outcomes ops

end Books

/-- No overflow ended the operation. -/
def Outcome.Ended {β : Type} (o : Outcome β) : Prop := ∀ overflow, o ≠ some (.error overflow)

namespace Books.Matches

variable {b : Books κ α} {p : Reference κ α}

/-- A direct charge. -/
theorem onBudget (h : b.Matches p) {op : Operation κ α} {name : String} {bytes : Int}
    {run : Counting κ α Unit}
    (hq : p.posting? op = (p.budgetNames.get? name).map fun place => ⟨place, 0, [bytes], bytes⟩)
    (hrun : ∀ {budget : Budget}, budget.Peaked → IsWord bytes →
      IsWord (budget.consumption + bytes) →
        run.Ends ⟨.empty, budget⟩ () ⟨.empty, budget.charge bytes⟩)
    (hf : p.Fits op) :
    (b.onBudget name run).1.Matches { p with tallies := p.noted op } ∧
      (b.onBudget name run).2.Ended := by
  cases hn : p.budgetNames.get? name with
  | none =>
      rw [hn, Option.map_none] at hq
      simp only [Books.onBudget, h.names, hn, Reference.noted, hq]
      exact ⟨h, by simp [Outcome.Ended]⟩
  | some place =>
      rw [hn, Option.map_some] at hq
      have hlt := h.named name place hn
      obtain ⟨hamount, hcounts⟩ := hf _ hq
      have hword : IsWord bytes := by simpa using (inWords_cons.mp hamount).1
      obtain ⟨budgets, hexecute, hmatches⟩ := h.execute hlt hcounts
        (fun _ hp hw => hrun hp hword (inWords_cons.mp hw).1) h.mirrors (by simp)
      rw [← h.names] at hn
      simp only [Books.onBudget, hn, hexecute, Reference.noted, hq]
      exact ⟨hmatches, by simp [Outcome.Ended]⟩

/-- A map that is dropped gives back what it holds. -/
theorem dropMap (h : b.Matches p) {name : String} (hf : p.Fits (.dropMap name)) :
    (b.dropMap name).1.Matches (p.step (.dropMap name)) ∧ (b.dropMap name).2.Ended := by
  cases hs : b.sheets.get? name with
  | none =>
      have hm := h.mirrors.get?_maps_none hs
      simp only [Books.dropMap, hs, Reference.step, Reference.noted, Reference.posting?,
        Reference.release?, hm, Option.map_none, SortedMap.erase_of_get? hm]
      exact ⟨h, by simp [Outcome.Ended]⟩
  | some s =>
      have hm := h.mirrors.get?_maps hs
      have hsheet := h.mirrors.sound name s hs
      have hcharged := h.mirrors.charged_eq hs
      have hq : p.posting? (.dropMap name) =
          some ⟨s.budget, s.map.charged, s.map.release, 0⟩ := by
        simp only [Reference.posting?, Reference.release?, hm, Option.map_some, hcharged,
          ChargedMap.release]
      have hheld (place : Nat) : Reference.held place (p.maps.erase name) =
          Reference.held place p.maps + if s.budget = place then net s.map.release - 0 else 0 := by
        simp only [Reference.held_erase hm, ← hcharged, ChargedMap.release, net_cons, net_nil,
          Int.add_zero, Int.sub_zero]
      obtain ⟨budgets, hexecute, hmatches⟩ := h.execute hsheet.placed (hf _ hq).2
        (fun budget hp hw => Account.release_ends (hsheet.account hp) hw) (h.mirrors.erase name)
        hheld
      simp only [Books.dropMap, hs, hexecute, Reference.step, Reference.noted, hq]
      exact ⟨hmatches, by simp [Outcome.Ended]⟩

theorem newBudget (h : b.Matches p) (name id : String) (limit : Option Int) :
    (b.newBudget name (.ofLimit id limit)).Matches (p.step (.newBudget name id limit)) := by
  have hheld : Reference.held p.tallies.length p.maps = 0 := by
    refine Reference.held_eq_zero fun other s hs => ?_
    rw [← h.mirrors.maps_eq, Option.map_eq_some_iff] at hs
    obtain ⟨sheet, hsheet, rfl⟩ := hs
    exact (h.mirrors.sound other sheet hsheet).placed
  refine ⟨?_, ?_, ?_, h.totals.new id limit rfl rfl hheld⟩
  · simp [Books.newBudget, Reference.step, Reference.noted, Reference.posting?, h.names,
      h.totals.length_eq]
  · intro other place hplace
    simp only [Reference.step, Reference.noted, Reference.posting?, SortedMap.get?_insert,
      length_append, length_singleton] at hplace ⊢
    split at hplace
    · have heq := Option.some.inj hplace
      omega
    · have hlt := h.named other place hplace
      omega
  · refine ⟨h.mirrors.maps_eq, fun other s hs => ?_⟩
    obtain ⟨hbalanced, hword, hlt⟩ := h.mirrors.sound other s hs
    refine ⟨hbalanced, hword, ?_⟩
    simp only [Reference.step, Reference.noted, Reference.posting?, length_append, length_singleton]
    omega

theorem newMap (h : b.Matches p) {name budget : String} (hf : p.Fits (.newMap name budget)) :
    (b.newMap name budget).1.Matches (p.step (.newMap name budget)) ∧
      (b.newMap name budget).2.Ended := by
  cases hn : p.budgetNames.get? budget with
  | none =>
      simp only [Books.newMap, h.names, hn, Reference.step]
      exact ⟨h, by simp [Outcome.Ended]⟩
  | some place =>
      have hq : p.posting? (.newMap name budget) = p.posting? (.dropMap name) := by
        simp [Reference.posting?, SortedMap.contains, hn]
      have hnoted : p.noted (.newMap name budget) = p.noted (.dropMap name) := by
        simp only [Reference.noted, hq]
      have hdrop : p.Fits (.dropMap name) := by rwa [Reference.Fits, ← hq]
      obtain ⟨hd, hended⟩ := h.dropMap hdrop
      have hlt : place < (p.step (.dropMap name)).tallies.length := by
        simpa [Reference.step] using h.named budget place hn
      have hput := hd.mirrors.insert (s := ⟨place, .empty⟩) name
        ⟨empty_balanced, show IsWord 0 by decide, hlt⟩
      simp only [Books.newMap, h.names, hn, Reference.step, hnoted]
      refine ⟨⟨hd.names, hd.named, ?_, ?_⟩, ?_⟩
      · rw [show (p.step (.dropMap name)).maps = p.maps.erase name from rfl,
          SortedMap.insert_erase] at hput
        exact hput
      · refine hd.totals.of_held_eq rfl fun place => ?_
        simp [Reference.held_insert, Reference.step, SortedMap.toList_empty]
      · intro overflow
        have hne := hended overflow
        cases hdrop : (b.dropMap name).2 with
        | none => simp
        | some dropped => simpa [hdrop] using hne

theorem onMap (h : b.Matches p) {name : String} {act : Act κ α} (hf : p.Fits (.onMap name act)) :
    (b.onMap name act.run).1.Matches (p.step (.onMap name act)) ∧
      (b.onMap name act.run).2.Ended := by
  cases hs : b.sheets.get? name with
  | none =>
      have hm := h.mirrors.get?_maps_none hs
      simp only [Books.onMap, hs, Reference.step, hm]
      exact ⟨h, by simp [Outcome.Ended]⟩
  | some s =>
      have hm := h.mirrors.get?_maps hs
      have hsheet := h.mirrors.sound name s hs
      have hcharged := h.mirrors.charged_eq hs
      have htallied : Reference.tallied s.map.map = s.map := by
        rw [Reference.tallied, ← hcharged]
      have hq : p.posting? (.onMap name act) =
          some ⟨s.budget, s.map.charged, (act.exact s.map).2, 0⟩ := by
        simp only [Reference.posting?, hm, Option.map_some, htallied, hcharged]
      obtain ⟨hmap, hcounts⟩ := hf _ hq
      have hput := h.mirrors.insert name (hsheet.after hmap (act.exact_booked s.map))
      have hheld (place : Nat) :
          Reference.held place (p.maps.insert name (s.budget, act.plain s.map.map)) =
            Reference.held place p.maps +
              if s.budget = place then net (act.exact s.map).2 - 0 else 0 := by
        rw [Reference.held_act hm, htallied, Int.sub_zero]
      rw [act.exact_map] at hput
      obtain ⟨budgets, hexecute, hmatches⟩ := h.execute hsheet.placed hcounts
        (fun budget hp hw => act.run_ends (hsheet.account hp) ⟨hmap, hw⟩) hput hheld
      simp only [Books.onMap, hs, hexecute, Reference.step, hm, Reference.noted, hq]
      exact ⟨hmatches, by simp [Outcome.Ended]⟩

theorem apply (h : b.Matches p) {op : Operation κ α} (hf : p.Fits op) :
    (b.apply op).1.Matches (p.step op) ∧ (b.apply op).2.Ended := by
  cases op with
  | newBudget name id limit =>
      exact ⟨h.newBudget name id limit, by simp [Books.apply, Outcome.Ended]⟩
  | consume budget bytes =>
      exact h.onBudget rfl (fun hp _ hw => Account.consume_ends hp hw) hf
  | giveBack budget bytes =>
      exact h.onBudget rfl (fun hp hn hw => Account.giveBack_ends hp hn hw) hf
  | newMap name budget => exact h.newMap hf
  | dropMap name => exact h.dropMap hf
  | onMap name act => exact h.onMap hf

theorem run (h : b.Matches p) {ops : List (Operation κ α)} (hf : p.FitsAll ops) :
    (b.run ops).Matches (p.run ops) ∧ ∀ outcome ∈ b.outcomes ops, outcome.Ended := by
  induction ops generalizing b p with
  | nil => exact ⟨h, by simp [outcomes]⟩
  | cons op ops ih =>
      obtain ⟨hfirst, hrest⟩ := hf
      obtain ⟨hnext, hended⟩ := h.apply hfirst
      obtain ⟨hlast, hall⟩ := ih hnext hrest
      refine ⟨hlast, ?_⟩
      intro outcome hm
      rcases mem_cons.mp hm with rfl | hm
      · exact hended
      · exact hall outcome hm

end Books.Matches

/-- As long as words hold all exact sums, no operation overflows; every map has the entries of the
ordered map that counts nothing and counts their footprints; and every budget counts what was
charged directly and what its maps have charged, and its peak is the greatest of zero and the count
after each single charge. -/
theorem Books.conserved (ops : List (Operation κ α)) (h : Reference.empty.FitsAll ops) :
    let b := (Books.empty : Books κ α).run ops
    let p := (Reference.empty : Reference κ α).run ops
    (∀ outcome ∈ (Books.empty : Books κ α).outcomes ops, outcome.Ended) ∧
      b.contents = p.maps ∧
      (∀ name s, b.sheets.get? name = some s → s.map.charged = bytesOf s.map.toList) ∧
      b.budgets.length = p.tallies.length ∧
      ∀ place tally, p.tallies[place]? = some tally → ∃ budget, b.budgets[place]? = some budget ∧
        budget.consumption = tally.direct + b.charged place ∧
        budget.peak = tally.counts.foldl max 0 := by
  intro b p
  obtain ⟨hm, hended⟩ := (empty_matches : (Books.empty : Books κ α).Matches .empty).run h
  refine ⟨hended, hm.contents_eq, fun name s hs => (hm.mirrors.sound name s hs).balanced,
    hm.totals.length_eq, ?_⟩
  intro place tally ht
  have hlt : place < b.budgets.length := by
    rw [hm.totals.length_eq]
    exact (List.getElem?_eq_some_iff.mp ht).1
  have hb := getElem?_eq_getElem hlt
  refine ⟨_, hb, ?_, hm.totals.peak_eq _ _ _ hb ht⟩
  rw [hm.totals.consumption_eq _ _ hb, Reference.consumption, ht, hm.charged_eq]
  rfl

/-- Two maps on a budget, one of which moves to another: entries are put, put in the place of
others, edited, visited and taken out. -/
def sharedBudget : List (Operation Int64 String) :=
  [.newBudget "b" "shared" none, .newBudget "c" "other" none, .newMap "m" "b", .newMap "n" "b",
    .consume "b" 100, .onMap "m" (.insert 1 "one"), .onMap "n" (.insert 1 "uno"),
    .onMap "m" (.insert 1 "once"), .onMap "m" (.edit 1 fun s => s ++ "!"),
    .onMap "m" (.getOrInsert 2 "two" fun s => s ++ "."),
    .onMap "m" (.retain fun k s => (s ++ s, k = 2)), .giveBack "b" 40, .newMap "n" "c",
    .onMap "n" (.insert 5 "cinque"), .onMap "n" (.erase 5), .dropMap "m"]

theorem conserved_shared :
    let b := (Books.empty : Books Int64 String).run sharedBudget
    Reference.empty.FitsAll sharedBudget ∧
      b.contents = (Reference.empty.run sharedBudget).maps ∧
      ((Reference.empty.run sharedBudget).tallies[0]?).map Tally.direct = some 60 ∧
      ∃ budget, b.budgets[0]? = some budget ∧ budget.consumption = 60 + b.charged 0 ∧
        budget.peak = 208 := by
  intro b
  have hfits : Reference.empty.FitsAll sharedBudget := by decide +kernel
  have h := Books.conserved sharedBudget hfits
  have ht : ((Reference.empty.run sharedBudget).tallies[0]?).map
      (fun t => (t.direct, t.counts.foldl max 0)) = some (60, 208) := by decide +kernel
  cases htally : (Reference.empty.run sharedBudget).tallies[0]? with
  | none => simp [htally] at ht
  | some tally =>
      simp only [htally, Option.map_some, Option.some.injEq, Prod.mk.injEq] at ht
      obtain ⟨budget, hb, hc, hp⟩ := h.2.2.2.2 0 tally htally
      exact ⟨hfits, h.2.1, by simp [ht.1], budget, hb, ht.1 ▸ hc, ht.2 ▸ hp⟩

/-! ## The workbook -/

/-- What a step does with a map. Nothing, if it only reads; and a visit needs a remainder. -/
def MapStep.act? : MapStep → Option (Act Key Blob)
  | insert k b => some (.insert k b)
  | remove k => some (.erase k)
  | edit k e => some (.edit k e.apply)
  | getOrInsert k b e => some (.getOrInsert k b fun b => (e.map fun e => e.apply b).getD b)
  | retain e modulus rest =>
    if modulus = 0 ∨ modulus = -1 then none
    else some (.retain fun k b => (e.apply b, k.number % modulus == rest))
  | _ => none

def Step.operation? : Step → Option (Operation Key Blob)
  | newBudget name id limit => some (.newBudget name id limit)
  | consume budget bytes => some (.consume budget bytes)
  | giveBack budget bytes => some (.giveBack budget bytes)
  | newMap name budget => some (.newMap name budget)
  | dropMap name => some (.dropMap name)
  | onMap name step => step.act?.map (.onMap name)
  | describe .. => none

/-- To read the entries leaves everything as it is. -/
theorem entries_bind {β : Type} (op : Counting Key Blob β) :
    (Account.entries >>= fun _ => op) = op := rfl

/-- What a step does with a map, apart from what it answers. -/
theorem MapStep.discard_run {step : MapStep} {act : Act Key Blob} (h : step.act? = some act) :
    discard step.run = act.run := by
  cases step with
  | insert | remove | edit | getOrInsert =>
      obtain rfl := Option.some.inj h
      simp [MapStep.run, Act.run, discard, LawfulFunctor.map_const]
  | retain e modulus rest =>
      simp only [act?, Option.ite_none_left_eq_some, Option.some.injEq, not_or] at h
      obtain ⟨⟨hzero, hminus⟩, rfl⟩ := h
      have hremainder (k : Key) : remainder k.number modulus = .ok (k.number % modulus) := by
        simp [remainder, hzero, hminus]
      simp only [MapStep.run, Act.run, hremainder, Except.map, discard, LawfulFunctor.map_const,
        Function.comp, Function.const, map_bind, map_pure]
      exact (entries_bind _).trans (bind_pure _)
  | _ => cases h

/-- A step of the workbook is an operation on its books. -/
theorem Workbook.step_eq {w : Workbook} {s : Step} {op : Operation Key Blob}
    (h : s.operation? = some op) : (w.step s).1 = (Books.apply w op).1 := by
  cases s with
  | newBudget | consume | giveBack | newMap =>
      obtain rfl := Option.some.inj h
      rfl
  | dropMap name =>
      obtain rfl := Option.some.inj h
      simp only [step, Books.apply, answer]
      generalize w.dropMap name = dropped
      rcases dropped with ⟨b, _ | _⟩ <;> rfl
  | onMap name step =>
      simp only [Step.operation?, Option.map_eq_some_iff] at h
      obtain ⟨act, hact, rfl⟩ := h
      simp only [Workbook.step, Books.apply, answer, ← MapStep.discard_run hact]
      exact (Books.onMap_map w name step.run _).symm
  | describe => cases h

end OnceOnly.Ledger
