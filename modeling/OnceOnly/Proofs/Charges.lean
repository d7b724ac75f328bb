import Mathlib.Data.List.Basic
import OnceOnly.Ledger.Budget
import OnceOnly.Proofs.SortedMap

/-! # Charges: what they come to, for a budget and for the map that makes them -/

namespace OnceOnly

open List

/-! ## Sums -/

section Sums

variable {α β : Type}

@[simp] theorem balance_append (f : α → Int) (xs ys : List α) :
    balance f (xs ++ ys) = balance f xs + balance f ys := by
  induction xs with
  | nil => simp [balance]
  | cons x xs ih => simp [balance, ih, Int.add_assoc]

theorem balance_perm (f : α → Int) {xs ys : List α} (h : xs ~ ys) :
    balance f xs = balance f ys := by
  induction h with
  | nil => rfl
  | cons x _ ih => simp [balance, ih]
  | swap x y xs => simp only [balance]; omega
  | trans _ _ ih₁ ih₂ => rw [ih₁, ih₂]

theorem balance_congr {f g : α → Int} {xs : List α} (h : ∀ x ∈ xs, f x = g x) :
    balance f xs = balance g xs := by
  induction xs with
  | nil => rfl
  | cons x xs ih =>
      simp only [balance, h x mem_cons_self, ih fun y hy => h y (mem_cons_of_mem _ hy)]

theorem balance_eq_zero {f : α → Int} {xs : List α} (h : ∀ x ∈ xs, f x = 0) :
    balance f xs = 0 := by
  induction xs with
  | nil => rfl
  | cons x xs ih =>
      simp only [balance, h x mem_cons_self, ih fun y hy => h y (mem_cons_of_mem _ hy),
        Int.add_zero]

theorem balance_add (f g : α → Int) (xs : List α) :
    balance (fun x => f x + g x) xs = balance f xs + balance g xs := by
  induction xs with
  | nil => rfl
  | cons x xs ih => simp only [balance, ih]; omega

theorem balance_nonneg {f : α → Int} (h : ∀ x, 0 ≤ f x) (xs : List α) : 0 ≤ balance f xs := by
  induction xs with
  | nil => exact Int.le_refl 0
  | cons x xs ih =>
      have hx := h x
      simp only [balance]
      omega

theorem balance_flatMap (f : β → Int) (g : α → List β) (xs : List α) :
    balance f (xs.flatMap g) = balance (fun x => balance f (g x)) xs := by
  induction xs with
  | nil => rfl
  | cons x xs ih => simp [balance, ih]

theorem balance_filterMap (f : α → Option β) (g : β → Int) (xs : List α) :
    balance g (xs.filterMap f) = balance (fun x => ((f x).map g).getD 0) xs := by
  induction xs with
  | nil => rfl
  | cons x xs ih => cases h : f x <;> simp [balance, h, ih]

theorem balance_filter (p : α → Bool) (f : α → Int) (xs : List α) :
    balance f (xs.filter p) = balance (fun x => if p x then f x else 0) xs := by
  induction xs with
  | nil => rfl
  | cons x xs ih => cases h : p x <;> simp [balance, h, ih]

theorem balance_map (f : α → β) (g : β → Int) (xs : List α) :
    balance g (xs.map f) = balance (fun x => g (f x)) xs := by
  induction xs with
  | nil => rfl
  | cons x xs ih => simp [balance, ih]

/-- A sum of sizes, taken among the integers. -/
theorem total_eq_balance (f : α → Nat) (xs : List α) :
    (total f xs : Int) = balance (fun x => (f x : Int)) xs := by
  induction xs with
  | nil => rfl
  | cons x xs ih => simp [total, balance, ih]

theorem total_map (size : β → Nat) (f : α → β) (xs : List α) :
    total size (xs.map f) = total (fun x => size (f x)) xs := by
  induction xs with
  | nil => rfl
  | cons x xs ih => simp [total, ih]

theorem length_flatMap_eq_total (f : α → List β) (xs : List α) :
    (xs.flatMap f).length = total (fun x => (f x).length) xs := by
  induction xs with
  | nil => rfl
  | cons x xs ih => simp [total, ih]

/-- What charges come to together. -/
def net (charges : List Int) : Int := balance id charges

@[simp] theorem net_nil : net [] = 0 := rfl

@[simp] theorem net_cons (n : Int) (charges : List Int) :
    net (n :: charges) = n + net charges := rfl

@[simp] theorem net_append (xs ys : List Int) : net (xs ++ ys) = net xs + net ys :=
  balance_append id xs ys

/-- The count after each of the charges, from `n` on. -/
def counts (n : Int) : List Int → List Int
  | [] => []
  | bytes :: charges => (n + bytes) :: counts (n + bytes) charges

theorem counts_append (n : Int) (xs ys : List Int) :
    counts n (xs ++ ys) = counts n xs ++ counts (n + net xs) ys := by
  induction xs generalizing n with
  | nil => simp [counts]
  | cons x xs ih => simp [counts, ih, Int.add_assoc]

/-- A word holds every count that the charges lead to. -/
def InWords (n : Int) (charges : List Int) : Prop := ∀ m ∈ counts n charges, IsWord m

instance (n : Int) (charges : List Int) : Decidable (InWords n charges) :=
  inferInstanceAs (Decidable (∀ m ∈ counts n charges, IsWord m))

theorem inWords_cons {n bytes : Int} {charges : List Int} :
    InWords n (bytes :: charges) ↔ IsWord (n + bytes) ∧ InWords (n + bytes) charges := by
  simp [InWords, counts]

theorem inWords_append {n : Int} {xs ys : List Int} :
    InWords n (xs ++ ys) ↔ InWords n xs ∧ InWords (n + net xs) ys := by
  simp only [InWords, counts_append, mem_append, or_imp, forall_and]

theorem net_nonpos {charges : List Int} (h : ∀ n ∈ charges, n ≤ 0) : net charges ≤ 0 := by
  induction charges with
  | nil => simp
  | cons bytes charges ih =>
      have hbytes := h bytes mem_cons_self
      have hrest := ih fun n hn => h n (mem_cons_of_mem _ hn)
      rw [net_cons]
      omega

/-- Charges that only give back pass no count but those between the first and the last. -/
theorem inWords_of_nonpos {charges : List Int} (h : ∀ n ∈ charges, n ≤ 0) {n : Int} (hn : IsWord n)
    (hlast : 0 ≤ n + net charges) : InWords n charges := by
  induction charges generalizing n with
  | nil => simp [InWords, counts]
  | cons bytes charges ih =>
      have hrest : net charges ≤ 0 := net_nonpos fun n hn => h n (mem_cons_of_mem _ hn)
      have hbytes := h bytes mem_cons_self
      rw [net_cons] at hlast
      have hnext : IsWord (n + bytes) := by
        have hmin : Int64.minValue.toInt ≤ 0 := by decide
        have hmax := hn.2
        refine ⟨?_, ?_⟩ <;> omega
      exact inWords_cons.mpr
        ⟨hnext, ih (fun m hm => h m (mem_cons_of_mem _ hm)) hnext (by omega)⟩

end Sums

/-! ## Sums over the entries of a map -/

namespace SortedMap

variable {κ α : Type} [LT κ] [DecidableLT κ] [StrictKey κ] (weight : κ × α → Int)

/-- One entry and the others. -/
theorem balance_toList (m : SortedMap κ α) (k : κ) : balance weight m.toList =
    ((m.get? k).map fun a => weight (k, a)).getD 0 + balance weight (m.erase k).toList := by
  rw [balance_perm weight (m.toList_perm k), balance_append]
  cases m.get? k <;> simp [balance]

theorem balance_insert (m : SortedMap κ α) (k : κ) (a : α) :
    balance weight (m.insert k a).toList = weight (k, a) + balance weight (m.erase k).toList :=
  balance_perm weight (m.toList_insert_perm k a)

end SortedMap

/-! ## Budgets -/

namespace Budget

@[simp] theorem chargeAll_nil (b : Budget) : b.chargeAll [] = b := rfl

@[simp] theorem chargeAll_cons (b : Budget) (bytes : Int) (charges : List Int) :
    b.chargeAll (bytes :: charges) = (b.charge bytes).chargeAll charges := rfl

theorem chargeAll_append (b : Budget) (xs ys : List Int) :
    b.chargeAll (xs ++ ys) = (b.chargeAll xs).chargeAll ys :=
  foldl_append

@[simp] theorem chargeAll_consumption (b : Budget) (charges : List Int) :
    (b.chargeAll charges).consumption = b.consumption + net charges := by
  induction charges generalizing b with
  | nil => simp
  | cons bytes charges ih => simp [ih, charge, Int.add_assoc]

@[simp] theorem chargeAll_limit (b : Budget) (charges : List Int) :
    (b.chargeAll charges).limit = b.limit := by
  induction charges generalizing b with
  | nil => rfl
  | cons bytes charges ih => simp [ih, charge]

/-- A budget is within its limit, or has none. -/
theorem exceeded_eq_false_iff {b : Budget} :
    b.exceeded = false ↔ ∀ limit, b.limit = some limit → b.consumption ≤ limit := by
  cases h : b.limit <;> simp [exceeded, h]

theorem chargeAll_peak (b : Budget) (charges : List Int) :
    (b.chargeAll charges).peak = (counts b.consumption charges).foldl max b.peak := by
  induction charges generalizing b with
  | nil => rfl
  | cons bytes charges ih => simp [ih, charge, counts]

/-- The peak has seen the count. -/
def Peaked (b : Budget) : Prop := b.consumption ≤ b.peak

theorem ofLimit_peaked (id : String) (limit : Option Int) : (ofLimit id limit).Peaked :=
  Int.le_refl 0

theorem Peaked.charge {b : Budget} (bytes : Int) : (b.charge bytes).Peaked :=
  Int.le_max_right ..

theorem Peaked.chargeAll {b : Budget} (h : b.Peaked) (charges : List Int) :
    (b.chargeAll charges).Peaked := by
  induction charges generalizing b with
  | nil => exact h
  | cons bytes charges ih => exact ih (Peaked.charge bytes)

/-- A charge that a word holds goes through. To charge nothing is to leave the budget alone, whose
peak has seen its count. -/
theorem Peaked.charge?_eq {b : Budget} (h : b.Peaked) {bytes : Int}
    (hw : IsWord (b.consumption + bytes)) : b.charge? bytes = .ok (b.charge bytes) := by
  by_cases hz : bytes = 0
  · have hp : max b.peak b.consumption = b.peak := Int.max_eq_left h
    simp [charge?, Budget.charge, hz, hp]
  · simp [charge?, hz, hw]

theorem Peaked.chargeAll_of_nonpos {b : Budget} (hb : b.Peaked) {charges : List Int}
    (h : ∀ n ∈ charges, n ≤ 0) :
    b.chargeAll charges = { b with consumption := b.consumption + net charges } := by
  induction charges generalizing b with
  | nil => simp
  | cons bytes charges ih =>
      have hbytes := h bytes mem_cons_self
      have hpeak : max b.peak (b.consumption + bytes) = b.peak := by
        rw [Peaked] at hb
        omega
      rw [chargeAll_cons, ih (Peaked.charge bytes) fun n hn => h n (mem_cons_of_mem _ hn)]
      simp [Budget.charge, hpeak, Int.add_assoc]

end Budget

/-! ## Maps -/

namespace ChargedMap

variable {κ α : Type} [LT κ] [Footprint κ] [Footprint α]

omit [LT κ] in
/-- The bytes of entries. -/
def bytesOf (xs : List (κ × α)) : Int := balance (fun e => entryFootprint e.1 e.2) xs

/-- The bytes of all entries. -/
def bytes (m : ChargedMap κ α) : Int := bytesOf m.toList

/-- What is counted is what is there. -/
def Balanced (m : ChargedMap κ α) : Prop := m.charged = m.bytes

/-- The charges that lead from one map to another: its count and the bytes of its entries change by
what they come to. -/
structure Booked (m : ChargedMap κ α) (charges : List Int) (m' : ChargedMap κ α) : Prop where
  charged_eq : m'.charged = m.charged + net charges
  bytes_eq : m'.bytes = m.bytes + net charges

theorem empty_balanced : (empty : ChargedMap κ α).Balanced := rfl

omit [LT κ] in
theorem entryFootprint_nonneg (k : κ) (a : α) : 0 ≤ entryFootprint k a := by
  rw [entryFootprint]
  omega

omit [LT κ] in
@[simp] theorem bytesOf_nil : bytesOf ([] : List (κ × α)) = 0 := rfl

omit [LT κ] in
@[simp] theorem bytesOf_cons (e : κ × α) (xs : List (κ × α)) :
    bytesOf (e :: xs) = entryFootprint e.1 e.2 + bytesOf xs := rfl

omit [LT κ] in
theorem bytesOf_nonneg (xs : List (κ × α)) : 0 ≤ bytesOf xs := by
  refine balance_nonneg ?_ xs
  exact fun e => entryFootprint_nonneg e.1 e.2

theorem bytes_nonneg (m : ChargedMap κ α) : 0 ≤ m.bytes := bytesOf_nonneg m.toList

theorem bytes_of_isEmpty {m : ChargedMap κ α} (h : m.isEmpty = true) : m.bytes = 0 := by
  have hm : m.toList = [] := (SortedMap.isEmpty_iff m.map).mp h
  simp [bytes, hm]

namespace Booked

variable {m m' m'' : ChargedMap κ α} {charges charges' : List Int}

theorem refl (m : ChargedMap κ α) : Booked m [] m := ⟨by simp, by simp⟩

theorem trans (h : Booked m charges m') (h' : Booked m' charges' m'') :
    Booked m (charges ++ charges') m'' := by
  constructor
  · rw [h'.charged_eq, h.charged_eq, net_append, Int.add_assoc]
  · rw [h'.bytes_eq, h.bytes_eq, net_append, Int.add_assoc]

theorem balanced (h : Booked m charges m') (hm : m.Balanced) : m'.Balanced := by
  rw [Balanced, h.charged_eq, h.bytes_eq, hm]

end Booked

theorem filterMap_booked (f : κ → α → Option α) (m : ChargedMap κ α) :
    Booked m (m.filterMap f).2 (m.filterMap f).1 := by
  refine ⟨by simp [filterMap], ?_⟩
  have hentry (e : κ × α) :
      (((f e.1 e.2).map (e.1, ·)).map fun e => entryFootprint e.1 e.2).getD 0 =
        entryFootprint e.1 e.2 + entryChange e.1 e.2 (f e.1 e.2) := by
    cases h : f e.1 e.2 with
    | none =>
        simp only [Option.map_none, Option.getD_none, entryChange]
        omega
    | some b =>
        simp only [Option.map_some, Option.getD_some, entryChange, entryFootprint]
        omega
  rw [bytes, bytesOf, toList_filterMap, balance_filterMap, balance_congr fun e _ => hentry e,
    balance_add]
  simp only [bytes, bytesOf, filterMap, toList, net_cons, net_nil, Int.add_zero]

/-! ### Charges of going through a map -/

section FilterMap

variable {f : κ → α → Option α} {m : ChargedMap κ α}

/-- Where what stays keeps its footprint, the charge gives back what goes. -/
theorem filterMap_charges
    (h : ∀ e ∈ m.toList, ∀ b, f e.1 e.2 = some b → footprint b = footprint e.2) :
    (m.filterMap f).2 = [-bytesOf (m.toList.filter fun e => (f e.1 e.2).isNone)] := by
  have hzero : balance (fun e => entryChange e.1 e.2 (f e.1 e.2)) m.toList +
      bytesOf (m.toList.filter fun e => (f e.1 e.2).isNone) = 0 := by
    rw [bytesOf, balance_filter, ← balance_add]
    refine balance_eq_zero fun e he => ?_
    cases hf : f e.1 e.2 with
    | none =>
        simp only [entryChange, Option.isNone_none, ite_true]
        omega
    | some b => simp [entryChange, h e he b hf]
  have hcharge : balance (fun e => entryChange e.1 e.2 (f e.1 e.2)) m.toList =
      -bytesOf (m.toList.filter fun e => (f e.1 e.2).isNone) := by omega
  exact congrArg ([·]) hcharge

theorem filterMap_congr {g : κ → α → Option α} (h : ∀ e ∈ m.toList, f e.1 e.2 = g e.1 e.2) :
    m.filterMap f = m.filterMap g := by
  have hmap : m.map.filterMap f = m.map.filterMap g :=
    SortedMap.ext_entries (List.filterMap_congr fun e he => by rw [h e he])
  have hcharge : balance (fun e => entryChange e.1 e.2 (f e.1 e.2)) m.map.toList =
      balance (fun e => entryChange e.1 e.2 (g e.1 e.2)) m.map.toList :=
    balance_congr fun e he => by rw [h e he]
  simp only [filterMap, hmap, hcharge]

theorem filterMap_charges_of_goes (goes : κ → α → Bool) :
    (m.filterMap fun k a => if goes k a then none else some a).2 =
      [-bytesOf (m.toList.filter fun e => goes e.1 e.2)] := by
  have hgoes : (fun e : κ × α => (if goes e.1 e.2 then none else some e.2).isNone) =
      fun e => goes e.1 e.2 := by
    funext e
    cases goes e.1 e.2 <;> rfl
  rw [← hgoes]
  refine filterMap_charges fun e _ b hb => ?_
  simp only [Option.ite_none_left_eq_some, Option.some.injEq] at hb
  rw [hb.2]

/-- Where everything stays as it is, nothing is charged. -/
theorem filterMap_eq_self (h : ∀ e ∈ m.toList, f e.1 e.2 = some e.2) :
    m.filterMap f = (m, [0]) := by
  have hmap : m.map.filterMap (fun _ a => some a) = m.map :=
    SortedMap.ext_entries (filterMap_some (l := m.map.entries))
  have hcharge : balance (fun e : κ × α => entryChange e.1 e.2 (some e.2)) m.map.toList = 0 :=
    balance_eq_zero fun e _ => by simp [entryChange]
  rw [filterMap_congr (g := fun _ a => some a) h]
  simp [filterMap, hmap, hcharge]

end FilterMap

omit [LT κ] in
/-- What an entry comes to in two steps is charged like the same in one. -/
theorem entryChange_trans (k : κ) (a b : α) (x : Option α) :
    entryChange k a (some b) + entryChange k b x = entryChange k a x := by
  cases x with
  | none => simp only [entryChange, entryFootprint]; omega
  | some c => simp only [entryChange]; omega

theorem filterMap_filterMap_charges (f g : κ → α → Option α) (m : ChargedMap κ α) :
    net ((m.filterMap f).2 ++ ((m.filterMap f).1.filterMap g).2) =
      net (m.filterMap fun k a => f k a >>= g k).2 := by
  have hsecond : ((m.filterMap f).1.filterMap g).2 =
      [balance (fun e => entryChange e.1 e.2 (g e.1 e.2)) (m.filterMap f).1.toList] := rfl
  rw [hsecond, toList_filterMap, balance_filterMap]
  simp only [filterMap, toList, net_append, net_cons, net_nil, Int.add_zero, ← balance_add]
  refine balance_congr fun e _ => ?_
  cases hf : f e.1 e.2 with
  | none => simp
  | some b => simpa using entryChange_trans e.1 e.2 b (g e.1 b)

/-- To go through a map twice is to go through it once. -/
theorem filterMap_filterMap (f g : κ → α → Option α) (m : ChargedMap κ α) :
    ((m.filterMap f).1.filterMap g).1 = (m.filterMap fun k a => f k a >>= g k).1 := by
  have hmap :
      ((m.filterMap f).1.filterMap g).1.map = (m.filterMap fun k a => f k a >>= g k).1.map := by
    refine SortedMap.ext_entries ?_
    show (m.map.entries.filterMap _).filterMap _ = m.map.entries.filterMap _
    rw [List.filterMap_filterMap]
    congr 1
    funext e
    cases hf : f e.1 e.2 <;> simp [hf]
  have hnet := filterMap_filterMap_charges f g m
  have hcharged : ((m.filterMap f).1.filterMap g).1.charged =
      (m.filterMap fun k a => f k a >>= g k).1.charged := by
    rw [((m.filterMap f).1.filterMap_booked g).charged_eq, (m.filterMap_booked f).charged_eq,
      (m.filterMap_booked _).charged_eq, ← hnet, net_append, Int.add_assoc]
  exact ext_map hmap hcharged

variable [DecidableLT κ] [StrictKey κ]

/-! ### Sums over the entries -/

section Balance

variable {m : ChargedMap κ α} {k : κ} {a : α} (weight : κ × α → Int)

omit [Footprint κ] [Footprint α] in
/-- One entry and the others. -/
theorem balance_toList (m : ChargedMap κ α) (k : κ) : balance weight m.toList =
    ((m.get? k).map fun a => weight (k, a)).getD 0 + balance weight (m.others k) :=
  m.map.balance_toList weight k

theorem balance_erase (m : ChargedMap κ α) (k : κ) :
    balance weight (m.erase k).1.toList = balance weight (m.others k) :=
  balance_perm weight (m.toList_erase_perm k)

theorem balance_update (h : m.get? k = some a) (b : α) :
    balance weight (m.update k b).1.toList = weight (k, b) + balance weight (m.others k) :=
  balance_perm weight (toList_update_perm h b)

theorem balance_insertNew (m : ChargedMap κ α) (k : κ) (b : α) :
    balance weight (m.insertNew k b).1.toList =
      weight (k, (m.get? k).getD b) + balance weight (m.others k) :=
  balance_perm weight (m.toList_insertNew_perm k b)

end Balance

theorem entryFootprint_le_bytes {m : ChargedMap κ α} {k : κ} {a : α} (h : m.get? k = some a) :
    entryFootprint k a ≤ m.bytes := by
  have hbytes := balance_toList (fun e => entryFootprint e.1 e.2) m k
  have hothers := bytesOf_nonneg (m.others k)
  simp only [h, Option.map_some, Option.getD_some] at hbytes
  rw [bytesOf] at hothers
  rw [bytes, bytesOf]
  omega

/-! ### Every operation charges for what it does -/

theorem erase_booked (m : ChargedMap κ α) (k : κ) : Booked m (m.erase k).2 (m.erase k).1 := by
  have hbytes := balance_toList (fun e => entryFootprint e.1 e.2) m k
  have hrest := balance_erase (fun e => entryFootprint e.1 e.2) m k
  cases h : m.get? k with
  | none => simpa only [erase, h] using Booked.refl m
  | some a =>
      simp only [h, Option.map_some, Option.getD_some] at hbytes
      simp only [erase, h] at hrest ⊢
      refine ⟨by simp; omega, ?_⟩
      simp only [bytes, bytesOf, net_cons, net_nil]
      omega

theorem update_booked (m : ChargedMap κ α) (k : κ) (b : α) :
    Booked m (m.update k b).2 (m.update k b).1 := by
  have hbytes := balance_toList (fun e => entryFootprint e.1 e.2) m k
  cases h : m.get? k with
  | none => simpa only [update, h] using Booked.refl m
  | some a =>
      have hnew := balance_update (fun e => entryFootprint e.1 e.2) h b
      simp only [h, Option.map_some, Option.getD_some] at hbytes
      simp only [update, h, entryChange] at hnew ⊢
      refine ⟨by simp, ?_⟩
      simp only [bytes, bytesOf, net_cons, net_nil, entryFootprint] at hbytes hnew ⊢
      omega

theorem insertNew_booked (m : ChargedMap κ α) (k : κ) (b : α) :
    Booked m (m.insertNew k b).2 (m.insertNew k b).1 := by
  have hbytes := balance_toList (fun e => entryFootprint e.1 e.2) m k
  have hnew := balance_insertNew (fun e => entryFootprint e.1 e.2) m k b
  cases h : m.get? k with
  | some a => simpa only [insertNew, h] using Booked.refl m
  | none =>
      simp only [insertNew, h, Option.map_none, Option.getD_none] at hbytes hnew ⊢
      refine ⟨by simp, ?_⟩
      simp only [bytes, bytesOf, net_cons, net_nil]
      omega

/-- To put something at a key is to take out what is there and to put it there anew. -/
theorem insert_eq (m : ChargedMap κ α) (k : κ) (b : α) :
    m.insert k b = (((m.erase k).1.insertNew k b).1,
      (m.erase k).2 ++ ((m.erase k).1.insertNew k b).2) := by
  classical
  have hnone : (m.erase k).1.get? k = none := by simp [get?_erase]
  simp only [insertNew, hnone, insert]

theorem insert_booked (m : ChargedMap κ α) (k : κ) (b : α) :
    Booked m (m.insert k b).2 (m.insert k b).1 := by
  rw [insert_eq]
  exact (m.erase_booked k).trans ((m.erase k).1.insertNew_booked k b)

end ChargedMap

end OnceOnly
