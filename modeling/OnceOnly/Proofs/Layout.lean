import OnceOnly.Proofs.Grammar
import OnceOnly.Proofs.RoundTrip

/-!
# Layouts: a body is divided into its message and its sidecars, and nothing is left

The offsets in a header may say anything. A layout that is made of them leaves no byte of the body
out, and none that is not of the body in; so whatever is read of a frame lies in its bytes.
-/

namespace OnceOnly

open List

namespace Body

/-- The message and the sidecars in the order in which they lie in a body. -/
def Layout.parts (l : Layout) : List Span := l.message :: l.sidecars

/-- A body from `start` to `stop` is all message and sidecars, and the sidecars are where they are
said to be. -/
structure Layout.Divides (l : Layout) (start stop : Nat) (starts : List Nat) : Prop where
  consecutive : Consecutive start l.parts stop
  starts_eq : l.sidecars.map Span.start = starts
  within (s : Span) : s ∈ l.parts → start ≤ s.start ∧ s.start ≤ s.stop ∧ s.stop ≤ stop
  /-- One part has a position of the body, and none has any other. -/
  countP_has (p : Nat) : l.parts.countP (·.has p) = if start ≤ p ∧ p < stop then 1 else 0

section Divides

variable {l : Layout} {start stop size : Nat} {starts : List Nat} {offsets : List UInt32}

theorem Layout.divides_of (h : Consecutive start l.parts stop)
    (hstarts : l.sidecars.map Span.start = starts) : l.Divides start stop starts :=
  ⟨h, hstarts, h.within, h.countP_has⟩

theorem Layout.Divides.shift (h : l.Divides start stop starts) (base : Nat) :
    (l.shift base).Divides (start + base) (stop + base) (starts.map (· + base)) := by
  refine divides_of (h.consecutive.shift base) ?_
  rw [← h.starts_eq, Layout.shift, map_map, map_map]
  rfl

/-- The parts one after the other are the bytes of the body. -/
theorem Layout.Divides.flatten_of (h : l.Divides start stop starts) (bs : Bytes) :
    l.message.of bs ++ (l.sidecars.map (·.of bs)).flatten = Span.of ⟨start, stop⟩ bs :=
  h.consecutive.flatten_of bs

theorem divides_of_split (h : split size offsets = .ok l) :
    l.Divides 0 size (offsets.map UInt32.toNat) := by
  obtain ⟨-, hparts, hstarts⟩ := split_eq_ok_iff.mp h
  exact Layout.divides_of hparts hstarts

end Divides

/-! ## Sizes -/

section Sizes

variable {start : Nat} {sizes : List Nat} {s : Span}

theorem size_tile (start : Nat) (sizes : List Nat) : (tile start sizes).map Span.size = sizes := by
  induction sizes generalizing start with
  | nil => rfl
  | cons size sizes ih => rw [tile, map_cons, ih, Span.size, Nat.add_sub_cancel_left]

/-- A span starts where the sizes of those before it add up to. -/
theorem start_of_mem_tile (h : s ∈ tile start sizes) :
    ∃ i < sizes.length, s.start = start + total id (sizes.take i) := by
  induction sizes generalizing start with
  | nil => simp [tile] at h
  | cons size sizes ih =>
      rcases mem_cons.mp h with rfl | h
      · exact ⟨0, Nat.succ_pos _, rfl⟩
      · obtain ⟨i, hi, hstart⟩ := ih h
        exact ⟨i + 1, Nat.succ_lt_succ hi, hstart.trans (Nat.add_assoc ..)⟩

/-- Offsets are made of the sizes of a message and its sidecars, and give them back. -/
theorem sizes_restored {message : Nat} {sidecars : List Bytes}
    (hmost : sidecars.length ≤ maxSidecars)
    (hfit : ∀ i < sidecars.length, message + total length (sidecars.take i) < Nat.pow 2 32) :
    ∃ offsets l, Body.offsets message sidecars = .ok offsets ∧
      split (message + total length sidecars) offsets = .ok l ∧
      l.message.size = message ∧ l.sidecars.map Span.size = sidecars.map length := by
  have hmax : Nat.pow 2 32 = Frame.maxLength + 1 := by decide
  obtain ⟨offsets, hstarts⟩ : ∃ offsets, starts message (sidecars.map length) = .ok offsets := by
    refine exists_starts fun s hs => ?_
    obtain ⟨i, hi, hstart⟩ := start_of_mem_tile hs
    rw [length_map] at hi
    rw [← map_take, total_map_length] at hstart
    have hlt := hfit i hi
    omega
  have hoffsets : Body.offsets message sidecars = .ok offsets := by
    rw [Body.offsets, if_neg (Nat.not_lt.mpr hmost), hstarts]
  exact ⟨offsets, _, hoffsets, split_offsets hoffsets, rfl, size_tile ..⟩

end Sizes

end Body

/-! ## What is read of a frame -/

section Read

variable {bs : Bytes} {limit : Nat}

/-- Where the body of a frame begins: after two lengths, and a header as long as the second says. -/
def Frame.bodyStart (bs : Bytes) : Nat := 8 + bigEndian ((bs.drop 4).take 4)

/-- The body of a frame that is read goes on to its end. -/
theorem Frame.body_of_parse {η : Type} {codec : Codec η} {f : Frame η}
    (h : parse codec bs limit = .ok f) :
    f.body = ⟨bodyStart bs, bs.length⟩ ∧ bodyStart bs ≤ bs.length := by
  obtain ⟨-, -, -, hover, -, hbody⟩ := parse_eq_ok_iff.mp h
  rw [readLength_eq] at hover hbody
  exact ⟨hbody, hover⟩

theorem Frame.divides_of_layout {η : Type} {codec : Codec η} {f : Frame η} {offsets : List UInt32}
    {l : Body.Layout} (h : parse codec bs limit = .ok f) (hl : Body.layout f offsets = .ok l) :
    l.Divides (bodyStart bs) bs.length (offsets.map (·.toNat + bodyStart bs)) := by
  obtain ⟨hbody, hle⟩ := body_of_parse h
  rw [Body.layout, hbody] at hl
  cases hsplit : Body.split (bs.length - bodyStart bs) offsets with
  | error problem => simp [hsplit, Except.map] at hl
  | ok found =>
      rw [hsplit] at hl
      obtain rfl := Except.ok.inj hl
      have hshift := (Body.divides_of_split hsplit).shift (bodyStart bs)
      rw [Nat.zero_add, Nat.sub_add_cancel hle, map_map] at hshift
      exact hshift

theorem Frame.of_body (bs : Bytes) :
    Span.of ⟨bodyStart bs, bs.length⟩ bs = bs.drop (bodyStart bs) := by
  rw [Span.of, ← length_drop, take_length]

/-- The message and the sidecars of a response are cut out of its frame. -/
theorem Response.divides_of_parse {r : Response} (h : parse bs limit = .ok r) :
    ∃ l : Body.Layout, l.Divides (Frame.bodyStart bs) bs.length
        (r.header.sidecarOffsets.map (·.toNat + Frame.bodyStart bs)) ∧
      r.message = l.message.of bs ∧ r.sidecars = l.sidecars.map (·.of bs) ∧
      r.message ++ r.sidecars.flatten = bs.drop (Frame.bodyStart bs) := by
  obtain ⟨f, hf, h⟩ := Except.bind_eq_ok.mp h
  obtain ⟨l, hl, h⟩ := Except.bind_eq_ok.mp h
  obtain rfl := Except.ok.inj h
  have hdivides := Frame.divides_of_layout hf hl
  exact ⟨l, hdivides, rfl, rfl, (hdivides.flatten_of bs).trans (Frame.of_body bs)⟩

/-- The message and the sidecars of a request are spans of the bytes it came in. -/
theorem Inbound.divides_of_parse {remote : Address} {settings : CallSettings} {now : Instant}
    {i : Inbound} (h : parse remote bs settings now = .ok i) : i.transfer = bs ∧
      Body.Layout.Divides ⟨i.message, i.sidecars⟩ (Frame.bodyStart bs) bs.length
        (i.header.sidecarOffsets.map (·.toNat + Frame.bodyStart bs)) ∧
      i.request ++ (i.sidecars.map (·.of bs)).flatten = bs.drop (Frame.bodyStart bs) := by
  obtain ⟨f, hf, h⟩ := Except.bind_eq_ok.mp h
  obtain ⟨l, hl, h⟩ := Except.bind_eq_ok.mp h
  obtain rfl := Except.ok.inj h
  have hdivides := Frame.divides_of_layout hf hl
  exact ⟨rfl, hdivides, (hdivides.flatten_of bs).trans (Frame.of_body bs)⟩

end Read

/-- Offsets divide a body exactly when they are few enough, do not decrease and do not lie beyond
its end. Then the body is all message and sidecars, also from another base on. The offsets that
are made of sizes give the sizes back, and what is read of a frame is the body of the frame. -/
theorem bodies_divided :
    (∀ (size : Nat) (offsets : List UInt32),
      ((∃ l, Body.split size offsets = .ok l) ↔ offsets.length ≤ Body.maxSidecars ∧
        offsets.Pairwise (· ≤ ·) ∧ ∀ o ∈ offsets, o.toNat ≤ size) ∧
      ∀ l, Body.split size offsets = .ok l → l.Divides 0 size (offsets.map UInt32.toNat) ∧
        ∀ base, l.shift? base =
            (if size + base < Nat.pow 2 64 then .ok (l.shift base) else .error .add) ∧
          (l.shift base).Divides base (size + base) (offsets.map (·.toNat + base))) ∧
    (∀ (message : Nat) (sidecars : List Bytes), sidecars.length ≤ Body.maxSidecars →
      (∀ i < sidecars.length, message + total length (sidecars.take i) < Nat.pow 2 32) →
      ∃ offsets l, Body.offsets message sidecars = .ok offsets ∧
        Body.split (message + total length sidecars) offsets = .ok l ∧
        l.message.size = message ∧ l.sidecars.map Span.size = sidecars.map length) ∧
    (∀ (remote : Address) (bs : Bytes) (settings : CallSettings) (now : Instant) (i : Inbound),
      Inbound.parse remote bs settings now = .ok i → i.transfer = bs ∧
        Body.Layout.Divides ⟨i.message, i.sidecars⟩ (Frame.bodyStart bs) bs.length
          (i.header.sidecarOffsets.map (·.toNat + Frame.bodyStart bs)) ∧
        i.request ++ (i.sidecars.map (·.of bs)).flatten = bs.drop (Frame.bodyStart bs)) ∧
    (∀ (bs : Bytes) (limit : Nat) (r : Response), Response.parse bs limit = .ok r →
      ∃ l : Body.Layout, l.Divides (Frame.bodyStart bs) bs.length
          (r.header.sidecarOffsets.map (·.toNat + Frame.bodyStart bs)) ∧
        r.message = l.message.of bs ∧ r.sidecars = l.sidecars.map (·.of bs) ∧
        r.message ++ r.sidecars.flatten = bs.drop (Frame.bodyStart bs)) := by
  refine ⟨fun size offsets => ⟨Body.exists_split_iff, fun l h => ?_⟩,
    fun message sidecars => Body.sizes_restored,
    fun remote bs settings now i => Inbound.divides_of_parse,
    fun bs limit r => Response.divides_of_parse⟩
  have hdivides := Body.divides_of_split h
  refine ⟨hdivides, fun base => ⟨Body.shift?_of_split h base, ?_⟩⟩
  have hshift := hdivides.shift base
  rwa [Nat.zero_add, map_map] at hshift

/-- A response to the call 7 of one byte, with two sidecars. -/
def sidecarResponse : Bytes :=
  [0, 0, 0, 29, 0, 0, 0, 21, 7, 0, 0, 0, 0, 2, 0, 0, 0, 0, 0, 0, 0, 1, 0, 0, 0, 3, 0, 0, 0] ++
    [42, 1, 2, 9]

theorem bodies_divided_two_sidecars :
    (∃ l, Body.split 5 [2, 2] = .ok l ∧ l.Divides 0 5 [2, 2] ∧ l.shift? 29 = .ok (l.shift 29)) ∧
    (∃ offsets l, Body.offsets 1 [[1, 2], [9]] = .ok offsets ∧ Body.split 4 offsets = .ok l ∧
      l.message.size = 1 ∧ l.sidecars.map Span.size = [2, 1]) ∧
    (∃ i, Inbound.parse (.v4 127 0 0 1 9) bareRequest .standard ⟨0⟩ = .ok i ∧
      i.request ++ (i.sidecars.map (·.of bareRequest)).flatten = []) ∧
    ∃ r, Response.parse sidecarResponse 33 = .ok r ∧ r.message ++ r.sidecars.flatten =
      [42, 1, 2, 9] := by
  obtain ⟨hsplit, hsizes, hinbound, hresponse⟩ := bodies_divided
  refine ⟨⟨⟨⟨0, 2⟩, [⟨2, 2⟩, ⟨2, 5⟩]⟩, rfl, ?_⟩,
    hsizes 1 [[1, 2], [9]] (by decide) (by decide), ?_, ?_⟩
  · obtain ⟨hdivides, hshift⟩ := (hsplit 5 [2, 2]).2 ⟨⟨0, 2⟩, [⟨2, 2⟩, ⟨2, 5⟩]⟩ rfl
    exact ⟨hdivides, (hshift 29).1⟩
  · obtain ⟨i, hi⟩ : ∃ i, Inbound.parse (.v4 127 0 0 1 9) bareRequest .standard ⟨0⟩ = .ok i :=
      ⟨_, rfl⟩
    exact ⟨i, hi, (hinbound _ _ _ _ i hi).2.2⟩
  · obtain ⟨r, hr⟩ : ∃ r, Response.parse sidecarResponse 33 = .ok r := ⟨_, rfl⟩
    obtain ⟨l, -, -, -, hbody⟩ := hresponse sidecarResponse 33 r hr
    exact ⟨r, hr, hbody⟩

end OnceOnly
