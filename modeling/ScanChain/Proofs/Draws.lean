/-
# ScanChain.Proofs.Draws — all random masks of a chain are slices of one stream

Filling a chain hands one stream from field to field. A field that is filled with a random mask
takes its width from it, and any other field nothing (`fieldValue_rest`), so the place at which a
field is filled is the number of mask bits before it, whatever else stands there and whatever the
policy says (`resolveSegments_filledAt`). A draw is a stretch of the stream by place (`msbFirst_draw`), and
stretches that follow each other are one stretch: cutting a draw in pieces, at any places of the
blocks that the cipher makes, changes nothing.
-/
import Mathlib.Data.List.GetD
import ScanChain.Proofs.Filling
import ScanChain.Proofs.Outcome

namespace ScanChain

/-! ## The stream by place -/

namespace ChaCha20

/-- Word `n` of the stream: word `n % 16` of block `n / 16`. -/
def wordAt (key : Key) (n : Nat) : UInt32 := (block key (n / 16)).getD (n % 16) 0

theorem getElem?_block (key : Key) {n place : Nat} (hplace : place < 16) :
    (block key n)[place]? = some (wordAt key (16 * n + place)) := by
  have hblock : (16 * n + place) / 16 = n := by omega
  have hword : (16 * n + place) % 16 = place := by omega
  have hin : place < (block key n).length := by rwa [length_block]
  rw [wordAt, hblock, hword, List.getD_eq_getElem _ _ hin, List.getElem?_eq_getElem hin]

/-- Blocks that follow each other hold the words from the first one's on. -/
theorem flatMap_block (key : Key) (first count : Nat) :
    ((List.range count).flatMap fun i => block key (first + i)) =
      (List.range' (16 * first) (16 * count)).map (wordAt key) := by
  induction count with
  | zero => rfl
  | succ count ih =>
    have hlast : block key (first + count) =
        (List.range' (16 * first + 16 * count) 16).map (wordAt key) := by
      apply List.ext_getElem?
      intro place
      rcases Nat.lt_or_ge place 16 with hlt | hge
      · rw [getElem?_block key hlt, List.getElem?_map, List.getElem?_range' hlt, Option.map_some]
        congr 2
        omega
      · rw [List.getElem?_eq_none (by rwa [length_block]), List.getElem?_eq_none (by simpa)]
    rw [List.range_succ, List.flatMap_append, ih, List.flatMap_singleton, hlast, ← List.map_append,
      List.range'_append_1, ← Nat.mul_succ]

/-- The words from a place on are those at the places that follow, across all blocks. -/
theorem words_eq (key : Key) (start count : Nat) :
    words key start count = (List.range' start count).map (wordAt key) := by
  have hstart : 16 * (start / 16) + start % 16 = start := Nat.div_add_mod start 16
  have hend : start % 16 + count ≤ 16 * ((start + count + 15) / 16 - start / 16) := by omega
  rw [words, flatMap_block, ← List.map_drop, ← List.map_take, List.drop_range', Nat.mul_one,
    hstart, List.take_range'_of_length_ge (by omega)]

end ChaCha20

namespace MaskStream

/-- The bit that a draw at place `n` of the stream gives. -/
def bitAt (seed : UInt64) (threshold n : Nat) : Bool :=
  decide ((ChaCha20.wordAt (key seed) n).toNat < threshold)

/-- The stream after a number of draws. -/
def skip (stream : MaskStream) (count : Nat) : MaskStream :=
  { stream with position := stream.position + count }

section Draws

variable {stream : MaskStream} {threshold : Nat}

theorem skip_skip (m n : Nat) : (stream.skip m).skip n = stream.skip (m + n) := by
  rw [skip, skip, skip, Nat.add_assoc]

/-- The bits of a mask are drawn at places that follow each other, the most significant first. -/
theorem msbFirst_draw (width : Nat) :
    (stream.draw threshold width).1.msbFirst =
      (List.range' stream.position width).map (bitAt stream.seed threshold) := by
  rw [draw, BitString.msbFirst_ofMsbFirst, ChaCha20.words_eq, List.map_map]
  rfl

/-- A mask of two widths together is a mask of the one and then a mask of the other. -/
theorem msbFirst_draw_add (m n : Nat) :
    (stream.draw threshold (m + n)).1.msbFirst =
      (stream.draw threshold m).1.msbFirst ++
        ((stream.skip m).draw threshold n).1.msbFirst := by
  rw [msbFirst_draw, msbFirst_draw, msbFirst_draw, ← List.range'_append_1, List.map_append]
  rfl

/-- Masks of given widths, drawn one after the other. -/
def masks (stream : MaskStream) (threshold : Nat) : List Nat → List BitString
  | [] => []
  | width :: widths =>
    (stream.draw threshold width).1 :: (stream.skip width).masks threshold widths

theorem masks_append (widths others : List Nat) :
    stream.masks threshold (widths ++ others) =
      stream.masks threshold widths ++ (stream.skip widths.sum).masks threshold others := by
  induction widths generalizing stream with
  | nil => rfl
  | cons width widths ih =>
    rw [List.cons_append, masks, masks, ih, skip_skip, List.sum_cons, List.cons_append]

/-- Masks that are drawn one after the other are, together, one mask. -/
theorem flatMap_msbFirst_masks (widths : List Nat) :
    (stream.masks threshold widths).flatMap (·.msbFirst) =
      (stream.draw threshold widths.sum).1.msbFirst := by
  induction widths generalizing stream with
  | nil => rfl
  | cons width widths ih =>
    rw [masks, List.flatMap_cons, ih, List.sum_cons, msbFirst_draw_add]

theorem map_width_masks (widths : List Nat) :
    (stream.masks threshold widths).map (·.width) = widths := by
  induction widths generalizing stream with
  | nil => rfl
  | cons width widths ih => rw [masks, List.map_cons, width_draw, ih]

/-- Further widths leave the masks of the first ones as they are. -/
theorem masks_prefix {widths others : List Nat} (h : widths <+: others) :
    stream.masks threshold widths <+: stream.masks threshold others := by
  obtain ⟨more, rfl⟩ := h
  rw [masks_append]
  exact List.prefix_append _ _

end Draws

end MaskStream

/-! ## The random masks of a chain -/

/-- The widths of the random masks among fields. -/
def maskWidths (fields : List PlacedField) : List Nat :=
  (fields.filter (·.binding = .randomMask)).map (·.width.toNat)

/-- The values of the random masks among filled fields. -/
def maskValues (fields : List PlacedField) (values : List ResolvedField) : List BitString :=
  ((fields.zip values).filter (·.1.binding = .randomMask)).map (·.2.value)

/-- The widths of the random masks of a chain, in shift order. -/
def chainMaskWidths (segments : List PlacedSegment) : List Nat :=
  segments.flatMap fun s => maskWidths s.fields

/-- The values of the random masks of a chain, in shift order. -/
def chainMaskValues (segments : List PlacedSegment) (resolved : List ResolvedSegment) :
    List BitString :=
  (segments.zip resolved).flatMap fun entry => maskValues entry.1.fields entry.2.fields

/-- The bits of the random masks before field `j` of segment `i`. -/
def drawsBefore (segments : List PlacedSegment) (i : Nat) (s : PlacedSegment) (j : Nat) : Nat :=
  (chainMaskWidths (segments.take i)).sum + (maskWidths (s.fields.take j)).sum

section Masks

variable {s t : PlacedSegment} {segments : List PlacedSegment} {i j : Nat}
variable {f : PlacedField} {v : ResolvedField} {fields : List PlacedField}
variable {values : List ResolvedField}

theorem drawsBefore_zero : drawsBefore segments 0 s j = (maskWidths (s.fields.take j)).sum :=
  Nat.zero_add _

theorem drawsBefore_succ :
    drawsBefore (t :: segments) (i + 1) s j =
      (maskWidths t.fields).sum + drawsBefore segments i s j := by
  rw [drawsBefore, List.take_succ_cons, chainMaskWidths, List.flatMap_cons, List.sum_append,
    Nat.add_assoc]
  rfl

theorem maskWidths_cons : maskWidths (f :: fields) = maskWidths [f] ++ maskWidths fields := by
  rw [maskWidths, ← List.singleton_append, List.filter_append, List.map_append]
  rfl

theorem maskWidths_of_mask (h : f.binding = .randomMask) : maskWidths [f] = [f.width.toNat] := by
  simp [maskWidths, h]

theorem maskWidths_of_other (h : f.binding ≠ .randomMask) : maskWidths [f] = [] := by
  simp [maskWidths, h]

theorem maskValues_cons_of_mask (h : f.binding = .randomMask) :
    maskValues (f :: fields) (v :: values) = v.value :: maskValues fields values := by
  simp [maskValues, h]

theorem maskValues_cons_of_other (h : f.binding ≠ .randomMask) :
    maskValues (f :: fields) (v :: values) = maskValues fields values := by
  simp [maskValues, h]

end Masks

namespace Resolution

variable {policy : Policy} {segment : String} {stream rest : MaskStream} {f : PlacedField}
variable {v : BitString}

/-! ## One step of a run -/

/-- Filling fields fills the first one and goes on from where that leaves the stream. -/
theorem resolveFields_cons_eq_ok {fields : List PlacedField} {values : List ResolvedField}
    (h : resolveFields policy segment stream (f :: fields) = .ok (values, rest)) :
    ∃ v middle others, values = ⟨f.name, v⟩ :: others ∧
      fieldValue policy segment stream f = .ok (v, middle) ∧
      resolveFields policy segment middle fields = .ok (others, rest) := by
  unfold resolveFields at h
  obtain ⟨⟨v, middle⟩, hfirst, h⟩ := bind_eq_ok_iff.mp h
  obtain ⟨⟨others, last⟩, hothers, h⟩ := bind_eq_ok_iff.mp h
  cases h
  exact ⟨v, middle, others, rfl, hfirst, hothers⟩

theorem resolveSegments_cons_eq_ok {s : PlacedSegment} {segments : List PlacedSegment}
    {resolved : List ResolvedSegment}
    (h : resolveSegments policy stream (s :: segments) = .ok (resolved, rest)) :
    ∃ values middle others, resolved = ⟨s.name, s.position, values⟩ :: others ∧
      resolveFields policy s.name stream s.fields = .ok (values, middle) ∧
      resolveSegments policy middle segments = .ok (others, rest) := by
  unfold resolveSegments at h
  obtain ⟨⟨values, middle⟩, hfirst, h⟩ := bind_eq_ok_iff.mp h
  obtain ⟨⟨others, last⟩, hothers, h⟩ := bind_eq_ok_iff.mp h
  cases h
  exact ⟨values, middle, others, rfl, hfirst, hothers⟩

/-! ## The stream behind a field -/

theorem fieldValue_of_mask (h : f.binding = .randomMask) {threshold : Nat}
    (ht : Threshold.ofProbability? policy.probability = some threshold) :
    fieldValue policy segment stream f = .ok (stream.draw threshold f.width.toNat) := by
  rw [fieldValue, if_pos h, MaskStream.next?_of_threshold ht]

theorem fieldValue_of_other (h : f.binding ≠ .randomMask) :
    fieldValue policy segment stream f =
      (fixedValue policy segment f).map fun value => (value, stream) := by
  rw [fieldValue, if_neg h]

/-- A field takes its width from the stream if it is filled with a random mask, and nothing if it is
not. -/
theorem fieldValue_rest (h : fieldValue policy segment stream f = .ok (v, rest)) :
    rest = stream.skip (maskWidths [f]).sum := by
  by_cases hmask : f.binding = .randomMask
  · rw [maskWidths_of_mask hmask]
    cases ht : Threshold.ofProbability? policy.probability with
    | none =>
      rw [fieldValue, if_pos hmask, MaskStream.next?_of_none ht] at h
      cases h
    | some threshold =>
      rw [fieldValue_of_mask hmask ht] at h
      cases h
      rfl
  · rw [maskWidths_of_other hmask]
    rw [fieldValue_of_other hmask] at h
    obtain ⟨value, -, heq⟩ := map_eq_ok_iff.mp h
    cases heq
    rfl

/-! ## Every field is filled at its place -/

/-- The value is what fills a field under a policy after a number of draws. -/
def FilledAt (policy : Policy) (segment : String) (place : Nat) (f : PlacedField)
    (v : BitString) : Prop :=
  ∃ rest, fieldValue policy segment ⟨policy.seed, place⟩ f = .ok (v, rest)

theorem resolveFields_rest {fields : List PlacedField} {values : List ResolvedField}
    (h : resolveFields policy segment stream fields = .ok (values, rest)) :
    rest = stream.skip (maskWidths fields).sum := by
  induction fields generalizing stream values with
  | nil =>
    cases h
    rfl
  | cons f fields ih =>
    obtain ⟨v, middle, others, rfl, hfirst, hothers⟩ := resolveFields_cons_eq_ok h
    rw [maskWidths_cons, List.sum_append, ← MaskStream.skip_skip, ← fieldValue_rest hfirst,
      ← ih hothers]

theorem resolveFields_filledAt {place : Nat} {fields : List PlacedField}
    {values : List ResolvedField}
    (h : resolveFields policy segment ⟨policy.seed, place⟩ fields = .ok (values, rest)) {j : Nat}
    (hf : fields[j]? = some f) :
    ∃ v, values[j]? = some v ∧
      FilledAt policy segment (place + (maskWidths (fields.take j)).sum) f v.value := by
  induction fields generalizing place values j with
  | nil => simp at hf
  | cons g fields ih =>
    obtain ⟨v, middle, others, rfl, hfirst, hothers⟩ := resolveFields_cons_eq_ok h
    cases j with
    | zero =>
      obtain rfl : g = f := Option.some.inj hf
      exact ⟨_, rfl, _, hfirst⟩
    | succ j =>
      -- The other fields are filled from where the first one has left the stream.
      obtain rfl := fieldValue_rest hfirst
      obtain ⟨w, hw, hfilled⟩ := ih hothers hf
      refine ⟨w, hw, ?_⟩
      rw [List.take_succ_cons, maskWidths_cons, List.sum_append, ← Nat.add_assoc]
      exact hfilled

/-- Each field of a chain is filled at the place that the masks before it give. -/
theorem resolveSegments_filledAt {place : Nat} {segments : List PlacedSegment}
    {resolved : List ResolvedSegment}
    (h : resolveSegments policy ⟨policy.seed, place⟩ segments = .ok (resolved, rest)) {i j : Nat}
    {s : PlacedSegment} (hs : segments[i]? = some s) (hf : s.fields[j]? = some f) :
    ∃ r v, resolved[i]? = some r ∧ r.fields[j]? = some v ∧
      FilledAt policy s.name (place + drawsBefore segments i s j) f v.value := by
  induction segments generalizing place resolved i with
  | nil => simp at hs
  | cons t segments ih =>
    obtain ⟨values, middle, others, rfl, hfirst, hothers⟩ := resolveSegments_cons_eq_ok h
    cases i with
    | zero =>
      obtain rfl : t = s := Option.some.inj hs
      obtain ⟨v, hv, hfilled⟩ := resolveFields_filledAt hfirst hf
      refine ⟨_, v, rfl, hv, ?_⟩
      rw [drawsBefore_zero]
      exact hfilled
    | succ i =>
      obtain rfl := resolveFields_rest hfirst
      obtain ⟨r, v, hr, hv, hfilled⟩ := ih hothers hs
      refine ⟨r, v, hr, hv, ?_⟩
      rw [drawsBefore_succ, ← Nat.add_assoc]
      exact hfilled

/-! ## The masks together -/

section Masks

variable {threshold : Nat} (ht : Threshold.ofProbability? policy.probability = some threshold)
include ht

theorem resolveFields_masks {fields : List PlacedField} {values : List ResolvedField}
    (h : resolveFields policy segment stream fields = .ok (values, rest)) :
    maskValues fields values = stream.masks threshold (maskWidths fields) := by
  induction fields generalizing stream values with
  | nil => rfl
  | cons f fields ih =>
    obtain ⟨v, middle, others, rfl, hfirst, hothers⟩ := resolveFields_cons_eq_ok h
    rw [maskWidths_cons, MaskStream.masks_append, ← fieldValue_rest hfirst, ← ih hothers]
    by_cases hmask : f.binding = .randomMask
    · rw [fieldValue_of_mask hmask ht] at hfirst
      cases hfirst
      rw [maskValues_cons_of_mask hmask, maskWidths_of_mask hmask]
      rfl
    · rw [maskValues_cons_of_other hmask, maskWidths_of_other hmask]
      rfl

theorem resolveSegments_masks {segments : List PlacedSegment} {resolved : List ResolvedSegment}
    (h : resolveSegments policy stream segments = .ok (resolved, rest)) :
    chainMaskValues segments resolved = stream.masks threshold (chainMaskWidths segments) := by
  induction segments generalizing stream resolved with
  | nil => rfl
  | cons s segments ih =>
    obtain ⟨values, middle, others, rfl, hfirst, hothers⟩ := resolveSegments_cons_eq_ok h
    obtain rfl := resolveFields_rest hfirst
    rw [chainMaskWidths, List.flatMap_cons, MaskStream.masks_append,
      ← resolveFields_masks ht hfirst]
    show maskValues s.fields values ++ chainMaskValues segments others = _
    rw [ih hothers]
    rfl

end Masks

end Resolution

/-! ## The masks of a policy -/

namespace Policy

variable {policy : Policy} {segments : List PlacedSegment} {resolved : List ResolvedSegment}

theorem validate_eq_ok_iff :
    policy.validate = .ok () ↔ policy.probability.isProbability = true := by
  unfold validate
  split <;> simp [*]

/-- Resolving looks at the probability, and then fills from the start of the stream of the seed. -/
theorem resolve_eq_ok_iff :
    policy.resolve segments = .ok resolved ↔
      policy.probability.isProbability = true ∧
        ∃ rest, Resolution.resolveSegments policy (.ofSeed policy.seed) segments =
          .ok (resolved, rest) := by
  unfold resolve
  refine ⟨?_, ?_⟩
  · intro h
    obtain ⟨_, hvalid, h⟩ := bind_eq_ok_iff.mp h
    obtain ⟨⟨values, rest⟩, hfilled, h⟩ := bind_eq_ok_iff.mp h
    cases h
    exact ⟨validate_eq_ok_iff.mp hvalid, rest, hfilled⟩
  · rintro ⟨hprob, rest, hfilled⟩
    refine bind_eq_ok_iff.mpr ⟨(), validate_eq_ok_iff.mpr hprob, ?_⟩
    exact bind_eq_ok_iff.mpr ⟨_, hfilled, rfl⟩

/-- The random masks of a chain are drawn one after the other, whatever is between them. -/
theorem masks_of_resolve (h : policy.resolve segments = .ok resolved) :
    ∃ threshold, Threshold.ofProbability? policy.probability = some threshold ∧
      chainMaskValues segments resolved =
        (MaskStream.ofSeed policy.seed).masks threshold (chainMaskWidths segments) := by
  obtain ⟨hprob, rest, hfilled⟩ := resolve_eq_ok_iff.mp h
  obtain ⟨threshold, ht⟩ := Threshold.exists_ofProbability hprob
  exact ⟨threshold, ht, Resolution.resolveSegments_masks ht hfilled⟩

/-- The random masks of a chain are, one after the other, the one mask of all their widths together.
A chain whose masks begin with the same widths begins with the same masks, under every policy with
the same seed and probability: fields of other bindings, further segments and the other parameters
play no part. -/
theorem masks_are_slices_of_one_stream (h : policy.resolve segments = .ok resolved) :
    (∃ mask, MaskStream.generate? policy.seed policy.probability (chainMaskWidths segments).sum =
        some mask ∧
      (chainMaskValues segments resolved).flatMap (·.msbFirst) = mask.msbFirst) ∧
    (chainMaskValues segments resolved).map (·.width) = chainMaskWidths segments ∧
    ∀ (other : Policy) (others : List PlacedSegment) (values : List ResolvedSegment),
      other.resolve others = .ok values → other.seed = policy.seed →
      other.probability = policy.probability →
      chainMaskWidths segments <+: chainMaskWidths others →
      chainMaskValues segments resolved <+: chainMaskValues others values := by
  obtain ⟨threshold, ht, hmasks⟩ := masks_of_resolve h
  refine ⟨?_, ?_, ?_⟩
  · refine ⟨((MaskStream.ofSeed policy.seed).draw threshold (chainMaskWidths segments).sum).1,
      ?_, ?_⟩
    · rw [MaskStream.generate?, MaskStream.next_of_threshold ht]
    · rw [hmasks, MaskStream.flatMap_msbFirst_masks]
  · rw [hmasks, MaskStream.map_width_masks]
  · intro other others values hother hseed hprob hwidths
    obtain ⟨threshold', ht', hmasks'⟩ := masks_of_resolve hother
    -- The seed fixes the stream and the probability the threshold.
    rw [hprob, ht] at ht'
    cases ht'
    rw [hmasks, hmasks', hseed]
    exact MaskStream.masks_prefix hwidths

/-- A timer between two random masks, an enable bit before them and a cycle count change neither. -/
theorem masks_around_a_timer :
    let policy : Policy :=
      { Policy.inert with probability := .ofCode false (1022 * 2 ^ 52), seed := 7 }
    let other : Policy := { policy with cycle := 3 }
    let low : PlacedSegment := Segment.placed ⟨"low", 0, 4, .lfsr 4 0 0 4 0⟩
    let high : PlacedSegment := Segment.placed ⟨"high", 1, 5, .lfsr 5 0 0 5 0⟩
    let enabled : PlacedSegment := Segment.placed ⟨"low", 0, 5, .lfsr 4 1 0 4 0⟩
    let timer : PlacedSegment := Segment.placed ⟨"timer", 1, 8, .cycle 1 0 8 0⟩
    let resolved : List ResolvedSegment :=
      [⟨"low", 0, [⟨"mask", .ofNat 7 4⟩]⟩, ⟨"high", 1, [⟨"mask", .ofNat 27 5⟩]⟩]
    let values : List ResolvedSegment :=
      [⟨"low", 0, [⟨"enable", .ofNat 1 1⟩, ⟨"mask", .ofNat 7 4⟩]⟩,
        ⟨"timer", 1, [⟨"cycle_count", .ofNat 3 8⟩]⟩, ⟨"high", 1, [⟨"mask", .ofNat 27 5⟩]⟩]
    policy.resolve [low, high] = .ok resolved ∧
      other.resolve [enabled, timer, high] = .ok values ∧
      (∃ mask, MaskStream.generate? 7 policy.probability 9 = some mask ∧
        (chainMaskValues [low, high] resolved).flatMap (·.msbFirst) = mask.msbFirst) ∧
      chainMaskWidths [low, high] <+: chainMaskWidths [enabled, timer, high] ∧
      chainMaskValues [low, high] resolved <+: chainMaskValues [enabled, timer, high] values := by
  intro policy other low high enabled timer resolved values
  have hresolved : policy.resolve [low, high] = .ok resolved := by decide +kernel
  have hvalues : other.resolve [enabled, timer, high] = .ok values := by decide +kernel
  have hwidths : chainMaskWidths [low, high] <+: chainMaskWidths [enabled, timer, high] := by
    decide +kernel
  obtain ⟨hslices, -, hprefix⟩ := masks_are_slices_of_one_stream hresolved
  exact ⟨hresolved, hvalues, hslices, hwidths, hprefix _ _ _ hvalues rfl rfl hwidths⟩

end Policy
end ScanChain
