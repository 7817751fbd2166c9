/-
# ScanChain.Proofs.Inert — the policy that sets nothing

Every binding takes the inert policy and makes zeros of it, at every width and at every place of the
stream of random masks: no number is too large, no draw lies below the threshold of zero, and no
product with zero is rounded up. So each field is clear (`fieldValue_inert`), and with it each
segment, each word of the payload, and the signature of the words.
-/
import ScanChain.Proofs.Compiling
import ScanChain.Proofs.Difficulty
import ScanChain.Proofs.Draws
import ScanChain.Proofs.Threshold

namespace ScanChain

/-! ## Zeros -/

theorem BitString.ofNat_zero (w : Nat) : ofNat 0 w = zeros w :=
  eq_of_toNat_eq (by rw [width_ofNat, width_zeros]) (by rw [toNat_zeros, toNat_ofNat, Nat.zero_mod])

theorem Binary64.toRat?_zero : Binary64.zero.toRat? = some 0 := by
  norm_num [zero, toRat?, exponentField, fractionField, ofCode]

/-- No draw lies below the threshold of zero. -/
theorem MaskStream.draw_zero (stream : MaskStream) (width : Nat) :
    (stream.draw 0 width).1 = BitString.zeros width := by
  have hbits : (stream.draw 0 width).1.bits = List.replicate width false := by
    refine List.eq_replicate_iff.mpr ⟨stream.width_draw 0 width, ?_⟩
    intro bit hbit
    obtain ⟨word, -, rfl⟩ := List.mem_map.mp (List.mem_reverse.mp hbit)
    exact decide_eq_false (Nat.not_lt_zero _)
  show BitString.mk (stream.draw 0 width).1.bits = BitString.mk _
  rw [hbits]

/-- No register holds anything at the probability zero. -/
theorem Threshold.difficulty?_zero {w : Nat} (hpos : 0 < w) (hw : w ≤ 64) :
    difficulty? .zero w = some 0 := by
  obtain ⟨n, hn, -, hceil⟩ :=
    difficulty?_bounds Binary64.toRat?_zero le_rfl zero_le_one hpos hw
  rw [zero_mul, Nat.ceil_zero, Nat.le_zero] at hceil
  rw [hn, hceil]

theorem Word.packWords_replicate_false (count n : Nat) :
    packWords count (List.replicate n false) = List.replicate count 0 := by
  have hzero (n : Nat) : ofBits (List.replicate n false) = 0 := by
    rw [ofBits, natOfBits_eq, BitString.ofMsbFirst, List.reverse_replicate, ← BitString.zeros,
      BitString.toNat_zeros, Nat.zero_mul]
    rfl
  induction count generalizing n with
  | zero => rfl
  | succ count ih =>
    rw [packWords, List.take_replicate, List.drop_replicate, hzero, ih, List.replicate_succ]

/-- The register of the signature stays clear while nothing is taken in. -/
theorem Misr.signature_replicate_zero (n : Nat) : signature (List.replicate n 0) = 0 := by
  have hstep : absorb feedback 0 0 = 0 := by decide
  unfold signature run
  induction n with
  | zero => rfl
  | succ n ih => rw [List.replicate_succ, List.foldl_cons, hstep, ih]

/-! ## Fields -/

namespace Resolution

variable {f : PlacedField}

theorem fixedValue_inert (segment : String) (hpos : 0 < f.width.toNat) :
    fixedValue .inert segment f = .ok (BitString.zeros f.width.toNat) := by
  have hroom : 0 < 2 ^ f.width.toNat := Nat.two_pow_pos _
  have hnumber (parameter : Policy.Parameter) :
      fitNat segment f parameter 0 = .ok (BitString.zeros f.width.toNat) := by
    rw [fitNat_eq, if_pos hroom, BitString.ofNat_zero]
  have hbits (parameter : Policy.Parameter) :
      fitBits segment f parameter ⟨[]⟩ = .ok (BitString.zeros f.width.toNat) := by
    rw [fitBits_eq]
    exact (if_pos hroom).trans (congrArg Except.ok (BitString.ofNat_zero _))
  have hflag : flag f false = BitString.zeros f.width.toNat := BitString.ofNat_zero _
  unfold fixedValue
  cases f.binding with
  | none | randomMask => rfl
  | enableOnProbability | enableOnCycle => exact congrArg Except.ok hflag
  | seed | cycle | cycleInjectAt => exact hnumber _
  | mask | stuckAtValue => exact hbits _
  | difficulty =>
    have hvalue : Threshold.difficulty? Policy.inert.probability (min f.width.toNat 64) = some 0 :=
      Threshold.difficulty?_zero (by omega) (by omega)
    simp only [hvalue, BitString.ofNat_zero]

/-- The inert policy clears a field, wherever the stream is. -/
theorem fieldValue_inert (segment : String) (stream : MaskStream) (hpos : 0 < f.width.toNat) :
    ∃ rest, fieldValue .inert segment stream f = .ok (BitString.zeros f.width.toNat, rest) := by
  by_cases hmask : f.binding = .randomMask
  · have ht : Threshold.ofProbability? Policy.inert.probability = some 0 :=
      Threshold.ofProbability?_of_zero Binary64.toRat?_zero
    rw [fieldValue_of_mask hmask ht, ← MaskStream.draw_zero stream]
    exact ⟨_, rfl⟩
  · rw [fieldValue_of_other hmask, fixedValue_inert segment hpos]
    exact ⟨_, rfl⟩

end Resolution

/-! ## Segments -/

/-- The segment with all its fields clear. -/
def PlacedSegment.cleared (s : PlacedSegment) : ResolvedSegment :=
  ⟨s.name, s.position, s.fields.map fun f => ⟨f.name, .zeros f.width.toNat⟩⟩

namespace Resolution

theorem resolveFields_inert (segment : String) (stream : MaskStream) {fields : List PlacedField}
    (hpos : ∀ f ∈ fields, 0 < f.width.toNat) :
    ∃ rest, resolveFields .inert segment stream fields =
      .ok (fields.map fun f => ⟨f.name, .zeros f.width.toNat⟩, rest) := by
  induction fields generalizing stream with
  | nil => exact ⟨stream, rfl⟩
  | cons f fields ih =>
    rw [List.forall_mem_cons] at hpos
    obtain ⟨middle, hfirst⟩ := fieldValue_inert segment stream hpos.1
    obtain ⟨rest, hothers⟩ := ih middle hpos.2
    refine ⟨rest, ?_⟩
    unfold resolveFields
    rw [hfirst]
    show (resolveFields .inert segment middle fields >>= fun _ => _) = _
    rw [hothers]
    rfl

theorem resolveSegments_inert (stream : MaskStream) {segments : List PlacedSegment}
    (htiled : ∀ s ∈ segments, s.Tiled) :
    ∃ rest, resolveSegments .inert stream segments =
      .ok (segments.map PlacedSegment.cleared, rest) := by
  induction segments generalizing stream with
  | nil => exact ⟨stream, rfl⟩
  | cons s segments ih =>
    rw [List.forall_mem_cons] at htiled
    obtain ⟨middle, hfirst⟩ := resolveFields_inert s.name stream (width_pos_of_tiled htiled.1)
    obtain ⟨rest, hothers⟩ := ih middle htiled.2
    refine ⟨rest, ?_⟩
    unfold resolveSegments
    rw [hfirst]
    show (resolveSegments .inert middle segments >>= fun _ => _) = _
    rw [hothers]
    rfl

end Resolution

/-- A clear segment has no set bit, -/
theorem PlacedSegment.eq_false_of_mem_stream_cleared {s : PlacedSegment} {bit : Bool}
    (h : bit ∈ s.stream s.cleared.fields) : bit = false := by
  rcases List.mem_append.mp h with hfield | hpadding
  · obtain ⟨value, hvalue, hbit⟩ := List.mem_flatMap.mp hfield
    obtain ⟨f, -, rfl⟩ := List.mem_map.mp hvalue
    exact List.eq_of_mem_replicate (List.mem_reverse.mp hbit)
  · exact List.eq_of_mem_replicate hpadding

/-- and neither has a chain of them. -/
theorem eq_false_of_mem_chainStream_cleared {segments : List PlacedSegment} {bit : Bool}
    (h : bit ∈ chainStream segments (segments.map PlacedSegment.cleared)) : bit = false := by
  induction segments with
  | nil => cases h
  | cons s segments ih =>
    rcases List.mem_append.mp h with hs | hrest
    · exact PlacedSegment.eq_false_of_mem_stream_cleared hs
    · exact ih hrest

namespace ChainLayout

variable {layout : ChainLayout} {checksum : Bool} {image : Image}

theorem resolve_inert (layout : ChainLayout) :
    layout.resolve .inert = .ok (layout.segments.map PlacedSegment.cleared) := by
  have hprob : Policy.inert.probability.isProbability = true :=
    Binary64.isProbability_iff.mpr ⟨0, Binary64.toRat?_zero, le_rfl, zero_le_one⟩
  obtain ⟨rest, hresolved⟩ := Resolution.resolveSegments_inert (.ofSeed 0) layout.tiled
  unfold resolve Policy.resolve Policy.validate
  rw [if_pos hprob]
  show (Resolution.resolveSegments .inert (.ofSeed 0) layout.segments >>= fun _ => _) = _
  rw [hresolved]
  rfl

/-- The image of a chain of clear segments has no set bit in its payload. -/
theorem payload_of_pack_cleared
    (h : layout.pack (layout.segments.map PlacedSegment.cleared) checksum = .ok image) :
    image.payload = List.replicate layout.payloadWords 0 ∧
      image.checksum = if checksum then some 0 else none := by
  have hbits := payloadBits_of_pack h
  obtain ⟨-, rfl⟩ := pack_eq_ok_iff.mp h
  have hstream : chainStream layout.segments (layout.segments.map PlacedSegment.cleared) =
      List.replicate layout.payloadBits false :=
    List.eq_replicate_iff.mpr ⟨hbits, fun _ => eq_false_of_mem_chainStream_cleared⟩
  have hpack : Word.pack (List.replicate layout.payloadBits false) =
      List.replicate layout.payloadWords 0 := by
    rw [Word.pack, List.length_replicate, Word.packWords_replicate_false, payloadWords]
  rw [hstream, imageOf, hpack]
  refine ⟨rfl, ?_⟩
  rw [Misr.signature_replicate_zero]

end ChainLayout

/-- The inert policy compiles on every chain and under every configuration. It clears every field,
the payload is all zero, and so is the checksum if there is one. -/
theorem Config.inert_policy_compiles_to_zeros (config : Config) (layout : ChainLayout) :
    ∃ compiled, config.compile layout .inert = .ok compiled ∧
      compiled.resolved = layout.segments.map PlacedSegment.cleared ∧
      compiled.image.payload = List.replicate layout.payloadWords 0 ∧
      compiled.image.checksum = if config.checksum then some 0 else none := by
  obtain ⟨image, hpack, hcompile⟩ := Config.compile_of_resolve config layout.resolve_inert
  obtain ⟨hpayload, hchecksum⟩ := ChainLayout.payload_of_pack_cleared hpack
  exact ⟨_, hcompile, rfl, hpayload, hchecksum⟩

end ScanChain
