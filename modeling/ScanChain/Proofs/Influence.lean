/-
# ScanChain.Proofs.Influence — a parameter changes the bits of its own fields only

A field is filled from the parameters that its binding reads (`Binding.reads`) and from its place in
the stream of random masks. The place comes from widths alone, so it is the same under all policies,
and two policies that agree on what the binding reads put the same value into the field
(`value_eq_of_agree`). Where each bit lies is a matter of the layout, so the images of two policies
can differ in no other bits than those of fields that read a parameter in which the policies differ.

Policies are compared as numbers: leading zeros of a bit string are no difference, nor is the sign
of a zero.
-/
import ScanChain.Proofs.Draws
import ScanChain.Proofs.RoundTrip

namespace ScanChain

/-! ## Parameters and what reads them -/

/-- The parameters that the value of a field depends on. -/
def Binding.reads : Binding → List Policy.Parameter
  | .none => []
  | .enableOnProbability | .difficulty => [.probability]
  | .randomMask => [.probability, .seed]
  | .seed => [.seed]
  | .enableOnCycle | .cycle => [.cycle]
  | .cycleInjectAt => [.cycleInjectAt]
  | .mask => [.mask]
  | .stuckAtValue => [.stuckAtValue]

/-- Two policies have the same number as a parameter. -/
def Policy.Agree (p q : Policy) : Policy.Parameter → Prop
  | .mask => p.mask.toNat = q.mask.toNat
  | .stuckAtValue => p.stuckAtValue.toNat = q.stuckAtValue.toNat
  | .probability => p.probability.toRat? = q.probability.toRat?
  | .seed => p.seed = q.seed
  | .cycle => p.cycle = q.cycle
  | .cycleInjectAt => p.cycleInjectAt = q.cycleInjectAt

/-- The place holds a bit of a field that reads a parameter in which the policies differ. -/
def Influenced (segments : List PlacedSegment) (p q : Policy) (place : Nat) : Prop :=
  ∃ i s f k parameter, segments[i]? = some s ∧ f ∈ s.fields ∧ k < f.width.toNat ∧
    place = bitPlace segments i s (f.offset + k) ∧ parameter ∈ f.binding.reads ∧
    ¬ p.Agree q parameter

/-! ## Probabilities that are the same number -/

section Probabilities

variable {x y : Binary64} (hx : x.InUnit) (hy : y.InUnit) (h : x.toRat? = y.toRat?)
include hx hy h

theorem Binary64.mulCode_congr (factor : Nat) : mulCode x.code factor = mulCode y.code factor :=
  congrArg (fun units => nearestCode (units * unitsOf factor) _) (units_eq_of_toRat?_eq hx hy h)

theorem Threshold.ofProbability?_congr : ofProbability? x = ofProbability? y := by
  unfold ofProbability?
  simp only [Binary64.isProbability_iff.mpr hx, Binary64.isProbability_iff.mpr hy,
    Binary64.mulCode_congr hx hy h, Binary64.units_eq_of_toRat?_eq hx hy h]

theorem Threshold.difficulty?_congr (width : Nat) : difficulty? x width = difficulty? y width := by
  unfold difficulty?
  simp only [Binary64.isProbability_iff.mpr hx, Binary64.isProbability_iff.mpr hy,
    Binary64.mulCode_congr hx hy h, Binary64.units_eq_of_toRat?_eq hx hy h]

theorem Binary64.isPositive_congr : x.isPositive = y.isPositive := by
  rw [Bool.eq_iff_iff, isPositive_iff hx.isFinite, isPositive_iff hy.isFinite, Positive, Positive,
    h]

end Probabilities

namespace Resolution

open Policy

/-! ## One field under two policies -/

section Fields

variable {p q : Policy} {segment : String} {f : PlacedField}
variable (hp : p.probability.InUnit) (hq : q.probability.InUnit)
variable (hagree : ∀ parameter ∈ f.binding.reads, p.Agree q parameter)
include hp hq hagree

theorem fixedValue_congr (hpos : 0 < f.width.toNat) :
    fixedValue p segment f = fixedValue q segment f := by
  unfold fixedValue
  generalize f.binding = binding at hagree ⊢
  cases binding with
  | none | randomMask => rfl
  | enableOnProbability =>
    have hprob : p.probability.toRat? = q.probability.toRat? := hagree .probability (by decide)
    simp only [Binary64.isPositive_congr hp hq hprob]
  | difficulty =>
    have hprob : p.probability.toRat? = q.probability.toRat? := hagree .probability (by decide)
    obtain ⟨n, hn⟩ := exists_difficulty hq hpos
    simp only [Threshold.difficulty?_congr hp hq hprob, hn]
  | enableOnCycle | cycle =>
    have hcycle : p.cycle = q.cycle := hagree .cycle (by decide)
    simp only [hcycle]
  | seed =>
    have hseed : p.seed = q.seed := hagree .seed (by decide)
    simp only [hseed]
  | cycleInjectAt =>
    have hcycle : p.cycleInjectAt = q.cycleInjectAt := hagree .cycleInjectAt (by decide)
    simp only [hcycle]
  | mask =>
    have hmask : p.mask.toNat = q.mask.toNat := hagree .mask (by decide)
    simp only [fitBits_eq, hmask]
  | stuckAtValue =>
    have hvalue : p.stuckAtValue.toNat = q.stuckAtValue.toNat := hagree .stuckAtValue (by decide)
    simp only [fitBits_eq, hvalue]

/-- At one place of the stream, policies that agree on what a binding reads fill a field alike. -/
theorem value_eq_of_agree (hpos : 0 < f.width.toNat) {place : Nat} {v w : BitString}
    (hv : FilledAt p segment place f v) (hw : FilledAt q segment place f w) : v = w := by
  obtain ⟨_, hv⟩ := hv
  obtain ⟨_, hw⟩ := hw
  by_cases hmask : f.binding = .randomMask
  · rw [hmask] at hagree
    have hprob : p.probability.toRat? = q.probability.toRat? := hagree .probability (by decide)
    have hseed : p.seed = q.seed := hagree .seed (by decide)
    obtain ⟨threshold, ht⟩ := Threshold.exists_ofProbability (Binary64.isProbability_iff.mpr hq)
    have ht' := (Threshold.ofProbability?_congr hp hq hprob).trans ht
    rw [fieldValue_of_mask hmask ht', hseed] at hv
    rw [fieldValue_of_mask hmask ht] at hw
    exact congrArg Prod.fst (Except.ok.inj (hv.symm.trans hw))
  · rw [fieldValue_of_other hmask, fixedValue_congr hp hq hagree hpos] at hv
    rw [fieldValue_of_other hmask] at hw
    obtain ⟨x, hx, hvx⟩ := map_eq_ok_iff.mp hv
    obtain ⟨y, hy, hwy⟩ := map_eq_ok_iff.mp hw
    obtain rfl : x = y := Except.ok.inj (hx.symm.trans hy)
    exact (congrArg Prod.fst hvx).symm.trans (congrArg Prod.fst hwy)

end Fields

end Resolution

/-! ## A chain under two policies -/

namespace ChainLayout

variable {layout : ChainLayout} {p q : Policy} {rp rq : List ResolvedSegment}

theorem resolve_filledAt {policy : Policy} {resolved : List ResolvedSegment}
    (h : layout.resolve policy = .ok resolved) {i j : Nat} {s : PlacedSegment} {f : PlacedField}
    (hs : layout.segments[i]? = some s) (hf : s.fields[j]? = some f) :
    ∃ r v, resolved[i]? = some r ∧ r.fields[j]? = some v ∧
      Resolution.FilledAt policy s.name (drawsBefore layout.segments i s j) f v.value := by
  obtain ⟨-, rest, hfilled⟩ := Policy.resolve_eq_ok_iff.mp h
  obtain ⟨r, v, hr, hv, hplace⟩ := Resolution.resolveSegments_filledAt hfilled hs hf
  rw [Nat.zero_add] at hplace
  exact ⟨r, v, hr, hv, hplace⟩

/-- A bit of a field is the same in both images if the policies agree on what the field reads. -/
theorem streamBit_eq_of_agree (hp : layout.resolve p = .ok rp) (hq : layout.resolve q = .ok rq)
    {checksum : Bool} {a b : Image} (ha : layout.pack rp checksum = .ok a)
    (hb : layout.pack rq checksum = .ok b) {i k : Nat} {s : PlacedSegment} {f : PlacedField}
    (hs : layout.segments[i]? = some s) (hf : f ∈ s.fields) (hk : k < f.width.toNat)
    (hagree : ∀ parameter ∈ f.binding.reads, p.Agree q parameter) :
    Word.streamBit a.payload (bitPlace layout.segments i s (f.offset + k)) =
      Word.streamBit b.payload (bitPlace layout.segments i s (f.offset + k)) := by
  have hprob : p.probability.InUnit := (exists_resolve_iff.mp ⟨_, hp⟩).1
  have hprob' : q.probability.InUnit := (exists_resolve_iff.mp ⟨_, hq⟩).1
  -- Both values are filled in at the same place of the stream, and lie at the same place.
  obtain ⟨j, hj⟩ := List.mem_iff_getElem?.mp hf
  obtain ⟨r, v, hr, hv, hfilled⟩ := resolve_filledAt hp hs hj
  obtain ⟨r', w, hr', hw, hfilled'⟩ := resolve_filledAt hq hs hj
  have hsame : v.value = w.value :=
    Resolution.value_eq_of_agree hprob hprob' hagree (Nat.zero_lt_of_lt hk) hfilled hfilled'
  rw [streamBit_of_field ha hs hr hj hv hk, streamBit_of_field hb hs hr' hj hw hk, hsame]

/-- The images of two policies have the same header, the same number of words and the same number of
bits, and they differ only in bits of fields that read a parameter in which the policies differ. -/
theorem parameters_do_not_interfere (hp : layout.resolve p = .ok rp)
    (hq : layout.resolve q = .ok rq) :
    ∃ a b, layout.pack rp false = .ok a ∧ layout.pack rq false = .ok b ∧
      a.header = b.header ∧ a.words.length = b.words.length ∧ a.payloadBits = b.payloadBits ∧
      ∀ place, Word.streamBit a.payload place ≠ Word.streamBit b.payload place →
        Influenced layout.segments p q place := by
  obtain ⟨a, ha⟩ := exists_pack_of_resolve hp false
  obtain ⟨b, hb⟩ := exists_pack_of_resolve hq false
  refine ⟨a, b, ha, hb, ?_, ?_, ?_, ?_⟩
  · rw [header_of_pack ha, header_of_pack hb]
  · rw [(framed_of_pack ha).count, (framed_of_pack hb).count]
  · rw [payloadBits_of_pack ha, payloadBits_of_pack hb]
  · intro place hne
    by_cases hfield : IsFieldPlace layout.segments place
    · obtain ⟨i, s, f, k, hs, hf, hk, rfl⟩ := hfield
      by_contra hnone
      refine hne (streamBit_eq_of_agree hp hq ha hb hs hf hk ?_)
      intro parameter hreads
      by_contra hdiffer
      exact hnone ⟨i, s, f, k, parameter, hs, hf, hk, rfl, hreads, hdiffer⟩
    · rw [streamBit_of_spare ha hfield, streamBit_of_spare hb hfield] at hne
      exact absurd rfl hne

/-- Another seed changes bits of the seed register, and no bit of the timer before it. -/
theorem seed_changes_seeded_bits :
    let layout : ChainLayout :=
      { kind := .length
        chain :=
          { name := "main"
            segments := [⟨"timer", 0, 8, .cycle 1 0 8 0⟩, ⟨"noise", 1, 13, .lfsr 4 1 8 4 0⟩]
            nonempty := by decide, positions := by decide, names_nodup := by decide
            fits := by decide } }
    let p : Policy :=
      { Policy.inert with probability := .ofCode false (1022 * 2 ^ 52), seed := 7, cycle := 3 }
    let q : Policy := { p with seed := 9 }
    let rp : List ResolvedSegment :=
      [⟨"timer", 0, [⟨"cycle_count", .ofNat 3 8⟩]⟩,
        ⟨"noise", 1, [⟨"enable", .ofNat 1 1⟩, ⟨"seed", .ofNat 7 8⟩, ⟨"mask", .ofNat 7 4⟩]⟩]
    let rq : List ResolvedSegment :=
      [⟨"timer", 0, [⟨"cycle_count", .ofNat 3 8⟩]⟩,
        ⟨"noise", 1, [⟨"enable", .ofNat 1 1⟩, ⟨"seed", .ofNat 9 8⟩, ⟨"mask", .ofNat 0 4⟩]⟩]
    layout.resolve p = .ok rp ∧ layout.resolve q = .ok rq ∧
      ∃ a b, layout.pack rp false = .ok a ∧ layout.pack rq false = .ok b ∧
        (∃ place, Word.streamBit a.payload place ≠ Word.streamBit b.payload place) ∧
        ∀ place, Word.streamBit a.payload place ≠ Word.streamBit b.payload place →
          Influenced layout.segments p q place := by
  intro layout p q rp rq
  have hp : layout.resolve p = .ok rp := by decide +kernel
  have hq : layout.resolve q = .ok rq := by decide +kernel
  obtain ⟨a, b, ha, hb, -, -, -, hinfluenced⟩ := parameters_do_not_interfere hp hq
  refine ⟨hp, hq, a, b, ha, hb, ⟨15, ?_⟩, hinfluenced⟩
  -- Place 15 is the second bit of the seed register.
  obtain rfl : layout.imageOf (chainStream layout.segments rp) false = a :=
    (pack_eq_ok_iff.mp ha).2.symm
  obtain rfl : layout.imageOf (chainStream layout.segments rq) false = b :=
    (pack_eq_ok_iff.mp hb).2.symm
  decide +kernel

end ChainLayout
end ScanChain
