/-
# ScanChain.Proofs.Filling — what a policy puts into one field

A field takes a number of the policy, a bit string of it, or neither. What it takes must have room
in the field, and is then kept as a number; a field that takes neither is always filled. `Fits`,
`Fills` and `Refuses` say so by the binding of the field, and `fieldValue_cases` that filling a
field does it, wherever in the stream of random masks the field is filled.
-/
import ScanChain.Proofs.Rational
import ScanChain.Resolution
import ScanChain.BitString.Lemmas

namespace ScanChain

/-! ## Random masks -/

theorem ChaCha20.length_block (key : Key) (n : Nat) : (block key n).length = 16 := rfl

/-- As many words are drawn as are asked for, wherever in a block the place is. -/
theorem ChaCha20.length_words (key : Key) (start count : Nat) :
    (words key start count).length = count := by
  have hblocks (n first : Nat) :
      ((List.range n).flatMap fun i => block key (first + i)).length = 16 * n := by
    rw [List.length_flatMap]
    simp [length_block, Nat.mul_comm]
  unfold words
  rw [List.length_take, List.length_drop, hblocks]
  omega

theorem MaskStream.width_draw (stream : MaskStream) (threshold width : Nat) :
    (stream.draw threshold width).1.width = width := by
  unfold draw
  rw [BitString.width_ofMsbFirst, List.length_map, ChaCha20.length_words]

/-! ## One field -/

namespace Policy

/-- The number of a policy that a binding takes. -/
def number? (policy : Policy) : Binding → Option UInt64
  | .seed => some policy.seed
  | .cycle => some policy.cycle
  | .cycleInjectAt => some policy.cycleInjectAt
  | _ => none

/-- The bit string of a policy that a binding takes. -/
def bits? (policy : Policy) : Binding → Option BitString
  | .mask => some policy.mask
  | .stuckAtValue => some policy.stuckAtValue
  | _ => none

/-- What a field takes from a policy has room in the field. -/
structure Fits (policy : Policy) (f : PlacedField) : Prop where
  number : ∀ n, policy.number? f.binding = some n → n.toNat < 2 ^ f.width.toNat
  bits : ∀ b, policy.bits? f.binding = some b → b.toNat < 2 ^ f.width.toNat

/-- The refusal of a field for want of room. It names the segment, the field, the parameter and the
width. -/
inductive Refuses (policy : Policy) (segment : String) (f : PlacedField) : Error → Prop
  | number {n : UInt64} {p : Parameter} : policy.number? f.binding = some n →
      f.binding.parameter? = some p → 2 ^ f.width.toNat ≤ n.toNat →
      Refuses policy segment f (.valueOutOfRange segment f.name p n.toNat f.width.toNat)
  | bits {b : BitString} {p : Parameter} : policy.bits? f.binding = some b →
      f.binding.parameter? = some p → 2 ^ f.width.toNat ≤ b.toNat →
      Refuses policy segment f
        (.valueTooWide segment f.name p (BitString.bitLength b.toNat) f.width.toNat)

/-- What the value of a field is as a number. Random masks and difficulties are free here. -/
def Means (policy : Policy) : Binding → Nat → Prop
  | .none, n => n = 0
  | .enableOnProbability, n =>
    policy.probability.Positive ∧ n = 1 ∨ ¬ policy.probability.Positive ∧ n = 0
  | .enableOnCycle, n => 0 < policy.cycle.toNat ∧ n = 1 ∨ policy.cycle.toNat = 0 ∧ n = 0
  | .seed, n => n = policy.seed.toNat
  | .cycle, n => n = policy.cycle.toNat
  | .cycleInjectAt, n => n = policy.cycleInjectAt.toNat
  | .mask, n => n = policy.mask.toNat
  | .stuckAtValue, n => n = policy.stuckAtValue.toNat
  | .randomMask, _ => True
  | .difficulty, _ => True

/-- A value of the width of a field that is, as a number, what the binding of the field says. -/
structure Fills (policy : Policy) (f : PlacedField) (v : BitString) : Prop where
  width : v.width = f.width.toNat
  means : policy.Means f.binding v.toNat

variable {policy : Policy} {segment : String} {f : PlacedField} {e : Error}

/-- No binding takes both a number and a bit string. -/
theorem bits?_of_number {n : UInt64} (hn : policy.number? f.binding = some n) :
    policy.bits? f.binding = none := by
  unfold number? at hn
  cases hbind : f.binding <;> rw [hbind] at hn <;> first | rfl | cases hn

theorem fits_of_number {n : UInt64} (hn : policy.number? f.binding = some n)
    (hroom : n.toNat < 2 ^ f.width.toNat) : policy.Fits f where
  number m hm := by
    obtain rfl := Option.some.inj (hn.symm.trans hm)
    exact hroom
  bits b hb := by
    rw [bits?_of_number hn] at hb
    cases hb

theorem fits_of_bits {b : BitString} (hb : policy.bits? f.binding = some b)
    (hroom : b.toNat < 2 ^ f.width.toNat) : policy.Fits f where
  number n hn := by
    rw [bits?_of_number hn] at hb
    cases hb
  bits c hc := by
    obtain rfl := Option.some.inj (hb.symm.trans hc)
    exact hroom

theorem means_of_number {n : UInt64} (hn : policy.number? f.binding = some n) :
    policy.Means f.binding n.toNat := by
  unfold number? at hn
  cases hbind : f.binding <;> rw [hbind] at hn <;> cases hn <;> rfl

theorem means_of_bits {b : BitString} (hb : policy.bits? f.binding = some b) :
    policy.Means f.binding b.toNat := by
  unfold bits? at hb
  cases hbind : f.binding <;> rw [hbind] at hb <;> cases hb <;> rfl

theorem fits_of_free (hnumber : policy.number? f.binding = none)
    (hbits : policy.bits? f.binding = none) : policy.Fits f where
  number n hn := by rw [hnumber] at hn; cases hn
  bits b hb := by rw [hbits] at hb; cases hb

theorem Refuses.unique {d : Error} (hd : policy.Refuses segment f d)
    (he : policy.Refuses segment f e) : d = e := by
  cases hd with
  | number hn hp =>
    cases he with
    | number hm hq =>
      obtain rfl := Option.some.inj (hn.symm.trans hm)
      obtain rfl := Option.some.inj (hp.symm.trans hq)
      rfl
    | bits hb => rw [bits?_of_number hn] at hb; cases hb
  | bits hb hp =>
    cases he with
    | number hm => rw [bits?_of_number hm] at hb; cases hb
    | bits hc hq =>
      obtain rfl := Option.some.inj (hb.symm.trans hc)
      obtain rfl := Option.some.inj (hp.symm.trans hq)
      rfl

theorem Fits.not_refuses (h : policy.Fits f) : ¬ policy.Refuses segment f e := by
  intro hrefused
  cases hrefused with
  | number hn _ hlarge => exact absurd (h.number _ hn) (Nat.not_lt.mpr hlarge)
  | bits hb _ hlarge => exact absurd (h.bits _ hb) (Nat.not_lt.mpr hlarge)

/-- A number that is taken is a parameter with a name. -/
theorem exists_parameter_of_number {n : UInt64} (hn : policy.number? f.binding = some n) :
    ∃ p, f.binding.parameter? = some p := by
  unfold number? at hn
  cases hbind : f.binding <;> rw [hbind] at hn <;> cases hn <;> exact ⟨_, rfl⟩

/-- A bit string that is taken is a parameter with a name. -/
theorem exists_parameter_of_bits {b : BitString} (hb : policy.bits? f.binding = some b) :
    ∃ p, f.binding.parameter? = some p := by
  unfold bits? at hb
  cases hbind : f.binding <;> rw [hbind] at hb <;> cases hb <;> exact ⟨_, rfl⟩

/-- A field is refused exactly if what it takes has no room. -/
theorem exists_refuses_iff : (∃ e, policy.Refuses segment f e) ↔ ¬ policy.Fits f := by
  refine ⟨?_, ?_⟩
  · rintro ⟨e, hrefused⟩ hfits
    exact hfits.not_refuses hrefused
  · intro hmisfit
    apply not_not.mp
    intro hnone
    refine hmisfit ⟨?_, ?_⟩
    · intro n hn
      obtain ⟨p, hp⟩ := exists_parameter_of_number hn
      exact Nat.lt_of_not_le fun hlarge => hnone ⟨_, .number hn hp hlarge⟩
    · intro b hb
      obtain ⟨p, hp⟩ := exists_parameter_of_bits hb
      exact Nat.lt_of_not_le fun hlarge => hnone ⟨_, .bits hb hp hlarge⟩

end Policy

theorem Threshold.exists_ofProbability {p : Binary64} (h : p.isProbability = true) :
    ∃ threshold, ofProbability? p = some threshold :=
  ⟨_, if_pos h⟩

namespace Resolution

open Policy

variable {policy : Policy} {segment : String} {f : PlacedField} {e : Policy.Error}
variable {p : Policy.Parameter} {stream rest : MaskStream} {v : BitString}

/-- A number is put into a field exactly if it is below the power of two of the width. -/
theorem fitNat_eq (segment : String) (f : PlacedField) (p : Policy.Parameter) (n : Nat) :
    fitNat segment f p n =
      if n < 2 ^ f.width.toNat then .ok (BitString.ofNat n f.width.toNat)
      else .error (.valueOutOfRange segment f.name p n f.width.toNat) := by
  unfold fitNat
  by_cases hroom : n < 2 ^ f.width.toNat
  · rw [if_pos hroom, if_neg (Nat.not_lt.mpr ((BitString.bitLength_le_iff _ _).mpr hroom))]
  · have hlong : f.width.toNat < BitString.bitLength n :=
      Nat.lt_of_not_le fun hle => hroom ((BitString.bitLength_le_iff _ _).mp hle)
    rw [if_neg hroom, if_pos hlong]

/-- A bit string is put into a field exactly if its number is below that power of two. -/
theorem fitBits_eq (segment : String) (f : PlacedField) (p : Policy.Parameter) (b : BitString) :
    fitBits segment f p b =
      if b.toNat < 2 ^ f.width.toNat then .ok (BitString.ofNat b.toNat f.width.toNat)
      else .error (.valueTooWide segment f.name p (BitString.bitLength b.toNat) f.width.toNat) := by
  unfold fitBits
  by_cases hroom : b.toNat < 2 ^ f.width.toNat
  · rw [if_pos hroom, (BitString.fitTo?_eq_some_iff _ _ _).mpr ⟨hroom, rfl⟩]
  · have hnone : b.fitTo? f.width.toNat = none := by
      rw [Option.eq_none_iff_forall_ne_some]
      intro c hc
      exact hroom ((BitString.fitTo?_eq_some_iff _ _ _).mp hc).1
    rw [if_neg hroom, hnone, BitString.significantWidth_eq]

/-! ### The three kinds of fields -/

theorem fieldValue_of_number {n : UInt64} (hn : policy.number? f.binding = some n)
    (hp : f.binding.parameter? = some p) :
    fieldValue policy segment stream f =
      (fitNat segment f p n.toNat).map fun value => (value, stream) := by
  unfold fieldValue fixedValue
  cases hbind : f.binding <;> rw [hbind] at hn hp <;> cases hn <;> cases hp <;> rfl

theorem fieldValue_of_bits {b : BitString} (hb : policy.bits? f.binding = some b)
    (hp : f.binding.parameter? = some p) :
    fieldValue policy segment stream f =
      (fitBits segment f p b).map fun value => (value, stream) := by
  unfold fieldValue fixedValue
  cases hbind : f.binding <;> rw [hbind] at hb hp <;> cases hb <;> cases hp <;> rfl

theorem width_flag (f : PlacedField) (on : Bool) : (flag f on).width = f.width.toNat :=
  BitString.width_ofNat _ _

/-- A field with at least one bit has room for a one. -/
theorem toNat_flag (hpos : 0 < f.width.toNat) (on : Bool) : (flag f on).toNat = on.toNat := by
  apply BitString.toNat_ofNat_of_lt
  have htwo : 2 ^ 1 ≤ 2 ^ f.width.toNat := Nat.pow_le_pow_right (by decide) hpos
  have hbit : on.toNat ≤ 1 := Bool.toNat_le on
  omega

theorem exists_difficulty (hprob : policy.probability.InUnit) (hpos : 0 < f.width.toNat) :
    ∃ n, Threshold.difficulty? policy.probability (min f.width.toNat 64) = some n := by
  have hin := Binary64.isProbability_iff.mpr hprob
  have hnonzero : (min f.width.toNat 64 == 0) = false := by
    rw [beq_eq_false_iff_ne]
    omega
  have hsmall : ¬ 64 < min f.width.toNat 64 := by omega
  unfold Threshold.difficulty?
  rw [hin, hnonzero, decide_eq_false hsmall]
  show ∃ n, (if policy.probability.units = Binary64.one then _ else _) = some n
  split
  · exact ⟨_, rfl⟩
  · exact ⟨_, rfl⟩

theorem exists_next (hprob : policy.probability.InUnit) (stream : MaskStream) (width : Nat) :
    ∃ drawn, stream.next? policy.probability width = some drawn ∧ drawn.1.width = width := by
  obtain ⟨threshold, ht⟩ := Threshold.exists_ofProbability (Binary64.isProbability_iff.mpr hprob)
  exact ⟨_, MaskStream.next?_of_threshold ht width, stream.width_draw _ width⟩

/-- A field that takes neither a number nor a bit string is always filled. -/
theorem fieldValue_of_free (hprob : policy.probability.InUnit) (hpos : 0 < f.width.toNat)
    (hnumber : policy.number? f.binding = none) (hbits : policy.bits? f.binding = none) :
    ∃ drawn, fieldValue policy segment stream f = .ok drawn ∧ policy.Fills f drawn.1 := by
  unfold fieldValue fixedValue
  -- Five bindings take something; the width of the field has room for what the others give.
  cases hbind : f.binding with
  | seed | cycle | cycleInjectAt =>
    rw [hbind] at hnumber
    cases hnumber
  | mask | stuckAtValue =>
    rw [hbind] at hbits
    cases hbits
  | none =>
    refine ⟨(BitString.zeros f.width.toNat, stream), rfl, BitString.width_zeros _, ?_⟩
    rw [hbind]
    exact BitString.toNat_zeros _
  | enableOnProbability =>
    refine ⟨(flag f policy.probability.isPositive, stream), rfl, width_flag _ _, ?_⟩
    rw [hbind, toNat_flag hpos]
    unfold Policy.Means
    rw [← Binary64.isPositive_iff hprob.isFinite]
    cases policy.probability.isPositive <;> simp
  | enableOnCycle =>
    refine ⟨(flag f (policy.cycle ≠ 0), stream), rfl, width_flag _ _, ?_⟩
    rw [hbind, toNat_flag hpos]
    have hzero : policy.cycle = 0 ↔ policy.cycle.toNat = 0 := UInt64.toNat_inj.symm
    rcases Nat.eq_zero_or_pos policy.cycle.toNat with hoff | hon
    · exact .inr ⟨hoff, by simp [hzero, hoff]⟩
    · exact .inl ⟨hon, by simp [hzero, Nat.ne_of_gt hon]⟩
  | randomMask =>
    obtain ⟨drawn, hnext, hwidth⟩ := exists_next hprob stream f.width.toNat
    refine ⟨drawn, by rw [if_pos rfl, hnext], hwidth, ?_⟩
    rw [hbind]
    trivial
  | difficulty =>
    -- The threshold of a wide register is that of 64 bits, but the value has the field's width.
    obtain ⟨n, hn⟩ := exists_difficulty hprob hpos
    refine ⟨(BitString.ofNat n f.width.toNat, stream), ?_, BitString.width_ofNat _ _, ?_⟩
    · simp only [hn]
      rfl
    · rw [hbind]
      trivial

/-! ### What a field comes to -/

/-- A field with room is filled, and a field without is refused. -/
theorem fieldValue_cases (hprob : policy.probability.InUnit) (hpos : 0 < f.width.toNat)
    (segment : String) (stream : MaskStream) :
    (policy.Fits f ∧
        ∃ drawn, fieldValue policy segment stream f = .ok drawn ∧ policy.Fills f drawn.1) ∨
      ∃ e, fieldValue policy segment stream f = .error e ∧ policy.Refuses segment f e := by
  -- The bindings fall into those that take a number, those that take bits, and the others.
  cases hn : policy.number? f.binding with
  | some n =>
    obtain ⟨p, hp⟩ := exists_parameter_of_number hn
    rw [fieldValue_of_number hn hp, fitNat_eq]
    rcases Nat.lt_or_ge n.toNat (2 ^ f.width.toNat) with hroom | hlarge
    · rw [if_pos hroom]
      refine .inl ⟨fits_of_number hn hroom, _, rfl, BitString.width_ofNat _ _, ?_⟩
      show policy.Means f.binding (BitString.ofNat n.toNat f.width.toNat).toNat
      rw [BitString.toNat_ofNat_of_lt hroom]
      exact means_of_number hn
    · rw [if_neg (Nat.not_lt.mpr hlarge)]
      exact .inr ⟨_, rfl, .number hn hp hlarge⟩
  | none =>
    cases hb : policy.bits? f.binding with
    | some b =>
      obtain ⟨p, hp⟩ := exists_parameter_of_bits hb
      rw [fieldValue_of_bits hb hp, fitBits_eq]
      rcases Nat.lt_or_ge b.toNat (2 ^ f.width.toNat) with hroom | hlarge
      · rw [if_pos hroom]
        refine .inl ⟨fits_of_bits hb hroom, _, rfl, BitString.width_ofNat _ _, ?_⟩
        show policy.Means f.binding (BitString.ofNat b.toNat f.width.toNat).toNat
        rw [BitString.toNat_ofNat_of_lt hroom]
        exact means_of_bits hb
      · rw [if_neg (Nat.not_lt.mpr hlarge)]
        exact .inr ⟨_, rfl, .bits hb hp hlarge⟩
    | none => exact .inl ⟨fits_of_free hn hb, fieldValue_of_free hprob hpos hn hb⟩

theorem fieldValue_fills (hprob : policy.probability.InUnit) (hpos : 0 < f.width.toNat)
    (h : fieldValue policy segment stream f = .ok (v, rest)) :
    policy.Fills f v := by
  rcases fieldValue_cases hprob hpos segment stream with ⟨-, drawn, hdrawn, hfills⟩ | ⟨e, he, -⟩
  · rw [hdrawn] at h
    cases h
    exact hfills
  · rw [he] at h
    cases h

theorem exists_fieldValue_iff (hprob : policy.probability.InUnit) (hpos : 0 < f.width.toNat) :
    (∃ drawn, fieldValue policy segment stream f = .ok drawn) ↔ policy.Fits f := by
  refine ⟨?_, ?_⟩
  · rintro ⟨drawn, h⟩
    rcases fieldValue_cases hprob hpos segment stream with ⟨hfits, -⟩ | ⟨e, he, -⟩
    · exact hfits
    · rw [he] at h
      cases h
  · intro hfits
    rcases fieldValue_cases hprob hpos segment stream with ⟨-, drawn, hdrawn, -⟩ | ⟨e, -, hrefused⟩
    · exact ⟨drawn, hdrawn⟩
    · exact absurd hrefused hfits.not_refuses

theorem fieldValue_eq_error_iff (hprob : policy.probability.InUnit) (hpos : 0 < f.width.toNat) :
    fieldValue policy segment stream f = .error e ↔ policy.Refuses segment f e := by
  refine ⟨?_, ?_⟩
  · intro h
    rcases fieldValue_cases hprob hpos segment stream with ⟨-, drawn, hdrawn, -⟩ | ⟨d, hd, hrefused⟩
    · rw [hdrawn] at h
      cases h
    · rw [hd] at h
      cases h
      exact hrefused
  · intro hrefused
    rcases fieldValue_cases hprob hpos segment stream with ⟨hfits, -⟩ | ⟨d, hd, hother⟩
    · exact absurd hrefused hfits.not_refuses
    · rw [hd, hother.unique hrefused]

end Resolution

end ScanChain
