/-
# ScanChain.Proofs.Difficulty — the threshold of a difficulty register

A difficulty register of `w` bits holds a probability in units of its largest value, `2^w - 1`. Two
roundings come before the whole part is taken. Up to 53 bits the largest value is a binary64 number,
and only the product is rounded; past them it is rounded to `2^w`, and the product, which then only
moves the binary point, is exact. Rounding never crosses a whole number, so the threshold is the
whole part of the exact product or one more, and never past the product rounded up
(`difficulty_is_threshold_up_to_rounding`).
-/
import ScanChain.Proofs.Influence
import ScanChain.Proofs.Rounding
import ScanChain.Proofs.WidthAndNumber

namespace ScanChain.Threshold

open Binary64

variable {x : Binary64} {p : ℚ} {w n : Nat}

/-! ## The product -/

/-- The product whose whole part becomes the threshold. -/
def product (x : Binary64) (w : Nat) : Nat := unitsOf (mulCode x.code (codeOfNat (2 ^ w - 1)))

theorem difficulty?_eq_none_iff : difficulty? x w = none ↔ ¬ x.InUnit ∨ w = 0 ∨ 64 < w := by
  rw [← isProbability_iff]
  unfold difficulty?
  dsimp only
  split
  · rename_i hnone
    simpa only [Bool.or_eq_true, Bool.not_eq_true', beq_iff_eq, decide_eq_true_iff, or_assoc,
      Bool.not_eq_true, true_iff] using hnone
  · rename_i hsome
    split <;>
      simpa only [Bool.or_eq_true, Bool.not_eq_true', beq_iff_eq, decide_eq_true_iff, or_assoc,
        Bool.not_eq_true, reduceCtorEq, false_iff] using hsome

theorem difficulty?_eq (hunit : x.InUnit) (hpos : 0 < w) (hw : w ≤ 64) :
    difficulty? x w =
      some (if x.units = one then 2 ^ w - 1 else min (product x w / one) (2 ^ w - 1)) := by
  have hzero : (w == 0) = false := beq_eq_false_iff_ne.mpr hpos.ne'
  have hmask : lowMask w = 2 ^ w - 1 := by rw [lowMask, Nat.min_eq_left hw]
  unfold difficulty?
  rw [isProbability_iff.mpr hunit, hzero, decide_eq_false (Nat.not_lt.mpr hw), hmask]
  show (if x.units = one then some (2 ^ w - 1) else _) = _
  split <;> rfl

theorem cast_mask (w : Nat) : ((2 ^ w - 1 : ℕ) : ℚ) = 2 ^ w - 1 := by
  rw [Nat.cast_sub Nat.one_le_two_pow, Nat.cast_pow, Nat.cast_ofNat, Nat.cast_one]

theorem exact_nonneg (hlow : 0 ≤ p) (w : Nat) : 0 ≤ p * (2 ^ w - 1) := by
  rw [← cast_mask]
  exact mul_nonneg hlow (Nat.cast_nonneg _)

theorem exact_le (hhigh : p ≤ 1) (w : Nat) : p * (2 ^ w - 1) ≤ (2 ^ w - 1 : ℕ) := by
  rw [← cast_mask]
  exact mul_le_of_le_one_left (Nat.cast_nonneg _) hhigh

theorem mask_lt (hw : w ≤ 53) : 2 ^ w - 1 < 2 ^ 53 := by
  have hpow : 2 ^ w ≤ 2 ^ 53 := Nat.pow_le_pow_right (by decide) hw
  have hpos : 0 < 2 ^ w := Nat.two_pow_pos w
  omega

/-- Up to 53 bits the product is the exact one, rounded. -/
theorem roundsTo_product (hx : x.toRat? = some p) (hlow : 0 ≤ p) (hhigh : p ≤ 1) (hw : w ≤ 53) :
    RoundsTo (p * (2 ^ w - 1)) ((product x w : ℚ) / (one : ℕ)) := by
  have hunit : x.InUnit := ⟨p, hx, hlow, hhigh⟩
  have hone : 0 < one := Nat.cast_pos.mp one_pos
  have hexact : ((unitsOf x.code * unitsOf (codeOfNat (2 ^ w - 1)) : ℕ) : ℚ) / (one : ℕ) /
      (one : ℕ) = p * (2 ^ w - 1) := by
    have hne := one_pos.ne'
    rw [unitsOf_codeOfNat (mask_lt hw), eq_units hx hlow hhigh, units, ← cast_mask, Nat.cast_mul,
      Nat.cast_mul]
    field_simp
  rw [← hexact]
  exact roundsTo_nearestCode hone (log2_mul_lt hunit.units_le (mask_lt hw))

/-- Past 53 bits it is the exact product with the next power of two. -/
theorem product_eq (hunit : x.InUnit) (hw : 53 < w) (hw' : w ≤ 64) :
    product x w = x.units * 2 ^ w := by
  have hfactor : unitsOf (codeOfNat (2 ^ w - 1)) = 2 ^ w * one := unitsOf_codeOfNat_mask hw hw'
  exact unitsOf_mulCode_two_pow hunit.units_le hfactor (by omega)

/-! ## The threshold -/

section Exact

variable (hx : x.toRat? = some p) (hlow : 0 ≤ p) (hhigh : p ≤ 1)
include hx hlow hhigh

/-- Up to 53 bits the threshold is the whole part of the rounded product. -/
theorem difficulty?_of_narrow (hpos : 0 < w) (hw : w ≤ 53) :
    ∃ r, RoundsTo (p * (2 ^ w - 1)) r ∧ difficulty? x w = some ⌊r⌋₊ := by
  have hp : p = (x.units : ℚ) / (one : ℕ) := eq_units hx hlow hhigh
  obtain ⟨top, htop⟩ := exists_toRat?_natCast (mask_lt hw)
  rw [difficulty?_eq ⟨p, hx, hlow, hhigh⟩ hpos (by omega)]
  split
  · rename_i hunits
    rw [hunits, div_self one_pos.ne'] at hp
    refine ⟨(2 ^ w - 1 : ℕ), ?_, by rw [Nat.floor_natCast]⟩
    rw [hp, one_mul, ← cast_mask]
    exact RoundsTo.self htop
  · have hround := roundsTo_product hx hlow hhigh hw
    refine ⟨_, hround, ?_⟩
    -- The largest value is a number, so rounding does not go past it.
    have hle : (product x w : ℚ) / (one : ℕ) ≤ (2 ^ w - 1 : ℕ) :=
      hround.ge_of_ge htop (exact_le hhigh w)
    have hfloor := Nat.floor_le_of_le hle
    rw [Nat.floor_div_eq_div] at hfloor ⊢
    rw [Nat.min_eq_left hfloor]

/-- Past 53 bits it is the whole part of the probability in units of 2^-w, as far as it fits. -/
theorem difficulty?_of_wide (hw : 53 < w) (hw' : w ≤ 64) :
    difficulty? x w = some (min ⌊p * 2 ^ w⌋₊ (2 ^ w - 1)) := by
  have hunit : x.InUnit := ⟨p, hx, hlow, hhigh⟩
  have hp : p = (x.units : ℚ) / (one : ℕ) := eq_units hx hlow hhigh
  rw [difficulty?_eq hunit (by omega) hw']
  split
  · rename_i hunits
    have hscaled : p * 2 ^ w = ((2 ^ w : ℕ) : ℚ) := by
      rw [hp, hunits, div_self one_pos.ne', one_mul, Nat.cast_pow, Nat.cast_ofNat]
    rw [hscaled, Nat.floor_natCast, Nat.min_eq_right (Nat.sub_le ..)]
  · have hscaled : p * 2 ^ w = ((product x w : ℕ) : ℚ) / (one : ℕ) := by
      rw [product_eq hunit hw hw', hp, Nat.cast_mul, Nat.cast_pow, Nat.cast_ofNat,
        div_mul_eq_mul_div]
    rw [hscaled, Nat.floor_div_eq_div]

/-- Past 53 bits it is the whole part of the exact product unless subtracting the probability once
more takes the whole part away. -/
theorem difficulty?_of_wide_eq_iff (hw : 53 < w) (hw' : w ≤ 64) :
    difficulty? x w = some ⌊p * (2 ^ w - 1)⌋₊ ↔ p = 1 ∨ p ≤ Int.fract (p * 2 ^ w) := by
  have hproduct : p * (2 ^ w - 1) = p * 2 ^ w - p := by ring
  have hscaled : 0 ≤ p * 2 ^ w := mul_nonneg hlow (by positivity)
  rw [difficulty?_of_wide hx hlow hhigh hw hw', Option.some.injEq]
  rcases hhigh.lt_or_eq with hless | rfl
  · have hbelow : ⌊p * 2 ^ w⌋₊ ≤ 2 ^ w - 1 := by
      rw [← Nat.lt_iff_le_pred (Nat.two_pow_pos w), Nat.floor_lt hscaled, Nat.cast_pow,
        Nat.cast_ofNat]
      exact mul_lt_of_lt_one_left (by positivity) hless
    have hle : ⌊p * (2 ^ w - 1)⌋₊ ≤ ⌊p * 2 ^ w⌋₊ := Nat.floor_mono (by linarith)
    rw [Nat.min_eq_left hbelow, or_iff_right hless.ne]
    calc ⌊p * 2 ^ w⌋₊ = ⌊p * (2 ^ w - 1)⌋₊
        ↔ ⌊p * 2 ^ w⌋₊ ≤ ⌊p * (2 ^ w - 1)⌋₊ := ⟨fun h => h.le, fun h => le_antisymm h hle⟩
      _ ↔ (⌊p * 2 ^ w⌋ : ℚ) ≤ p * 2 ^ w - p := by
        rw [Nat.le_floor_iff (exact_nonneg hlow w), natCast_floor_eq_intCast_floor hscaled,
          hproduct]
      _ ↔ p ≤ Int.fract (p * 2 ^ w) := by
        rw [Int.fract, le_sub_comm]
  · refine iff_of_true ?_ (.inl rfl)
    have hpow : ((2 : ℚ) ^ w) = ((2 ^ w : ℕ) : ℚ) := by rw [Nat.cast_pow, Nat.cast_ofNat]
    rw [one_mul, one_mul, ← cast_mask, Nat.floor_natCast, hpow, Nat.floor_natCast,
      Nat.min_eq_right (Nat.sub_le ..)]

/-- The threshold is not below the whole part of the exact product, and not past the product rounded
up. -/
theorem difficulty?_bounds (hpos : 0 < w) (hw : w ≤ 64) :
    ∃ n, difficulty? x w = some n ∧ ⌊p * (2 ^ w - 1)⌋₊ ≤ n ∧ n ≤ ⌈p * (2 ^ w - 1)⌉₊ := by
  have hceil : ⌈p * (2 ^ w - 1)⌉₊ ≤ 2 ^ w - 1 := Nat.ceil_le.mpr (exact_le hhigh w)
  rcases Nat.lt_or_ge 53 w with hwide | hnarrow
  · refine ⟨_, difficulty?_of_wide hx hlow hhigh hwide hw, ?_, ?_⟩
    · refine le_min (Nat.floor_mono ?_) ((Nat.floor_le_ceil _).trans hceil)
      exact mul_le_mul_of_nonneg_left (by linarith) hlow
    · have habove := Nat.le_ceil (p * (2 ^ w - 1))
      rcases hhigh.lt_or_eq with hless | rfl
      · -- In units of 2^-w the probability is its product and itself, which is less than one more.
        apply (Nat.min_le_left _ _).trans
        rw [← Nat.lt_succ_iff, Nat.floor_lt (mul_nonneg hlow (by positivity)), Nat.cast_succ]
        linarith
      · apply (Nat.min_le_right _ _).trans
        rw [one_mul, ← cast_mask] at habove ⊢
        exact Nat.cast_le.mp habove
  · obtain ⟨r, hround, hr⟩ := difficulty?_of_narrow hx hlow hhigh hpos hnarrow
    obtain ⟨hbelow, habove⟩ :=
      hround.floor_le (exact_nonneg hlow w) (hceil.trans_lt (mask_lt hnarrow))
    exact ⟨_, hr, hbelow, Nat.floor_le_of_le habove⟩

end Exact

/-! ## Difficulty registers of a chain -/

/-- A threshold fits its register. -/
theorem difficulty?_lt (h : difficulty? x w = some n) : n < 2 ^ w := by
  have hsome : ¬ (¬ x.InUnit ∨ w = 0 ∨ 64 < w) := by
    rw [← difficulty?_eq_none_iff, h]
    exact Option.some_ne_none n
  simp only [not_or, not_not, Nat.not_lt] at hsome
  obtain ⟨hunit, hzero, hw⟩ := hsome
  have hpos : 0 < 2 ^ w := Nat.two_pow_pos w
  rw [difficulty?_eq hunit (Nat.pos_of_ne_zero hzero) hw, Option.some.injEq] at h
  rw [← h]
  split
  · omega
  · exact Nat.lt_of_le_of_lt (Nat.min_le_right _ _) (by omega)

/-- A difficulty register holds the threshold of the policy, at its own width or at 64. -/
theorem is_difficulty_of_resolve {layout : ChainLayout} {policy : Policy}
    {resolved : List ResolvedSegment} (h : layout.resolve policy = .ok resolved) {i j : Nat}
    {s : PlacedSegment} {f : PlacedField} (hs : layout.segments[i]? = some s)
    (hf : s.fields[j]? = some f)
    (hbinding : f.binding = .difficulty) :
    ∃ r v n, resolved[i]? = some r ∧ r.fields[j]? = some v ∧
      difficulty? policy.probability (min f.width.toNat 64) = some n ∧
      v.value.Is f.width.toNat n := by
  obtain ⟨r, v, hr, hv, stream, hfilled⟩ := ChainLayout.resolve_filledAt h hs hf
  have hother : f.binding ≠ .randomMask := by
    rw [hbinding]
    exact Binding.noConfusion
  rw [Resolution.fieldValue_of_other hother] at hfilled
  obtain ⟨value, hvalue, hpair⟩ := map_eq_ok_iff.mp hfilled
  obtain rfl : value = v.value := congrArg Prod.fst hpair
  unfold Resolution.fixedValue at hvalue
  rw [hbinding] at hvalue
  dsimp only at hvalue
  split at hvalue
  · rename_i n hn
    rw [Except.ok.injEq] at hvalue
    refine ⟨r, v, n, hr, hv, hn, ?_⟩
    rw [← hvalue]
    apply BitString.is_ofNat
    exact (difficulty?_lt hn).trans_le (Nat.pow_le_pow_right Nat.two_pos (Nat.min_le_left _ _))
  · cases hvalue

/-- A threshold is there exactly for a probability and a width of 1 to 64 bits. It is the whole part
of the product with the largest value, up to roundings that never cross a whole number: it is one
more where the product is rounded to the next whole number, and past 53 bits where the product with
`2^w` has less behind its point than the probability. A resolved chain holds it in each of its
difficulty registers. -/
theorem difficulty_is_threshold_up_to_rounding (x : Binary64) (w : Nat) :
    (difficulty? x w = none ↔ ¬ x.InUnit ∨ w = 0 ∨ 64 < w) ∧
    (∀ p, x.toRat? = some p → 0 ≤ p → p ≤ 1 → 0 < w → w ≤ 64 →
      ∃ n, difficulty? x w = some n ∧
        ⌊p * (2 ^ w - 1)⌋₊ ≤ n ∧ n ≤ ⌈p * (2 ^ w - 1)⌉₊ ∧
        (w ≤ 53 → ∃ r, RoundsTo (p * (2 ^ w - 1)) r ∧ n = ⌊r⌋₊ ∧
          (n = ⌊p * (2 ^ w - 1)⌋₊ ↔ r < ⌊p * (2 ^ w - 1)⌋₊ + 1)) ∧
        (53 < w → n = min ⌊p * 2 ^ w⌋₊ (2 ^ w - 1) ∧
          (n = ⌊p * (2 ^ w - 1)⌋₊ ↔ p = 1 ∨ p ≤ Int.fract (p * 2 ^ w)))) ∧
    ∀ (layout : ChainLayout) policy resolved, policy.probability = x →
      layout.resolve policy = .ok resolved →
      ∀ (i j : Nat) (s : PlacedSegment) (f : PlacedField), layout.segments[i]? = some s →
        s.fields[j]? = some f → f.binding = .difficulty → min f.width.toNat 64 = w →
        ∃ r v n, resolved[i]? = some r ∧ r.fields[j]? = some v ∧ difficulty? x w = some n ∧
          v.value.Is f.width.toNat n := by
  refine ⟨difficulty?_eq_none_iff, ?_, ?_⟩
  · intro p hx hlow hhigh hpos hw
    obtain ⟨n, hn, hbelow, habove⟩ := difficulty?_bounds hx hlow hhigh hpos hw
    refine ⟨n, hn, hbelow, habove, ?_, ?_⟩
    · intro hnarrow
      obtain ⟨r, hround, hr⟩ := difficulty?_of_narrow hx hlow hhigh hpos hnarrow
      obtain rfl : n = ⌊r⌋₊ := Option.some.inj (hn.symm.trans hr)
      refine ⟨r, hround, rfl, ?_⟩
      rw [eq_comm, ← hbelow.ge_iff_eq, ← Nat.lt_succ_iff, Nat.floor_lt' (Nat.succ_ne_zero _),
        Nat.cast_succ]
    · intro hwide
      refine ⟨Option.some.inj (hn.symm.trans (difficulty?_of_wide hx hlow hhigh hwide hw)), ?_⟩
      rw [← difficulty?_of_wide_eq_iff hx hlow hhigh hwide hw, hn, Option.some.injEq]
  · rintro layout policy resolved rfl h i j s f hs hf hbinding rfl
    exact is_difficulty_of_resolve h hs hf hbinding

/-- The double next to a third is below it, and three times it is rounded to one, so a register of
two bits holds one. -/
theorem third_at_two_bits :
    let third : Binary64 := .ofCode false 0x3fd5555555555555
    let layout : ChainLayout :=
      { kind := .length
        chain :=
          { name := "main"
            segments := [⟨"noise", 0, 10, .lfsr 4 0 8 0 2⟩]
            nonempty := by decide, positions := by decide, names_nodup := by decide
            fits := by decide } }
    let policy : Policy := { Policy.inert with probability := third }
    ⌊(6004799503160661 / 2 ^ 54 * (2 ^ 2 - 1) : ℚ)⌋₊ = 0 ∧ difficulty? third 2 = some 1 ∧
      (∃ r : ℚ, RoundsTo (6004799503160661 / 2 ^ 54 * (2 ^ 2 - 1)) r ∧ ⌊r⌋₊ = 1) ∧
      ∃ resolved r v, layout.resolve policy = .ok resolved ∧ resolved[0]? = some r ∧
        r.fields[1]? = some v ∧ v.value.Is 2 1 := by
  intro third layout policy
  have hthird : third.toRat? = some (6004799503160661 / 2 ^ 54) := by
    norm_num [third, toRat?, exponentField, fractionField, sign, ofCode, isNegative]
  have hvalue : difficulty? third 2 = some 1 := by decide +kernel
  obtain ⟨-, hthreshold, hresolved⟩ := difficulty_is_threshold_up_to_rounding third 2
  refine ⟨by norm_num [Nat.floor_eq_zero], hvalue, ?_, ?_⟩
  · obtain ⟨n, hn, -, -, hround, -⟩ := hthreshold _ hthird (by norm_num) (by norm_num) (by decide)
      (by decide)
    obtain ⟨r, hr, hfloor, -⟩ := hround (by decide)
    rw [hvalue, Option.some.injEq] at hn
    exact ⟨r, hr, hfloor.symm.trans hn.symm⟩
  · have h : layout.resolve policy = .ok
        [⟨"noise", 0, [⟨"seed", .ofNat 0 8⟩, ⟨"difficulty", .ofNat 1 2⟩]⟩] := by decide +kernel
    obtain ⟨r, v, n, hr, hv, hn, his⟩ := hresolved layout policy _ rfl h 0 1 _ _ rfl rfl rfl rfl
    refine ⟨_, r, v, h, hr, hv, ?_⟩
    obtain rfl : 1 = n := Option.some.inj (hvalue.symm.trans hn)
    exact his

/-- At one half a register of 64 bits holds `2^63`, which is above the whole part of half its
largest value. -/
theorem half_at_sixty_four_bits :
    let half : Binary64 := .ofCode false (1022 * 2 ^ 52)
    half.toRat? = some (1 / 2) ∧ difficulty? half 64 = some 9223372036854775808 ∧
      ⌊(1 / 2 * (2 ^ 64 - 1) : ℚ)⌋₊ = 9223372036854775807 := by
  intro half
  refine ⟨?_, by decide +kernel, ?_⟩
  · norm_num [half, toRat?, exponentField, fractionField, sign, ofCode, isNegative]
  · rw [Nat.floor_eq_iff (by norm_num)]
    norm_num

end ScanChain.Threshold
