/-
# ScanChain.Proofs.Rational — binary64 numbers as rationals

The words of binary64 numbers are read twice. `units` counts a magnitude in units of 2^-1074 along
the codes; `toRat?` takes the sign, exponent and fraction fields of the word as the interchange
format does. `toRat?_of_isFinite` joins the two, so that the tests on words are comparisons of
rationals.
-/
import Mathlib.Algebra.Order.Field.Rat
import Mathlib.Tactic.Linarith
import Mathlib.Tactic.Positivity
import ScanChain.Binary64.Basic

namespace ScanChain.Binary64

variable {x : Binary64}

/-! ## The fields of the word -/

/-- The eleven exponent bits. -/
def exponentField (x : Binary64) : Nat := x.bits.toNat / 2 ^ 52 % 2 ^ 11

/-- The fifty-two fraction bits. -/
def fractionField (x : Binary64) : Nat := x.bits.toNat % 2 ^ 52

/-- One, or minus one if the sign bit is set. -/
def sign (x : Binary64) : ℚ := if x.isNegative then -1 else 1

/-- The number that a word stands for. With all exponent bits set it is none; with none of them set
the fraction has no leading one. -/
def toRat? (x : Binary64) : Option ℚ :=
  if x.exponentField = 2047 then none
  else if x.exponentField = 0 then some (x.sign * (x.fractionField * 2 ^ (-1074 : ℤ)))
  else some (x.sign * ((2 ^ 52 + x.fractionField) * 2 ^ ((x.exponentField : ℤ) - 1075)))

theorem code_eq (x : Binary64) : x.code = x.exponentField * 2 ^ 52 + x.fractionField := by
  unfold code exponentField fractionField
  omega

theorem isFinite_iff : x.isFinite = true ↔ x.exponentField ≠ 2047 := by
  have hexp : x.exponentField < 2 ^ 11 := Nat.mod_lt _ (by decide)
  have hfrac : x.fractionField < 2 ^ 52 := Nat.mod_lt _ (by decide)
  rw [isFinite, decide_eq_true_iff, code_eq, infinityCode]
  omega

/-- The magnitude in units is that of the fields. -/
theorem units_eq (x : Binary64) :
    x.units = if x.exponentField = 0 then x.fractionField
      else (2 ^ 52 + x.fractionField) * 2 ^ (x.exponentField - 1) := by
  have hfrac : x.fractionField < 2 ^ 52 := Nat.mod_lt _ (by decide)
  have hlow : x.code % 2 ^ 52 = x.fractionField := by
    rw [code_eq]
    omega
  have hhigh : x.code / 2 ^ 52 = x.exponentField := by
    rw [code_eq]
    omega
  rw [units, unitsOf, hlow, hhigh]
  by_cases hzero : x.exponentField = 0
  · rw [if_pos hzero, if_pos (by rw [code_eq]; omega), code_eq, hzero]
    omega
  · rw [if_neg hzero, if_neg (by rw [code_eq]; omega)]

/-! ## Numbers -/

theorem toRat?_eq_none_iff : x.toRat? = none ↔ ¬ x.isFinite = true := by
  rw [isFinite_iff, not_not, toRat?]
  split
  · simp [*]
  · split <;> simp [*]

theorem cast_one : ((one : ℕ) : ℚ) = 2 ^ 1074 := by
  unfold one
  simp only [Nat.cast_pow, Nat.cast_ofNat]

theorem one_pos : (0 : ℚ) < (one : ℕ) := by
  rw [cast_one]
  exact pow_pos two_pos 1074

/-- A finite number is its units, with its sign. -/
theorem toRat?_of_isFinite (h : x.isFinite = true) :
    x.toRat? = some (x.sign * (x.units / (one : ℕ))) := by
  rw [toRat?, if_neg (isFinite_iff.mp h), units_eq, cast_one]
  split
  · have hinv : (2 : ℚ) ^ (-1074 : ℤ) = (2 ^ 1074)⁻¹ := zpow_neg 2 1074
    rw [hinv, div_eq_mul_inv]
  · rename_i hexp
    -- With a leading one the units are doubled once less than the exponent field says.
    have hsplit : (x.exponentField : ℤ) - 1075 = ((x.exponentField - 1 : ℕ) : ℤ) - (1074 : ℕ) := by
      omega
    rw [hsplit, zpow_sub₀ two_ne_zero, zpow_natCast, zpow_natCast, Nat.cast_mul, Nat.cast_add,
      Nat.cast_pow, Nat.cast_pow, Nat.cast_ofNat, mul_div_assoc]

/-- The number lies in the unit interval. -/
def InUnit (x : Binary64) : Prop := ∃ q, x.toRat? = some q ∧ 0 ≤ q ∧ q ≤ 1

/-- The number is above zero. -/
def Positive (x : Binary64) : Prop := ∃ q, x.toRat? = some q ∧ 0 < q

theorem units_div_nonneg (x : Binary64) : (0 : ℚ) ≤ x.units / (one : ℕ) :=
  div_nonneg (Nat.cast_nonneg _) one_pos.le

theorem units_div_le_one_iff : (x.units : ℚ) / (one : ℕ) ≤ 1 ↔ x.units ≤ one := by
  rw [div_le_one one_pos, Nat.cast_le]

theorem units_div_pos_iff : 0 < (x.units : ℚ) / (one : ℕ) ↔ 0 < x.units := by
  rw [div_pos_iff_of_pos_right one_pos, Nat.cast_pos]

theorem sign_of_nonneg (h : x.isNegative = false) : x.sign = 1 := by
  unfold sign
  rw [h]
  rfl

theorem sign_of_negative (h : x.isNegative = true) : x.sign = -1 := by
  unfold sign
  rw [h]
  rfl

/-- The test for probabilities compares the number with zero and one. Negative zero is zero. -/
theorem isProbability_iff : x.isProbability = true ↔ x.InUnit := by
  have hnonneg := x.units_div_nonneg
  unfold InUnit isProbability
  by_cases hfin : x.isFinite = true
  · rw [toRat?_of_isFinite hfin, hfin]
    simp only [Bool.true_and, Bool.and_eq_true, decide_eq_true_iff, Option.some.injEq,
      exists_eq_left', ← units_div_le_one_iff, Bool.or_eq_true, beq_iff_eq]
    cases hneg : x.isNegative with
    | false =>
      rw [sign_of_nonneg hneg, one_mul]
      exact ⟨fun h => ⟨hnonneg, h.1⟩, fun h => ⟨h.2, .inl rfl⟩⟩
    | true =>
      -- A number with its sign bit set is in range only if its magnitude is zero.
      have hzero : x.units = 0 ↔ (x.units : ℚ) / (one : ℕ) ≤ 0 := by
        rw [← not_iff_not, not_le, units_div_pos_iff, Nat.pos_iff_ne_zero]
      rw [sign_of_negative hneg, neg_one_mul, hzero]
      refine ⟨?_, ?_⟩
      · rintro ⟨-, hfalse | hle⟩
        · cases hfalse
        · constructor <;> linarith
      · rintro ⟨hle, -⟩
        exact ⟨by linarith, .inr (by linarith)⟩
  · rw [toRat?_eq_none_iff.mpr hfin]
    simp [hfin]

theorem InUnit.isFinite (h : x.InUnit) : x.isFinite = true := by
  obtain ⟨q, hq, -⟩ := h
  apply not_not.mp
  intro hnot
  rw [toRat?_eq_none_iff.mpr hnot] at hq
  cases hq

/-- Below the first code that has a leading one, and above it, only zero has no units. -/
theorem units_pos_iff : 0 < x.units ↔ 0 < x.code := by
  rw [units, unitsOf]
  split
  · rfl
  · have hpos : 0 < (2 ^ 52 + x.code % 2 ^ 52) * 2 ^ (x.code / 2 ^ 52 - 1) := by positivity
    omega

/-- The test for positive numbers compares a finite number with zero. -/
theorem isPositive_iff (h : x.isFinite = true) : x.isPositive = true ↔ x.Positive := by
  have hnan : x.isNaN = false := by
    rw [Binary64.isFinite, decide_eq_true_iff] at h
    rw [isNaN, decide_eq_false_iff_not]
    omega
  have hnonneg := x.units_div_nonneg
  unfold Positive isPositive
  rw [toRat?_of_isFinite h, hnan]
  simp only [Bool.not_false, Bool.true_and, Bool.and_eq_true, decide_eq_true_iff,
    Option.some.injEq, exists_eq_left', Bool.not_eq_true']
  rw [← units_pos_iff, ← units_div_pos_iff]
  cases hneg : x.isNegative with
  | false =>
    rw [sign_of_nonneg hneg, one_mul]
    exact and_iff_right rfl
  | true =>
    rw [sign_of_negative hneg, neg_one_mul]
    refine ⟨?_, ?_⟩
    · rintro ⟨hfalse, -⟩
      cases hfalse
    · intro hpos
      linarith

/-- In the unit interval a number is its units. -/
theorem InUnit.toRat?_eq (h : x.InUnit) : x.toRat? = some (x.units / (one : ℕ) : ℚ) := by
  obtain ⟨q, hq, hlow, -⟩ := id h
  have hnonneg := x.units_div_nonneg
  rw [toRat?_of_isFinite h.isFinite] at hq ⊢
  obtain rfl := Option.some.inj hq
  cases hneg : x.isNegative with
  | false => rw [sign_of_nonneg hneg, one_mul]
  | true =>
    -- Below zero there is nothing in the interval, so the number is negative zero.
    rw [sign_of_negative hneg, neg_one_mul] at hlow ⊢
    congr 1
    linarith

theorem eq_units {p : ℚ} (hx : x.toRat? = some p) (hlow : 0 ≤ p) (hhigh : p ≤ 1) :
    p = (x.units : ℚ) / (one : ℕ) := by
  have hunit : x.InUnit := ⟨p, hx, hlow, hhigh⟩
  exact Option.some.inj (hx.symm.trans hunit.toRat?_eq)

theorem InUnit.units_le (h : x.InUnit) : x.units ≤ one := by
  obtain ⟨p, hx, hlow, hhigh⟩ := h
  rwa [eq_units hx hlow hhigh, units_div_le_one_iff] at hhigh

/-- Equal numbers in the unit interval have equal units, also if one of them is negative zero. -/
theorem units_eq_of_toRat?_eq {y : Binary64} (hx : x.InUnit) (hy : y.InUnit)
    (h : x.toRat? = y.toRat?) : x.units = y.units := by
  rw [hx.toRat?_eq, hy.toRat?_eq, Option.some.injEq, div_left_inj' one_pos.ne'] at h
  exact Nat.cast_injective h

end ScanChain.Binary64
