/-
# ScanChain.Proofs.Threshold — the threshold of a probability

A probability becomes a threshold for 32-bit draws: the whole part of its binary64 product with 2^32.
The factor is a power of two, so nothing is rounded on the way, however few bits the probability has
left (`unitsOf_scaled`), and the threshold is the whole part of the number itself, counted in units
of 2^-32 (`ofProbability?_eq`).

So the threshold grows with the number, no draw lies below that of zero, and only that of one has all
draws below it. The share of the draws below it is the probability, less than one draw short
(`lt_share_floor`, `share_floor_le`).
-/
import Mathlib.Algebra.Order.Floor.Semifield
import Mathlib.Data.Rat.Floor
import Mathlib.SetTheory.Cardinal.Finite
import ScanChain.Proofs.Rounding
import ScanChain.Threshold

namespace ScanChain.Threshold

open Binary64

variable {x : Binary64} {p : ℚ} {t : Nat}

/-! ## The product -/

/-- Scaling a probability by 2^32 keeps all its bits. -/
theorem unitsOf_scaled (h : x.InUnit) :
    unitsOf (mulCode x.code (codeOfNat (2 ^ 32))) = x.units * 2 ^ 32 := by
  have hfactor : unitsOf (codeOfNat (2 ^ 32)) = 2 ^ 32 * one := unitsOf_codeOfNat (by decide)
  exact unitsOf_mulCode_two_pow h.units_le hfactor (by decide)

/-- The product of a probability and 2^32 is a binary64 number. -/
theorem toRat?_scaled (hx : x.toRat? = some p) (hlow : 0 ≤ p) (hhigh : p ≤ 1) :
    (ofCode false (mulCode x.code (codeOfNat (2 ^ 32)))).toRat? = some (p * 2 ^ 32) := by
  have hunit : x.InUnit := ⟨p, hx, hlow, hhigh⟩
  have hone : 0 < one := Nat.cast_pos.mp one_pos
  have hrange := log2_mul_lt hunit.units_le (by decide : 2 ^ 32 < 2 ^ 53)
  have hfinite : mulCode x.code (codeOfNat (2 ^ 32)) < infinityCode :=
    (nearestCode_eq hone hrange).2
  rw [toRat?_ofCode hfinite, unitsOf_scaled hunit, eq_units hx hlow hhigh, Nat.cast_mul,
    Nat.cast_pow, Nat.cast_ofNat, div_mul_eq_mul_div]

/-! ## The threshold -/

/-- A number outside the unit interval has no threshold. -/
theorem ofProbability?_eq_none (h : ¬ x.InUnit) : ofProbability? x = none := by
  rw [ofProbability?, if_neg (mt isProbability_iff.mp h)]

/-- At one as below it the threshold is the whole part of the exact product. It takes far less than 64
bits. -/
theorem ofProbability?_eq_div (h : x.InUnit) :
    ofProbability? x = some (x.units * 2 ^ 32 / one) := by
  have hone : 0 < one := Nat.cast_pos.mp one_pos
  have hle : x.units * 2 ^ 32 / one ≤ 2 ^ 32 :=
    Nat.div_le_of_le_mul (Nat.mul_le_mul_right _ h.units_le)
  rw [ofProbability?, if_pos (isProbability_iff.mpr h), Option.some.injEq]
  split
  · rename_i hunits
    rw [hunits, Nat.mul_div_cancel_left _ hone]
  · show min (unitsOf (mulCode x.code (codeOfNat (2 ^ 32))) / one) (lowMask 64) = _
    rw [unitsOf_scaled h]
    exact Nat.min_eq_left (hle.trans (by decide))

/-- The threshold is the whole part of the probability in units of 2^-32. -/
theorem ofProbability?_eq (hx : x.toRat? = some p) (hlow : 0 ≤ p) (hhigh : p ≤ 1) :
    ofProbability? x = some ⌊p * 2 ^ 32⌋₊ := by
  have hscaled : p * 2 ^ 32 = ((x.units * 2 ^ 32 : ℕ) : ℚ) / (one : ℕ) := by
    rw [eq_units hx hlow hhigh, Nat.cast_mul, Nat.cast_pow, Nat.cast_ofNat, div_mul_eq_mul_div]
  rw [ofProbability?_eq_div ⟨p, hx, hlow, hhigh⟩, hscaled, Nat.floor_div_eq_div]

/-- Exactly the numbers of the unit interval have a threshold. -/
theorem ofProbability?_eq_none_iff : ofProbability? x = none ↔ ¬ x.InUnit := by
  refine ⟨?_, ofProbability?_eq_none⟩
  rintro hnone ⟨p, hx, hlow, hhigh⟩
  rw [ofProbability?_eq hx hlow hhigh] at hnone
  cases hnone

/-- Negative zero is zero, and what is no number has no threshold. -/
example : ofProbability? (ofCode true 0) = some 0 ∧ ofProbability? nan = none ∧
    ofProbability? (infinity false) = none := by decide +kernel

/-- The greater of two probabilities has the greater threshold. -/
theorem ofProbability?_mono {y : Binary64} {q : ℚ} {s t : Nat} (hx : x.toRat? = some p)
    (hy : y.toRat? = some q) (hlow : 0 ≤ p) (hle : p ≤ q) (hhigh : q ≤ 1)
    (hs : ofProbability? x = some s) (ht : ofProbability? y = some t) : s ≤ t := by
  rw [ofProbability?_eq hx hlow (hle.trans hhigh), Option.some.injEq] at hs
  rw [ofProbability?_eq hy (hlow.trans hle) hhigh, Option.some.injEq] at ht
  rw [← hs, ← ht]
  apply Nat.floor_mono
  exact mul_le_mul_of_nonneg_right hle (by positivity)

/-- No draw lies below the threshold of zero. -/
theorem ofProbability?_of_zero (hx : x.toRat? = some 0) : ofProbability? x = some 0 := by
  rw [ofProbability?_eq hx le_rfl zero_le_one, zero_mul, Nat.floor_zero]

/-- All draws lie below the threshold of one. -/
theorem ofProbability?_of_one (hx : x.toRat? = some 1) : ofProbability? x = some (2 ^ 32) := by
  have hscaled : (1 : ℚ) * 2 ^ 32 = ((2 ^ 32 : ℕ) : ℚ) := by norm_num
  rw [ofProbability?_eq hx zero_le_one le_rfl, hscaled, Nat.floor_natCast]

/-- Only one has the threshold that all draws lie below. -/
theorem floor_lt_iff (hlow : 0 ≤ p) : ⌊p * 2 ^ 32⌋₊ < 2 ^ 32 ↔ p < 1 := by
  rw [Nat.floor_lt (mul_nonneg hlow (by positivity)), Nat.cast_pow, Nat.cast_ofNat]
  exact mul_lt_iff_lt_one_left (by positivity)

theorem floor_le (hhigh : p ≤ 1) : ⌊p * 2 ^ 32⌋₊ ≤ 2 ^ 32 := by
  apply Nat.floor_le_of_le
  rw [Nat.cast_pow, Nat.cast_ofNat]
  exact mul_le_of_le_one_left (by positivity) hhigh

/-! ## The draws below it -/

/-- The 32-bit words below a threshold, as a share of all of them. -/
noncomputable def share (threshold : Nat) : ℚ :=
  Nat.card {word : UInt32 // word.toNat < threshold} / Nat.card UInt32

/-- Words are numbered from zero, so those below a threshold are numbered by what is below it. -/
def wordsBelow (h : t ≤ 2 ^ 32) : {word : UInt32 // word.toNat < t} ≃ Fin t where
  toFun word := ⟨word.1.toNat, word.2⟩
  invFun n := ⟨UInt32.ofNat n, by
    rw [UInt32.toNat_ofNat_of_lt' (n.2.trans_le h)]
    exact n.2⟩
  left_inv word := by
    apply Subtype.ext
    exact UInt32.ofNat_toNat
  right_inv n := by
    apply Fin.ext
    exact UInt32.toNat_ofNat_of_lt' (n.2.trans_le h)

/-- As many words lie below a threshold as it says. -/
theorem card_wordsBelow (h : t ≤ 2 ^ 32) : Nat.card {word : UInt32 // word.toNat < t} = t := by
  rw [Nat.card_congr (wordsBelow h), Nat.card_fin]

theorem card_words : Nat.card UInt32 = 2 ^ 32 := by
  calc Nat.card UInt32
      = Nat.card {word : UInt32 // word.toNat < 2 ^ 32} :=
        Nat.card_congr (Equiv.subtypeUnivEquiv fun word => word.toNat_lt).symm
    _ = 2 ^ 32 := card_wordsBelow le_rfl

theorem share_eq (h : t ≤ 2 ^ 32) : share t = t / 2 ^ 32 := by
  rw [share, card_wordsBelow h, card_words, Nat.cast_pow, Nat.cast_ofNat]

/-- The share of the draws is not above the probability. -/
theorem share_floor_le (hlow : 0 ≤ p) (hhigh : p ≤ 1) : share ⌊p * 2 ^ 32⌋₊ ≤ p := by
  rw [share_eq (floor_le hhigh), div_le_iff₀ (by positivity)]
  exact Nat.floor_le (mul_nonneg hlow (by positivity))

/-- One draw more would be. -/
theorem lt_share_floor (hhigh : p ≤ 1) : p - 1 / 2 ^ 32 < share ⌊p * 2 ^ 32⌋₊ := by
  rw [share_eq (floor_le hhigh), sub_lt_iff_lt_add, ← add_div, lt_div_iff₀ (by positivity)]
  exact Nat.lt_floor_add_one _

/-- A threshold is there exactly for a probability. It is taken of the product with 2^32, which is not
rounded, so it is the whole part of the number in units of 2^-32; only that of one reaches 2^32. The
share of the draws below it is the probability, less than one draw short, and a greater probability
has no smaller threshold. -/
theorem trigger_threshold_is_exact (x : Binary64) :
    (ofProbability? x = none ↔ ¬ x.InUnit) ∧
    ∀ p, x.toRat? = some p → 0 ≤ p → p ≤ 1 →
      (ofCode false (mulCode x.code (codeOfNat (2 ^ 32)))).toRat? = some (p * 2 ^ 32) ∧
      ∃ t, ofProbability? x = some t ∧ t = ⌊p * 2 ^ 32⌋₊ ∧
        (p < 1 → t < 2 ^ 32) ∧ (t = 2 ^ 32 ↔ p = 1) ∧
        p - 1 / 2 ^ 32 < share t ∧ share t ≤ p ∧
        ∀ (y : Binary64) q, y.toRat? = some q → p ≤ q → q ≤ 1 →
          ∃ s, ofProbability? y = some s ∧ t ≤ s := by
  refine ⟨ofProbability?_eq_none_iff, ?_⟩
  intro p hx hlow hhigh
  have ht : ofProbability? x = some ⌊p * 2 ^ 32⌋₊ := ofProbability?_eq hx hlow hhigh
  refine ⟨toRat?_scaled hx hlow hhigh, _, ht, rfl, (floor_lt_iff hlow).mpr, ?_,
    lt_share_floor hhigh, share_floor_le hlow hhigh, ?_⟩
  · rw [← (floor_le hhigh).not_lt_iff_eq, floor_lt_iff hlow, hhigh.not_lt_iff_eq]
  · intro y q hy hle hq
    have hs : ofProbability? y = some ⌊q * 2 ^ 32⌋₊ := ofProbability?_eq hy (hlow.trans hle) hq
    exact ⟨_, hs, ofProbability?_mono hx hy hlow hle hq ht hs⟩

/-- The least number above zero has no draw below its threshold, though it is scaled without rounding;
the greatest number below one has all draws but one. -/
theorem thresholds_next_to_the_ends :
    let least : Binary64 := ofCode false 1
    let greatest : Binary64 := ofCode false (1023 * 2 ^ 52 - 1)
    (ofCode false (mulCode least.code (codeOfNat (2 ^ 32)))).toRat? =
        some (2 ^ (-1074 : ℤ) * 2 ^ 32) ∧
      ofProbability? least = some 0 ∧
      ofProbability? greatest = some (2 ^ 32 - 1) ∧
      (1 - 1 / 2 ^ 53 - 1 / 2 ^ 32 : ℚ) < share (2 ^ 32 - 1) ∧ share (2 ^ 32 - 1) ≤ 1 - 1 / 2 ^ 53 ∧
      ∃ s, ofProbability? (ofCode false (1023 * 2 ^ 52)) = some s ∧ 2 ^ 32 - 1 ≤ s := by
  intro least greatest
  have hleast : least.toRat? = some (2 ^ (-1074 : ℤ)) := by
    simp [least, toRat?, exponentField, fractionField, sign, ofCode, isNegative]
  have hgreatest : greatest.toRat? = some (1 - 1 / 2 ^ 53) := by
    norm_num [greatest, toRat?, exponentField, fractionField, sign, ofCode, isNegative]
  have hunit : (ofCode false (1023 * 2 ^ 52)).toRat? = some 1 := by
    norm_num [toRat?, exponentField, fractionField, sign, ofCode, isNegative]
  have hsmall : (2 : ℚ) ^ (-1074 : ℤ) ≤ 1 := zpow_le_one_of_nonpos₀ one_le_two (by decide)
  obtain ⟨-, hends⟩ := trigger_threshold_is_exact least
  obtain ⟨hscaled, -⟩ := hends _ hleast (zpow_nonneg zero_le_two _) hsmall
  obtain ⟨-, hends⟩ := trigger_threshold_is_exact greatest
  obtain ⟨-, t, ht, -, -, -, hbelow, habove, hmono⟩ :=
    hends _ hgreatest (by norm_num) (by norm_num)
  have hvalue : ofProbability? greatest = some (2 ^ 32 - 1) := by decide +kernel
  obtain rfl : 2 ^ 32 - 1 = t := Option.some.inj (hvalue.symm.trans ht)
  exact ⟨hscaled, by decide +kernel, hvalue, hbelow, habove,
    hmono _ 1 hunit (by norm_num) le_rfl⟩

end ScanChain.Threshold
