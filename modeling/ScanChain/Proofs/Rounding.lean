/-
# ScanChain.Proofs.Rounding — the binary64 number nearest to a rational

`RoundsTo` says what rounding is without computing it: no binary64 number is nearer, and of two that
are equally near it is the one with the even code. `nearestCode` keeps fifty-three bits of a
quotient and rounds there. Every magnitude is a multiple of the last bit that is kept, or lies below
all magnitudes around the quotient, so rounding there is rounding among all numbers
(`roundsTo_nearestCode`). A quotient of at most fifty-three bits is kept whole
(`unitsOf_nearestCode_of_eq`), as is the product of a power of two and a magnitude up to one
(`unitsOf_mulCode_two_pow`). Since rounding never crosses a number, it never crosses a whole number
below 2^53 (`RoundsTo.le_of_le`, `RoundsTo.ge_of_ge`).
-/
import Mathlib.Algebra.Order.Floor.Semifield
import Mathlib.Data.Rat.Floor
import Mathlib.Tactic.FieldSimp
import Mathlib.Tactic.Ring
import ScanChain.Binary64.Rounding
import ScanChain.Proofs.Rational

namespace ScanChain.Binary64

/-! ## The nearest whole number -/

section Whole

variable {num den k : Nat}

theorem roundHalfEven_cases (num den : Nat) :
    roundHalfEven num den = num / den ∧
        (2 * (num % den) < den ∨ 2 * (num % den) = den ∧ num / den % 2 = 0) ∨
      roundHalfEven num den = num / den + 1 ∧
        (den < 2 * (num % den) ∨ 2 * (num % den) = den ∧ num / den % 2 = 1) := by
  unfold roundHalfEven
  dsimp only
  split
  · rename_i hdown
    exact .inl ⟨rfl, hdown⟩
  · rename_i hup
    exact .inr ⟨rfl, by omega⟩

/-- A whole number below the quotient is below its rounding. -/
theorem le_roundHalfEven (hden : 0 < den) (h : k * den ≤ num) : k ≤ roundHalfEven num den := by
  have hquotient : k ≤ num / den := (Nat.le_div_iff_mul_le hden).mpr h
  rcases roundHalfEven_cases num den with ⟨heq, -⟩ | ⟨heq, -⟩ <;> omega

/-- A whole number above the quotient is above its rounding. -/
theorem roundHalfEven_le (hden : 0 < den) (h : num ≤ k * den) : roundHalfEven num den ≤ k := by
  have hquotient : num / den ≤ k := Nat.div_le_of_le_mul (by rwa [Nat.mul_comm])
  have hdiv : num / den * den + num % den = num := Nat.div_add_mod' num den
  rcases roundHalfEven_cases num den with ⟨heq, -⟩ | ⟨heq, hup⟩
  · omega
  · -- Something is left over when the quotient is rounded up, so it is not the bound yet.
    have hne : num / den ≠ k := by
      rintro rfl
      omega
    omega

/-- How far a multiple is from what is divided. -/
def distance (num multiple : Nat) : Nat := ((num : Int) - multiple).natAbs

/-- No multiple is nearer than that of the rounded quotient. -/
theorem distance_roundHalfEven_le (num : Nat) (hden : 0 < den) (k : Nat) :
    distance num (roundHalfEven num den * den) ≤ distance num (k * den) := by
  have hrest : num % den < den := Nat.mod_lt num hden
  have hdiv : num / den * den + num % den = num := Nat.div_add_mod' num den
  have hsucc : (num / den + 1) * den = num / den * den + den := Nat.succ_mul ..
  unfold distance
  rcases Nat.lt_or_ge (num / den) k with hlt | hge
  · have hk : (num / den + 1) * den ≤ k * den := Nat.mul_le_mul_right den hlt
    rcases roundHalfEven_cases num den with ⟨heq, hhalf⟩ | ⟨heq, hhalf⟩ <;> rw [heq] <;> omega
  · have hk : k * den ≤ num / den * den := Nat.mul_le_mul_right den hge
    rcases roundHalfEven_cases num den with ⟨heq, hhalf⟩ | ⟨heq, hhalf⟩ <;> rw [heq] <;> omega

/-- Where another multiple is equally near, the rounded quotient is even. -/
theorem even_roundHalfEven (hden : 0 < den) (hne : k ≠ roundHalfEven num den)
    (h : distance num (k * den) = distance num (roundHalfEven num den * den)) :
    roundHalfEven num den % 2 = 0 := by
  have hdiv : num / den * den + num % den = num := Nat.div_add_mod' num den
  have hrest : num % den < den := Nat.mod_lt num hden
  have hsucc : (num / den + 1) * den = num / den * den + den := Nat.succ_mul ..
  have hsucc₂ : (num / den + 2) * den = num / den * den + 2 * den := Nat.add_mul ..
  unfold distance at h
  -- Only the whole numbers on both sides of the quotient can be equally near.
  have hk : k = num / den ∨ k = num / den + 1 := by
    rcases Nat.lt_or_ge (num / den + 1) k with hlt | hge
    · have hk : (num / den + 2) * den ≤ k * den := Nat.mul_le_mul_right den hlt
      rcases roundHalfEven_cases num den with ⟨heq, hhalf⟩ | ⟨heq, hhalf⟩ <;>
        rw [heq] at h <;> omega
    · rcases Nat.lt_or_ge k (num / den) with hlt | hge'
      · have hk : (k + 1) * den ≤ num / den * den := Nat.mul_le_mul_right den hlt
        rw [Nat.succ_mul] at hk
        rcases roundHalfEven_cases num den with ⟨heq, hhalf⟩ | ⟨heq, hhalf⟩ <;>
          rw [heq] at h <;> omega
      · omega
  rcases roundHalfEven_cases num den with ⟨heq, hhalf⟩ | ⟨heq, hhalf⟩
  · obtain rfl : k = num / den + 1 := by omega
    rw [heq] at h ⊢
    omega
  · obtain rfl : k = num / den := by omega
    rw [heq] at h ⊢
    omega

end Whole

/-! ## Magnitudes with fifty-three bits -/

section Magnitudes

variable {num den s shift : Nat}

/-- A significand plus steps of the exponent codes the significand after as many doublings. -/
theorem unitsOf_add_steps (hlow : shift = 0 ∨ 2 ^ 52 ≤ s) (hhigh : s ≤ 2 ^ 53) :
    unitsOf (shift * 2 ^ 52 + s) = s * 2 ^ shift := by
  unfold unitsOf
  by_cases hsmall : s < 2 ^ 52
  · obtain rfl : shift = 0 := hlow.resolve_right (Nat.not_le.mpr hsmall)
    rw [Nat.zero_mul, Nat.zero_add, if_pos hsmall, Nat.pow_zero, Nat.mul_one]
  rw [if_neg (by omega)]
  by_cases hfull : s = 2 ^ 53
  · subst hfull
    have hdiv : (shift * 2 ^ 52 + 2 ^ 53) / 2 ^ 52 - 1 = shift + 1 := by omega
    have hmod : (shift * 2 ^ 52 + 2 ^ 53) % 2 ^ 52 = 0 := by omega
    rw [hdiv, hmod, Nat.add_zero, Nat.pow_succ]
    omega
  · have hdiv : (shift * 2 ^ 52 + s) / 2 ^ 52 - 1 = shift := by omega
    have hmod : 2 ^ 52 + (shift * 2 ^ 52 + s) % 2 ^ 52 = s := by omega
    rw [hdiv, hmod]

/-- Every magnitude is a significand of fifty-three bits after some doublings; if there are any, the
leading bit is set. -/
theorem exists_unitsOf_eq (code : Nat) :
    ∃ s shift, unitsOf code = s * 2 ^ shift ∧ s < 2 ^ 53 ∧ (shift = 0 ∨ 2 ^ 52 ≤ s) := by
  unfold unitsOf
  split
  · exact ⟨code, 0, (Nat.mul_one code).symm, by omega, .inl rfl⟩
  · exact ⟨2 ^ 52 + code % 2 ^ 52, code / 2 ^ 52 - 1, rfl, by omega, .inr (Nat.le_add_right ..)⟩

theorem log2_lt_of_lt {n k : Nat} (hk : 0 < k) (h : n < 2 ^ k) : n.log2 < k := by
  by_cases hzero : n = 0
  · rwa [hzero, Nat.log2_zero]
  · exact (Nat.log2_lt hzero).mpr h

/-- How many low bits of a quotient do not fit in fifty-three. -/
def spareBits (num den : Nat) : Nat := (num / den).log2 - 52

theorem two_pow_mul_step (k den shift : Nat) :
    2 ^ k * (den * 2 ^ shift) = 2 ^ (k + shift) * den := by
  rw [Nat.pow_add, Nat.mul_assoc, Nat.mul_comm den]

theorem step_pos (hden : 0 < den) (shift : Nat) : 0 < den * 2 ^ shift :=
  Nat.mul_pos hden (Nat.two_pow_pos shift)

/-- The bits that are kept are at most fifty-three. -/
theorem lt_of_spareBits (hden : 0 < den) : num < 2 ^ 53 * (den * 2 ^ spareBits num den) := by
  have hlog : num / den < 2 ^ (53 + spareBits num den) := by
    refine Nat.lt_of_lt_of_le Nat.lt_log2_self (Nat.pow_le_pow_right (by decide) ?_)
    unfold spareBits
    omega
  calc num < 2 ^ (53 + spareBits num den) * den := (Nat.div_lt_iff_lt_mul hden).mp hlog
    _ = 2 ^ 53 * (den * 2 ^ spareBits num den) := (two_pow_mul_step ..).symm

/-- If bits are spare, fifty-three are kept. -/
theorem le_of_spareBits (num : Nat) (hden : 0 < den) :
    spareBits num den = 0 ∨ 2 ^ 52 * (den * 2 ^ spareBits num den) ≤ num := by
  by_cases hnone : spareBits num den = 0
  · exact .inl hnone
  have hlog : (num / den).log2 = 52 + spareBits num den := by
    unfold spareBits at hnone ⊢
    omega
  have hne : num / den ≠ 0 := by
    intro hzero
    rw [hzero, Nat.log2_zero] at hlog
    omega
  have hpow : 2 ^ (52 + spareBits num den) ≤ num / den := by
    rw [← hlog]
    exact Nat.log2_self_le hne
  right
  calc 2 ^ 52 * (den * 2 ^ spareBits num den)
      = 2 ^ (52 + spareBits num den) * den := two_pow_mul_step ..
    _ ≤ num := (Nat.le_div_iff_mul_le hden).mp hpow

/-- There is one place at which fifty-three bits are kept. -/
theorem spareBits_eq (hden : 0 < den) (hlow : 2 ^ 52 * (den * 2 ^ shift) ≤ num)
    (hhigh : num < 2 ^ 53 * (den * 2 ^ shift)) : spareBits num den = shift := by
  rw [two_pow_mul_step] at hlow hhigh
  have hle : 2 ^ (52 + shift) ≤ num / den := (Nat.le_div_iff_mul_le hden).mpr hlow
  have hlt : num / den < 2 ^ (53 + shift) := (Nat.div_lt_iff_lt_mul hden).mpr hhigh
  have hne : num / den ≠ 0 := (Nat.lt_of_lt_of_le (Nat.two_pow_pos _) hle).ne'
  have hlog₁ : 52 + shift ≤ (num / den).log2 := (Nat.le_log2 hne).mpr hle
  have hlog₂ : (num / den).log2 < 53 + shift := (Nat.log2_lt hne).mpr hlt
  unfold spareBits
  omega

/-- The quotient rounded to the bits that are kept. -/
def significand (num den : Nat) : Nat := roundHalfEven num (den * 2 ^ spareBits num den)

theorem significand_bounds (num : Nat) (hden : 0 < den) :
    (spareBits num den = 0 ∨ 2 ^ 52 ≤ significand num den) ∧ significand num den ≤ 2 ^ 53 := by
  have hstep : 0 < den * 2 ^ spareBits num den := step_pos hden _
  refine ⟨?_, ?_⟩
  · exact (le_of_spareBits num hden).imp_right (le_roundHalfEven hstep)
  · exact roundHalfEven_le hstep (lt_of_spareBits hden).le

/-- Far below the infinity the code is that of the rounded quotient. -/
theorem nearestCode_eq (hden : 0 < den) (hrange : (num / den).log2 < 2097) :
    nearestCode num den = spareBits num den * 2 ^ 52 + significand num den ∧
      nearestCode num den < infinityCode := by
  have hhigh := (significand_bounds num hden).2
  have hspare : spareBits num den ≤ 2044 := by
    unfold spareBits
    omega
  have hcode : nearestCode num den =
      min infinityCode (spareBits num den * 2 ^ 52 + significand num den) := rfl
  rw [hcode]
  unfold infinityCode
  omega

theorem unitsOf_nearestCode (hden : 0 < den) (hrange : (num / den).log2 < 2097) :
    unitsOf (nearestCode num den) = significand num den * 2 ^ spareBits num den := by
  obtain ⟨hlow, hhigh⟩ := significand_bounds num hden
  rw [(nearestCode_eq hden hrange).1, unitsOf_add_steps hlow hhigh]

/-- The magnitude of the code, as a multiple of the last bit that is kept. -/
theorem unitsOf_nearestCode_mul (hden : 0 < den) (hrange : (num / den).log2 < 2097) :
    unitsOf (nearestCode num den) * den =
      significand num den * (den * 2 ^ spareBits num den) := by
  rw [unitsOf_nearestCode hden hrange]
  ring

/-- A magnitude is a multiple of the last bit that is kept, or below all that has fifty-three. -/
theorem unitsOf_cases (num : Nat) (hden : 0 < den) (code : Nat) :
    (∃ k, unitsOf code * den = k * (den * 2 ^ spareBits num den)) ∨
      unitsOf code * den < 2 ^ 52 * (den * 2 ^ spareBits num den) ∧
        2 ^ 52 * (den * 2 ^ spareBits num den) ≤ num := by
  obtain ⟨s, shift, hunits, hs, -⟩ := exists_unitsOf_eq code
  rw [hunits]
  rcases Nat.lt_or_ge shift (spareBits num den) with hlt | hge
  · right
    refine ⟨?_, (le_of_spareBits num hden).resolve_left (by omega)⟩
    have hpow : 2 ^ (shift + 1) ≤ 2 ^ spareBits num den := Nat.pow_le_pow_right (by decide) hlt
    calc s * 2 ^ shift * den < 2 ^ 53 * 2 ^ shift * den :=
          Nat.mul_lt_mul_of_pos_right (Nat.mul_lt_mul_of_pos_right hs (Nat.two_pow_pos _)) hden
      _ = 2 ^ 52 * (den * 2 ^ (shift + 1)) := by
          rw [Nat.pow_succ]
          ring
      _ ≤ 2 ^ 52 * (den * 2 ^ spareBits num den) :=
          Nat.mul_le_mul_left _ (Nat.mul_le_mul_left den hpow)
  · left
    refine ⟨s * 2 ^ (shift - spareBits num den), ?_⟩
    have hpow : 2 ^ shift = 2 ^ (shift - spareBits num den) * 2 ^ spareBits num den := by
      rw [← Nat.pow_add, Nat.sub_add_cancel hge]
    rw [hpow]
    ring

/-- No magnitude is nearer than that of the code. -/
theorem distance_nearestCode_le (hden : 0 < den) (hrange : (num / den).log2 < 2097) (code : Nat) :
    distance num (unitsOf (nearestCode num den) * den) ≤ distance num (unitsOf code * den) := by
  have hstep : 0 < den * 2 ^ spareBits num den := step_pos hden _
  rw [unitsOf_nearestCode_mul hden hrange]
  rcases unitsOf_cases num hden code with ⟨k, hk⟩ | ⟨hbelow, hnum⟩
  · rw [hk]
    exact distance_roundHalfEven_le num hstep k
  · calc distance num (significand num den * (den * 2 ^ spareBits num den))
        ≤ distance num (2 ^ 52 * (den * 2 ^ spareBits num den)) :=
          distance_roundHalfEven_le num hstep _
      _ ≤ distance num (unitsOf code * den) := by
        unfold distance
        omega

/-- Where another magnitude is equally near, the code is even. -/
theorem even_nearestCode (hden : 0 < den) (hrange : (num / den).log2 < 2097) {code : Nat}
    (hne : unitsOf code ≠ unitsOf (nearestCode num den))
    (h : distance num (unitsOf code * den) = distance num (unitsOf (nearestCode num den) * den)) :
    nearestCode num den % 2 = 0 := by
  have hstep : 0 < den * 2 ^ spareBits num den := step_pos hden _
  have hmultiple := unitsOf_nearestCode_mul hden hrange
  rw [hmultiple] at h
  rcases unitsOf_cases num hden code with ⟨k, hk⟩ | ⟨hbelow, hnum⟩
  · rw [hk] at h
    have hk' : k ≠ significand num den := by
      rintro rfl
      exact hne (Nat.eq_of_mul_eq_mul_right hden (hk.trans hmultiple.symm))
    have heven : significand num den % 2 = 0 := even_roundHalfEven hstep hk' h
    rw [(nearestCode_eq hden hrange).1]
    omega
  · -- Below the kept bits there is always something nearer.
    have hnearer : distance num (significand num den * (den * 2 ^ spareBits num den)) ≤
        distance num (2 ^ 52 * (den * 2 ^ spareBits num den)) :=
      distance_roundHalfEven_le num hstep _
    unfold distance at h hnearer
    omega

/-- What fifty-three bits can bound is far below the infinity. -/
theorem log2_lt_of_le {n : Nat} (hs : s < 2 ^ 53) (hshift : shift ≤ 2044)
    (hle : n ≤ s * 2 ^ shift) : n.log2 < 2097 := by
  refine log2_lt_of_lt (Nat.zero_lt_succ _) ?_
  calc n ≤ s * 2 ^ shift := hle
    _ < 2 ^ 53 * 2 ^ shift := Nat.mul_lt_mul_of_pos_right hs (Nat.two_pow_pos _)
    _ = 2 ^ (53 + shift) := (Nat.pow_add ..).symm
    _ ≤ 2 ^ 2097 := Nat.pow_le_pow_right (by decide) (by omega)

/-- A quotient of at most fifty-three bits is kept as it is. -/
theorem unitsOf_nearestCode_of_eq (hden : 0 < den) (hs : s < 2 ^ 53) (hshift : shift ≤ 2044)
    (hnum : num = s * 2 ^ shift * den) : unitsOf (nearestCode num den) = s * 2 ^ shift := by
  have hquotient : num / den = s * 2 ^ shift := by rw [hnum, Nat.mul_div_cancel _ hden]
  have hrange : (num / den).log2 < 2097 := log2_lt_of_le hs hshift hquotient.le
  have hspare : spareBits num den ≤ shift := by
    by_contra hgt
    have hfull := (le_of_spareBits num hden).resolve_left (by omega)
    have hpow : 2 ^ (shift + 1) ≤ 2 ^ spareBits num den :=
      Nat.pow_le_pow_right (by decide) (Nat.lt_of_not_le hgt)
    -- With a bit more spare than there are doublings, fifty-three bits would not be enough.
    have hlarge : 2 ^ 53 * 2 ^ shift * den ≤ num :=
      calc 2 ^ 53 * 2 ^ shift * den = 2 ^ 52 * (den * 2 ^ (shift + 1)) := by
            rw [Nat.pow_succ]
            ring
        _ ≤ 2 ^ 52 * (den * 2 ^ spareBits num den) :=
            Nat.mul_le_mul_left _ (Nat.mul_le_mul_left den hpow)
        _ ≤ num := hfull
    rw [hnum] at hlarge
    have hle := Nat.le_of_mul_le_mul_right (Nat.le_of_mul_le_mul_right hlarge hden)
      (Nat.two_pow_pos shift)
    omega
  have hpow : 2 ^ shift = 2 ^ (shift - spareBits num den) * 2 ^ spareBits num den := by
    rw [← Nat.pow_add, Nat.sub_add_cancel hspare]
  have hmultiple : num = s * 2 ^ (shift - spareBits num den) * (den * 2 ^ spareBits num den) :=
    calc num = s * (2 ^ (shift - spareBits num den) * 2 ^ spareBits num den) * den := by
          rw [← hpow, ← hnum]
      _ = s * 2 ^ (shift - spareBits num den) * (den * 2 ^ spareBits num den) := by ring
  have hstep : 0 < den * 2 ^ spareBits num den := step_pos hden _
  have hexact : significand num den = s * 2 ^ (shift - spareBits num den) :=
    Nat.le_antisymm (roundHalfEven_le hstep hmultiple.le) (le_roundHalfEven hstep hmultiple.ge)
  rw [unitsOf_nearestCode hden hrange, hexact, hpow]
  ring

end Magnitudes

/-! ## Rounding -/

/-- The number `r` is the binary64 number nearest to `q`. Where another one is equally near, `r` has
the even code. -/
structure RoundsTo (q r : ℚ) : Prop where
  nearest : ∀ (z : Binary64) (s : ℚ), z.toRat? = some s → |q - r| ≤ |q - s|
  number : ∃ y : Binary64, y.toRat? = some r ∧
    ((∃ (z : Binary64) (s : ℚ), z.toRat? = some s ∧ s ≠ r ∧ |q - s| = |q - r|) → y.code % 2 = 0)

section Numbers

variable {num den code : Nat} {q r s : ℚ} {z : Binary64}

/-- What is nearest is on the same side of every number: not below one that is below, -/
theorem RoundsTo.le_of_le (h : RoundsTo q r) (hz : z.toRat? = some s) (hs : s ≤ q) : s ≤ r := by
  have hnear := h.nearest z s hz
  by_contra hlt
  rw [abs_of_nonneg (by linarith : 0 ≤ q - s), abs_of_nonneg (by linarith : 0 ≤ q - r)] at hnear
  linarith

/-- and not above one that is above. -/
theorem RoundsTo.ge_of_ge (h : RoundsTo q r) (hz : z.toRat? = some s) (hs : q ≤ s) : r ≤ s := by
  have hnear := h.nearest z s hz
  by_contra hlt
  rw [abs_of_nonpos (by linarith : q - s ≤ 0), abs_of_nonpos (by linarith : q - r ≤ 0)] at hnear
  linarith

/-- A number is rounded to itself. -/
theorem RoundsTo.self {z : Binary64} (hz : z.toRat? = some q) : RoundsTo q q where
  nearest _ s _ := by
    rw [sub_self, abs_zero]
    exact abs_nonneg _
  number := by
    refine ⟨z, hz, ?_⟩
    rintro ⟨-, s, -, hne, heq⟩
    rw [sub_self, abs_zero, abs_eq_zero, sub_eq_zero] at heq
    exact absurd heq.symm hne

/-- A code below the infinity is a number. -/
theorem toRat?_ofCode (h : code < infinityCode) :
    (ofCode false code).toRat? = some ((unitsOf code : ℚ) / (one : ℕ)) := by
  have hcode : (ofCode false code).code = code :=
    code_ofCode false (Nat.lt_trans h (by decide))
  have hfinite : (ofCode false code).isFinite = true := by
    rw [isFinite, hcode]
    exact decide_eq_true h
  rw [toRat?_of_isFinite hfinite, sign_of_nonneg (isNegative_ofCode false code), one_mul, units,
    hcode]

/-- A number is plus or minus the magnitude of its code. -/
theorem eq_or_neg_of_toRat? (hz : z.toRat? = some s) :
    s = (unitsOf z.code : ℚ) / (one : ℕ) ∨ s = -((unitsOf z.code : ℚ) / (one : ℕ)) := by
  have hfinite : z.isFinite = true := by
    by_contra hnot
    rw [toRat?_eq_none_iff.mpr hnot] at hz
    cases hz
  rw [toRat?_of_isFinite hfinite, Option.some.injEq] at hz
  rw [← hz]
  cases hneg : z.isNegative with
  | false =>
    left
    rw [sign_of_nonneg hneg, one_mul]
    rfl
  | true =>
    right
    rw [sign_of_negative hneg, neg_one_mul]
    rfl

/-- Magnitudes are compared with a quotient of units by whole numbers. -/
theorem abs_quotient_sub (hden : 0 < den) (multiple : Nat) :
    |(num : ℚ) / den / (one : ℕ) - multiple / (one : ℕ)| =
      (distance num (multiple * den) : ℚ) / (den * (one : ℕ)) := by
  have hd : (0 : ℚ) < den := Nat.cast_pos.mpr hden
  have hone := one_pos
  have hdiff : (num : ℚ) / den / (one : ℕ) - multiple / (one : ℕ) =
      (((num : ℤ) - (multiple * den : ℕ) : ℤ) : ℚ) / (den * (one : ℕ)) := by
    push_cast
    field_simp
  rw [hdiff, abs_div, abs_of_pos (mul_pos hd hone), distance, Nat.cast_natAbs, Int.cast_abs]

/-- What is not below zero is nearer to a magnitude than to its negative. -/
theorem abs_sub_le_abs_sub_neg (hq : 0 ≤ q) (hs : 0 ≤ s) : |q - s| ≤ |q - -s| := by
  rw [sub_neg_eq_add, abs_of_nonneg (add_nonneg hq hs), abs_le]
  constructor <;> linarith

/-- No magnitude is nearer to the quotient than that of the code. -/
theorem abs_sub_nearestCode_le (hden : 0 < den) (hrange : (num / den).log2 < 2097)
    (code : Nat) :
    |(num : ℚ) / den / (one : ℕ) - (unitsOf (nearestCode num den) : ℚ) / (one : ℕ)| ≤
      |(num : ℚ) / den / (one : ℕ) - (unitsOf code : ℚ) / (one : ℕ)| := by
  have hscale : (0 : ℚ) < den * (one : ℕ) := mul_pos (Nat.cast_pos.mpr hden) one_pos
  rw [abs_quotient_sub hden, abs_quotient_sub hden, div_le_div_iff_of_pos_right hscale,
    Nat.cast_le]
  exact distance_nearestCode_le hden hrange code

/-- Where another magnitude is as near to the quotient, the code is even. -/
theorem even_nearestCode_of_abs_eq (hden : 0 < den) (hrange : (num / den).log2 < 2097)
    (hne : unitsOf code ≠ unitsOf (nearestCode num den))
    (h : |(num : ℚ) / den / (one : ℕ) - (unitsOf code : ℚ) / (one : ℕ)| =
      |(num : ℚ) / den / (one : ℕ) - (unitsOf (nearestCode num den) : ℚ) / (one : ℕ)|) :
    nearestCode num den % 2 = 0 := by
  have hscale : (0 : ℚ) < den * (one : ℕ) := mul_pos (Nat.cast_pos.mpr hden) one_pos
  rw [abs_quotient_sub hden, abs_quotient_sub hden, div_left_inj' hscale.ne', Nat.cast_inj] at h
  exact even_nearestCode hden hrange hne h

/-- Rounding to the nearest code is rounding among all binary64 numbers. -/
theorem roundsTo_nearestCode (hden : 0 < den) (hrange : (num / den).log2 < 2097) :
    RoundsTo ((num : ℚ) / den / (one : ℕ))
      ((unitsOf (nearestCode num den) : ℚ) / (one : ℕ)) := by
  obtain ⟨-, hfinite⟩ := nearestCode_eq hden hrange
  have hmagnitude := abs_sub_nearestCode_le hden hrange
  have hq : 0 ≤ (num : ℚ) / den / (one : ℕ) :=
    div_nonneg (div_nonneg (Nat.cast_nonneg _) (Nat.cast_nonneg _)) one_pos.le
  have hr : 0 ≤ (unitsOf (nearestCode num den) : ℚ) / (one : ℕ) :=
    div_nonneg (Nat.cast_nonneg _) one_pos.le
  refine ⟨fun z s hz => ?_, ofCode false _, toRat?_ofCode hfinite, ?_⟩
  · rcases eq_or_neg_of_toRat? hz with rfl | rfl
    · exact hmagnitude z.code
    · exact (hmagnitude z.code).trans (abs_sub_le_abs_sub_neg hq z.units_div_nonneg)
  · rintro ⟨z, s, hz, hne, heq⟩
    rw [code_ofCode false (Nat.lt_trans hfinite (by decide))]
    rcases eq_or_neg_of_toRat? hz with rfl | rfl
    · refine even_nearestCode_of_abs_eq hden hrange (fun hsame => hne ?_) heq
      rw [hsame]
    · have hnear := abs_sub_le_abs_sub_neg hq z.units_div_nonneg
      refine even_nearestCode_of_abs_eq hden hrange (fun hsame => hne ?_)
        (le_antisymm (hnear.trans heq.le) (hmagnitude z.code))
      -- The negative of what is nearest is equally near only if it is zero.
      rw [hsame] at heq ⊢
      have hzero := hmagnitude 0
      have hunits : unitsOf 0 = 0 := rfl
      rw [← heq, sub_neg_eq_add, abs_of_nonneg (add_nonneg hq hr), hunits, Nat.cast_zero, zero_div,
        sub_zero, abs_of_nonneg hq] at hzero
      linarith

/-! ## Whole numbers -/

/-- A whole number below 2^53 is a binary64 number. -/
theorem unitsOf_codeOfNat {k : Nat} (hk : k < 2 ^ 53) : unitsOf (codeOfNat k) = k * one := by
  have hnum : k * one = k * 2 ^ 1074 * 1 := by rw [Nat.mul_one, one]
  rw [codeOfNat, unitsOf_nearestCode_of_eq Nat.one_pos hk (by decide) hnum, one]

theorem exists_toRat?_natCast {k : Nat} (hk : k < 2 ^ 53) :
    ∃ z : Binary64, z.toRat? = some (k : ℚ) := by
  have hle : k * one / 1 ≤ k * 2 ^ 1074 := by rw [Nat.div_one, one]
  have hfinite : codeOfNat k < infinityCode :=
    (nearestCode_eq Nat.one_pos (log2_lt_of_le hk (by decide) hle)).2
  refine ⟨ofCode false (codeOfNat k), ?_⟩
  rw [toRat?_ofCode hfinite, unitsOf_codeOfNat hk, Nat.cast_mul,
    mul_div_cancel_right₀ _ one_pos.ne']

/-- Rounding does not cross a whole number below 2^53. -/
theorem RoundsTo.floor_le (h : RoundsTo q r) (hq : 0 ≤ q) (hsmall : ⌈q⌉₊ < 2 ^ 53) :
    ⌊q⌋₊ ≤ ⌊r⌋₊ ∧ r ≤ ⌈q⌉₊ := by
  have hfloor : ⌊q⌋₊ < 2 ^ 53 := (Nat.floor_le_ceil q).trans_lt hsmall
  obtain ⟨below, hbelow⟩ := exists_toRat?_natCast hfloor
  obtain ⟨above, habove⟩ := exists_toRat?_natCast hsmall
  refine ⟨?_, ?_⟩
  · exact Nat.le_floor (h.le_of_le hbelow (Nat.floor_le hq))
  · exact h.ge_of_ge habove (Nat.le_ceil q)

end Numbers

/-! ## Whole numbers past 2^53 -/

section Masks

variable {num w k e : Nat}

/-- One below a power of two, at more than 53 bits, the kept bits round up to the power: at 54 bits
by a tie, and past them because it is nearer. -/
theorem significand_of_below (hnum : num = 2 ^ 54 * (2 ^ k * 2 ^ e) - 2 ^ e) :
    spareBits num 1 = k + e + 1 ∧ significand num 1 = 2 ^ 53 := by
  have hpos : 0 < 2 ^ e := Nat.two_pow_pos e
  have hle : 2 ^ e ≤ 2 ^ k * 2 ^ e := Nat.le_mul_of_pos_left _ (Nat.two_pow_pos k)
  have hlast : 1 * 2 ^ (k + e + 1) = 2 * (2 ^ k * 2 ^ e) := by
    rw [Nat.one_mul, Nat.pow_succ, Nat.pow_add, Nat.mul_comm]
  have hspare : spareBits num 1 = k + e + 1 := by
    apply spareBits_eq Nat.one_pos <;> rw [hlast] <;> omega
  refine ⟨hspare, ?_⟩
  have hhigh := (significand_bounds num Nat.one_pos).2
  rw [significand, hspare] at hhigh ⊢
  generalize 1 * 2 ^ (k + e + 1) = step at hlast hhigh ⊢
  have hstep : 0 < step := by omega
  have hnear := distance_roundHalfEven_le num hstep (2 ^ 53)
  have heven (hne : 2 ^ 53 ≠ roundHalfEven num step) := even_roundHalfEven hstep hne
  generalize roundHalfEven num step = rounded at hhigh hnear heven ⊢
  unfold distance at hnear heven
  by_contra hne
  -- Whatever is smaller is at least a step smaller, so at best it is as near, and then it is odd.
  have hgap : rounded * step + step ≤ 2 ^ 53 * step := by
    rw [← Nat.succ_mul]
    exact Nat.mul_le_mul_right step (by omega)
  have htie : (rounded + 1) * step = 2 ^ 53 * step := by
    rw [Nat.succ_mul]
    omega
  have hodd : rounded + 1 = 2 ^ 53 := Nat.eq_of_mul_eq_mul_right hstep htie
  have hparity := heven (Ne.symm hne) (by omega)
  omega

theorem unitsOf_nearestCode_of_below (hnum : num = (2 ^ (54 + k) - 1) * 2 ^ e)
    (hrange : k + e ≤ 2043) : unitsOf (nearestCode num 1) = 2 ^ (54 + k) * 2 ^ e := by
  have hunits : num = 2 ^ 54 * (2 ^ k * 2 ^ e) - 2 ^ e := by
    rw [hnum, Nat.sub_mul, Nat.one_mul, Nat.pow_add, Nat.mul_assoc]
  obtain ⟨hspare, hsignificand⟩ := significand_of_below hunits
  have hlog : (num / 1).log2 < 2097 := by
    unfold spareBits at hspare
    omega
  rw [unitsOf_nearestCode Nat.one_pos hlog, hspare, hsignificand, ← Nat.pow_add, ← Nat.pow_add]
  congr 1
  omega

/-- The largest value of a register of more than 53 bits is rounded to the power of two above it. -/
theorem unitsOf_codeOfNat_mask (hlow : 53 < w) (hhigh : w ≤ 64) :
    unitsOf (codeOfNat (2 ^ w - 1)) = 2 ^ w * one := by
  obtain ⟨k, rfl⟩ : ∃ k, w = 54 + k := ⟨w - 54, by omega⟩
  have hnum : (2 ^ (54 + k) - 1) * one = (2 ^ (54 + k) - 1) * 2 ^ 1074 := by rw [one]
  rw [codeOfNat, unitsOf_nearestCode_of_below hnum (by omega), one]

end Masks

/-! ## Products of magnitudes up to one -/

section Scaling

variable {code factor k w : Nat}

/-- The product with a whole number below 2^53 is far below the infinity. -/
theorem log2_mul_lt (hle : unitsOf code ≤ one) (hk : k < 2 ^ 53) :
    (unitsOf code * unitsOf (codeOfNat k) / one).log2 < 2097 := by
  have hone : 0 < one := Nat.cast_pos.mp one_pos
  refine log2_lt_of_le hk (by decide : 1074 ≤ 2044) ?_
  rw [unitsOf_codeOfNat hk, ← Nat.mul_assoc, Nat.mul_div_cancel _ hone, Nat.mul_comm, ← one]
  exact Nat.mul_le_mul_left _ hle

/-- With a leading bit set, more than 1022 doublings would be above one. -/
theorem shift_le_of_le_one {s shift : Nat} (hunits : unitsOf code = s * 2 ^ shift)
    (hleading : shift = 0 ∨ 2 ^ 52 ≤ s) (hle : unitsOf code ≤ one) : shift ≤ 1022 := by
  rcases hleading with rfl | hleading
  · exact Nat.zero_le _
  · have hpow : 2 ^ (52 + shift) ≤ 2 ^ 1074 := by
      rw [Nat.pow_add, ← one]
      exact (Nat.mul_le_mul_right _ hleading).trans (hunits.ge.trans hle)
    have hexponent := (Nat.pow_le_pow_iff_right (a := 2) (m := 1074) Nat.one_lt_two).mp hpow
    omega

/-- A power of two only moves the binary point: the product has as many bits as the magnitude. -/
theorem unitsOf_mulCode_two_pow (hle : unitsOf code ≤ one)
    (hfactor : unitsOf factor = 2 ^ w * one) (hw : w ≤ 1022) :
    unitsOf (mulCode code factor) = unitsOf code * 2 ^ w := by
  have hone : 0 < one := Nat.cast_pos.mp one_pos
  obtain ⟨s, shift, hunits, hs, hleading⟩ := exists_unitsOf_eq code
  have hshift : shift ≤ 1022 := shift_le_of_le_one hunits hleading hle
  have hexact : s * 2 ^ (shift + w) = unitsOf code * 2 ^ w := by
    rw [hunits, Nat.pow_add, Nat.mul_assoc]
  have hnum : unitsOf code * unitsOf factor = s * 2 ^ (shift + w) * one := by
    rw [hfactor, hexact, Nat.mul_assoc]
  rw [mulCode, unitsOf_nearestCode_of_eq hone hs (by omega) hnum, hexact]

end Scaling

end ScanChain.Binary64
