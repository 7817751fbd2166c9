/-
# ScanChain.Binary64.Rounding — the nearest binary64 number to a quotient

One function rounds: `nearestCode num den` is the code of the magnitude nearest to `num / den` units
of 2^-1074, a tie going to the even code. Products and quotients of magnitudes, whole numbers and
powers of ten are that function at the exact result.
-/
import ScanChain.Binary64.Basic

namespace ScanChain.Binary64

/-- The whole number nearest to `num / den`; a half goes to the even neighbour. -/
def roundHalfEven (num den : Nat) : Nat :=
  let quotient := num / den
  let remainder := num % den
  if 2 * remainder < den ∨ (2 * remainder = den ∧ quotient % 2 = 0) then quotient else quotient + 1

/-- The code of the magnitude nearest to `num / den` units. With `shift` the number of low bits that
do not fit in fifty-three, the rounded significand plus `shift` steps of the exponent is the code,
also when rounding carries into a higher exponent; past the largest finite magnitude it is infinite. -/
def nearestCode (num den : Nat) : Nat :=
  let shift := (num / den).log2 - 52
  min infinityCode (shift * 2 ^ 52 + roundHalfEven num (den * 2 ^ shift))

/-- The code nearest to a whole number. -/
def codeOfNat (n : Nat) : Nat := nearestCode (n * one) 1

/-- The code nearest to the product of two finite magnitudes. -/
def mulCode (a b : Nat) : Nat := nearestCode (unitsOf a * unitsOf b) one

/-- The code nearest to the quotient of two finite magnitudes. -/
def divCode (a b : Nat) : Nat := nearestCode (unitsOf a * one) (unitsOf b)

/-- The code nearest to `digits * 10 ^ exponent`. Where the value has more than 400 places before its
point it is infinite, and where its first 400 places after the point are zeros it is zero, so that no
power of that size is computed. -/
def codeOfDecimal (digits : Nat) (exponent : Int) : Nat :=
  let places := exponent + (Nat.toDigits 10 digits).length
  if digits = 0 ∨ places < -400 then 0
  else if 400 < places then infinityCode
  else nearestCode (digits * 10 ^ exponent.toNat * one) (10 ^ (-exponent).toNat)

theorem nearestCode_le (num den : Nat) : nearestCode num den ≤ infinityCode :=
  Nat.min_le_left ..

end ScanChain.Binary64
