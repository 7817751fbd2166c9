/-
# ScanChain.Binary64.Basic — binary64 numbers as whole multiples of 2^-1074

A probability is an IEEE binary64 number. It is kept as its interchange word, and everything that is
computed with it goes through two views. `code` is the word without its sign bit; along the codes the
magnitudes ascend, the infinity stands at `infinityCode` and the codes above it are no numbers.
`units` is the magnitude of a finite number, counted in units of 2^-1074: every finite magnitude is a
whole number of them, so products, quotients and comparisons are arithmetic on natural numbers and
nothing rounds unless a definition says so.
-/
import ScanChain.Arithmetic

namespace ScanChain

/-- An IEEE 754 binary64 number, held as its interchange word. -/
structure Binary64 where
  /-- Sign bit, eleven exponent bits, fifty-two fraction bits. -/
  bits : UInt64
deriving DecidableEq, Inhabited

namespace Binary64

/-- The code of the infinities: all exponent bits set and no fraction bit. -/
def infinityCode : Nat := 2047 * 2 ^ 52

/-- The number of units in one. -/
def one : Nat := 2 ^ 1074

/-- The magnitude with a given code, in units of 2^-1074. Below 2^52 the code counts units; above, the
fraction has a leading one and each step of the exponent doubles it. -/
def unitsOf (code : Nat) : Nat :=
  if code < 2 ^ 52 then code else (2 ^ 52 + code % 2 ^ 52) * 2 ^ (code / 2 ^ 52 - 1)

/-- The interchange word without the sign bit. -/
def code (x : Binary64) : Nat := x.bits.toNat % 2 ^ 63

/-- The sign bit. -/
def isNegative (x : Binary64) : Bool := decide (2 ^ 63 ≤ x.bits.toNat)

/-- The value is not a number. -/
def isNaN (x : Binary64) : Bool := decide (infinityCode < x.code)

/-- The value is a number, and not infinite. -/
def isFinite (x : Binary64) : Bool := decide (x.code < infinityCode)

/-- The magnitude of a finite number, in units of 2^-1074. -/
def units (x : Binary64) : Nat := unitsOf x.code

/-- The number with a sign and a code. -/
def ofCode (negative : Bool) (code : Nat) : Binary64 :=
  ⟨UInt64.ofNat (code % 2 ^ 63 + if negative then 2 ^ 63 else 0)⟩

/-- Positive zero. -/
def zero : Binary64 := ofCode false 0

/-- The canonical quiet value that is not a number. -/
def nan : Binary64 := ofCode false (infinityCode + 2 ^ 51)

/-- An infinity. -/
def infinity (negative : Bool) : Binary64 := ofCode negative infinityCode

/-- The number lies in `[0, 1]`. Negative zero does. -/
def isProbability (x : Binary64) : Bool :=
  x.isFinite && decide (x.units ≤ one) && (!x.isNegative || x.units == 0)

/-- The number is above zero. -/
def isPositive (x : Binary64) : Bool :=
  !x.isNaN && !x.isNegative && decide (0 < x.code)

theorem code_lt (x : Binary64) : x.code < 2 ^ 63 := Nat.mod_lt _ (by decide)

theorem code_ofCode (negative : Bool) {code : Nat} (h : code < 2 ^ 63) :
    (ofCode negative code).code = code := by
  cases negative <;> simp [ofCode, Binary64.code, UInt64.toNat_ofNat'] <;> omega

theorem isNegative_ofCode (negative : Bool) (code : Nat) :
    (ofCode negative code).isNegative = negative := by
  cases negative <;> simp [ofCode, isNegative, UInt64.toNat_ofNat'] <;> omega

/-- A number is its sign and its code. -/
theorem ofCode_code (x : Binary64) : ofCode x.isNegative x.code = x := by
  have := x.bits.toNat_lt
  rcases x with ⟨bits⟩
  simp only [ofCode, isNegative, code, Binary64.mk.injEq]
  apply UInt64.toNat_inj.mp
  simp only [UInt64.toNat_ofNat', decide_eq_true_eq] at *
  split <;> omega

end Binary64
end ScanChain
