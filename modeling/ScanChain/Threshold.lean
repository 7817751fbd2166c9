/-
# ScanChain.Threshold — probabilities as integer thresholds

A fault fires when a uniformly drawn number lies below a threshold. For a 32-bit draw the threshold of
a probability `p` is the whole part of `p * 2^32`, for a difficulty register of `w` bits it is the
whole part of `p` times the largest register value. Both are taken of binary64 products: the factor
is rounded to binary64, and then the product is.
-/
import ScanChain.Binary64.Rounding

namespace ScanChain.Threshold

/-- The largest number of `width` bits, for a width of up to 64 and for 64 beyond it. -/
def lowMask (width : Nat) : Nat := 2 ^ min width 64 - 1

/-- How many of the 2^32 draws fire at a probability; none is defined outside `[0, 1]`. Below one it is
the whole part of the product with 2^32, as a number of 64 bits. -/
def ofProbability? (p : Binary64) : Option Nat :=
  if p.isProbability then
    some (if p.units = Binary64.one then 2 ^ 32
      else
        let product := Binary64.mulCode p.code (Binary64.codeOfNat (2 ^ 32))
        min (Binary64.unitsOf product / Binary64.one) (lowMask 64))
  else none

/-- The value of a difficulty register of 1 to 64 bits at a probability. -/
def difficulty? (p : Binary64) (width : Nat) : Option Nat :=
  if !p.isProbability || width == 0 || 64 < width then none
  else
    let limit := lowMask width
    if p.units = Binary64.one then some limit
    else
      let product := Binary64.mulCode p.code (Binary64.codeOfNat limit)
      some (min (Binary64.unitsOf product / Binary64.one) limit)

end ScanChain.Threshold
