/-
# ScanChain.Json.Numeral — the numbers of a JSON text

A numeral is kept as written, since its two readings differ. As a count it must be a plain
unsigned whole number within a bound. As a binary64 number it is read in steps: the digits are
gathered into a 64-bit significand as long as they fit, the places of the digits left out before the
point and of those taken after it make a power of ten, and the significand is then multiplied or
divided by that power, each step rounded. The result can differ from the nearest number in the last
bit; a value past the largest finite number is refused.
-/
import ScanChain.Binary64.Text

namespace ScanChain.Json

/-- A JSON number as written. -/
structure Numeral where
  negative : Bool
  /-- Digits before the point: `0` alone, or a run that does not start with `0`. -/
  whole : List Char
  /-- Digits after the point, if there is one. -/
  fraction : Option (List Char)
  /-- The power of ten, if there is one. -/
  exponent : Option Int
deriving DecidableEq

namespace Numeral

/-- The value of a whole number without a sign that is at most `limit`. -/
def toNat? (limit : Nat) (n : Numeral) : Option Nat :=
  let value := Binary64.valueOfDigits n.whole
  if n.negative ∨ n.fraction.isSome ∨ n.exponent.isSome ∨ limit < value then none else some value

/-- Appends digits to a significand as long as it stays below 2^64; the digits left over follow. -/
def gather (significand : Nat) : List Char → Nat × List Char
  | [] => (significand, [])
  | c :: rest =>
    let next := 10 * significand + (c.toNat - '0'.toNat)
    if next < 2 ^ 64 then gather next rest else (significand, c :: rest)

/-- The code of the power of ten with an exponent of at most 308. -/
def powerCode (exponent : Nat) : Nat := Binary64.codeOfNat (10 ^ exponent)

/-- Divides the magnitude of a significand by a power of ten, at most 308 places at a time. Two
divisions by 10^308 leave nothing of a significand below 2^64. -/
def divideByPower (code places : Nat) : Nat :=
  if places ≤ 308 then Binary64.divCode code (powerCode places)
  else if places ≤ 616 then
    Binary64.divCode (Binary64.divCode code (powerCode 308)) (powerCode (places - 308))
  else 0

/-- A significand times a power of ten, as a code, unless it is too large. -/
def scale? (significand : Nat) (exponent : Int) : Option Nat :=
  let code := Binary64.codeOfNat significand
  if exponent < 0 then some (divideByPower code exponent.natAbs)
  else if code = 0 then some 0
  else if 308 < exponent then none
  else
    let product := Binary64.mulCode code (powerCode exponent.natAbs)
    if product < Binary64.infinityCode then some product else none

/-- The binary64 reading, unless the value is too large. -/
def toBinary64? (n : Numeral) : Option Binary64 :=
  let fraction := n.fraction.getD []
  let (significand, dropped) := gather 0 n.whole
  let (significand, rest) := gather significand fraction
  let exponent : Int := n.exponent.getD 0 + dropped.length - (fraction.length - rest.length : Nat)
  (scale? significand exponent).map (Binary64.ofCode n.negative)

end Numeral
end ScanChain.Json
