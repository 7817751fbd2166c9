/-
# ScanChain.Binary64.Shortest — the fewest digits that read back

The shortest decimal of a magnitude has the fewest digits among the decimals nearer to it than to
any other binary64 magnitude. For one digit, two digits, and so on up to seventeen, the two
neighbours of the magnitude on that decimal grid are tried; the first grid with a hit wins, and of
two hits the nearer. Which of two equally near ones is taken is a choice of the format that prints:
that of data files is the choice of the package `serde_json`, which is no part of this library.
-/
import ScanChain.Binary64.Rounding

namespace ScanChain.Binary64

/-- Which of two equally near decimals is taken. -/
inductive Tie where
  /-- The one with an even last digit. -/
  | even
  /-- The larger one. -/
  | up

/-- A decimal fraction `0.d₁d₂… · 10 ^ point`, without zeros at its end. -/
structure Decimal where
  digits : List Char
  point : Int

/-- The power of ten above a magnitude: its decimal has this many places before the point. -/
def pointOf (units : Nat) : Int :=
  (Nat.toDigits 10 (units * 10 ^ 324 / one)).length - 324

/-- The decimal `num / den` units reads back as the magnitude with this code: it lies between the
midpoints to the neighbouring magnitudes, which themselves belong to the even code. -/
def readsBack (code num den : Nat) : Bool :=
  let low := (unitsOf (code - 1) + unitsOf code) * den
  let high := (unitsOf code + unitsOf (code + 1)) * den
  if code % 2 = 0 then decide (low ≤ 2 * num ∧ 2 * num ≤ high)
  else decide (low < 2 * num ∧ 2 * num < high)

/-- The multiple of `10 ^ grid` next to the magnitude that reads back, as the factor. -/
def onGrid (tie : Tie) (code : Nat) (grid : Int) : Option Nat :=
  let step := one * 10 ^ grid.toNat
  let scale := 10 ^ (-grid).toNat
  let below := unitsOf code * scale / step
  let rest := unitsOf code * scale % step
  let hit (n : Nat) : Bool := readsBack code (n * step) scale
  match hit below, hit (below + 1) with
  | true, true =>
    if 2 * rest < step then some below
    else if step < 2 * rest then some (below + 1)
    else match tie with
      | .even => some (below + below % 2)
      | .up => some (below + 1)
  | true, false => some below
  | false, true => some (below + 1)
  | false, false => none

/-- The shortest decimal of the nonzero finite magnitude with this code. -/
def shortest (tie : Tie) (code : Nat) : Decimal :=
  let point := pointOf (unitsOf code)
  let found := (List.range 17).findSome? fun i =>
    let grid := point - (i + 1 : Nat)
    (onGrid tie code grid).map fun factor => (factor, grid)
  match found with
  | none => ⟨[], 0⟩
  | some (factor, grid) =>
    let digits := Nat.toDigits 10 factor
    ⟨(digits.reverse.dropWhile (· == '0')).reverse, grid + digits.length⟩

end ScanChain.Binary64
