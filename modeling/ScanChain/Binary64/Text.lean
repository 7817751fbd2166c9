/-
# ScanChain.Binary64.Text — binary64 numbers as text

Reading takes a sign, digits with a point anywhere among them, and a power of ten, or the words for
infinity and for no number in any case; the value is the binary64 number nearest to the decimal.
Writing has two styles over the shortest digits: `plain`, for messages, never uses a power of ten,
and `marked`, for data files, always shows that a number is not whole-typed.
-/
import ScanChain.Binary64.Shortest

namespace ScanChain.Binary64

/-! ## Reading -/

/-- The value of a run of decimal digits. -/
def valueOfDigits (digits : List Char) : Nat :=
  digits.foldl (fun n c => 10 * n + (c.toNat - '0'.toNat)) 0

/-- A sign, if there is one, and what follows it. -/
def splitSign : List Char → Bool × List Char
  | '-' :: rest => (true, rest)
  | '+' :: rest => (false, rest)
  | text => (false, text)

/-- A power of ten at the end of a number: nothing, or `e`, a sign and at least one digit. -/
def exponent? : List Char → Option Int
  | [] => some 0
  | mark :: rest =>
    let (negative, digits) := splitSign rest
    if (mark = 'e' ∨ mark = 'E') ∧ digits ≠ [] ∧ digits.all Char.isDigit then
      some (if negative then -(valueOfDigits digits : Int) else valueOfDigits digits)
    else none

/-- The magnitude of an unsigned decimal, as a code. -/
def magnitude? (text : List Char) : Option Nat :=
  let whole := text.takeWhile Char.isDigit
  let afterWhole := text.dropWhile Char.isDigit
  let (fraction, afterFraction) := match afterWhole with
    | '.' :: rest => (rest.takeWhile Char.isDigit, rest.dropWhile Char.isDigit)
    | rest => ([], rest)
  if whole = [] ∧ fraction = [] then none
  else (exponent? afterFraction).map fun exponent =>
    codeOfDecimal (valueOfDigits (whole ++ fraction)) (exponent - fraction.length)

/-- The number that the text stands for, if it is one. -/
def ofString? (text : String) : Option Binary64 :=
  let (negative, unsigned) := splitSign text.toList
  let word := String.ofList (unsigned.map Char.toLower)
  if word = "inf" ∨ word = "infinity" then some (infinity negative)
  else if word = "nan" then some nan
  else (magnitude? unsigned).map (ofCode negative)

/-! ## Writing -/

/-- How a number is written. -/
structure Style where
  tie : Tie
  /-- A decimal with this many places before its point is written without a power of ten. -/
  positional : Int → Bool
  /-- What follows a whole number. -/
  wholeEnd : List Char

/-- The style of messages: every number in full, whole numbers without a point. -/
def Style.plain : Style := ⟨.up, fun _ => true, []⟩

/-- The style of data files: a power of ten below 10^-5 and from 10^16, whole numbers with `.0`. -/
def Style.marked : Style := ⟨.even, fun point => decide (-5 < point ∧ point ≤ 16), ['.', '0']⟩

/-- The digits of a decimal with its point among them. -/
def Decimal.positional (style : Style) (d : Decimal) : List Char :=
  if d.point ≤ 0 then
    ['0', '.'] ++ List.replicate (-d.point).toNat '0' ++ d.digits
  else if d.digits.length ≤ d.point.toNat then
    d.digits ++ List.replicate (d.point.toNat - d.digits.length) '0' ++ style.wholeEnd
  else d.digits.take d.point.toNat ++ ['.'] ++ d.digits.drop d.point.toNat

/-- The first digit, the others behind a point, and the signed power of ten. -/
def Decimal.scientific (d : Decimal) : List Char :=
  let power := d.point - 1
  d.digits.take 1 ++ (if d.digits.length ≤ 1 then [] else '.' :: d.digits.drop 1) ++
    ['e', if power < 0 then '-' else '+'] ++ Nat.toDigits 10 power.natAbs

/-- The text of a finite number in a style. -/
def finiteText (style : Style) (x : Binary64) : String :=
  let sign := if x.isNegative then ['-'] else []
  if x.code = 0 then String.ofList (sign ++ ['0'] ++ style.wholeEnd)
  else
    let d := shortest style.tie x.code
    String.ofList (sign ++ if style.positional d.point then d.positional style else d.scientific)

/-- The text of a number in a message. -/
def plainText (x : Binary64) : String :=
  if x.isNaN then "NaN"
  else if x.isFinite then finiteText .plain x
  else if x.isNegative then "-inf" else "inf"

end ScanChain.Binary64
