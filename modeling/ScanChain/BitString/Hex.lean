/-
# ScanChain.BitString.Hex — bit strings as hexadecimal digits

Each digit is four bits, the most significant digit first, so text fixes a width: four times its
digits. Reading drops the blanks at the ends, one leading `0x` or `0X`, and every underscore. What is
left is taken byte by byte in UTF-8, two bytes to an octet; an odd count gets a `0` before it. A byte
that is no digit is reported as the character with that number, with its place among the bytes.

Taking octets apart stands for the package `hex`, which is no part of this library: which digits it takes
and how it reports one that it does not is taken for granted.
-/
import ScanChain.BitString.Basic
import ScanChain.Text.Blank
import ScanChain.Text.Digits
import ScanChain.Text.Quoted
import ScanChain.Text.Utf8

namespace ScanChain.BitString

/-! ## Writing -/

/-- The digit of four bits, the least significant first. -/
def hexDigit (a b c d : Bool) : Char :=
  Nat.digitChar (a.toNat + 2 * b.toNat + 4 * c.toNat + 8 * d.toNat)

/-- The digits of a list of bits, the least significant first in both. The last digit has zeros above
the bits that are left for it. -/
def hexDigitsOf : List Bool → List Char
  | [] => []
  | [a] => [hexDigit a false false false]
  | [a, b] => [hexDigit a b false false]
  | [a, b, c] => [hexDigit a b c false]
  | a :: b :: c :: d :: rest => hexDigit a b c d :: hexDigitsOf rest

/-- The digits as text. -/
def toHex (b : BitString) : String := String.ofList (hexDigitsOf b.bits).reverse

/-- The width and the digits: the form of a value in reports and listings. -/
def display (b : BitString) : String := toString b.width ++ "'h" ++ b.toHex

/-- The form of a value that also names its type. -/
def describe (b : BitString) : String := "BitString(" ++ b.display ++ ")"

/-! ## Reading -/

/-- Why a text has no digits to read. -/
inductive HexFault where
  /-- Nothing is left of the text. -/
  | noDigits
  /-- A byte is no digit; its place counts the bytes after the padding. -/
  | badByte (byte : UInt8) (place : Nat)
deriving DecidableEq

/-- A text that is no bit string. -/
structure HexError where
  text : String
  fault : HexFault
deriving DecidableEq

/-- The reason in words. -/
def HexFault.message : HexFault → String
  | .noDigits => "no digits"
  | .badByte byte place =>
    "Invalid character " ++ Text.quotedChar (Char.ofNat byte.toNat) ++ " at position " ++
      toString place

/-- The refusal in words. -/
def HexError.message (e : HexError) : String :=
  "invalid hex bit string " ++ Text.quoted e.text ++ ": " ++ e.fault.message

/-- The digits of a text: without blanks at the ends, the mark of the base, and underscores. -/
def digitsOf (text : String) : List Char :=
  let trimmed := Text.trim text.toList
  let unmarked := match trimmed with
    | '0' :: 'x' :: rest => rest
    | '0' :: 'X' :: rest => rest
    | rest => rest
  unmarked.filter (· != '_')

/-- The four bits of a digit, the most significant first. -/
def nibble? (byte : UInt8) : Option (List Bool) :=
  let value? : Option Nat :=
    if 48 ≤ byte ∧ byte ≤ 57 then some (byte.toNat - 48)
    else if 97 ≤ byte ∧ byte ≤ 102 then some (byte.toNat - 87)
    else if 65 ≤ byte ∧ byte ≤ 70 then some (byte.toNat - 55)
    else none
  value?.map fun n => [n.testBit 3, n.testBit 2, n.testBit 1, n.testBit 0]

/-- The bits of digits, the most significant first; the first byte stands at `place`. -/
def nibbles (place : Nat) : List UInt8 → Except HexFault (List Bool)
  | [] => .ok []
  | byte :: rest =>
    match nibble? byte with
    | none => .error (.badByte byte place)
    | some bits => (nibbles (place + 1) rest).map (bits ++ ·)

/-- Reads hexadecimal text. -/
def ofHex (text : String) : Except HexError BitString :=
  let bytes := Text.utf8 (String.ofList (digitsOf text))
  if bytes.isEmpty then .error ⟨text, .noDigits⟩
  else match nibbles (bytes.length % 2) bytes with
    | .ok bits => .ok (ofMsbFirst bits)
    | .error fault => .error ⟨text, fault⟩

/-- Reads the text of a bit string in a data file, where a text of blanks alone has width zero. -/
def ofFileText (text : String) : Except HexError BitString :=
  if (Text.trim text.toList).isEmpty then .ok ⟨[]⟩ else ofHex text

end ScanChain.BitString
