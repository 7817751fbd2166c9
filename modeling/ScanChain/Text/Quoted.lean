/-
# ScanChain.Text.Quoted — names in messages

A message shows a name between quotes, so that blanks at its ends are seen, and writes by number
each character that would not be seen: one without a glyph, or one drawn onto its neighbour. The
delimiter and the backslash take a backslash; line ends, tabs and NUL have letters of their own.
-/
import ScanChain.Text.CharClass

namespace ScanChain.Text

/-- The form of one character between two copies of `delimiter`. -/
def escape (delimiter c : Char) : List Char :=
  if c = delimiter ∨ c = '\x5c' then ['\x5c', c]
  else if c = '\x00' then ['\x5c', '0']
  else if c = '\t' then ['\x5c', 't']
  else if c = '\r' then ['\x5c', 'r']
  else if c = '\n' then ['\x5c', 'n']
  else if isExtending c || isHidden c then
    ['\x5c', 'u', '\x7b'] ++ Nat.toDigits 16 c.toNat ++ ['\x7d']
  else [c]

/-- The text between double quotes. -/
def quoted (text : String) : String :=
  String.ofList (['\x22'] ++ text.toList.flatMap (escape '\x22') ++ ['\x22'])

/-- The character between single quotes. -/
def quotedChar (c : Char) : String :=
  String.ofList (['\x27'] ++ escape '\x27' c ++ ['\x27'])

end ScanChain.Text
