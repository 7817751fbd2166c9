/-
# ScanChain.Json.Value — JSON values and how they are written

A value holds what the library writes: counts, binary64 numbers, strings, arrays and objects with
their members in order. It is written either compactly, without a blank, or indented, with one item
or member to a line and two spaces for each level; empty arrays and objects stay on one line. In a
string only the quote, the backslash and the control characters below U+0020 are escaped. A number
that is infinite or not a number is written as `null`.

This is how the package `serde_json`, which is no part of this library, writes values. Theorems about
texts that are written take for granted that it does.
-/
import ScanChain.Binary64.Text
import ScanChain.Text.Digits

namespace ScanChain.Json

/-- A JSON value. -/
inductive Value where
  | null
  | boolean (value : Bool)
  | count (n : Nat)
  | real (x : Binary64)
  | text (content : String)
  | array (items : List Value)
  | object (members : List (String × Value))
deriving Inhabited

namespace Value

/-- A value that may be missing. -/
def ofOption {α : Type} (value : α → Value) : Option α → Value
  | none => null
  | some a => value a

/-! ## Scalars -/

/-- The form of a character inside a string. -/
def escape (c : Char) : List Char :=
  if c = '\x22' ∨ c = '\x5c' then ['\x5c', c]
  else if c = '\x08' then ['\x5c', 'b']
  else if c = '\t' then ['\x5c', 't']
  else if c = '\n' then ['\x5c', 'n']
  else if c = '\x0c' then ['\x5c', 'f']
  else if c = '\r' then ['\x5c', 'r']
  else if c.toNat < 0x20 then ['\x5c', 'u'] ++ Text.hexDigits 4 c.toNat
  else [c]

/-- A string between quotes. -/
def textForm (content : String) : String :=
  String.ofList (['\x22'] ++ content.toList.flatMap escape ++ ['\x22'])

/-- A number. -/
def realForm (x : Binary64) : String :=
  if x.isFinite then x.finiteText .marked else "null"

/-! ## Compact form -/

mutual

/-- The value without blanks. -/
def compact : Value → String
  | null => "null"
  | boolean true => "true"
  | boolean false => "false"
  | count n => toString n
  | real x => realForm x
  | text content => textForm content
  | array items => "[" ++ compactItems items ++ "]"
  | object members => "\x7b" ++ compactMembers members ++ "\x7d"

/-- Items with commas between them. -/
def compactItems : List Value → String
  | [] => ""
  | [item] => item.compact
  | item :: items => item.compact ++ "," ++ compactItems items

/-- Members with commas between them. -/
def compactMembers : List (String × Value) → String
  | [] => ""
  | [(name, value)] => textForm name ++ ":" ++ value.compact
  | (name, value) :: members =>
    textForm name ++ ":" ++ value.compact ++ "," ++ compactMembers members

end

/-! ## Indented form -/

/-- A line break and the blanks that open a line at a level. -/
def newLine (level : Nat) : String :=
  "\n" ++ String.ofList (List.replicate (2 * level) ' ')

mutual

/-- The value with one item or member to a line; `level` counts what it stands in. -/
def indented (level : Nat) : Value → String
  | array [] => "[]"
  | array items => "[" ++ indentedItems (level + 1) items ++ newLine level ++ "]"
  | object [] => "\x7b\x7d"
  | object members => "\x7b" ++ indentedMembers (level + 1) members ++ newLine level ++ "\x7d"
  | null => "null"
  | boolean true => "true"
  | boolean false => "false"
  | count n => toString n
  | real x => realForm x
  | text content => textForm content

/-- Items on lines of their own. -/
def indentedItems (level : Nat) : List Value → String
  | [] => ""
  | [item] => newLine level ++ item.indented level
  | item :: items => newLine level ++ item.indented level ++ "," ++ indentedItems level items

/-- Members on lines of their own. -/
def indentedMembers (level : Nat) : List (String × Value) → String
  | [] => ""
  | [(name, value)] => newLine level ++ textForm name ++ ": " ++ value.indented level
  | (name, value) :: members =>
    newLine level ++ textForm name ++ ": " ++ value.indented level ++ "," ++
      indentedMembers level members

end

/-- The indented text of a whole value. -/
def pretty (value : Value) : String := value.indented 0

end Value
end ScanChain.Json
