/-
# ScanChain.Json.Token — a JSON text as a sequence of tokens

`tokens` cuts a text into the lexemes of RFC 8259. Where the text stops being JSON the sequence
ends with `bad`, so that a reader that goes from left to right meets faults in the order of the text.
A string whose escapes name half of a surrogate pair is a lexeme without a text: it may stand where
a value is passed over, and nowhere else. Two second halves in a row leave a string without a text
whatever its other pieces are (`join?_halves`).
-/
import ScanChain.Json.Numeral

namespace ScanChain.Json

/-- A lexeme of a JSON text. -/
inductive Token where
  | openObject
  | closeObject
  | openArray
  | closeArray
  | colon
  | comma
  | null
  | boolean (value : Bool)
  | number (numeral : Numeral)
  /-- A string, with its text if its escapes name one. -/
  | text (content : Option String)
  /-- The rest of the text is not JSON. -/
  | bad
deriving DecidableEq

namespace Token

/-! ## Strings -/

/-- A part of a quoted string: a character, or a sixteen-bit code unit given by number. -/
inductive Piece where
  | char (c : Char)
  | codeUnit (value : Nat)

/-- The value of a hexadecimal digit, in either case. -/
def hexValue? (c : Char) : Option Nat :=
  if '0' ≤ c ∧ c ≤ '9' then some (c.toNat - '0'.toNat)
  else if 'a' ≤ c ∧ c ≤ 'f' then some (c.toNat - 'a'.toNat + 10)
  else if 'A' ≤ c ∧ c ≤ 'F' then some (c.toNat - 'A'.toNat + 10)
  else none

/-- The value of four hexadecimal digits. -/
def codeUnit? (a b c d : Char) : Option Nat := do
  let a ← hexValue? a
  let b ← hexValue? b
  let c ← hexValue? c
  let d ← hexValue? d
  return ((a * 16 + b) * 16 + c) * 16 + d

/-- The character that a letter after a backslash stands for. -/
def shortEscape? : Char → Option Char
  | '\x22' => some '\x22'
  | '\x5c' => some '\x5c'
  | '/' => some '/'
  | 'b' => some '\x08'
  | 'f' => some '\x0c'
  | 'n' => some '\n'
  | 'r' => some '\r'
  | 't' => some '\t'
  | _ => none

/-- The pieces of a string up to its closing quote, and what follows. -/
def pieces? : List Char → Option (List Piece × List Char)
  | [] => none
  | '\x22' :: rest => some ([], rest)
  | '\x5c' :: 'u' :: a :: b :: c :: d :: rest =>
    match codeUnit? a b c d, pieces? rest with
    | some value, some (pieces, after) => some (.codeUnit value :: pieces, after)
    | _, _ => none
  | '\x5c' :: c :: rest =>
    match shortEscape? c, pieces? rest with
    | some c, some (pieces, after) => some (.char c :: pieces, after)
    | _, _ => none
  | c :: rest =>
    if c.toNat < 0x20 ∨ c = '\x5c' then none
    else match pieces? rest with
      | some (pieces, after) => some (.char c :: pieces, after)
      | none => none

/-- The text of the pieces: two code units of a surrogate pair are one character, and half of a pair
alone is none. -/
def join? : List Piece → Option (List Char)
  | [] => some []
  | .char c :: rest => (join? rest).map (c :: ·)
  | .codeUnit high :: .codeUnit low :: rest =>
    if 0xd800 ≤ high ∧ high < 0xdc00 then
      if 0xdc00 ≤ low ∧ low < 0xe000 then
        (join? rest).map (Char.ofNat (0x10000 + (high - 0xd800) * 0x400 + (low - 0xdc00)) :: ·)
      else none
    else if 0xdc00 ≤ high ∧ high < 0xe000 then none
    else (join? (.codeUnit low :: rest)).map (Char.ofNat high :: ·)
  | .codeUnit value :: rest =>
    if 0xd800 ≤ value ∧ value < 0xe000 then none else (join? rest).map (Char.ofNat value :: ·)

/-- The second half of a surrogate pair alone is no text. -/
theorem join?_low {half : Nat} (h : 0xdc00 ≤ half ∧ half < 0xe000) (after : List Piece) :
    join? (.codeUnit half :: after) = none := by
  have notHigh : ¬ (0xd800 ≤ half ∧ half < 0xdc00) := by omega
  have surrogate : 0xd800 ≤ half ∧ half < 0xe000 := by omega
  match after with
  | [] => simp only [join?, if_pos surrogate]
  | .char _ :: _ => simp only [join?, if_pos surrogate]
  | .codeUnit _ :: _ => simp only [join?, if_neg notHigh, if_pos h]

/-- Two second halves of surrogate pairs in a row are no text, whatever stands around them. -/
theorem join?_halves {half : Nat} (h : 0xdc00 ≤ half ∧ half < 0xe000) (before after : List Piece) :
    join? (before ++ .codeUnit half :: .codeUnit half :: after) = none := by
  have last (value : Nat) : join? (.codeUnit value :: .codeUnit half :: .codeUnit half :: after) =
      none := by
    rw [join?]
    split
    · rw [join?_low h, Option.map_none]
    · rw [join?_low h, Option.map_none, ite_self]
  fun_induction join? before with
  | case1 => exact join?_low h _
  | case2 c rest ih => rw [List.cons_append, join?, ih, Option.map_none]
  | case3 high low rest first second ih =>
    rw [List.cons_append, List.cons_append, join?, if_pos first, if_pos second, ih, Option.map_none]
  | case4 high low rest first second =>
    rw [List.cons_append, List.cons_append, join?, if_pos first, if_neg second]
  | case5 high low rest notFirst second =>
    rw [List.cons_append, List.cons_append, join?, if_neg notFirst, if_pos second]
  | case6 high low rest notFirst notSecond ih =>
    rw [List.cons_append, List.cons_append, join?, if_neg notFirst, if_neg notSecond,
      ← List.cons_append, ih, Option.map_none]
  | case7 value rest notUnit alone =>
    match rest with
    | [] => exact last value
    | .char _ :: _ => simp only [List.cons_append, join?, if_pos alone]
    | .codeUnit low :: further => exact absurd rfl (notUnit low further)
  | case8 value rest notUnit whole ih =>
    match rest with
    | [] => exact last value
    | .char _ :: _ =>
      rw [List.cons_append] at ih
      simp only [List.cons_append, join?, if_neg whole, Option.map_eq_none_iff]
      simpa only [join?, Option.map_eq_none_iff] using ih
    | .codeUnit low :: further => exact absurd rfl (notUnit low further)

/-! ## Numbers -/

/-- The fraction of a number, if one starts here: a point and at least one digit. -/
def fraction? : List Char → Option (Option (List Char) × List Char)
  | '.' :: rest =>
    if rest.takeWhile Char.isDigit = [] then none
    else some (some (rest.takeWhile Char.isDigit), rest.dropWhile Char.isDigit)
  | rest => some (none, rest)

/-- The power of ten of a number, if one starts here: `e`, a sign and at least one digit. -/
def power? : List Char → Option (Option Int × List Char)
  | [] => some (none, [])
  | mark :: rest =>
    if mark = 'e' ∨ mark = 'E' then
      let (negative, digits) := Binary64.splitSign rest
      let value : Int := Binary64.valueOfDigits (digits.takeWhile Char.isDigit)
      if digits.takeWhile Char.isDigit = [] then none
      else some (some (if negative then -value else value), digits.dropWhile Char.isDigit)
    else some (none, mark :: rest)

/-- The sign of a number, and what follows it. -/
def signOf : List Char → Bool × List Char
  | '-' :: rest => (true, rest)
  | unsigned => (false, unsigned)

/-- The digits before the point of a number, and what follows them. A run of digits that starts with `0`
is cut after the `0`; no reader accepts two numbers in a row. -/
def wholeOf : List Char → List Char × List Char
  | '0' :: rest => (['0'], rest)
  | chars => (chars.takeWhile Char.isDigit, chars.dropWhile Char.isDigit)

/-- The number that starts here and what follows it. -/
def numeral? (text : List Char) : Option (Numeral × List Char) :=
  let (negative, unsigned) := signOf text
  let (whole, afterWhole) := wholeOf unsigned
  if whole = [] then none
  else match fraction? afterWhole with
    | none => none
    | some (fraction, afterFraction) =>
      match power? afterFraction with
      | none => none
      | some (exponent, rest) => some (⟨negative, whole, fraction, exponent⟩, rest)

/-! ## Lexemes -/

/-- The lexeme that starts a text which does not start with a blank, and what follows it. -/
def lexeme (c : Char) (rest : List Char) : Token × List Char :=
  match c with
  | '\x7b' => (.openObject, rest)
  | '\x7d' => (.closeObject, rest)
  | '[' => (.openArray, rest)
  | ']' => (.closeArray, rest)
  | ':' => (.colon, rest)
  | ',' => (.comma, rest)
  | '\x22' =>
    match pieces? rest with
    | some (pieces, after) => (.text ((join? pieces).map String.ofList), after)
    | none => (.bad, [])
  | 'n' => if ['u', 'l', 'l'].isPrefixOf rest then (.null, rest.drop 3) else (.bad, [])
  | 't' => if ['r', 'u', 'e'].isPrefixOf rest then (.boolean true, rest.drop 3) else (.bad, [])
  | 'f' =>
    if ['a', 'l', 's', 'e'].isPrefixOf rest then (.boolean false, rest.drop 4) else (.bad, [])
  | _ =>
    match numeral? (c :: rest) with
    | some (numeral, after) => (.number numeral, after)
    | none => (.bad, [])

/-- Blanks between lexemes: space, tab, line feed and carriage return. -/
def isGap (c : Char) : Bool := c == ' ' || c == '\t' || c == '\n' || c == '\r'

end Token

/-- The lexemes of a text, as far as `fuel` characters; each step takes at least one. -/
def tokensWithin : Nat → List Char → List Token
  | 0, _ => []
  | _, [] => []
  | fuel + 1, c :: rest =>
    if Token.isGap c then tokensWithin fuel rest
    else
      let (token, after) := Token.lexeme c rest
      token :: tokensWithin fuel after

/-- The lexemes of a text. -/
def tokens (text : List Char) : List Token := tokensWithin text.length text

end ScanChain.Json
