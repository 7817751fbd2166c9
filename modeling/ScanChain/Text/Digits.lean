/-
# ScanChain.Text.Digits — numbers as aligned text

Words print as eight hexadecimal digits behind `0x`, so that a column of them lines up and each
digit is four bits of the word, most significant first. Names and counts in tables are padded with
spaces to a column width; a text that is already wider is left as it is.
-/

namespace ScanChain.Text

/-- The low `4 * count` bits of `n` as `count` lower-case hexadecimal digits, the highest first. -/
def hexDigits (count n : Nat) : List Char :=
  (List.range count).reverse.map fun i => Nat.digitChar (n >>> (4 * i) % 16)

/-- A word as `0x` and eight digits. -/
def hexWord (word : UInt32) : String :=
  "0x" ++ String.ofList (hexDigits 8 word.toNat)

/-- The text with spaces before it up to the column width. -/
def padLeft (width : Nat) (text : String) : String :=
  String.ofList (List.replicate (width - text.length) ' ') ++ text

/-- The text with spaces after it up to the column width. -/
def padRight (width : Nat) (text : String) : String :=
  text ++ String.ofList (List.replicate (width - text.length) ' ')

@[simp] theorem length_hexDigits (count n : Nat) : (hexDigits count n).length = count := by
  simp [hexDigits]

end ScanChain.Text
