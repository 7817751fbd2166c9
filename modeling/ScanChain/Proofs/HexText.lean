/-
# ScanChain.Proofs.HexText — bit strings through hexadecimal text

The text of a bit string has one digit for each four bits it starts, so that reading it back keeps the
number and rounds the width up to whole digits (`ofFileText_toHex`). Nothing of a text that is written
is dropped by the reader: no blank, no underscore and no mark of the base is among its characters. The
bit string without bits has the empty text, which a data file takes for just this one.
-/
import ScanChain.BitString.Hex
import ScanChain.BitString.Lemmas

namespace ScanChain

/-- The bytes of characters below 128 are their numbers. -/
theorem Text.utf8_ofList_of_ascii {chars : List Char} (h : ∀ c ∈ chars, c.toNat < 128) :
    utf8 (String.ofList chars) = chars.map fun c => UInt8.ofNat c.toNat := by
  rw [utf8_eq_flatMap, String.toList_ofList]
  induction chars with
  | nil => rfl
  | cons c chars ih =>
    have hc : String.utf8EncodeChar c = [UInt8.ofNat c.toNat] := by
      have hlow : c.val.toNat ≤ 127 := Nat.le_of_lt_succ (h c (by simp))
      simp only [String.utf8EncodeChar, if_pos hlow]
      rfl
    rw [List.flatMap_cons, hc, ih fun c hc => h c (by simp [hc]), List.map_cons]
    rfl

/-- A text without blanks is not trimmed. -/
theorem Text.trim_of_no_blank {chars : List Char} (h : ∀ c ∈ chars, isBlank c = false) :
    trim chars = chars := by
  have hkeep : ∀ text : List Char, (∀ c ∈ text, isBlank c = false) →
      text.dropWhile isBlank = text := by
    intro text htext
    cases text with
    | nil => rfl
    | cons c text => rw [List.dropWhile_cons, if_neg (by simp [htext c])]
  rw [trim, hkeep chars h, hkeep chars.reverse (by simpa using h), List.reverse_reverse]

namespace BitString

/-! ## Digits -/

/-- What the reader asks of the characters of a text, and finds in each that is written. -/
def IsDigit (c : Char) : Prop :=
  c.toNat < 128 ∧ Text.isBlank c = false ∧ c ≠ '_' ∧ c ≠ 'x' ∧ c ≠ 'X'

theorem isDigit_hexDigit (a b c d : Bool) : IsDigit (hexDigit a b c d) := by
  cases a <;> cases b <;> cases c <;> cases d <;> simp [IsDigit, hexDigit] <;> decide

theorem isDigit_of_mem_hexDigitsOf {bits : List Bool} {c : Char} (h : c ∈ hexDigitsOf bits) :
    IsDigit c := by
  fun_induction hexDigitsOf bits with
  | case1 => cases h
  | case2 => exact List.mem_singleton.mp h ▸ isDigit_hexDigit ..
  | case3 => exact List.mem_singleton.mp h ▸ isDigit_hexDigit ..
  | case4 => exact List.mem_singleton.mp h ▸ isDigit_hexDigit ..
  | case5 a b c d rest ih =>
    rcases List.mem_cons.mp h with rfl | h
    · exact isDigit_hexDigit ..
    · exact ih h

/-- A digit is read as the bits that it is written for. -/
theorem nibble?_hexDigit (a b c d : Bool) :
    nibble? (UInt8.ofNat (hexDigit a b c d).toNat) = some [d, c, b, a] := by
  cases a <;> cases b <;> cases c <;> cases d <;> decide

theorem nibbles_append {first second : List UInt8} {high low : List Bool} {place : Nat}
    (hhigh : nibbles place first = .ok high) (hlow : ∀ place, nibbles place second = .ok low) :
    nibbles place (first ++ second) = .ok (high ++ low) := by
  induction first generalizing place high with
  | nil =>
    cases hhigh
    exact hlow place
  | cons byte first ih =>
    rw [nibbles] at hhigh
    rw [List.cons_append, nibbles]
    cases hbyte : nibble? byte with
    | none =>
      rw [hbyte] at hhigh
      cases hhigh
    | some bits =>
      cases hfirst : nibbles (place + 1) first with
      | error fault =>
        rw [hbyte, hfirst] at hhigh
        cases hhigh
      | ok more =>
        rw [hbyte, hfirst] at hhigh
        cases hhigh
        simp only [ih hfirst]
        rw [Except.map, List.append_assoc]

theorem nibbles_hexDigit (a b c d : Bool) (place : Nat) :
    nibbles place [UInt8.ofNat (hexDigit a b c d).toNat] = .ok [d, c, b, a] := by
  simp only [nibbles, nibble?_hexDigit]
  rfl

/-- The digits of bits are read as the bits with zeros above them, up to whole digits. -/
theorem exists_nibbles_hexDigitsOf (bits : List Bool) :
    ∃ count, (bits ++ List.replicate count false).length = 4 * ((bits.length + 3) / 4) ∧
      ∀ place, nibbles place ((hexDigitsOf bits).reverse.map fun c => UInt8.ofNat c.toNat) =
        .ok (bits ++ List.replicate count false).reverse := by
  fun_induction hexDigitsOf bits with
  | case1 => exact ⟨0, rfl, fun _ => rfl⟩
  | case2 a => exact ⟨3, by simp, nibbles_hexDigit a false false false⟩
  | case3 a b => exact ⟨2, by simp, nibbles_hexDigit a b false false⟩
  | case4 a b c => exact ⟨1, by simp, nibbles_hexDigit a b c false⟩
  | case5 a b c d rest ih =>
    obtain ⟨count, hlength, hread⟩ := ih
    refine ⟨count, ?_, ?_⟩
    · simp only [List.cons_append, List.length_cons, hlength]
      omega
    · intro place
      rw [List.reverse_cons, List.map_append]
      have hboth := nibbles_append (hread place) (nibbles_hexDigit a b c d)
      simpa using hboth

/-! ## Texts -/

/-- The number of a bit string at a width of whole digits. -/
def wholeDigits (b : BitString) : BitString := ofNat b.toNat (4 * ((b.width + 3) / 4))

theorem width_wholeDigits (b : BitString) : b.wholeDigits.width = 4 * ((b.width + 3) / 4) :=
  width_ofNat ..

theorem toNat_wholeDigits (b : BitString) : b.wholeDigits.toNat = b.toNat := by
  refine toNat_ofNat_of_lt (Nat.lt_of_lt_of_le b.toNat_lt ?_)
  exact Nat.pow_le_pow_right (by decide) (by omega)

/-- Only a bit string of whole digits is its own rounding. -/
theorem wholeDigits_eq_iff {b : BitString} : b.wholeDigits = b ↔ 4 ∣ b.width := by
  constructor
  · intro h
    rw [← h, width_wholeDigits]
    exact Nat.dvd_mul_right 4 _
  · intro h
    refine eq_of_toNat_eq ?_ b.toNat_wholeDigits
    rw [width_wholeDigits]
    omega

/-- Zeros above the bits are no part of the number. -/
theorem toNat_append_replicate (bits : List Bool) (count : Nat) :
    (⟨bits ++ List.replicate count false⟩ : BitString).toNat = (⟨bits⟩ : BitString).toNat := by
  induction bits with
  | nil => exact toNat_zeros count
  | cons bit bits ih => rw [List.cons_append, toNat_cons, toNat_cons, ih]

/-- The digits of a bit string are read as its number, at a width of whole digits. -/
theorem nibbles_hexDigitsOf (b : BitString) (place : Nat) :
    nibbles place ((hexDigitsOf b.bits).reverse.map fun c => UInt8.ofNat c.toNat) =
      .ok b.wholeDigits.msbFirst := by
  obtain ⟨count, hlength, hread⟩ := exists_nibbles_hexDigitsOf b.bits
  have hpadded : (⟨b.bits ++ List.replicate count false⟩ : BitString) = b.wholeDigits :=
    eq_of_toNat_eq (hlength.trans b.width_wholeDigits.symm)
      ((toNat_append_replicate _ _).trans b.toNat_wholeDigits.symm)
  rw [hread, ← hpadded]
  rfl

theorem isDigit_of_mem_toHex {b : BitString} {c : Char} (h : c ∈ b.toHex.toList) : IsDigit c := by
  rw [toHex, String.toList_ofList, List.mem_reverse] at h
  exact isDigit_of_mem_hexDigitsOf h

/-- Only a bit string without bits has a text without digits. -/
theorem toList_toHex_eq_nil_iff {b : BitString} : b.toHex.toList = [] ↔ b.width = 0 := by
  rw [toHex, String.toList_ofList, List.reverse_eq_nil_iff, width, List.length_eq_zero_iff]
  fun_cases hexDigitsOf b.bits <;> simp

/-- Nothing of a text that is written is dropped. -/
theorem digitsOf_toHex (b : BitString) : digitsOf b.toHex = b.toHex.toList := by
  have hdigit : ∀ c ∈ b.toHex.toList, IsDigit c := fun c hc => isDigit_of_mem_toHex hc
  unfold digitsOf
  rw [Text.trim_of_no_blank fun c hc => (hdigit c hc).2.1]
  generalize b.toHex.toList = digits at hdigit
  dsimp only
  split
  · exact absurd rfl (hdigit 'x' (by simp)).2.2.2.1
  · exact absurd rfl (hdigit 'X' (by simp)).2.2.2.2
  · rw [List.filter_eq_self]
    intro c hc
    simpa using (hdigit c hc).2.2.1

theorem ofHex_toHex {b : BitString} (hne : b.toHex.toList ≠ []) :
    ofHex b.toHex = .ok b.wholeDigits := by
  have hbytes : Text.utf8 (String.ofList (digitsOf b.toHex)) =
      (hexDigitsOf b.bits).reverse.map fun c => UInt8.ofNat c.toNat := by
    rw [digitsOf_toHex, Text.utf8_ofList_of_ascii fun c hc => (isDigit_of_mem_toHex hc).1, toHex,
      String.toList_ofList]
  have hsome : ¬ ((hexDigitsOf b.bits).reverse.map fun c => UInt8.ofNat c.toNat).isEmpty := by
    rw [toHex, String.toList_ofList] at hne
    rwa [List.isEmpty_iff, List.map_eq_nil_iff]
  unfold ofHex
  simp only [hbytes, if_neg hsome, nibbles_hexDigitsOf, ofMsbFirst_msbFirst]

/-- The text of a bit string in a data file is read as its number, at a width of whole digits. -/
theorem ofFileText_toHex (b : BitString) : ofFileText b.toHex = .ok b.wholeDigits := by
  rw [ofFileText, Text.trim_of_no_blank fun c hc => (isDigit_of_mem_toHex hc).2.1]
  split
  · next hempty =>
    rw [List.isEmpty_iff, toList_toHex_eq_nil_iff] at hempty
    obtain ⟨bits⟩ := b
    obtain rfl : bits = [] := List.length_eq_zero_iff.mp hempty
    rfl
  · next hsome =>
    rw [List.isEmpty_iff] at hsome
    exact ofHex_toHex hsome

end BitString
end ScanChain
