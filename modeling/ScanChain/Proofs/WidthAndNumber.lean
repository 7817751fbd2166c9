/-
# ScanChain.Proofs.WidthAndNumber — everything a bit string does, said of its width and its number

A bit string is made from bits, from a number at a width, or from a number alone, and is read as a
number, as its significant width, as bits and as text. All of these speak of one pair: the width, and
a number below its power of two. `Is` names the pair, `toNat_eq_sum` says what the bits weigh, and each
operation has its equation with the pair on both sides. The pair can be seen in print: the text starts
with the decimal digits of the width, and the hexadecimal digits after it have one reading
(`display_inj`).
-/
import Mathlib.Algebra.BigOperators.Ring.Finset
import Mathlib.Data.Nat.Digits.Defs
import Mathlib.Data.Nat.Size
import ScanChain.Proofs.HexText

namespace ScanChain.BitString

/-- The bit string has a width and stands for a number. -/
structure Is (b : BitString) (width number : Nat) : Prop where
  width_eq : b.width = width
  toNat_eq : b.toNat = number

variable {b c : BitString} {w n : Nat}

/-! ## The pair -/

theorem eq_iff : b = c ↔ b.width = c.width ∧ b.toNat = c.toNat :=
  ⟨fun h => h ▸ ⟨rfl, rfl⟩, fun h => eq_of_toNat_eq h.1 h.2⟩

theorem is_ofNat (h : n < 2 ^ w) : (ofNat n w).Is w n :=
  ⟨width_ofNat .., toNat_ofNat_of_lt h⟩

/-- The numbers of the bit strings of a width are those with room at it. -/
theorem exists_is_iff : (∃ b : BitString, b.Is w n) ↔ n < 2 ^ w := by
  constructor
  · rintro ⟨b, rfl, rfl⟩
    exact b.toNat_lt
  · intro h
    exact ⟨_, is_ofNat h⟩

theorem is_iff (h : n < 2 ^ w) : c.Is w n ↔ c = ofNat n w := by
  constructor
  · rintro ⟨hwidth, hnumber⟩
    rw [eq_iff, width_ofNat, toNat_ofNat_of_lt h]
    exact ⟨hwidth, hnumber⟩
  · rintro rfl
    exact is_ofNat h

/-! ## The number of the bits -/

/-- Bit `i` weighs `2 ^ i`. -/
theorem toNat_eq_sum (b : BitString) :
    b.toNat = ∑ i ∈ Finset.range b.width, (b.get i).toNat * 2 ^ i := by
  obtain ⟨bits⟩ := b
  induction bits with
  | nil => rfl
  | cons bit bits ih =>
    have hhigh (i : Nat) : ((⟨bit :: bits⟩ : BitString).get (i + 1)).toNat * 2 ^ (i + 1) =
        2 * (((⟨bits⟩ : BitString).get i).toNat * 2 ^ i) := by
      rw [Nat.pow_succ, ← Nat.mul_assoc, Nat.mul_comm]
      rfl
    rw [toNat_cons, ih]
    show _ = ∑ i ∈ Finset.range (bits.length + 1), _
    rw [Finset.sum_range_succ']
    simp only [hhigh, ← Finset.mul_sum]
    rw [Nat.pow_zero, Nat.mul_one, Nat.add_comm]
    rfl

/-- The bits are the digits of the number to base two. -/
theorem toNat_eq_ofDigits (b : BitString) :
    b.toNat = Nat.ofDigits 2 (b.bits.map Bool.toNat) := by
  obtain ⟨bits⟩ := b
  induction bits with
  | nil => rfl
  | cons bit bits ih =>
    rw [toNat_cons, ih, List.map_cons, Nat.ofDigits_cons]

/-- The bits of a number after some places are shifted in: those it had, and these places. -/
theorem testBit_foldl_or (places : List Nat) (n j : Nat) :
    (places.foldl (fun n i => n ||| 1 <<< i) n).testBit j =
      (n.testBit j || decide (j ∈ places)) := by
  induction places generalizing n with
  | nil => simp
  | cons i places ih =>
    have hbit : (1 <<< i : Nat).testBit j = decide (j = i) := by
      rw [Nat.one_shiftLeft, Nat.testBit_two_pow]
      exact decide_eq_decide.mpr eq_comm
    rw [List.foldl_cons, ih, Nat.testBit_or, hbit, Bool.or_assoc]
    simp

/-- The number is what the places of the set bits give when each is shifted in. -/
theorem toNat_eq_foldl_or (b : BitString) :
    b.toNat = ((List.range b.width).filter b.get).foldl (fun n i => n ||| 1 <<< i) 0 := by
  refine Nat.eq_of_testBit_eq fun j => ?_
  rw [testBit_foldl_or, testBit_toNat, Nat.zero_testBit, Bool.false_or]
  by_cases hj : j < b.width
  · simp [hj]
  · simp [hj, get_of_width_le b (Nat.le_of_not_lt hj)]

theorem toNat_ofMsbFirst (bits : List Bool) :
    (ofMsbFirst bits).toNat = Nat.ofDigits 2 (bits.reverse.map Bool.toNat) :=
  toNat_eq_ofDigits _

theorem isAllZero_iff : b.isAllZero = true ↔ b.toNat = 0 := by
  have hbits : b.isAllZero = true ↔ b = zeros b.width := by
    obtain ⟨bits⟩ := b
    simp [isAllZero, zeros, width, List.eq_replicate_iff]
  rw [hbits, eq_iff, width_zeros, toNat_zeros]
  exact and_iff_right rfl

theorem isAllOne_iff : b.isAllOne = true ↔ b.toNat = 2 ^ b.width - 1 := by
  have hbits : b.isAllOne = true ↔ b = ones b.width := by
    obtain ⟨bits⟩ := b
    simp [isAllOne, ones, width, List.eq_replicate_iff]
  rw [hbits, eq_iff, width_ones, toNat_ones]
  exact and_iff_right rfl

/-! ## Significant bits -/

theorem bitLength_eq_size (n : Nat) : bitLength n = n.size := by
  apply Nat.le_antisymm
  · exact (bitLength_le_iff n _).mpr (Nat.size_le.mp (Nat.le_refl _))
  · exact Nat.size_le.mpr ((bitLength_le_iff n _).mp (Nat.le_refl _))

/-- A number has room at its own bit length, and zero at one bit. -/
theorem is_ofNatTight (n : Nat) : (ofNatTight n).Is (max 1 n.size) n := by
  rw [ofNatTight, bitLength_eq_size]
  exact is_ofNat (Nat.size_le.mp (Nat.le_max_right ..))

theorem toNat64?_eq_some_iff : b.toNat64? = some n ↔ n = b.toNat ∧ n < 2 ^ 64 := by
  have hroom := significantWidth_le_iff b 64
  unfold toNat64?
  split
  · rename_i hwide
    refine iff_of_false nofun ?_
    rintro ⟨rfl, hlt⟩
    exact absurd (hroom.mpr hlt) (Nat.not_le.mpr hwide)
  · rename_i hfits
    rw [Option.some.injEq]
    constructor
    · rintro rfl
      exact ⟨rfl, hroom.mp (Nat.not_lt.mp hfits)⟩
    · exact fun h => h.1.symm

theorem fitTo?_eq_some_iff_is : b.fitTo? w = some c ↔ b.toNat < 2 ^ w ∧ c.Is w b.toNat := by
  rw [fitTo?_eq_some_iff]
  exact and_congr_right fun h => (is_iff h).symm

/-! ## One bit replaced -/

theorem get_set (b : BitString) (i j : Nat) (bit : Bool) (hi : i < b.width) :
    (⟨b.bits.set i bit⟩ : BitString).get j = if j = i then bit else b.get j := by
  rw [width] at hi
  simp only [get, List.getD_eq_getElem?_getD, List.getElem?_set]
  by_cases h : i = j
  · subst h
    simp [hi]
  · simp [h, Ne.symm h]

/-- Where there is a bit to replace, this bit is the only one that changes. -/
theorem set?_eq_some_iff {i : Nat} {bit : Bool} :
    b.set? i bit = some c ↔ i < b.width ∧ c.width = b.width ∧
      ∀ j, c.get j = if j = i then bit else b.get j := by
  unfold set?
  split
  · rename_i hi
    have hwidth : (⟨b.bits.set i bit⟩ : BitString).width = b.width := List.length_set
    rw [Option.some.injEq]
    constructor
    · rintro rfl
      exact ⟨hi, hwidth, fun j => get_set b i j bit hi⟩
    · rintro ⟨-, hsame, hget⟩
      refine ext_get (hwidth.trans hsame.symm) fun j => ?_
      rw [get_set b i j bit hi, hget]
  · rename_i hi
    exact iff_of_false nofun fun h => hi h.1

/-! ## Text -/

/-- Hexadecimal digits have one reading, though not one width. -/
theorem toNat_eq_of_toHex_eq (h : b.toHex = c.toHex) : b.toNat = c.toNat := by
  have hread := congrArg ofFileText h
  rw [ofFileText_toHex, ofFileText_toHex] at hread
  rw [← toNat_wholeDigits b, ← toNat_wholeDigits c, Except.ok.inj hread]

/-- The decimal digits of a width end where the mark of the base starts. -/
theorem takeWhile_display (b : BitString) :
    b.display.toList.takeWhile Char.isDigit = Nat.toDigits 10 b.width := by
  have hdigit : ∀ c ∈ Nat.toDigits 10 b.width, c.isDigit = true := fun c hc =>
    Nat.isDigit_of_mem_toDigits (by decide) (by decide) hc
  have htext : b.display.toList = Nat.toDigits 10 b.width ++ '\'' :: 'h' :: b.toHex.toList := by
    rw [display, Nat.toString_eq_ofList_toDigits]
    simp
  rw [htext, List.takeWhile_append_of_pos hdigit, List.takeWhile_cons_of_neg (by decide),
    List.append_nil]

/-- The text of a bit string is the text of no other. -/
theorem display_inj : b.display = c.display ↔ b = c := by
  constructor
  · intro h
    have hdigits : Nat.toDigits 10 b.width = Nat.toDigits 10 c.width := by
      rw [← takeWhile_display, ← takeWhile_display, h]
    have hwidth : b.width = c.width :=
      calc b.width
          = Nat.ofDigitChars 10 (Nat.toDigits 10 b.width) 0 := Nat.ofDigitChars_ten_toDigits.symm
        _ = Nat.ofDigitChars 10 (Nat.toDigits 10 c.width) 0 := by rw [hdigits]
        _ = c.width := Nat.ofDigitChars_ten_toDigits
    rw [display, display, hwidth, String.append_right_inj] at h
    exact eq_of_toNat_eq hwidth (toNat_eq_of_toHex_eq h)
  · rintro rfl
    rfl

/-- A bit string is a width and a number below its power of two, and each operation does to the pair
what it is named for. -/
theorem faithful_width_and_number (b c : BitString) (bits : List Bool) (w n i : Nat) (bit : Bool) :
    -- The bits, the number and the pair.
    b.toNat = ∑ i ∈ Finset.range b.width, (b.get i).toNat * 2 ^ i ∧
    b.toNat = ((List.range b.width).filter b.get).foldl (fun n i => n ||| 1 <<< i) 0 ∧
    b.get i = b.toNat.testBit i ∧
    ((∃ b : BitString, b.Is w n) ↔ n < 2 ^ w) ∧
    (b = c ↔ b.width = c.width ∧ b.toNat = c.toNat) ∧
    -- What makes a bit string.
    (zeros w).Is w 0 ∧ (ones w).Is w (2 ^ w - 1) ∧
    (ofNat n w).Is w (n % 2 ^ w) ∧
    (ofNatTight n).Is (max 1 n.size) n ∧
    (ofMsbFirst bits).Is bits.length (Nat.ofDigits 2 (bits.reverse.map Bool.toNat)) ∧
    (ofMsbFirst bits).msbFirst = bits ∧ ofMsbFirst b.msbFirst = b ∧
    -- What is read from it.
    b.significantWidth = b.toNat.size ∧ bitLength n = n.size ∧
    (b.toNat64? = some n ↔ n = b.toNat ∧ n < 2 ^ 64) ∧
    (b.isAllZero ↔ b.toNat = 0) ∧ (b.isAllOne ↔ b.toNat = 2 ^ b.width - 1) ∧
    (b.display = c.display ↔ b = c) ∧
    -- What makes another of it.
    (b.fitTo? w = some c ↔ b.toNat < 2 ^ w ∧ c.Is w b.toNat) ∧
    (b.set? i bit = some c ↔
      i < b.width ∧ c.width = b.width ∧ ∀ j, c.get j = if j = i then bit else b.get j) := by
  refine ⟨toNat_eq_sum b, toNat_eq_foldl_or b, (testBit_toNat b i).symm, exists_is_iff, eq_iff,
    ⟨width_zeros w, toNat_zeros w⟩, ⟨width_ones w, toNat_ones w⟩,
    ⟨width_ofNat n w, toNat_ofNat n w⟩, is_ofNatTight n,
    ⟨width_ofMsbFirst bits, toNat_ofMsbFirst bits⟩, msbFirst_ofMsbFirst bits,
    ofMsbFirst_msbFirst b, ?_, bitLength_eq_size n, toNat64?_eq_some_iff, isAllZero_iff,
    isAllOne_iff, display_inj, fitTo?_eq_some_iff_is, set?_eq_some_iff⟩
  rw [significantWidth_eq, bitLength_eq_size]

end ScanChain.BitString
