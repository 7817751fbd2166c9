/-
# ScanChain.BitString.Lemmas — a bit string is a width and a number below its power of two

`toNat` is the view through which bit strings are reasoned about. `testBit_toNat` says that it keeps
every bit, so two bit strings of one width are equal as soon as their numbers are
(`eq_of_toNat_eq`). `toNat_ofNat` says what a number becomes at a width, `significantWidth_eq` that
leading zeros are counted off exactly, and `fitTo?_eq_some_iff` that a change of width succeeds exactly
where the number has room.
-/
import ScanChain.BitString.Basic

namespace ScanChain.BitString

/-! ## Bits of the number -/

theorem toNat_nil : (⟨[]⟩ : BitString).toNat = 0 := rfl

theorem toNat_cons (bit : Bool) (bits : List Bool) :
    (⟨bit :: bits⟩ : BitString).toNat = bit.toNat + 2 * (⟨bits⟩ : BitString).toNat := rfl

/-- Bit `i` of the number is bit `i` of the string. -/
theorem testBit_toNat (b : BitString) (i : Nat) : b.toNat.testBit i = b.get i := by
  rcases b with ⟨bits⟩
  induction bits generalizing i with
  | nil => simp [toNat_nil, get]
  | cons bit bits ih =>
    rw [toNat_cons]
    cases i with
    | zero =>
      rw [Nat.testBit_zero]
      cases bit <;> simp [get]
    | succ i =>
      have half : (bit.toNat + 2 * (⟨bits⟩ : BitString).toNat) / 2 = (⟨bits⟩ : BitString).toNat := by
        have := bit.toNat_lt
        omega
      rw [Nat.testBit_succ, half, ih i]
      simp [get]

/-- Past the width no bit is set. -/
theorem get_of_width_le (b : BitString) {i : Nat} (h : b.width ≤ i) : b.get i = false := by
  rw [width] at h
  simp [get, List.getD_eq_getElem?_getD, List.getElem?_eq_none h]

/-- The number is below the power of two of the width. -/
theorem toNat_lt (b : BitString) : b.toNat < 2 ^ b.width := by
  refine Nat.lt_pow_two_of_testBit _ fun i h => ?_
  rw [testBit_toNat, get_of_width_le b h]

/-- Bit strings of one width with the same bits are equal. -/
theorem ext_get {b c : BitString} (width : b.width = c.width) (bit : ∀ i, b.get i = c.get i) :
    b = c := by
  rcases b with ⟨bs⟩
  rcases c with ⟨cs⟩
  simp only [BitString.width, get] at width bit
  congr 1
  refine List.ext_getElem width fun i hb hc => ?_
  have := bit i
  simpa [List.getD_eq_getElem?_getD, hb, hc] using this

/-- Bit strings of one width that stand for one number are equal. -/
theorem eq_of_toNat_eq {b c : BitString} (width : b.width = c.width) (number : b.toNat = c.toNat) :
    b = c :=
  ext_get width fun i => by rw [← testBit_toNat, ← testBit_toNat, number]

/-! ## Numbers at a width -/

theorem get_ofNat (n w i : Nat) : (ofNat n w).get i = (decide (i < w) && n.testBit i) := by
  by_cases h : i < w
  · simp [get, ofNat, List.getD_eq_getElem?_getD, h]
  · simp [get, ofNat, List.getD_eq_getElem?_getD, h]

/-- A number at a width keeps its low bits. -/
theorem toNat_ofNat (n w : Nat) : (ofNat n w).toNat = n % 2 ^ w := by
  refine Nat.eq_of_testBit_eq fun i => ?_
  rw [testBit_toNat, get_ofNat, Nat.testBit_mod_two_pow]

/-- A number with room at a width is kept. -/
theorem toNat_ofNat_of_lt {n w : Nat} (h : n < 2 ^ w) : (ofNat n w).toNat = n := by
  rw [toNat_ofNat, Nat.mod_eq_of_lt h]

/-- A bit string is its number at its width. -/
theorem ofNat_toNat (b : BitString) : ofNat b.toNat b.width = b :=
  eq_of_toNat_eq (width_ofNat ..) (toNat_ofNat_of_lt b.toNat_lt)

theorem toNat_zeros (w : Nat) : (zeros w).toNat = 0 := by
  refine Nat.eq_of_testBit_eq fun i => ?_
  rw [testBit_toNat]
  by_cases h : i < w <;> simp [get, zeros, List.getD_eq_getElem?_getD, h]

theorem toNat_ones (w : Nat) : (ones w).toNat = 2 ^ w - 1 := by
  refine Nat.eq_of_testBit_eq fun i => ?_
  rw [testBit_toNat, Nat.testBit_two_pow_sub_one]
  by_cases h : i < w <;> simp [get, ones, List.getD_eq_getElem?_getD, h]

/-! ## Significant width -/

/-- A number has at most `w` binary digits exactly if it is below `2 ^ w`. -/
theorem bitLength_le_iff (n w : Nat) : bitLength n ≤ w ↔ n < 2 ^ w := by
  by_cases h : n = 0
  · subst h
    exact ⟨fun _ => Nat.two_pow_pos w, fun _ => Nat.zero_le w⟩
  · simp only [bitLength, h, if_false]
    rw [Nat.succ_le_iff, Nat.log2_lt h]

/-- What is left of a list without its leading zeros has at most `w` bits exactly if no bit from place
`w` up is set. -/
theorem length_dropWhile_le_iff (bits : List Bool) (w : Nat) :
    (bits.dropWhile (!·)).length ≤ w ↔ ∀ i, w ≤ i → bits.reverse.getD i false = false := by
  induction bits with
  | nil => simp
  | cons bit bits ih =>
    cases bit with
    | false =>
      have same (i : Nat) :
          ((false :: bits).reverse).getD i false = bits.reverse.getD i false := by
        simp only [List.reverse_cons, List.getD_eq_getElem?_getD]
        by_cases h : i < bits.reverse.length
        · rw [List.getElem?_append_left h]
        · have none : bits.reverse[i]? = none := List.getElem?_eq_none (by omega)
          rw [List.getElem?_append_right (by omega), none]
          cases i - bits.reverse.length <;> simp
      simp only [same]
      simpa using ih
    | true =>
      simp only [List.dropWhile_cons, Bool.not_true, Bool.false_eq_true, if_false, List.length_cons]
      constructor
      · intro le i hi
        rw [List.getD_eq_getElem?_getD, List.getElem?_eq_none (by simp; omega)]
        rfl
      · intro clear
        refine Decidable.byContradiction fun lt => ?_
        have top := clear bits.length (by simp at lt; omega)
        simp [List.getD_eq_getElem?_getD] at top

/-- The significant width is at most `w` exactly if the number is below `2 ^ w`. -/
theorem significantWidth_le_iff (b : BitString) (w : Nat) :
    b.significantWidth ≤ w ↔ b.toNat < 2 ^ w := by
  rw [significantWidth, length_dropWhile_le_iff]
  simp only [msbFirst, List.reverse_reverse]
  constructor
  · intro clear
    refine Nat.lt_pow_two_of_testBit _ fun i h => ?_
    rw [testBit_toNat]
    exact clear i h
  · intro lt i h
    have := testBit_toNat b i
    rw [Nat.testBit_lt_two_pow (Nat.lt_of_lt_of_le lt (Nat.pow_le_pow_right (by decide) h))] at this
    exact this.symm

/-- The significant width is the number of binary digits. -/
theorem significantWidth_eq (b : BitString) : b.significantWidth = bitLength b.toNat := by
  apply Nat.le_antisymm
  · exact (significantWidth_le_iff b _).mpr ((bitLength_le_iff _ _).mp (Nat.le_refl _))
  · exact (bitLength_le_iff _ _).mpr ((significantWidth_le_iff b _).mp (Nat.le_refl _))

/-! ## Change of width -/

theorem get_resize (b : BitString) (w i : Nat) :
    (⟨b.bits.take w ++ List.replicate (w - b.width) false⟩ : BitString).get i =
      (decide (i < w) && b.get i) := by
  simp only [get, List.getD_eq_getElem?_getD, width]
  rcases Nat.lt_or_ge i w with h | h
  · rcases Nat.lt_or_ge i b.bits.length with hb | hb
    · rw [List.getElem?_append_left (by simp; omega)]
      simp [h, hb]
    · rw [List.getElem?_append_right (by simp; omega)]
      have : b.bits[i]? = none := List.getElem?_eq_none hb
      simp only [this, List.length_take, Option.getD_none, Bool.and_false]
      rw [List.getElem?_replicate]
      split <;> rfl
  · rw [List.getElem?_eq_none (by simp; omega)]
    simp [Nat.not_lt.mpr h]

/-- A change of width succeeds exactly where the number has room, and keeps the number. -/
theorem fitTo?_eq_some_iff (b c : BitString) (w : Nat) :
    b.fitTo? w = some c ↔ b.toNat < 2 ^ w ∧ c = ofNat b.toNat w := by
  have room := significantWidth_le_iff b w
  simp only [fitTo?]
  split
  · rename_i h
    simp only [reduceCtorEq, false_iff, not_and]
    intro lt
    have := room.mpr lt
    omega
  · rename_i h
    have lt : b.toNat < 2 ^ w := room.mp (Nat.not_lt.mp h)
    have same : (⟨b.bits.take w ++ List.replicate (w - b.width) false⟩ : BitString) =
        ofNat b.toNat w := by
      refine ext_get ?_ fun i => ?_
      · have := width_ofNat b.toNat w
        have := significantWidth_le b
        simp only [width, List.length_append, List.length_take, List.length_replicate] at *
        omega
      · rw [get_resize, get_ofNat, testBit_toNat]
    rw [same, Option.some.injEq]
    exact ⟨fun eq => ⟨lt, eq.symm⟩, fun h => h.2.symm⟩

end ScanChain.BitString
