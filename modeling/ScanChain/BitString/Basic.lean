/-
# ScanChain.BitString.Basic — numbers with a width

A bit string is a list of bits, the least significant first: bit `i` has weight `2 ^ i`. Its width is
the length of the list, and leading zeros count. Every value of a field, and every mask of a policy,
is a bit string; `toNat` is the number it stands for.
-/
import ScanChain.Arithmetic

namespace ScanChain

/-- A number with a width: bit `i` of the list has weight `2 ^ i`. -/
structure BitString where
  bits : List Bool
deriving DecidableEq, Inhabited

namespace BitString

/-- How many bits there are. -/
def width (b : BitString) : Nat := b.bits.length

/-- The number that the bits stand for. -/
def toNat (b : BitString) : Nat := b.bits.foldr (fun bit n => bit.toNat + 2 * n) 0

/-- All bits clear. -/
def zeros (width : Nat) : BitString := ⟨List.replicate width false⟩

/-- All bits set. -/
def ones (width : Nat) : BitString := ⟨List.replicate width true⟩

/-- The low `width` bits of a number. -/
def ofNat (n width : Nat) : BitString := ⟨(List.range width).map n.testBit⟩

/-- The bits of a number in a list that starts with the most significant one. -/
def ofMsbFirst (bits : List Bool) : BitString := ⟨bits.reverse⟩

/-- The bits, the most significant first. -/
def msbFirst (b : BitString) : List Bool := b.bits.reverse

/-- The binary digits that a number needs; zero needs none. -/
def bitLength (n : Nat) : Nat := if n = 0 then 0 else n.log2 + 1

/-- A number with no leading zeros, but with at least one bit. -/
def ofNatTight (n : Nat) : BitString := ofNat n (max 1 (bitLength n))

/-- Bit `index`; past the width every bit is clear. -/
def get (b : BitString) (index : Nat) : Bool := b.bits.getD index false

/-- The bit string with one of its bits replaced. There is no bit past the width to replace. -/
def set? (b : BitString) (index : Nat) (bit : Bool) : Option BitString :=
  if index < b.width then some ⟨b.bits.set index bit⟩ else none

/-- The width without leading zeros. -/
def significantWidth (b : BitString) : Nat := (b.msbFirst.dropWhile (!·)).length

/-- The same number with another width, if no set bit is lost. -/
def fitTo? (b : BitString) (width : Nat) : Option BitString :=
  if width < b.significantWidth then none
  else some ⟨b.bits.take width ++ List.replicate (width - b.width) false⟩

/-- The number, if it has at most 64 significant bits. -/
def toNat64? (b : BitString) : Option Nat :=
  if 64 < b.significantWidth then none else some b.toNat

/-- No bit is set. -/
def isAllZero (b : BitString) : Bool := b.bits.all (!·)

/-- No bit is clear. -/
def isAllOne (b : BitString) : Bool := b.bits.all id

@[simp] theorem width_zeros (w : Nat) : (zeros w).width = w := by simp [zeros, width]

@[simp] theorem width_ones (w : Nat) : (ones w).width = w := by simp [ones, width]

@[simp] theorem width_ofNat (n w : Nat) : (ofNat n w).width = w := by simp [ofNat, width]

@[simp] theorem width_ofMsbFirst (bits : List Bool) : (ofMsbFirst bits).width = bits.length := by
  simp [ofMsbFirst, width]

@[simp] theorem msbFirst_ofMsbFirst (bits : List Bool) : (ofMsbFirst bits).msbFirst = bits := by
  simp [ofMsbFirst, msbFirst]

@[simp] theorem ofMsbFirst_msbFirst (b : BitString) : ofMsbFirst b.msbFirst = b := by
  simp [ofMsbFirst, msbFirst]

@[simp] theorem length_msbFirst (b : BitString) : b.msbFirst.length = b.width := by
  simp [msbFirst, width]

theorem significantWidth_le (b : BitString) : b.significantWidth ≤ b.width := by
  have := (b.msbFirst.dropWhile_suffix (!·)).length_le
  simpa [significantWidth] using this

/-- A bit string that is fitted to a width has that width. -/
theorem width_of_fitTo? {b c : BitString} {w : Nat} (h : b.fitTo? w = some c) : c.width = w := by
  simp only [fitTo?] at h
  split at h
  · exact absurd h (by simp)
  · rw [Option.some.injEq] at h
    subst h
    simp only [width, List.length_append, List.length_take, List.length_replicate]
    omega

end BitString
end ScanChain
