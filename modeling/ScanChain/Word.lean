/-
# ScanChain.Word — thirty-two-bit words and the bits and bytes they hold

An image is a list of words. A stream of bits enters words most significant bit first: stream bit `i`
is bit `31 - i % 32` of word `i / 32`, and the last word is filled up with zeros. A word leaves as four
bytes, least significant first.
-/
import ScanChain.Arithmetic

namespace ScanChain.Word

/-- Bits of one word. -/
def width : Nat := 32

/-- The words needed for a number of bits. -/
def countFor (bits : Nat) : Nat := (bits + 31) / 32

/-- A number of bits rounded up to whole words. -/
def roundUp (bits : Nat) : Nat := 32 * countFor bits

/-- The number whose bits are given, the most significant first. -/
def natOfBits (bits : List Bool) : Nat := bits.foldl (fun n bit => 2 * n + bit.toNat) 0

/-- The word that starts with the given bits, at most thirty-two, and goes on with zeros. -/
def ofBits (bits : List Bool) : UInt32 :=
  UInt32.ofNat (natOfBits bits * 2 ^ (32 - bits.length))

/-- The bits of a word, the most significant first. -/
def toBits (word : UInt32) : List Bool :=
  (List.range 32).map fun i => word.toNat.testBit (31 - i)

/-- The first `count` words of a stream of bits. -/
def packWords : Nat → List Bool → List UInt32
  | 0, _ => []
  | count + 1, bits => ofBits (bits.take 32) :: packWords count (bits.drop 32)

/-- A stream of bits as words. -/
def pack (bits : List Bool) : List UInt32 := packWords (countFor bits.length) bits

/-- The stream of bits that a list of words holds. -/
def unpack (words : List UInt32) : List Bool := words.flatMap toBits

/-- The bytes of a number, least significant first. -/
def littleEndian : Nat → Nat → List UInt8
  | 0, _ => []
  | count + 1, n => UInt8.ofNat n :: littleEndian count (n / 256)

/-- The words of an image as bytes. -/
def toBytes (words : List UInt32) : List UInt8 :=
  words.flatMap fun word => littleEndian 4 word.toNat

/-- The word with four bytes, the least significant first. -/
def ofBytes (a b c d : UInt8) : UInt32 :=
  UInt32.ofNat (a.toNat + 256 * (b.toNat + 256 * (c.toNat + 256 * d.toNat)))

/-- The words that bytes hold, if they are whole words. -/
def fromBytes? : List UInt8 → Option (List UInt32)
  | [] => some []
  | a :: b :: c :: d :: rest => (fromBytes? rest).map (ofBytes a b c d :: ·)
  | _ => none

end ScanChain.Word
