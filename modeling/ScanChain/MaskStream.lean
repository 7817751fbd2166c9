/-
# ScanChain.MaskStream — random masks from a seed

All random masks of a compilation are drawn from one ChaCha20 stream keyed by the policy's seed. A
mask takes one 32-bit word for each of its bits, most significant bit first, and a bit is set where
the word lies below the threshold of the probability. The number of words taken does not depend on
the probability, so a mask's place in the stream depends only on the widths before it.
-/
import ScanChain.BitString.Basic
import ScanChain.ChaCha20
import ScanChain.Threshold
import ScanChain.Word

namespace ScanChain

namespace MaskStream

/-- The bytes of a key: the eight bytes of the seed, least significant first, and zeros. -/
def keyBytes (seed : UInt64) : List UInt8 :=
  Word.littleEndian 8 seed.toNat ++ List.replicate 24 0

/-- The key whose bytes are `keyBytes`. -/
def key (seed : UInt64) : ChaCha20.Key :=
  ⟨UInt32.ofNat seed.toNat, UInt32.ofNat (seed.toNat / 2 ^ 32), 0, 0, 0, 0, 0, 0⟩

end MaskStream

/-- A place in the stream of a seed. -/
structure MaskStream where
  seed : UInt64
  /-- How many words have been taken. -/
  position : Nat

namespace MaskStream

/-- The start of the stream of a seed. -/
def ofSeed (seed : UInt64) : MaskStream := ⟨seed, 0⟩

/-- The mask of a width at a threshold, and the stream after it. -/
def draw (stream : MaskStream) (threshold width : Nat) : BitString × MaskStream :=
  let words := ChaCha20.words (key stream.seed) stream.position width
  (BitString.ofMsbFirst (words.map fun word => decide (word.toNat < threshold)),
   { stream with position := stream.position + width })

/-- The mask of a width at a probability, and the stream after it. Outside `[0, 1]` no mask is drawn,
and the stream stays where it is. -/
def next (stream : MaskStream) (p : Binary64) (width : Nat) : Option BitString × MaskStream :=
  match Threshold.ofProbability? p with
  | some threshold =>
    let (mask, rest) := stream.draw threshold width
    (some mask, rest)
  | none => (none, stream)

/-- The mask and the stream after it, if there is a mask. -/
def next? (stream : MaskStream) (p : Binary64) (width : Nat) : Option (BitString × MaskStream) :=
  (stream.next p width).1.map fun mask => (mask, (stream.next p width).2)

/-- The mask of a width at the start of the stream of a seed. Outside `[0, 1]` there is none. -/
def generate? (seed : UInt64) (p : Binary64) (width : Nat) : Option BitString :=
  ((ofSeed seed).next p width).1

section Next

variable {stream : MaskStream} {p : Binary64} {threshold : Nat}

theorem next_of_threshold (h : Threshold.ofProbability? p = some threshold) (width : Nat) :
    stream.next p width =
      (some (stream.draw threshold width).1, (stream.draw threshold width).2) := by
  rw [next, h]

theorem next_of_none (h : Threshold.ofProbability? p = none) (width : Nat) :
    stream.next p width = (none, stream) := by
  rw [next, h]

theorem next?_of_threshold (h : Threshold.ofProbability? p = some threshold) (width : Nat) :
    stream.next? p width = some (stream.draw threshold width) := by
  rw [next?, next_of_threshold h]
  rfl

theorem next?_of_none (h : Threshold.ofProbability? p = none) (width : Nat) :
    stream.next? p width = none := by
  rw [next?, next_of_none h]
  rfl

end Next

end MaskStream
end ScanChain
