/-
# ScanChain.Control.Pattern — the self-test pattern of a chain

The pattern is an image with a length header: a word with the number of bits, and then that many bits
of which the first are set and the others clear, with zeros to the end of the last word.
-/
import ScanChain.Word

namespace ScanChain.Control

/-- The word at place `index` of a run of set bits followed by clear bits. -/
def patternWord (ones index : Nat) : UInt32 :=
  let set := min (ones - 32 * index) 32
  UInt32.ofNat (2 ^ 32 - 2 ^ (32 - set))

/-- The pattern of `size` bits of which the first `ones` are set. -/
def pattern? (ones size : UInt32) : Option (List UInt32) :=
  if size < ones then none
  else some (size :: (List.range (Word.countFor size.toNat)).map (patternWord ones.toNat))

/-- The buffer with the pattern written over its front, and the number of words written, if the pattern
fits into the buffer. -/
def writePattern? (ones size : UInt32) (buffer : List UInt32) : Option (Nat × List UInt32) :=
  if buffer.length < 1 + Word.countFor size.toNat then none
  else (pattern? ones size).map fun words => (words.length, words ++ buffer.drop words.length)

end ScanChain.Control
