/-
# ScanChain.Misr — the signature of a word list

The checksum of an image is the state of a 32-bit multiple-input signature register after it has
taken in the payload, one word at a time, from the state zero. A step shifts the state down by one
place, adds the feedback word if a one was shifted out, and adds the word taken in; addition is
exclusive or.
-/

namespace ScanChain.Misr

/-- The feedback word of the polynomial x^32 + x^22 + x^2 + x + 1. -/
def feedback : UInt32 := 0x80200003

/-- The state after one word, under a feedback word. -/
def absorb (feedback state word : UInt32) : UInt32 :=
  (state >>> 1) ^^^ (if state &&& 1 = 1 then feedback else 0) ^^^ word

/-- The state after a list of words. -/
def run (feedback start : UInt32) (words : List UInt32) : UInt32 :=
  words.foldl (absorb feedback) start

/-- The signature of a list of words. -/
def signature (words : List UInt32) : UInt32 := run feedback 0 words

/-- The states after each word. -/
def trace (feedback : UInt32) : UInt32 → List UInt32 → List UInt32
  | _, [] => []
  | state, word :: words =>
    let next := absorb feedback state word
    next :: trace feedback next words

end ScanChain.Misr
