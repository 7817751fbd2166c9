/-
# ScanChain.Sha256 — the SHA-256 digest

The message is padded with a one bit, zeros and its length in bits to whole blocks of sixty-four bytes.
Each block is expanded to sixty-four words by a recurrence on the sixteen before, and sixty-four
rounds mix them into eight chaining words, most significant byte first throughout.

It stands for the digest of the package `sha2`, which is no part of this library. Only the fingerprint
header rests on it, and what is proved of fingerprints uses of the digest no more than that equal bytes
have equal digests.
-/

namespace ScanChain.Sha256

/-- The eight chaining words. -/
structure State where
  (a b c d e f g h : UInt32)

/-- The chaining words before the first block. -/
def initial : State :=
  ⟨0x6a09e667, 0xbb67ae85, 0x3c6ef372, 0xa54ff53a, 0x510e527f, 0x9b05688c, 0x1f83d9ab, 0x5be0cd19⟩

/-- The constants of the sixty-four rounds. -/
def constants : List UInt32 := [
  0x428a2f98, 0x71374491, 0xb5c0fbcf, 0xe9b5dba5, 0x3956c25b, 0x59f111f1, 0x923f82a4, 0xab1c5ed5,
  0xd807aa98, 0x12835b01, 0x243185be, 0x550c7dc3, 0x72be5d74, 0x80deb1fe, 0x9bdc06a7, 0xc19bf174,
  0xe49b69c1, 0xefbe4786, 0x0fc19dc6, 0x240ca1cc, 0x2de92c6f, 0x4a7484aa, 0x5cb0a9dc, 0x76f988da,
  0x983e5152, 0xa831c66d, 0xb00327c8, 0xbf597fc7, 0xc6e00bf3, 0xd5a79147, 0x06ca6351, 0x14292967,
  0x27b70a85, 0x2e1b2138, 0x4d2c6dfc, 0x53380d13, 0x650a7354, 0x766a0abb, 0x81c2c92e, 0x92722c85,
  0xa2bfe8a1, 0xa81a664b, 0xc24b8b70, 0xc76c51a3, 0xd192e819, 0xd6990624, 0xf40e3585, 0x106aa070,
  0x19a4c116, 0x1e376c08, 0x2748774c, 0x34b0bcb5, 0x391c0cb3, 0x4ed8aa4a, 0x5b9cca4f, 0x682e6ff3,
  0x748f82ee, 0x78a5636f, 0x84c87814, 0x8cc70208, 0x90befffa, 0xa4506ceb, 0xbef9a3f7, 0xc67178f2]

/-- Rotation to the right, by 1 to 31 places. -/
def rotate (x places : UInt32) : UInt32 := (x >>> places) ||| (x <<< (32 - places))

/-- The word of four bytes, the most significant first. -/
def bigEndian (a b c d : UInt8) : UInt32 :=
  a.toUInt32 <<< 24 ||| b.toUInt32 <<< 16 ||| c.toUInt32 <<< 8 ||| d.toUInt32

/-- The bytes of a 64-bit length, the most significant first. -/
def lengthBytes (n : Nat) : List UInt8 :=
  (List.range 8).map fun i => UInt8.ofNat (n >>> (8 * (7 - i)))

/-- What follows a message of `size` bytes to make whole blocks. -/
def padding (size : Nat) : List UInt8 :=
  0x80 :: (List.replicate ((119 - size % 64) % 64) 0 ++ lengthBytes (8 * size))

/-- The words of a byte list of whole words. -/
def wordsOf : List UInt8 → List UInt32
  | a :: b :: c :: d :: rest => bigEndian a b c d :: wordsOf rest
  | _ => []

/-- The next word of the schedule from the sixteen before it, the oldest first. -/
def nextWord (window : List UInt32) : UInt32 :=
  match window with
  | w0 :: w1 :: _ :: _ :: _ :: _ :: _ :: _ :: _ :: w9 :: _ :: _ :: _ :: _ :: w14 :: _ =>
    let s0 := rotate w1 7 ^^^ rotate w1 18 ^^^ (w1 >>> 3)
    let s1 := rotate w14 17 ^^^ rotate w14 19 ^^^ (w14 >>> 10)
    w0 + s0 + w9 + s1
  | _ => 0

/-- The words of the schedule, `count` of them, from a window of sixteen on. -/
def schedule : Nat → List UInt32 → List UInt32
  | 0, _ => []
  | count + 1, window => window.headD 0 :: schedule count (window.drop 1 ++ [nextWord window])

/-- One round with the sum of a constant and a schedule word. -/
def round (s : State) (input : UInt32) : State :=
  let s1 := rotate s.e 6 ^^^ rotate s.e 11 ^^^ rotate s.e 25
  let choice := (s.e &&& s.f) ^^^ (~~~s.e &&& s.g)
  let t1 := s.h + s1 + choice + input
  let s0 := rotate s.a 2 ^^^ rotate s.a 13 ^^^ rotate s.a 22
  let majority := (s.a &&& s.b) ^^^ (s.a &&& s.c) ^^^ (s.b &&& s.c)
  ⟨t1 + (s0 + majority), s.a, s.b, s.c, s.d + t1, s.e, s.f, s.g⟩

/-- The chaining words after one block of sixteen words. -/
def compress (s : State) (block : List UInt32) : State :=
  let t := (List.zipWith (· + ·) constants (schedule 64 block)).foldl round s
  ⟨s.a + t.a, s.b + t.b, s.c + t.c, s.d + t.d, s.e + t.e, s.f + t.f, s.g + t.g, s.h + t.h⟩

/-- The chaining words after a number of blocks. -/
def compressAll : Nat → State → List UInt32 → State
  | 0, s, _ => s
  | blocks + 1, s, words => compressAll blocks (compress s (words.take 16)) (words.drop 16)

/-- The chaining words after the whole message: the digest as eight words. -/
def digest (message : List UInt8) : State :=
  let words := wordsOf (message ++ padding message.length)
  compressAll (words.length / 16) initial words

end ScanChain.Sha256
