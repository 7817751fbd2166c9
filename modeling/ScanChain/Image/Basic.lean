/-
# ScanChain.Image.Basic — the words that are shifted into a chain

An image is a header word, a checksum word if there is one, and the payload. The payload has more bits
than the chain if the chain does not fill its last word.
-/

namespace ScanChain

/-- The words for a chain. -/
structure Image where
  header : UInt32
  checksum : Option UInt32
  payload : List UInt32
  /-- The bits of the payload that belong to the chain. -/
  payloadBits : Nat
deriving DecidableEq

namespace Image

/-- The words in shift order. -/
def words (image : Image) : List UInt32 :=
  image.header :: (image.checksum.toList ++ image.payload)

/-- How many words there are. -/
def wordCount (image : Image) : Nat := image.words.length

/-- The bits of all words. -/
def totalBits (image : Image) : Nat := 32 * image.wordCount

end Image
end ScanChain
