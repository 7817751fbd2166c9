/-
# ScanChain.Chain.Header — the word that identifies a chain

Every image starts with a header word that depends on the chain alone. A layout takes any derivation of
it; configurations name one of two. The fingerprint is the first word of the SHA-256 digest of a
description of the segments in shift order: position, name, width, fault model, register width, and each
field's name and width. The length is the number of bits in the chain, as large as a word can hold; it
does not see the order of the segments.
-/
import ScanChain.Chain.Basic
import ScanChain.Sha256
import ScanChain.Text.Utf8
import ScanChain.Word

namespace ScanChain

/-- A way to derive header words from chains. -/
structure HeaderDerivation where
  /-- Its name in listings. -/
  name : String
  derive : Chain → UInt32

/-- A derivation that configurations can name. -/
inductive HeaderKind where
  | fingerprint
  | length
deriving DecidableEq, Inhabited

/-- The name of a header word in files, options and listings. -/
def HeaderKind.name : HeaderKind → String
  | fingerprint => "fingerprint"
  | length => "length"

/-- The header word of a name. -/
def HeaderKind.ofName? : String → Option HeaderKind
  | "fingerprint" => some fingerprint
  | "length" => some length
  | _ => none

/-- The bytes that describe a field: its name and its width in four bytes. -/
def Field.fingerprintBytes (field : Field) : List UInt8 :=
  Text.utf8 field.name ++ Word.littleEndian 4 field.width.toNat

/-- The bytes that describe a segment: its position and the length of its name in eight bytes each, the
name, its width, the fault model, the register width, and the fields. -/
def Segment.fingerprintBytes (s : Segment) : List UInt8 :=
  Word.littleEndian 8 s.position ++ Word.littleEndian 8 (Text.utf8 s.name).length ++ Text.utf8 s.name ++
    Word.littleEndian 4 s.bitWidth.toNat ++ Text.utf8 s.injector.tag ++
    Word.littleEndian 4 s.injector.width.toNat ++ s.injector.fields.flatMap (·.fingerprintBytes)

/-- The bytes that describe a chain. -/
def Chain.fingerprintBytes (chain : Chain) : List UInt8 :=
  chain.segments.flatMap (·.fingerprintBytes)

namespace HeaderDerivation

/-- The first word of the digest of the bytes that describe the chain. -/
def fingerprint : HeaderDerivation where
  name := "fingerprint"
  derive chain := (Sha256.digest chain.fingerprintBytes).a

/-- The number of bits in the chain, if a word can hold it. -/
def length : HeaderDerivation where
  name := "length"
  derive chain := UInt32.ofNat (min chain.totalBits (2 ^ 32 - 1))

end HeaderDerivation

/-- The derivation of a kind. -/
def HeaderKind.derivation : HeaderKind → HeaderDerivation
  | fingerprint => .fingerprint
  | length => .length

instance : Coe HeaderKind HeaderDerivation := ⟨HeaderKind.derivation⟩

/-- The header word of a chain. -/
def Chain.header (derivation : HeaderDerivation) (chain : Chain) : UInt32 := derivation.derive chain

end ScanChain
