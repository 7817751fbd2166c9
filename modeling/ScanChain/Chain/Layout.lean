/-
# ScanChain.Chain.Layout — packing values into words and reading them back

The bits of a chain are those of its segments in shift order; those of a segment are its fields, each
from the most significant bit down, and then its padding. They are packed into the payload of an
image from the first word's most significant bit on. Reading takes the same bits apart again, and
refuses words that packing could not have made: another count, header or checksum, or a bit set
where no field is.
-/
import ScanChain.Chain.Header
import ScanChain.Image.Basic
import ScanChain.Misr
import ScanChain.Resolution
import ScanChain.Text.Digits

namespace ScanChain

/-- A chain with the header that its images have. -/
structure ChainLayout where
  chain : Chain
  kind : HeaderDerivation

/-- Why values cannot be packed, or words not be read. -/
inductive PackError where
  | segmentCount (expected actual : Nat)
  | fieldCount (segment : String) (expected actual : Nat)
  | fieldWidth (segment field : String) (expected actual : Nat)
  | lengthMismatch (expected found : Nat)
  | headerMismatch (expected found : UInt32)
  | checksumMismatch (expected found : UInt32)
  /-- A set bit in the padding of a segment, or after the last one. -/
  | nonZeroPadding (segment : Option String)
deriving DecidableEq

/-- The refusal in words. -/
def PackError.message : PackError → String
  | segmentCount expected actual =>
    "expected " ++ toString expected ++ " resolved segments, got " ++ toString actual
  | fieldCount segment expected actual =>
    "segment " ++ Text.quoted segment ++ ": expected " ++ toString expected ++
      " resolved fields, got " ++ toString actual
  | fieldWidth segment field expected actual =>
    "segment " ++ Text.quoted segment ++ " field " ++ Text.quoted field ++ ": expected " ++
      toString expected ++ " bits, got " ++ toString actual
  | lengthMismatch expected found =>
    "image has " ++ toString found ++ " words, topology needs " ++ toString expected
  | headerMismatch expected found =>
    "header mismatch: image has " ++ Text.hexWord found ++ ", topology expects " ++
      Text.hexWord expected
  | checksumMismatch expected found =>
    "checksum mismatch: image has " ++ Text.hexWord found ++ ", payload signs as " ++
      Text.hexWord expected
  | nonZeroPadding none => "non-zero padding bits after the last segment"
  | nonZeroPadding (some segment) => "non-zero padding bits in segment " ++ Text.quoted segment

/-! ## Bits of a segment -/

namespace PlacedSegment

/-- The bits of fields under values that have their names and widths. -/
def fieldBits (segment : String) :
    List PlacedField → List ResolvedField → Except PackError (List Bool)
  | field :: fields, value :: values =>
    if value.value.width ≠ field.width.toNat ∨ value.name ≠ field.name then
      .error (.fieldWidth segment field.name field.width.toNat value.value.width)
    else (fieldBits segment fields values).map (value.value.msbFirst ++ ·)
  | _, _ => .ok []

/-- The bits of a segment: its fields and its padding. -/
def bits (s : PlacedSegment) (values : List ResolvedField) : Except PackError (List Bool) :=
  if values.length ≠ s.fields.length then
    .error (.fieldCount s.name s.fields.length values.length)
  else (fieldBits s.name s.fields values).map (· ++ List.replicate s.padding false)

/-- The values of fields that start a list of bits, and the bits after them. -/
def takeFields : List PlacedField → List Bool → List ResolvedField × List Bool
  | [], bits => ([], bits)
  | field :: fields, bits =>
    let width := field.width.toNat
    let (values, rest) := takeFields fields (bits.drop width)
    (⟨field.name, .ofMsbFirst (bits.take width)⟩ :: values, rest)

end PlacedSegment

/-! ## Bits of a chain -/

/-- The bits of segments under values. -/
def segmentBits : List PlacedSegment → List ResolvedSegment → Except PackError (List Bool)
  | s :: segments, r :: resolved => do
    let head ← s.bits r.fields
    let tail ← segmentBits segments resolved
    return head ++ tail
  | _, _ => .ok []

/-- The values that bits hold, if every bit outside the fields is clear. -/
def takeSegments : List PlacedSegment → List Bool → Except PackError (List ResolvedSegment)
  | [], bits => if bits.any id then .error (.nonZeroPadding none) else .ok []
  | s :: segments, bits =>
    let (values, rest) := PlacedSegment.takeFields s.fields bits
    if (rest.take s.padding).any id then .error (.nonZeroPadding (some s.name))
    else (takeSegments segments (rest.drop s.padding)).map (⟨s.name, s.position, values⟩ :: ·)

namespace ChainLayout

/-- The segments with their fields in place. -/
def segments (layout : ChainLayout) : List PlacedSegment := layout.chain.placed

/-- The header word. -/
def header (layout : ChainLayout) : UInt32 := layout.chain.header layout.kind

/-- The bits of the chain. -/
def payloadBits (layout : ChainLayout) : Nat := layout.chain.totalBits

/-- The words that the bits take. -/
def payloadWords (layout : ChainLayout) : Nat := Word.countFor layout.payloadBits

/-- The values of all fields under a policy. -/
def resolve (layout : ChainLayout) (policy : Policy) :
    Except Policy.Error (List ResolvedSegment) :=
  policy.resolve layout.segments

/-- The image of values, with or without a checksum. -/
def pack (layout : ChainLayout) (resolved : List ResolvedSegment) (checksum : Bool) :
    Except PackError Image := do
  if resolved.length ≠ layout.segments.length then
    throw (.segmentCount layout.segments.length resolved.length)
  let bits ← segmentBits layout.segments resolved
  let payload := Word.pack bits
  return {
    header := layout.header
    checksum := if checksum then some (Misr.signature payload) else none
    payload
    payloadBits := bits.length }

/-- The values that words hold. -/
def unpackWords (layout : ChainLayout) (words : List UInt32) (checksum : Bool) :
    Except PackError (List ResolvedSegment) := do
  let front := if checksum then 2 else 1
  if words.length ≠ front + layout.payloadWords then
    throw (.lengthMismatch (front + layout.payloadWords) words.length)
  let found := words.headD 0
  if found ≠ layout.header then throw (.headerMismatch layout.header found)
  let payload := words.drop front
  if checksum then
    let found := (words.drop 1).headD 0
    if found ≠ Misr.signature payload then
      throw (.checksumMismatch (Misr.signature payload) found)
  takeSegments layout.segments (Word.unpack payload)

/-- The values that an image holds. -/
def unpack (layout : ChainLayout) (image : Image) : Except PackError (List ResolvedSegment) :=
  layout.unpackWords image.words image.checksum.isSome

end ChainLayout
end ScanChain
