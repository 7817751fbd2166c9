/-
# ScanChain.Resolution — the value of every field under a policy

Resolving a policy against the segments of a chain fills every field, in shift order and from the
most significant field of each segment down. Random masks are drawn in that order from one stream,
and nothing else takes from it. A value that does not fit its field is refused; nothing is cut off.
-/
import ScanChain.MaskStream
import ScanChain.Segment.Placement

namespace ScanChain

/-- A field's name and value. -/
structure ResolvedField where
  name : String
  value : BitString
deriving DecidableEq

/-- The values of a segment's fields, the most significant first. -/
structure ResolvedSegment where
  name : String
  position : Nat
  fields : List ResolvedField
deriving DecidableEq

/-- The value of the first field with a name. -/
def ResolvedSegment.field? (s : ResolvedSegment) (name : String) : Option BitString :=
  (s.fields.find? (·.name = name)).map (·.value)

namespace Resolution

/-- A number in a field, if it has no more binary digits than the field has bits. -/
def fitNat (segment : String) (field : PlacedField) (parameter : Policy.Parameter) (value : Nat) :
    Except Policy.Error BitString :=
  if field.width.toNat < BitString.bitLength value then
    .error (.valueOutOfRange segment field.name parameter value field.width.toNat)
  else .ok (BitString.ofNat value field.width.toNat)

/-- A bit string in a field, if no set bit is lost. -/
def fitBits (segment : String) (field : PlacedField) (parameter : Policy.Parameter)
    (value : BitString) : Except Policy.Error BitString :=
  match value.fitTo? field.width.toNat with
  | some fitted => .ok fitted
  | none =>
    .error (.valueTooWide segment field.name parameter value.significantWidth field.width.toNat)

/-- A one-or-zero field. -/
def flag (field : PlacedField) (on : Bool) : BitString :=
  BitString.ofNat on.toNat field.width.toNat

/-- The value of a field that takes nothing from the mask stream. A difficulty register of more than 64
bits holds the threshold of 64 bits. -/
def fixedValue (policy : Policy) (segment : String) (field : PlacedField) :
    Except Policy.Error BitString :=
  match field.binding with
  | .none | .randomMask => .ok (BitString.zeros field.width.toNat)
  | .enableOnProbability => .ok (flag field policy.probability.isPositive)
  | .enableOnCycle => .ok (flag field (policy.cycle ≠ 0))
  | .seed => fitNat segment field .seed policy.seed.toNat
  | .cycle => fitNat segment field .cycle policy.cycle.toNat
  | .cycleInjectAt => fitNat segment field .cycleInjectAt policy.cycleInjectAt.toNat
  | .difficulty =>
    match Threshold.difficulty? policy.probability (min field.width.toNat 64) with
    | some value => .ok (BitString.ofNat value field.width.toNat)
    | none => .error (.probabilityOutOfRange policy.probability)
  | .mask => fitBits segment field .mask policy.mask
  | .stuckAtValue => fitBits segment field .stuckAtValue policy.stuckAtValue

/-- The value of a field, and the mask stream after it. -/
def fieldValue (policy : Policy) (segment : String) (stream : MaskStream) (field : PlacedField) :
    Except Policy.Error (BitString × MaskStream) :=
  if field.binding = .randomMask then
    match stream.next? policy.probability field.width.toNat with
    | some drawn => .ok drawn
    | none => .error (.probabilityOutOfRange policy.probability)
  else (fixedValue policy segment field).map fun value => (value, stream)

/-- The values of a list of fields, and the mask stream after them. -/
def resolveFields (policy : Policy) (segment : String) :
    MaskStream → List PlacedField → Except Policy.Error (List ResolvedField × MaskStream)
  | stream, [] => .ok ([], stream)
  | stream, field :: fields => do
    let (value, stream) ← fieldValue policy segment stream field
    let (values, stream) ← resolveFields policy segment stream fields
    return (⟨field.name, value⟩ :: values, stream)

/-- The values of a list of segments, and the mask stream after them. -/
def resolveSegments (policy : Policy) :
    MaskStream → List PlacedSegment → Except Policy.Error (List ResolvedSegment × MaskStream)
  | stream, [] => .ok ([], stream)
  | stream, s :: segments => do
    let (fields, stream) ← resolveFields policy s.name stream s.fields
    let (resolved, stream) ← resolveSegments policy stream segments
    return (⟨s.name, s.position, fields⟩ :: resolved, stream)

end Resolution

/-- The values of all fields under a policy. -/
def Policy.resolve (policy : Policy) (segments : List PlacedSegment) :
    Except Policy.Error (List ResolvedSegment) := do
  policy.validate
  let (resolved, _) ← Resolution.resolveSegments policy (.ofSeed policy.seed) segments
  return resolved

end ScanChain
