/-
# ScanChain.Segment.Placement — segments and where their fields lie

A segment is a stretch of the chain that belongs to one injector. Its fields lie side by side from
the most significant bit down, in the order of their declaration; what is left at the low end is
padding. An offset is the place of a field's least significant bit, counted from the segment's.
-/
import ScanChain.Chain.Error

namespace ScanChain

/-- A stretch of the chain with its injector. -/
structure Segment where
  name : String
  /-- The place in shift order, from zero. -/
  position : Nat
  /-- The bits of the stretch. -/
  bitWidth : UInt32
  injector : Injector
deriving DecidableEq

/-- A field with its place in a segment. -/
structure PlacedField where
  name : String
  width : UInt32
  /-- The place of the least significant bit. -/
  offset : Nat
  binding : Binding
deriving DecidableEq

/-- A segment with its fields in place. -/
structure PlacedSegment where
  name : String
  position : Nat
  bitWidth : UInt32
  injector : Injector
  /-- The fields, the most significant first. -/
  fields : List PlacedField
  /-- The bits below the last field. -/
  padding : Nat
deriving DecidableEq

namespace Segment

/-- A segment as wide as the fields of its injector, or as a segment can be. -/
def ofInjector (name : String) (position : Nat) (injector : Injector) : Segment :=
  ⟨name, position, UInt32.ofNat (min injector.fieldsWidth (2 ^ 32 - 1)), injector⟩

/-- A segment with a width of its own. -/
def withBitWidth (s : Segment) (bitWidth : UInt32) : Segment := { s with bitWidth }

/-- The segment has room for its fields, and has bits at all. -/
def Fits (s : Segment) : Prop :=
  0 < s.bitWidth.toNat ∧ 0 < s.injector.width.toNat ∧ s.injector.fieldsWidth ≤ s.bitWidth.toNat

instance (s : Segment) : Decidable s.Fits := inferInstanceAs (Decidable (_ ∧ _))

/-- What keeps the fields from being placed. -/
def fault? (s : Segment) : Option ChainError :=
  if s.bitWidth = 0 ∨ s.injector.width = 0 then some (.zeroWidth s.name)
  else if s.bitWidth.toNat < s.injector.fieldsWidth then
    some (.fieldsExceedWidth s.name s.injector.tag s.injector.fieldsWidth s.bitWidth.toNat)
  else none

/-- The fields side by side below `top`, and what is left below them. -/
def placeFields : Nat → List Field → List PlacedField × Nat
  | top, [] => ([], top)
  | top, field :: fields =>
    let low := top - field.width.toNat
    let (placed, padding) := placeFields low fields
    (⟨field.name, field.width, low, field.binding⟩ :: placed, padding)

/-- The segment with its fields in place. -/
def placed (s : Segment) : PlacedSegment :=
  let (fields, padding) := placeFields s.bitWidth.toNat s.injector.fields
  ⟨s.name, s.position, s.bitWidth, s.injector, fields, padding⟩

/-- The segment with its fields in place, if they fit. -/
def place (s : Segment) : Except ChainError PlacedSegment :=
  match s.fault? with
  | some e => .error e
  | none => .ok s.placed

theorem fault?_eq_none_iff (s : Segment) : s.fault? = none ↔ s.Fits := by
  have zero (w : UInt32) : w = 0 ↔ w.toNat = 0 := by rw [← UInt32.toNat_inj]; rfl
  simp only [fault?, Fits, zero]
  split
  · simp; omega
  · split
    · simp; omega
    · simp; omega

end Segment

/-- The field of a name. -/
def PlacedSegment.field? (s : PlacedSegment) (name : String) : Option PlacedField :=
  s.fields.find? (·.name = name)

end ScanChain
