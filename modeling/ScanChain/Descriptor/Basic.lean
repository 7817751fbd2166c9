/-
# ScanChain.Descriptor.Basic — described chains

A descriptor holds the chains of a design under their names, each as a list of entries in any order.
An entry names a segment, its position and its fault model with widths; a width of the segment itself
is optional. Nothing of it is checked until a chain is built.
-/
import ScanChain.Chain.Basic

namespace ScanChain

/-- A fault model by name, with widths by name. -/
structure InjectorEntry where
  kind : String
  widths : NameTable UInt32
deriving Inhabited

/-- A segment as described. -/
structure SegmentEntry where
  name : String
  position : Nat
  /-- The width of the segment, if it is not that of its fields. -/
  width : Option UInt32
  injector : InjectorEntry
deriving Inhabited

/-- Chains under their names. -/
structure Descriptor where
  chains : NameTable (List SegmentEntry)
deriving Inhabited

/-- The segment that an entry describes. -/
def SegmentEntry.toSegment (entry : SegmentEntry) : Except ChainError Segment := do
  let injector ← Injector.ofWidths entry.name entry.injector.kind entry.injector.widths
  let segment := Segment.ofInjector entry.name entry.position injector
  return match entry.width with
    | some width => segment.withBitWidth width
    | none => segment

namespace Descriptor

/-- The names of the chains in order. -/
def names (descriptor : Descriptor) : List String := descriptor.chains.names

/-- The chain of a name. -/
def chain (descriptor : Descriptor) (name : String) : Except ChainError Chain := do
  match descriptor.chains.find? name with
  | none => throw (.unknownChain name)
  | some entries => Chain.ofSegments name (← entries.mapM SegmentEntry.toSegment)

/-- All chains in the order of their names. -/
def allChains (descriptor : Descriptor) : Except ChainError (List Chain) :=
  descriptor.names.mapM descriptor.chain

end Descriptor
end ScanChain
