/-
# ScanChain.Descriptor.Json — descriptors in data files

A descriptor is an object of chains, a chain an array of entries, an entry a record. The fault model
of an entry is an object whose key `kind` has a name under it and whose other keys have widths; there
`kind` may stand once only, while of other keys that are repeated the last one counts.
-/
import ScanChain.Descriptor.Basic
import ScanChain.Json.Reader
import ScanChain.Json.Source
import ScanChain.Json.Value

namespace ScanChain

/-- Reads a value whose strings are all taken as they are. -/
abbrev EntryReader := Json.Reader Empty

namespace InjectorEntry

/-- The entry as an object. -/
def toJson (entry : InjectorEntry) : Json.Value := .object <|
  ("kind", .text entry.kind) :: entry.widths.entries.map fun (name, width) =>
    (name, .count width.toNat)

/-- Reads the value of a key: the name of the model, if none was read before, or a width. -/
def readMember (key : String) (read : Option String × NameTable UInt32) :
    EntryReader (Option String × NameTable UInt32) := do
  if key = "kind" then
    if read.1.isSome then Json.Reader.malformed
    else return (some (← Json.Reader.text), read.2)
  else return (read.1, read.2.insert key (← Json.Reader.word))

/-- Reads an entry. -/
def reader : EntryReader InjectorEntry := do
  match ← Json.Reader.object readMember (none, .empty) with
  | (some kind, widths) => pure ⟨kind, widths⟩
  | (none, _) => Json.Reader.malformed

end InjectorEntry

namespace SegmentEntry

/-- The entry as an object; a width that is not given is left out. -/
def toJson (entry : SegmentEntry) : Json.Value := .object <|
  [("name", .text entry.name), ("position", .count entry.position)] ++
    (entry.width.toList.map fun width => ("width", .count width.toNat)) ++
    [("injector", entry.injector.toJson)]

/-- The parts of an entry. -/
def shape : Json.Reader.Shape where
  members := ["name", "position", "width", "injector"]
  mayOmit form name := form = .named && name = "width"

/-- Reads the part of a name. -/
def readPart (name : String) (entry : SegmentEntry) : EntryReader SegmentEntry := do
  match name with
  | "name" => return { entry with name := ← Json.Reader.text }
  | "position" => return { entry with position := ← Json.Reader.natural }
  | "width" => return { entry with width := ← Json.Reader.orNull Json.Reader.word }
  | "injector" => return { entry with injector := ← InjectorEntry.reader }
  | _ => Json.Reader.malformed

/-- Reads an entry. -/
def reader : EntryReader SegmentEntry := Json.Reader.record shape readPart default

end SegmentEntry

namespace Descriptor

/-- The descriptor as an object. -/
def toJson (descriptor : Descriptor) : Json.Value := .object <|
  descriptor.chains.entries.map fun (name, entries) =>
    (name, .array (entries.map SegmentEntry.toJson))

/-- Reads the entries of a chain. -/
def readChain (name : String) (chains : NameTable (List SegmentEntry)) :
    EntryReader (NameTable (List SegmentEntry)) := do
  return chains.insert name (← Json.Reader.array SegmentEntry.reader)

/-- Reads a descriptor. -/
def ofJson (source : String) : Except (Json.Fault Empty) Descriptor := do
  let chains ← Json.Reader.run (Json.Reader.object readChain .empty) source
  return ⟨chains⟩

/-- Reads the descriptor in the bytes of a file. -/
def ofBytes (bytes : List UInt8) : Except (Json.Fault Empty) Descriptor :=
  ofJson (Json.sourceOfBytes bytes)

end Descriptor
end ScanChain
