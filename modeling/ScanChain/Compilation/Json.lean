/-
# ScanChain.Compilation.Json — configurations and reports in data files

A configuration is a record of which every part may be left out. A report says what was compiled: the
header and checksum, the size, and the value of every field with its width.
-/
import ScanChain.BitString.Hex
import ScanChain.Compilation.Basic
import ScanChain.Json.Reader
import ScanChain.Json.Value

namespace ScanChain

namespace Config

/-- The configuration as a record. -/
def toJson (config : Config) : Json.Value := .object [
  ("header", .text config.header.name),
  ("checksum", .boolean config.checksum),
  ("verify", .boolean config.verify)]

/-- The parts of a configuration. -/
def shape : Json.Reader.Shape where
  members := ["header", "checksum", "verify"]
  mayOmit _ _ := true

/-- Reads the part of a name. -/
def readPart (name : String) (config : Config) : Json.Reader Empty Config := do
  match name with
  | "header" => return { config with header := ← Json.Reader.caseOf HeaderKind.ofName? }
  | "checksum" => return { config with checksum := ← Json.Reader.boolean }
  | "verify" => return { config with verify := ← Json.Reader.boolean }
  | _ => Json.Reader.malformed

/-- Reads a configuration. -/
def ofJson (source : String) : Except (Json.Fault Empty) Config :=
  Json.Reader.run (Json.Reader.record shape readPart default) source

end Config

/-- A field's name and value as a pair. -/
def ResolvedField.toJson (field : ResolvedField) : Json.Value :=
  .array [.text field.name, .text field.value.display]

/-- A segment's values. -/
def ResolvedSegment.toJson (segment : ResolvedSegment) : Json.Value := .object [
  ("name", .text segment.name),
  ("position", .count segment.position),
  ("fields", .array (segment.fields.map (·.toJson)))]

/-- What was compiled. -/
def Compiled.report (compiled : Compiled) : Json.Value := .object [
  ("chain", .text compiled.chain),
  ("header", .text (Text.hexWord compiled.image.header)),
  ("checksum", .ofOption (fun word => .text (Text.hexWord word)) compiled.image.checksum),
  ("words", .count compiled.image.wordCount),
  ("payload_bits", .count compiled.image.payloadBits),
  ("segments", .array (compiled.resolved.map (·.toJson)))]

end ScanChain
