/-
# ScanChain.Comparison.Json — comparisons in data files

A comparison is a record of its five parts, a divergence one of its own five. In an object a missing
word or divergence is the same as `null`.
-/
import ScanChain.Comparison.Basic
import ScanChain.Json.Reader
import ScanChain.Json.Value

namespace ScanChain

open Json.Reader (Form Shape)

/-- A faultless content: nothing in these records is refused once it has the right shape. -/
abbrev ShapeReader := Json.Reader Empty

namespace Divergence

/-- The parts of a divergence. -/
def shape : Shape where
  members := ["word_index", "region", "word_a", "word_b", "segments"]
  mayOmit form name := form = .named && (name = "word_a" || name = "word_b")

/-- Reads the part of a name. -/
def readPart (name : String) (d : Divergence) : ShapeReader Divergence := do
  match name with
  | "word_index" => return { d with index := ← Json.Reader.natural }
  | "region" => return { d with region := ← Json.Reader.caseOf WordRegion.ofName? }
  | "word_a" => return { d with first := ← Json.Reader.orNull Json.Reader.word }
  | "word_b" => return { d with second := ← Json.Reader.orNull Json.Reader.word }
  | "segments" => return { d with segments := ← Json.Reader.array Json.Reader.text }
  | _ => Json.Reader.malformed

/-- Reads a divergence. -/
def reader : ShapeReader Divergence := Json.Reader.record shape readPart default

end Divergence

namespace Comparison

/-- The parts of a comparison. -/
def shape : Shape where
  members := ["is_identical", "image_a_len", "image_b_len", "matching_words", "first_divergence"]
  mayOmit form name := form = .named && name = "first_divergence"

/-- Reads the part of a name. -/
def readPart (name : String) (c : Comparison) : ShapeReader Comparison := do
  match name with
  | "is_identical" => return { c with identical := ← Json.Reader.boolean }
  | "image_a_len" => return { c with firstLength := ← Json.Reader.natural }
  | "image_b_len" => return { c with secondLength := ← Json.Reader.natural }
  | "matching_words" => return { c with matching := ← Json.Reader.natural }
  | "first_divergence" =>
    return { c with divergence := ← Json.Reader.orNull Divergence.reader }
  | _ => Json.Reader.malformed

/-- Reads a comparison. -/
def ofJson (source : String) : Except (Json.Fault Empty) Comparison :=
  Json.Reader.run (Json.Reader.record shape readPart default) source

end Comparison
end ScanChain
