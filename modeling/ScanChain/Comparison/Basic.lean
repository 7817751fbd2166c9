/-
# ScanChain.Comparison.Basic — where two images differ

Two word lists are compared from the front. The first word that differs, or that only one list has, is
the divergence; with the layout of the chain it names the segments that have a bit in that word.
Every differing word can be listed too.
-/
import ScanChain.Chain.Layout

namespace ScanChain

/-- The part of an image that a word belongs to. -/
inductive WordRegion where
  | header
  | checksum
  | payload
deriving DecidableEq, Inhabited

/-- The name of a part in files and messages. -/
def WordRegion.name : WordRegion → String
  | header => "Header"
  | checksum => "Checksum"
  | payload => "Payload"

/-- The part of a name. -/
def WordRegion.ofName? : String → Option WordRegion
  | "Header" => some header
  | "Checksum" => some checksum
  | "Payload" => some payload
  | _ => none

/-- The part that a place belongs to, in an image with or without a checksum. -/
def WordRegion.ofIndex (checksum : Bool) (index : Nat) : WordRegion :=
  if index = 0 then .header
  else if index = 1 ∧ checksum then .checksum
  else .payload

/-- A word in which two images differ. -/
structure Divergence where
  index : Nat
  region : WordRegion
  /-- The word of the first image, if it has one there. -/
  first : Option UInt32
  /-- The word of the second image, if it has one there. -/
  second : Option UInt32
  /-- The segments with a bit in that word. -/
  segments : List String
deriving DecidableEq, Inhabited

/-- What comparing two images found. -/
structure Comparison where
  identical : Bool
  firstLength : Nat
  secondLength : Nat
  /-- The words before the first divergence. -/
  matching : Nat
  divergence : Option Divergence
deriving DecidableEq, Inhabited

/-- A word, or the note that the image has ended. -/
def wordOrEnd : Option UInt32 → String
  | some word => Text.hexWord word
  | none => "<ended>"

/-- The divergence in lines of text. -/
def Divergence.text (d : Divergence) : String :=
  "DIVERGENCE at word " ++ toString d.index ++ " (" ++ d.region.name ++ "):\n" ++
    "  Image A: " ++ wordOrEnd d.first ++ "\n" ++
    "  Image B: " ++ wordOrEnd d.second ++ "\n" ++
    (if d.segments.isEmpty then "" else "  Segments: " ++ ", ".intercalate d.segments ++ "\n")

/-- The result in lines of text. -/
def Comparison.text (c : Comparison) : String :=
  (if c.identical then "✅ IDENTICAL: " ++ toString c.matching ++ " words matched\n"
    else "❌ DIFFERENT\n" ++
      "   Image A: " ++ toString c.firstLength ++ " words, Image B: " ++
        toString c.secondLength ++ " words\n" ++
      "   Matched " ++ toString c.matching ++ " words before divergence\n") ++
    match c.divergence with
    | none => ""
    | some d => "\n" ++ d.text

/-! ## Comparing -/

/-- How many words at the front are equal. -/
def matchingWords : List UInt32 → List UInt32 → Nat
  | x :: xs, y :: ys => if x = y then matchingWords xs ys + 1 else 0
  | _, _ => 0

/-- Compares two word lists; `locate` says what a place belongs to. -/
def compareBy (locate : Nat → WordRegion × List String) (first second : List UInt32) :
    Comparison :=
  let index := matchingWords first second
  let divergence :=
    if index < min first.length second.length ∨ first.length ≠ second.length then
      some ⟨index, (locate index).1, first[index]?, second[index]?, (locate index).2⟩
    else none
  ⟨divergence.isNone, first.length, second.length, index, divergence⟩

/-- Compares two word lists of which nothing is known. -/
def compareWords (first second : List UInt32) : Comparison :=
  compareBy (fun index => (.ofIndex false index, [])) first second

/-- The words in which two lists differ, in order. -/
def divergences (first second : List UInt32) : List Divergence :=
  ((List.range (max first.length second.length)).filter fun i => first[i]? ≠ second[i]?).map
    fun i => ⟨i, .ofIndex false i, first[i]?, second[i]?, []⟩

namespace ChainLayout

/-- The names of the segments, of those whose bits start at `start`, with a bit in a payload word. -/
def overlapping (word : Nat) : Nat → List PlacedSegment → List String
  | _, [] => []
  | start, s :: segments =>
    let stop := start + s.bitWidth.toNat
    let rest := overlapping word stop segments
    if start < 32 * word + 32 ∧ 32 * word < stop then s.name :: rest else rest

/-- The names of the segments with a bit in a payload word. -/
def segmentsInWord (layout : ChainLayout) (word : Nat) : List String :=
  overlapping word 0 layout.segments

/-- Compares two images of the chain. -/
def compare (layout : ChainLayout) (checksum : Bool) (first second : List UInt32) : Comparison :=
  compareBy (fun index =>
    let region := WordRegion.ofIndex checksum index
    let front := if checksum then 2 else 1
    (region, if region = .payload then layout.segmentsInWord (index - front) else []))
    first second

end ChainLayout
end ScanChain
