/-
# ScanChain.Proofs.Cursor — reading by index never leaves the words

The reader of a layout drops bits from a list, and a list that is too short would go unnoticed.
Here the same reading goes by index: a cursor runs over the bits, every slice names both its ends,
every word its index, and an index out of range makes the whole outcome `none`. `readWords?_eq`
says that this never happens, for any words, and that the two readers agree.
-/
import ScanChain.Proofs.Frame

namespace ScanChain

/-- The entries of a list from `start` up to `stop`. There are none if an end is out of range. -/
def slice? {α : Type} (entries : List α) (start stop : Nat) : Option (List α) :=
  if start ≤ stop ∧ stop ≤ entries.length then some ((entries.take stop).drop start) else none

theorem slice?_eq {α : Type} {entries : List α} {start stop : Nat} (hle : start ≤ stop)
    (hstop : stop ≤ entries.length) :
    slice? entries start stop = some ((entries.drop start).take (stop - start)) := by
  rw [slice?, if_pos ⟨hle, hstop⟩, List.drop_take]

/-- The values of fields from a place on, and the place after them. -/
def readFields? (bits : List Bool) :
    Nat → List PlacedField → Option (List ResolvedField × Nat)
  | cursor, [] => some ([], cursor)
  | cursor, f :: fields => do
    let stop := cursor + f.width.toNat
    let slice ← slice? bits cursor stop
    let (values, last) ← readFields? bits stop fields
    return (⟨f.name, .ofMsbFirst slice⟩ :: values, last)

/-- The values of segments from a place on, or the first set bit outside the fields. -/
def readSegments? (bits : List Bool) :
    Nat → List PlacedSegment → Option (Except PackError (List ResolvedSegment))
  | cursor, [] => do
    let tail ← slice? bits cursor bits.length
    return if tail.any id then .error (.nonZeroPadding none) else .ok []
  | cursor, s :: segments => do
    let (values, low) ← readFields? bits cursor s.fields
    let stop := low + s.padding
    let padding ← slice? bits low stop
    if padding.any id then
      return .error (.nonZeroPadding (some s.name))
    let rest ← readSegments? bits stop segments
    return rest.map (⟨s.name, s.position, values⟩ :: ·)

/-- The values that words hold, read by index. -/
def ChainLayout.readWords? (layout : ChainLayout) (words : List UInt32) (checksum : Bool) :
    Option (Except PackError (List ResolvedSegment)) := do
  if words.length ≠ layout.wordCount checksum then
    return .error (.lengthMismatch (layout.wordCount checksum) words.length)
  let header ← words[0]?
  if header ≠ layout.header then
    return .error (.headerMismatch layout.header header)
  let payload ← slice? words (1 + checksum.toNat) words.length
  if checksum then
    let found ← words[1]?
    if found ≠ Misr.signature payload then
      return .error (.checksumMismatch (Misr.signature payload) found)
  readSegments? (Word.unpack payload) 0 layout.segments

/-! ## Every index is in range -/

/-- Where the bits reach to the end of the fields, no slice of them is out of range. -/
theorem readFields?_eq {top bottom : Nat} {fields : List PlacedField}
    (htiled : Tiles top fields bottom) {bits : List Bool} {cursor : Nat}
    (hroom : cursor + (top - bottom) ≤ bits.length) :
    readFields? bits cursor fields =
      some ((PlacedSegment.takeFields fields (bits.drop cursor)).1, cursor + (top - bottom)) := by
  induction htiled generalizing cursor with
  | nil => simp [readFields?, PlacedSegment.takeFields]
  | @cons top bottom f fields hpos htop hrest ih =>
    have hle := hrest.bottom_le
    have hslice : slice? bits cursor (cursor + f.width.toNat) =
        some ((bits.drop cursor).take f.width.toNat) := by
      rw [slice?_eq (Nat.le_add_right _ _) (by omega), Nat.add_sub_cancel_left]
    have hlast : cursor + f.width.toNat + (f.offset - bottom) = cursor + (top - bottom) := by omega
    have hroom' : cursor + f.width.toNat + (f.offset - bottom) ≤ bits.length := by omega
    have htail := ih hroom'
    simp only [readFields?, hslice, htail, hlast, ← List.drop_drop]
    rfl

/-- Where the bits reach to the end of the segments, no slice of them is out of range. -/
theorem readSegments?_eq {segments : List PlacedSegment} (htiled : ∀ s ∈ segments, s.Tiled)
    {bits : List Bool} {cursor : Nat} (hroom : cursor + totalWidth segments ≤ bits.length) :
    readSegments? bits cursor segments = some (takeSegments segments (bits.drop cursor)) := by
  induction segments generalizing cursor with
  | nil =>
    have hend : cursor ≤ bits.length := by simpa using hroom
    have hslice : slice? bits cursor bits.length = some (bits.drop cursor) := by
      rw [slice?_eq hend (Nat.le_refl _), List.take_of_length_le (by simp)]
    simp only [readSegments?, hslice]
    rfl
  | cons s segments ih =>
    obtain ⟨hs, htail⟩ := List.forall_mem_cons.mp htiled
    have hle := Tiles.bottom_le hs
    rw [totalWidth_cons] at hroom
    -- The fields end where the padding starts, and the padding where the next segment does.
    have hwidth : cursor + (s.bitWidth.toNat - s.padding) ≤ bits.length := by omega
    have hstop : cursor + (s.bitWidth.toNat - s.padding) + s.padding =
        cursor + s.bitWidth.toNat := by omega
    have hslice : slice? bits (cursor + (s.bitWidth.toNat - s.padding))
        (cursor + s.bitWidth.toNat) =
          some ((PlacedSegment.takeFields s.fields (bits.drop cursor)).2.take s.padding) := by
      rw [slice?_eq (by omega) (by omega), takeFields_rest hs, List.drop_drop, ← hstop,
        Nat.add_sub_cancel_left]
    have hroom' : cursor + s.bitWidth.toNat + totalWidth segments ≤ bits.length := by omega
    have hrest := ih htail hroom'
    rw [takeSegments_cons hs, List.drop_drop, readSegments?, readFields?_eq hs hwidth]
    simp only [Option.bind_eq_bind, Option.bind_some, hstop, hslice, hrest]
    split
    · rfl
    · rfl

namespace ChainLayout

/-- No words make the reader use an index out of range, and reading by index is reading. -/
theorem readWords?_eq (layout : ChainLayout) (words : List UInt32) (checksum : Bool) :
    layout.readWords? words checksum = some (layout.unpackWords words checksum) := by
  rw [unpackWords_eq, readWords?]
  by_cases hcount : words.length = layout.wordCount checksum
  · have hslice : slice? words (1 + checksum.toNat) words.length =
        some (payloadOf words checksum) := by
      -- The right count leaves room for the front, also where the payload is empty.
      have hle : 1 + checksum.toNat ≤ words.length := by
        rw [hcount, wordCount]
        omega
      rw [slice?_eq hle (Nat.le_refl _), List.take_of_length_le (by simp), payloadOf]
    have hroom : 0 + totalWidth layout.segments ≤
        (Word.unpack (payloadOf words checksum)).length := by
      rw [Word.length_unpack, length_payloadOf hcount, layout.totalWidth_segments]
      omega
    have hread := readSegments?_eq layout.tiled hroom
    rw [List.drop_zero] at hread
    rw [first_word hcount, hslice]
    simp only [hcount, ne_eq, not_true_eq_false, if_false, Option.bind_eq_bind, Option.bind_some,
      hread]
    split
    · rfl
    · cases hc : checksum with
      | false => simp
      | true =>
        rw [second_word hcount hc]
        simp only [if_true, true_and, Option.bind_some]
        split
        · rfl
        · rfl
  · rw [if_pos hcount, if_pos hcount]
    rfl

end ChainLayout

end ScanChain
