/-
# ScanChain.Proofs.Blame — a divergence is blamed on segments that differ

Two images of one chain are compared word by word. They have one header and one length, so they
diverge in a checksum or in a payload word; a payload word is laid out as packing lays it out, and
the segments that are named for it are those with a bit in it.

The bits before the diverging word are the same in both images, and some bit of that word is not.
A bit that belongs to no field is clear in both, so the bit that differs belongs to a field, and to
a segment that is named (`exists_not_sameValues`); a segment that ends before the word has only
bits that are the same, and so the same values (`sameValues_of_bits`).
-/
import ScanChain.Proofs.Compiling
import ScanChain.Proofs.RoundTrip

namespace ScanChain

/-! ## The first word that differs -/

section Words

variable {first second : List UInt32}

/-- The words that match are the same in both lists. -/
theorem take_matchingWords (first second : List UInt32) :
    first.take (matchingWords first second) = second.take (matchingWords first second) := by
  induction first generalizing second with
  | nil => simp [matchingWords]
  | cons x first ih =>
    cases second with
    | nil => simp [matchingWords]
    | cons y second =>
      rw [matchingWords]
      split
      · rename_i hxy
        rw [hxy, List.take_succ_cons, List.take_succ_cons, ih]
      · rfl

/-- Different lists differ right after the words that match. -/
theorem getElem?_matchingWords_ne (hne : first ≠ second) :
    first[matchingWords first second]? ≠ second[matchingWords first second]? := by
  induction first generalizing second with
  | nil =>
    cases second with
    | nil => exact absurd rfl hne
    | cons y second => simp [matchingWords]
  | cons x first ih =>
    cases second with
    | nil => simp [matchingWords]
    | cons y second =>
      rw [matchingWords]
      split
      · rename_i hxy
        rw [List.getElem?_cons_succ, List.getElem?_cons_succ]
        exact ih fun h => hne (by rw [hxy, h])
      · rename_i hxy
        rw [List.getElem?_cons_zero, List.getElem?_cons_zero]
        exact fun h => hxy (Option.some.inj h)

/-- No divergence is found exactly if the lists are equal; otherwise it is right after the words that
match. -/
theorem divergence_compareBy (locate : Nat → WordRegion × List String) (first second : List UInt32) :
    (compareBy locate first second).divergence =
      if first = second then none
      else
        let index := matchingWords first second
        some ⟨index, (locate index).1, first[index]?, second[index]?, (locate index).2⟩ := by
  show (if matchingWords first second < min first.length second.length ∨
    first.length ≠ second.length then _ else none) = _
  by_cases heq : first = second
  · rw [← heq, matchingWords_self, Nat.min_self]
    simp
  · have hstop : matchingWords first second < min first.length second.length ∨
        first.length ≠ second.length := by
      by_contra hboth
      -- If all words of two lists of one length matched, the lists would be their matching parts.
      have htake := take_matchingWords first second
      rw [List.take_of_length_le (by omega), List.take_of_length_le (by omega)] at htake
      exact heq htake
    rw [if_pos hstop, if_neg heq]

theorem divergence_compareBy_eq_none_iff {locate : Nat → WordRegion × List String} :
    (compareBy locate first second).divergence = none ↔ first = second := by
  rw [divergence_compareBy]
  split
  · rename_i heq
    exact iff_of_true rfl heq
  · rename_i hne
    exact iff_of_false (Option.some_ne_none _) hne

end Words

/-! ## The segments with a bit in a word -/

/-- Segment `i` has a bit in a word of the payload. -/
def HasBitIn (segments : List PlacedSegment) (i word : Nat) : Prop :=
  ∃ s b, segments[i]? = some s ∧ b < s.bitWidth.toNat ∧ bitPlace segments i s b / 32 = word

/-- The names are those of the segments with a bit in a word, in the order of the chain. -/
def NamesBitsIn (segments : List PlacedSegment) (word : Nat) (names : List String) : Prop :=
  ∃ indices : List Nat, indices.Pairwise (· < ·) ∧ (∀ i, i ∈ indices ↔ HasBitIn segments i word) ∧
    names = indices.filterMap fun i => segments[i]?.map (·.name)

section Overlap

variable {segments : List PlacedSegment} {word : Nat}

/-- A segment that is not empty has a bit in a word exactly if their places overlap. -/
theorem hasBitIn_iff {i : Nat} :
    HasBitIn segments i word ↔ ∃ s, segments[i]? = some s ∧ 0 < s.bitWidth.toNat ∧
      segmentStart segments i < 32 * word + 32 ∧
        32 * word < segmentStart segments i + s.bitWidth.toNat := by
  constructor
  · rintro ⟨s, b, hs, hb, hword⟩
    have hin : segmentStart segments i ≤ bitPlace segments i s b ∧
        bitPlace segments i s b < segmentStart segments i + s.bitWidth.toNat := bitPlace_within hb
    exact ⟨s, hs, by omega, by omega, by omega⟩
  · -- The later of the two starts is a place of both.
    rintro ⟨s, hs, hpos, hstart, hstop⟩
    obtain ⟨b, hb, hplace⟩ : ∃ b < s.bitWidth.toNat,
        max (segmentStart segments i) (32 * word) = bitPlace segments i s b :=
      exists_bitPlace (by omega) (by omega)
    exact ⟨s, b, hs, hb, by omega⟩

/-- The indices of the segments that a word is blamed on. -/
def overlappingIndices (word : Nat) : Nat → List PlacedSegment → List Nat
  | _, [] => []
  | start, s :: segments =>
    let stop := start + s.bitWidth.toNat
    let rest := (overlappingIndices word stop segments).map (· + 1)
    if start < 32 * word + 32 ∧ 32 * word < stop then 0 :: rest else rest

theorem overlapping_eq (word start : Nat) (segments : List PlacedSegment) :
    ChainLayout.overlapping word start segments =
      (overlappingIndices word start segments).filterMap fun i => segments[i]?.map (·.name) := by
  induction segments generalizing start with
  | nil => rfl
  | cons s segments ih =>
    have hrest : ((overlappingIndices word (start + s.bitWidth.toNat) segments).map
          (· + 1)).filterMap (fun i => (s :: segments)[i]?.map (·.name)) =
        ChainLayout.overlapping word (start + s.bitWidth.toNat) segments := by
      rw [ih, List.filterMap_map]
      rfl
    rw [ChainLayout.overlapping, overlappingIndices, ← hrest]
    split
    · rfl
    · rfl

theorem pairwise_overlappingIndices (word start : Nat) (segments : List PlacedSegment) :
    (overlappingIndices word start segments).Pairwise (· < ·) := by
  induction segments generalizing start with
  | nil => exact .nil
  | cons s segments ih =>
    have hrest : ((overlappingIndices word (start + s.bitWidth.toNat) segments).map
        (· + 1)).Pairwise (· < ·) :=
      (ih _).map _ fun _ _ h => Nat.succ_lt_succ h
    rw [overlappingIndices]
    split
    · refine .cons ?_ hrest
      intro i hi
      obtain ⟨j, -, rfl⟩ := List.mem_map.mp hi
      exact Nat.succ_pos j
    · exact hrest

theorem mem_overlappingIndices_iff {start i : Nat} :
    i ∈ overlappingIndices word start segments ↔ ∃ s, segments[i]? = some s ∧
      start + segmentStart segments i < 32 * word + 32 ∧
        32 * word < start + segmentStart segments i + s.bitWidth.toNat := by
  induction segments generalizing start i with
  | nil => simp [overlappingIndices]
  | cons t segments ih =>
    rw [overlappingIndices]
    cases i with
    | zero =>
      split <;> simp_all
    | succ i =>
      have hrest : i + 1 ∈ (overlappingIndices word (start + t.bitWidth.toNat) segments).map
          (· + 1) ↔ i ∈ overlappingIndices word (start + t.bitWidth.toNat) segments := by
        simp
      rw [List.getElem?_cons_succ, segmentStart_cons_succ, ← Nat.add_assoc, ← ih, ← hrest]
      split
      · simp
      · rfl

/-- No segment of a chain is empty. -/
theorem ChainLayout.bitWidth_pos (layout : ChainLayout) :
    ∀ s ∈ layout.segments, 0 < s.bitWidth.toNat := by
  intro s hs
  obtain ⟨t, ht, rfl⟩ := List.mem_map.mp hs
  exact (layout.chain.fits t ht).1

/-- A word is blamed on the segments with a bit in it. -/
theorem ChainLayout.namesBitsIn_segmentsInWord (layout : ChainLayout) (word : Nat) :
    NamesBitsIn layout.segments word (layout.segmentsInWord word) := by
  refine ⟨_, pairwise_overlappingIndices word 0 layout.segments, ?_,
    overlapping_eq word 0 layout.segments⟩
  intro i
  rw [mem_overlappingIndices_iff, hasBitIn_iff, Nat.zero_add]
  constructor
  · rintro ⟨s, hs, hstart, hstop⟩
    exact ⟨s, hs, layout.bitWidth_pos s (List.mem_of_getElem? hs), hstart, hstop⟩
  · rintro ⟨s, hs, -, hstart, hstop⟩
    exact ⟨s, hs, hstart, hstop⟩

end Overlap

/-! ## Values and bits -/

/-- The values of a segment's fields, in order. -/
def ResolvedSegment.values (r : ResolvedSegment) : List BitString := r.fields.map (·.value)

/-- Segment `i` has the same values in both lists. -/
def SameValues (a b : List ResolvedSegment) (i : Nat) : Prop :=
  a[i]?.map (·.values) = b[i]?.map (·.values)

theorem fieldStream_eq (values : List ResolvedField) :
    fieldStream values = (values.map (·.value)).flatMap (·.msbFirst) := by
  rw [fieldStream, List.flatMap_map]

/-- The stream of a chain is made of the values alone. -/
theorem chainStream_congr {segments : List PlacedSegment} {a b : List ResolvedSegment}
    (h : ∀ i, SameValues a b i) : chainStream segments a = chainStream segments b := by
  induction segments generalizing a b with
  | nil => rfl
  | cons s segments ih =>
    have hfirst := h 0
    cases a with
    | nil =>
      cases b with
      | nil => rfl
      | cons => cases hfirst
    | cons r a =>
      cases b with
      | nil => cases hfirst
      | cons t b =>
        have hvalues : r.values = t.values := Option.some.inj hfirst
        rw [ResolvedSegment.values, ResolvedSegment.values] at hvalues
        have hrest : chainStream segments a = chainStream segments b := ih fun i => h (i + 1)
        rw [chainStream, chainStream, PlacedSegment.stream, PlacedSegment.stream, fieldStream_eq,
          fieldStream_eq, hvalues, hrest]

/-- Values of the same fields are the same if all their bits are. -/
theorem values_eq_of_bits {fields : List PlacedField} {v w : List ResolvedField}
    (hv : List.Forall₂ PlacedField.Matches fields v)
    (hw : List.Forall₂ PlacedField.Matches fields w)
    (h : ∀ (j k : Nat) (f : PlacedField) (x y : ResolvedField), fields[j]? = some f →
      v[j]? = some x → w[j]? = some y → k < f.width.toNat → x.value.get k = y.value.get k) :
    v.map (·.value) = w.map (·.value) := by
  induction hv generalizing w with
  | nil =>
    cases hw
    rfl
  | @cons f x fields v hx _ ih =>
    cases hw with
    | @cons _ y _ w hy hw =>
      have hwidth : x.value.width = y.value.width := hx.2.trans hy.2.symm
      have hfirst : x.value = y.value := by
        apply BitString.ext_get hwidth
        intro k
        rcases Nat.lt_or_ge k f.width.toNat with hk | hk
        · exact h 0 k f x y rfl rfl rfl hk
        · rw [BitString.get_of_width_le _ (hx.2.trans_le hk),
            BitString.get_of_width_le _ (hy.2.trans_le hk)]
      have hrest : v.map (·.value) = w.map (·.value) :=
        ih hw fun j k f x y hf hx hy hk => h (j + 1) k f x y hf hx hy hk
      rw [List.map_cons, List.map_cons, hfirst, hrest]

namespace Word

variable {first second : List UInt32} {word : Nat}

/-- Words before a place hold the same bits if they are the same words. -/
theorem streamBit_eq_of_take (h : first.take word = second.take word) {q : Nat}
    (hq : q < 32 * word) : streamBit first q = streamBit second q := by
  have hlt : q / 32 < word := by omega
  have hword : first[q / 32]? = second[q / 32]? := by
    rw [← List.getElem?_take_of_lt hlt, h, List.getElem?_take_of_lt hlt]
  rw [streamBit, streamBit, List.getD_eq_getElem?_getD, List.getD_eq_getElem?_getD, hword]

/-- Two words that differ do so in a bit. -/
theorem exists_streamBit_ne (hlen : first.length = second.length)
    (hne : first[word]? ≠ second[word]?) :
    ∃ q, q / 32 = word ∧ streamBit first q ≠ streamBit second q := by
  have hlt : word < first.length := by
    by_contra hge
    rw [List.getElem?_eq_none (by omega), List.getElem?_eq_none (by omega)] at hne
    exact hne rfl
  have hnumber : (first.getD word 0).toNat ≠ (second.getD word 0).toNat := by
    intro h
    rw [List.getD_eq_getElem _ _ hlt, List.getD_eq_getElem _ _ (hlen ▸ hlt),
      UInt32.toNat_inj] at h
    rw [List.getElem?_eq_getElem hlt, List.getElem?_eq_getElem (hlen ▸ hlt), h] at hne
    exact hne rfl
  obtain ⟨k, hk⟩ := Nat.exists_testBit_ne_of_ne hnumber
  -- Numbers of 32 bits agree in all bits above.
  have hbit : k < 32 := by
    by_contra hge
    have hclear (n : UInt32) : n.toNat.testBit k = false :=
      Nat.testBit_lt_two_pow (n.toNat_lt.trans_le (Nat.pow_le_pow_right (by decide) (by omega)))
    exact hk (by rw [hclear, hclear])
  have hplace : (32 * word + (31 - k)) / 32 = word := by omega
  have hrest : 31 - (32 * word + (31 - k)) % 32 = k := by omega
  refine ⟨32 * word + (31 - k), hplace, ?_⟩
  rwa [streamBit, streamBit, hplace, hrest]

end Word

namespace ChainLayout

variable {layout : ChainLayout} {a b : List ResolvedSegment} {A B : Image} {checksum : Bool}

section Images

variable (ha : layout.pack a checksum = .ok A) (hb : layout.pack b checksum = .ok B)
include ha hb

/-- A segment has the same values in two images if its bits are the same. -/
theorem sameValues_of_bits {i : Nat} {s : PlacedSegment} (hs : layout.segments[i]? = some s)
    (h : ∀ q, segmentStart layout.segments i ≤ q →
      q < segmentStart layout.segments i + s.bitWidth.toNat →
        Word.streamBit A.payload q = Word.streamBit B.payload q) : SameValues a b i := by
  obtain ⟨r, hr, hrs⟩ := exists_related (pack_eq_ok_iff.mp ha).1 hs
  obtain ⟨t, ht, hts⟩ := exists_related (pack_eq_ok_iff.mp hb).1 hs
  rw [SameValues, hr, ht]
  apply congrArg some
  apply values_eq_of_bits hrs hts
  intro j k f x y hf hx hy hk
  have hin := Tiles.within (layout.tiled s (List.mem_of_getElem? hs)) (List.mem_of_getElem? hf)
  obtain ⟨hlow, hhigh⟩ : segmentStart layout.segments i ≤ bitPlace layout.segments i s (f.offset + k) ∧
      bitPlace layout.segments i s (f.offset + k) <
        segmentStart layout.segments i + s.bitWidth.toNat := bitPlace_within (by omega)
  rw [← streamBit_of_field ha hs hr hf hx hk, ← streamBit_of_field hb hs ht hf hy hk]
  exact h _ hlow hhigh

/-- Where the bits of two images differ there is a segment with a value that differs. -/
theorem exists_not_sameValues {q : Nat}
    (hne : Word.streamBit A.payload q ≠ Word.streamBit B.payload q) :
    ∃ i, HasBitIn layout.segments i (q / 32) ∧ ¬ SameValues a b i := by
  by_cases hfield : IsFieldPlace layout.segments q
  · obtain ⟨i, s, f, k, hs, hf, hk, rfl⟩ := hfield
    obtain ⟨r, hr, hrs⟩ := exists_related (pack_eq_ok_iff.mp ha).1 hs
    obtain ⟨t, ht, hts⟩ := exists_related (pack_eq_ok_iff.mp hb).1 hs
    have hin := Tiles.within (layout.tiled s (List.mem_of_getElem? hs)) hf
    obtain ⟨j, hj⟩ := List.mem_iff_getElem?.mp hf
    obtain ⟨x, hx, -⟩ := exists_related hrs hj
    obtain ⟨y, hy, -⟩ := exists_related hts hj
    refine ⟨i, ⟨s, f.offset + k, hs, by omega, rfl⟩, ?_⟩
    intro hsame
    -- With the same values both images would have the same bit there.
    rw [SameValues, hr, ht] at hsame
    have hvalues : r.fields.map (·.value) = t.fields.map (·.value) := Option.some.inj hsame
    have hvalue : x.value = y.value := by
      have hentry := congrArg (·[j]?) hvalues
      simp only [List.getElem?_map, hx, hy] at hentry
      exact Option.some.inj hentry
    rw [streamBit_of_field ha hs hr hj hx hk, streamBit_of_field hb hs ht hj hy hk, hvalue] at hne
    exact hne rfl
  · rw [streamBit_of_spare ha hfield, streamBit_of_spare hb hfield] at hne
    exact absurd rfl hne

/-- Two images of a chain have payloads of one length. -/
theorem length_payload_eq : A.payload.length = B.payload.length := by
  obtain ⟨hmatch, rfl⟩ := pack_eq_ok_iff.mp ha
  obtain ⟨hmatch', rfl⟩ := pack_eq_ok_iff.mp hb
  show (Word.pack _).length = (Word.pack _).length
  rw [Word.length_pack, Word.length_pack, length_chainStream layout.tiled hmatch,
    length_chainStream layout.tiled hmatch']

/-- Two images of a chain have the same payload exactly if they hold the same values. -/
theorem payload_eq_iff : A.payload = B.payload ↔ ∀ i, SameValues a b i := by
  constructor
  · intro heq i
    cases hs : layout.segments[i]? with
    | none =>
      have hout : layout.segments.length ≤ i := List.getElem?_eq_none_iff.mp hs
      have hla := (pack_eq_ok_iff.mp ha).1.length_eq
      have hlb := (pack_eq_ok_iff.mp hb).1.length_eq
      rw [SameValues, List.getElem?_eq_none (by omega), List.getElem?_eq_none (by omega)]
    | some s => exact sameValues_of_bits ha hb hs fun q _ _ => by rw [heq]
  · intro hsame
    obtain ⟨-, rfl⟩ := pack_eq_ok_iff.mp ha
    obtain ⟨-, rfl⟩ := pack_eq_ok_iff.mp hb
    show Word.pack _ = Word.pack _
    rw [chainStream_congr hsame]

end Images

/-! ## Comparing two images of a chain -/

theorem words_of_pack (h : layout.pack a checksum = .ok A) :
    A.words = layout.frame A.payload checksum := by
  obtain ⟨-, rfl⟩ := pack_eq_ok_iff.mp h
  rfl

theorem frame_inj {p q : List UInt32} :
    layout.frame p checksum = layout.frame q checksum ↔ p = q := by
  constructor
  · intro h
    have hp : payloadOf (layout.frame p checksum) checksum = p := payloadOf_frame p
    rw [← hp, h, payloadOf_frame]
  · rintro rfl
    rfl

/-- Images diverge in their checksums if these differ, and otherwise where their payloads do. -/
theorem matchingWords_frame (p q : List UInt32) :
    matchingWords (layout.frame p checksum) (layout.frame q checksum) =
      if checksum = true ∧ Misr.signature p ≠ Misr.signature q then 1
      else 1 + checksum.toNat + matchingWords p q := by
  cases checksum with
  | false => simp [frame, matchingWords, Nat.add_comm]
  | true =>
    simp only [frame, if_true, Option.toList_some, List.cons_append, List.nil_append,
      matchingWords, Bool.toNat_true, true_and]
    by_cases hsig : Misr.signature p = Misr.signature q
    · rw [if_pos hsig, if_neg (not_not.mpr hsig)]
      omega
    · rw [if_neg hsig, if_pos hsig]

/-- Two images of a chain diverge exactly if they hold different values. -/
theorem divergence_compare_eq_none_iff (ha : layout.pack a checksum = .ok A)
    (hb : layout.pack b checksum = .ok B) :
    (layout.compare checksum A.words B.words).divergence = none ↔ ∀ i, SameValues a b i := by
  rw [← payload_eq_iff ha hb, ← frame_inj, ← words_of_pack ha, ← words_of_pack hb, compare,
    divergence_compareBy_eq_none_iff]

/-- Two images that diverge do so in their checksums if these differ, and otherwise in the first word
in which their payloads differ. -/
theorem divergence_compare_eq_some (ha : layout.pack a checksum = .ok A)
    (hb : layout.pack b checksum = .ok B) {d : Divergence}
    (hd : (layout.compare checksum A.words B.words).divergence = some d) :
    if checksum = true ∧ Misr.signature A.payload ≠ Misr.signature B.payload then
      d.region = .checksum
    else d.region = .payload ∧
      d.index = 1 + checksum.toNat + matchingWords A.payload B.payload ∧
      d.segments = layout.segmentsInWord (matchingWords A.payload B.payload) := by
  rw [compare, divergence_compareBy, words_of_pack ha, words_of_pack hb] at hd
  split at hd
  · cases hd
  · obtain rfl := Option.some.inj hd
    rw [matchingWords_frame]
    split
    · rename_i hsig
      simp [WordRegion.ofIndex, hsig.1]
    · cases checksum with
      | false => simp [WordRegion.ofIndex]
      | true =>
        have hplace : ¬ 2 + matchingWords A.payload B.payload = 1 := by omega
        simp [WordRegion.ofIndex, hplace]

/-- What a divergence in a payload word says about values: the names are those of the segments with a
bit in the word, one of these segments has different values, and the segments that end before the
word have the same. -/
structure BlamesWord (layout : ChainLayout) (a b : List ResolvedSegment) (word : Nat)
    (names : List String) : Prop where
  names : NamesBitsIn layout.segments word names
  differ : ∃ i, HasBitIn layout.segments i word ∧ ¬ SameValues a b i
  before : ∀ i s, layout.segments[i]? = some s →
    segmentStart layout.segments i + s.bitWidth.toNat ≤ 32 * word → SameValues a b i

/-- The first word in which two payloads differ is blamed on the right segments. -/
theorem blamesWord_matchingWords (ha : layout.pack a checksum = .ok A)
    (hb : layout.pack b checksum = .ok B) (hne : A.payload ≠ B.payload) :
    layout.BlamesWord a b (matchingWords A.payload B.payload)
      (layout.segmentsInWord (matchingWords A.payload B.payload)) where
  names := layout.namesBitsIn_segmentsInWord _
  differ := by
    obtain ⟨q, hword, hbit⟩ := Word.exists_streamBit_ne (length_payload_eq ha hb)
      (getElem?_matchingWords_ne hne)
    rw [← hword]
    exact exists_not_sameValues ha hb hbit
  before := by
    intro i s hs hend
    apply sameValues_of_bits ha hb hs
    intro q _ hq
    exact Word.streamBit_eq_of_take (take_matchingWords A.payload B.payload) (by omega)

/-- Two images of a chain diverge exactly if they hold different values. They never diverge in the
header, and in the checksum exactly if there is one and it differs; otherwise they diverge in a
payload word, which is the first in which the payloads differ, and that word is blamed on exactly
the segments with a bit in it, one of which has different values, while segments that end before it
have the same values. -/
theorem blames_segments_that_differ (ha : layout.pack a checksum = .ok A)
    (hb : layout.pack b checksum = .ok B) :
    ((layout.compare checksum A.words B.words).divergence = none ↔ ∀ i, SameValues a b i) ∧
      ∀ d, (layout.compare checksum A.words B.words).divergence = some d →
        d.region ≠ .header ∧
        (d.region = .checksum ↔
          checksum = true ∧ Misr.signature A.payload ≠ Misr.signature B.payload) ∧
        (d.region ≠ .checksum → d.region = .payload ∧ ∃ word,
          d.index = 1 + checksum.toNat + word ∧
            A.payload.take word = B.payload.take word ∧ A.payload[word]? ≠ B.payload[word]? ∧
            layout.BlamesWord a b word d.segments) := by
  refine ⟨divergence_compare_eq_none_iff ha hb, ?_⟩
  intro d hd
  have hne : A.payload ≠ B.payload := by
    intro heq
    rw [(divergence_compare_eq_none_iff ha hb).mpr ((payload_eq_iff ha hb).mp heq)] at hd
    cases hd
  have hfound := divergence_compare_eq_some ha hb hd
  split at hfound
  · rename_i hsig
    rw [hfound]
    exact ⟨by decide, iff_of_true rfl hsig, fun h => absurd rfl h⟩
  · rename_i hsig
    obtain ⟨hregion, hindex, hsegments⟩ := hfound
    rw [hregion]
    refine ⟨by decide, iff_of_false (by decide) hsig, fun _ => ⟨rfl, _, hindex, ?_, ?_, ?_⟩⟩
    · exact take_matchingWords A.payload B.payload
    · exact getElem?_matchingWords_ne hne
    · rw [hsegments]
      exact blamesWord_matchingWords ha hb hne

/-- A change in the second of three segments is blamed on the second and the third, which share the
word that differs. -/
theorem shared_word_blames_both :
    let layout : ChainLayout :=
      { kind := .length
        chain :=
          { name := "main"
            segments := [⟨"alu", 0, 32, .stuckAt 16 16 16⟩, ⟨"timer", 1, 40, .cycle 8 0 40 0⟩,
              ⟨"fpu", 2, 10, .stuckAt 4 4 4⟩]
            nonempty := by decide, positions := by decide, names_nodup := by decide
            fits := by decide } }
    let values (count : Nat) : List ResolvedSegment :=
      [⟨"alu", 0, [⟨"mask", .ofNat 3 16⟩, ⟨"value", .ofNat 1 16⟩]⟩,
        ⟨"timer", 1, [⟨"cycle_count", .ofNat count 40⟩]⟩,
        ⟨"fpu", 2, [⟨"mask", .ofNat 5 4⟩, ⟨"value", .ofNat 1 4⟩]⟩]
    let image (last : UInt32) : Image :=
      { header := 82, checksum := none, payloadBits := 82, payload := [0x00030001, 0, last] }
    layout.pack (values 6) false = .ok (image 0x06510000) ∧
      layout.pack (values 7) false = .ok (image 0x07510000) ∧
      ∃ d, (layout.compare false (image 0x06510000).words (image 0x07510000).words).divergence =
          some d ∧
        d.segments = ["timer", "fpu"] ∧ d.region = .payload ∧ ∃ word, d.index = 1 + word ∧
          layout.BlamesWord (values 6) (values 7) word d.segments := by
  intro layout values image
  have ha : layout.pack (values 6) false = .ok (image 0x06510000) := by decide +kernel
  have hb : layout.pack (values 7) false = .ok (image 0x07510000) := by decide +kernel
  let d : Divergence := ⟨3, .payload, some 0x06510000, some 0x07510000, ["timer", "fpu"]⟩
  have hd : (layout.compare false (image 0x06510000).words (image 0x07510000).words).divergence =
      some d := by decide +kernel
  obtain ⟨hregion, word, hindex, -, -, hblames⟩ :=
    ((blames_segments_that_differ ha hb).2 d hd).2.2 (by decide)
  exact ⟨ha, hb, d, hd, rfl, hregion, word, hindex, hblames⟩

end ChainLayout
end ScanChain
