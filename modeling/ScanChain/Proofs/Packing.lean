/-
# ScanChain.Proofs.Packing — packed values lie at the offsets of their fields

Packing appends bits in order and never looks at an offset. `chainStream` is the stream it builds:
for each segment its values from the most significant bit down, and then its padding.
`pack_eq_ok_iff` says when packing succeeds and what it makes; `getD_chainStream` finds each bit of
the stream again at the place that the offset of its field gives, by one induction over the tiling
of a segment and one over the chain.
-/
import Mathlib.Data.List.Forall2
import ScanChain.Proofs.Outcome
import ScanChain.Proofs.Stream
import ScanChain.Proofs.Tiling

namespace ScanChain

/-- An entry of one of two related lists has its partner at the same index of the other. -/
theorem exists_related {α β : Type} {R : α → β → Prop} {l : List α} {m : List β}
    (h : List.Forall₂ R l m) {i : Nat} {a : α} (ha : l[i]? = some a) :
    ∃ b, m[i]? = some b ∧ R a b := by
  induction h generalizing i with
  | nil => simp at ha
  | @cons c d _ _ hcd _ ih =>
    cases i with
    | zero =>
      obtain rfl : c = a := Option.some.inj ha
      exact ⟨d, rfl, hcd⟩
    | succ i => exact ih ha

/-! ## The stream of matching values -/

/-- A value has the name and the width of a field. -/
def PlacedField.Matches (f : PlacedField) (v : ResolvedField) : Prop :=
  v.name = f.name ∧ v.value.width = f.width.toNat

/-- The values are those of the fields of a segment, in order. The segment's own name and position
play no part. -/
def PlacedSegment.Matches (s : PlacedSegment) (r : ResolvedSegment) : Prop :=
  List.Forall₂ PlacedField.Matches s.fields r.fields

/-- The bits of values, each from its most significant bit down. -/
def fieldStream (values : List ResolvedField) : List Bool := values.flatMap (·.value.msbFirst)

/-- The bits of a segment under values. -/
def PlacedSegment.stream (s : PlacedSegment) (values : List ResolvedField) : List Bool :=
  fieldStream values ++ List.replicate s.padding false

/-- The bits of a chain under values. -/
def chainStream : List PlacedSegment → List ResolvedSegment → List Bool
  | s :: segments, r :: resolved => s.stream r.fields ++ chainStream segments resolved
  | _, _ => []

theorem fieldStream_cons (v : ResolvedField) (values : List ResolvedField) :
    fieldStream (v :: values) = v.value.msbFirst ++ fieldStream values :=
  List.flatMap_cons

theorem length_fieldStream {fields : List PlacedField} {values : List ResolvedField}
    (h : List.Forall₂ PlacedField.Matches fields values) :
    (fieldStream values).length = (fields.map (·.width.toNat)).sum := by
  induction h with
  | nil => rfl
  | cons hv _ ih =>
    rw [fieldStream_cons, List.length_append, BitString.length_msbFirst, hv.2, ih, List.map_cons,
      List.sum_cons]

/-- The stream of a segment is as long as the segment is wide. -/
theorem PlacedSegment.length_stream {s : PlacedSegment} (htiled : s.Tiled) {r : ResolvedSegment}
    (h : s.Matches r) : (s.stream r.fields).length = s.bitWidth.toNat := by
  rw [stream, List.length_append, length_fieldStream h, List.length_replicate]
  exact Tiles.sum_width htiled

/-- The stream of a chain is as long as its segments together. -/
theorem length_chainStream {segments : List PlacedSegment} {resolved : List ResolvedSegment}
    (htiled : ∀ s ∈ segments, s.Tiled)
    (h : List.Forall₂ PlacedSegment.Matches segments resolved) :
    (chainStream segments resolved).length = totalWidth segments := by
  induction h with
  | nil => rfl
  | @cons s r segments resolved hr _ ih =>
    obtain ⟨hs, hrest⟩ := List.forall_mem_cons.mp htiled
    rw [chainStream, List.length_append, totalWidth_cons, PlacedSegment.length_stream hs hr,
      ih hrest]

/-! ## When packing succeeds -/

theorem fieldBits_eq_ok_iff {segment : String} {fields : List PlacedField}
    {values : List ResolvedField} {bits : List Bool} (hlen : values.length = fields.length) :
    PlacedSegment.fieldBits segment fields values = .ok bits ↔
      List.Forall₂ PlacedField.Matches fields values ∧ bits = fieldStream values := by
  induction fields generalizing values bits with
  | nil =>
    obtain rfl : values = [] := List.length_eq_zero_iff.mp hlen
    simp [PlacedSegment.fieldBits, fieldStream, eq_comm]
  | cons f fields ih =>
    match values, hlen with
    | v :: values, hlen =>
      rw [PlacedSegment.fieldBits, List.forall₂_cons]
      -- The first value is refused, or it matches and the others decide.
      split
      · rename_i hbad
        simp only [reduceCtorEq, false_iff, not_and]
        rintro ⟨hv, -⟩
        exact absurd hbad (by simp [hv.1, hv.2])
      · rename_i hgood
        have hv : f.Matches v := by
          rw [not_or, not_not, not_not] at hgood
          exact ⟨hgood.2, hgood.1⟩
        rw [map_eq_ok_iff, fieldStream_cons]
        refine ⟨?_, ?_⟩
        · rintro ⟨rest, hrest, rfl⟩
          obtain ⟨hmatch, rfl⟩ := (ih (by simpa using hlen)).mp hrest
          exact ⟨⟨hv, hmatch⟩, rfl⟩
        · rintro ⟨⟨-, hmatch⟩, rfl⟩
          exact ⟨fieldStream values, (ih (by simpa using hlen)).mpr ⟨hmatch, rfl⟩, rfl⟩

theorem PlacedSegment.bits_eq_ok_iff {s : PlacedSegment} {r : ResolvedSegment} {bits : List Bool} :
    s.bits r.fields = .ok bits ↔ s.Matches r ∧ bits = s.stream r.fields := by
  rw [PlacedSegment.bits]
  split
  · rename_i hlen
    simp only [reduceCtorEq, false_iff, not_and]
    intro hmatch
    exact absurd (List.Forall₂.length_eq hmatch).symm hlen
  · rename_i hlen
    rw [map_eq_ok_iff]
    refine ⟨?_, ?_⟩
    · rintro ⟨rest, hrest, rfl⟩
      obtain ⟨hmatch, rfl⟩ := (fieldBits_eq_ok_iff (not_not.mp hlen)).mp hrest
      exact ⟨hmatch, rfl⟩
    · rintro ⟨hmatch, rfl⟩
      exact ⟨_, (fieldBits_eq_ok_iff (not_not.mp hlen)).mpr ⟨hmatch, rfl⟩, rfl⟩

theorem segmentBits_eq_ok_iff {segments : List PlacedSegment} {resolved : List ResolvedSegment}
    {bits : List Bool} (hlen : resolved.length = segments.length) :
    segmentBits segments resolved = .ok bits ↔
      List.Forall₂ PlacedSegment.Matches segments resolved ∧
        bits = chainStream segments resolved := by
  induction segments generalizing resolved bits with
  | nil =>
    obtain rfl : resolved = [] := List.length_eq_zero_iff.mp hlen
    simp [segmentBits, chainStream, eq_comm]
  | cons s segments ih =>
    match resolved, hlen with
    | r :: resolved, hlen =>
      have hrest : resolved.length = segments.length := by simpa using hlen
      simp only [segmentBits, bind_eq_ok_iff, PlacedSegment.bits_eq_ok_iff, ih hrest,
        List.forall₂_cons, chainStream]
      refine ⟨?_, ?_⟩
      · rintro ⟨_, ⟨hr, rfl⟩, _, ⟨hmatch, rfl⟩, hbits⟩
        exact ⟨⟨hr, hmatch⟩, (Except.ok.inj hbits).symm⟩
      · rintro ⟨⟨hr, hmatch⟩, rfl⟩
        exact ⟨_, ⟨hr, rfl⟩, _, ⟨hmatch, rfl⟩, rfl⟩

namespace ChainLayout

/-- The values fit the layout: one entry a segment, with the names and widths of its fields. -/
def Matches (layout : ChainLayout) (resolved : List ResolvedSegment) : Prop :=
  List.Forall₂ PlacedSegment.Matches layout.segments resolved

/-- The image of a stream of bits. -/
def imageOf (layout : ChainLayout) (bits : List Bool) (checksum : Bool) : Image where
  header := layout.header
  checksum := if checksum then some (Misr.signature (Word.pack bits)) else none
  payload := Word.pack bits
  payloadBits := bits.length

/-- Packing succeeds exactly on matching values, and makes the image of their stream. -/
theorem pack_eq_ok_iff {layout : ChainLayout} {resolved : List ResolvedSegment} {checksum : Bool}
    {image : Image} :
    layout.pack resolved checksum = .ok image ↔
      layout.Matches resolved ∧
        image = layout.imageOf (chainStream layout.segments resolved) checksum := by
  unfold pack
  by_cases hlen : resolved.length = layout.segments.length
  · simp only [hlen, ne_eq, not_true_eq_false, if_false]
    show (segmentBits layout.segments resolved >>= fun bits => .ok (layout.imageOf bits checksum)) =
      .ok image ↔ _
    rw [bind_eq_ok_iff]
    refine ⟨?_, ?_⟩
    · rintro ⟨bits, hbits, himage⟩
      obtain ⟨hmatch, rfl⟩ := (segmentBits_eq_ok_iff hlen).mp hbits
      exact ⟨hmatch, (Except.ok.inj himage).symm⟩
    · rintro ⟨hmatch, rfl⟩
      exact ⟨_, (segmentBits_eq_ok_iff hlen).mpr ⟨hmatch, rfl⟩, rfl⟩
  · simp only [hlen, ne_eq, not_false_eq_true, if_true]
    refine ⟨?_, ?_⟩
    · intro h
      cases h
    · rintro ⟨hmatch, -⟩
      exact absurd (List.Forall₂.length_eq hmatch).symm hlen

end ChainLayout

/-! ## Where each bit lies -/

/-- A bit of a value stands as far below the top as its field's offset says, whatever follows. -/
theorem getD_fieldStream {top bottom : Nat} {fields : List PlacedField}
    {values : List ResolvedField} (htiled : Tiles top fields bottom)
    (h : List.Forall₂ PlacedField.Matches fields values) {j k : Nat} {f : PlacedField}
    {v : ResolvedField} (hf : fields[j]? = some f) (hv : values[j]? = some v)
    (hk : k < f.width.toNat) (tail : List Bool) :
    (fieldStream values ++ tail).getD (top - 1 - (f.offset + k)) false = v.value.get k := by
  induction htiled generalizing values j with
  | nil => simp at hf
  | @cons top bottom g fields hpos htop hrest ih =>
    cases h with
    | @cons _ w _ values hw h =>
      have hwidth : w.value.msbFirst.length = g.width.toNat := by
        rw [BitString.length_msbFirst, hw.2]
      rw [fieldStream_cons, List.append_assoc]
      cases j with
      | zero =>
        obtain rfl : g = f := Option.some.inj hf
        obtain rfl : w = v := Option.some.inj hv
        have hplace : top - 1 - (g.offset + k) = w.value.width - 1 - k := by
          rw [hw.2]
          omega
        rw [hplace, List.getD_append _ _ _ _ (by rw [hwidth, hw.2]; omega)]
        exact w.value.getD_msbFirst (by rwa [hw.2])
      | succ j =>
        -- The later field ends at or below the offset of the first one.
        have hbelow : f.offset + f.width.toNat ≤ g.offset :=
          (hrest.within (List.mem_of_getElem? hf)).2.1
        have hplace : top - 1 - (f.offset + k) - g.width.toNat = g.offset - 1 - (f.offset + k) := by
          omega
        rw [List.getD_append_right _ _ _ _ (by rw [hwidth]; omega), hwidth, hplace]
        exact ih h hf hv

namespace PlacedSegment

variable {s : PlacedSegment} {r : ResolvedSegment}

theorem getD_stream_of_field (htiled : s.Tiled) (h : s.Matches r) {j k : Nat} {f : PlacedField}
    {v : ResolvedField} (hf : s.fields[j]? = some f) (hv : r.fields[j]? = some v)
    (hk : k < f.width.toNat) :
    (s.stream r.fields).getD (s.bitWidth.toNat - 1 - (f.offset + k)) false = v.value.get k :=
  getD_fieldStream htiled h hf hv hk _

theorem getD_stream_of_padding (htiled : s.Tiled) (h : s.Matches r) {b : Nat}
    (hb : b < s.padding) : (s.stream r.fields).getD (s.bitWidth.toNat - 1 - b) false = false := by
  have hsum := Tiles.sum_width htiled
  rw [stream, List.getD_append_right _ _ _ _ (by rw [length_fieldStream h]; omega),
    List.getD_eq_getElem?_getD, List.getElem?_getD_replicate_default_eq]

end PlacedSegment

/-- A bit of a segment stands in the stream of the chain where `bitPlace` says. -/
theorem getD_chainStream {segments : List PlacedSegment} {resolved : List ResolvedSegment}
    (htiled : ∀ s ∈ segments, s.Tiled)
    (h : List.Forall₂ PlacedSegment.Matches segments resolved) {i b : Nat} {s : PlacedSegment}
    {r : ResolvedSegment} (hs : segments[i]? = some s) (hr : resolved[i]? = some r)
    (hb : b < s.bitWidth.toNat) :
    (chainStream segments resolved).getD (bitPlace segments i s b) false =
      (s.stream r.fields).getD (s.bitWidth.toNat - 1 - b) false := by
  induction h generalizing i with
  | nil => simp at hs
  | @cons t u segments resolved hu _ ih =>
    obtain ⟨ht, hrest⟩ := List.forall_mem_cons.mp htiled
    have hlen := PlacedSegment.length_stream ht hu
    -- A later segment's bits stand behind all of the first segment.
    rw [chainStream]
    cases i with
    | zero =>
      obtain rfl : t = s := Option.some.inj hs
      obtain rfl : u = r := Option.some.inj hr
      rw [bitPlace, segmentStart_zero, Nat.zero_add]
      exact List.getD_append _ _ _ _ (by rw [hlen]; omega)
    | succ i =>
      rw [bitPlace_cons_succ hb, List.getD_append_right _ _ _ _ (by omega), hlen,
        Nat.add_sub_cancel_left]
      exact ih hrest hs hr

/-- Past the last segment the stream has no set bit, and in the padding of a segment neither. -/
theorem getD_chainStream_eq_false {segments : List PlacedSegment} {resolved : List ResolvedSegment}
    (htiled : ∀ s ∈ segments, s.Tiled)
    (h : List.Forall₂ PlacedSegment.Matches segments resolved) {q : Nat}
    (hq : ¬ IsFieldPlace segments q) : (chainStream segments resolved).getD q false = false := by
  rcases (not_isFieldPlace_iff htiled).mp hq with hend | ⟨i, s, b, hs, hb, rfl⟩
  · exact List.getD_eq_default _ _ (by rwa [length_chainStream htiled h])
  · obtain ⟨r, hr, hmatch⟩ := exists_related h hs
    have hin : s.Tiled := htiled s (List.mem_of_getElem? hs)
    rw [getD_chainStream htiled h hs hr (Nat.lt_of_lt_of_le hb hin.bottom_le)]
    exact PlacedSegment.getD_stream_of_padding hin hmatch hb

namespace ChainLayout

variable {layout : ChainLayout} {resolved : List ResolvedSegment} {checksum : Bool} {image : Image}

/-- A bit of a value is found in the payload where the offset of its field says. -/
theorem streamBit_of_field (h : layout.pack resolved checksum = .ok image) {i j k : Nat}
    {s : PlacedSegment} {r : ResolvedSegment} {f : PlacedField} {v : ResolvedField}
    (hs : layout.segments[i]? = some s) (hr : resolved[i]? = some r) (hf : s.fields[j]? = some f)
    (hv : r.fields[j]? = some v) (hk : k < f.width.toNat) :
    Word.streamBit image.payload (bitPlace layout.segments i s (f.offset + k)) = v.value.get k := by
  obtain ⟨hmatch, rfl⟩ := pack_eq_ok_iff.mp h
  obtain ⟨r', hr', hsegment⟩ := exists_related hmatch hs
  obtain rfl : r' = r := Option.some.inj (hr'.symm.trans hr)
  have hin : s.Tiled := layout.tiled s (List.mem_of_getElem? hs)
  have htop := (Tiles.within hin (List.mem_of_getElem? hf)).2.1
  show Word.streamBit (Word.pack (chainStream layout.segments resolved)) _ = _
  rw [Word.streamBit_pack, getD_chainStream layout.tiled hmatch hs hr (by omega)]
  exact PlacedSegment.getD_stream_of_field hin hsegment hf hv hk

/-- A bit of the payload that belongs to no field is clear. -/
theorem streamBit_of_spare (h : layout.pack resolved checksum = .ok image) {q : Nat}
    (hq : ¬ IsFieldPlace layout.segments q) : Word.streamBit image.payload q = false := by
  obtain ⟨hmatch, rfl⟩ := pack_eq_ok_iff.mp h
  show Word.streamBit (Word.pack (chainStream layout.segments resolved)) q = false
  rw [Word.streamBit_pack]
  exact getD_chainStream_eq_false layout.tiled hmatch hq

theorem header_of_pack (h : layout.pack resolved checksum = .ok image) :
    image.header = layout.header := by
  obtain ⟨-, rfl⟩ := pack_eq_ok_iff.mp h
  rfl

/-- The payload has the bits of the chain, whatever the values. -/
theorem payloadBits_of_pack (h : layout.pack resolved checksum = .ok image) :
    image.payloadBits = layout.payloadBits := by
  obtain ⟨hmatch, rfl⟩ := pack_eq_ok_iff.mp h
  show (chainStream layout.segments resolved).length = layout.payloadBits
  rw [length_chainStream layout.tiled hmatch, layout.totalWidth_segments]

end ChainLayout

/-! ## Placement -/

/-- Every bit of a payload that belongs to no field is clear. -/
def ChainLayout.SpareClear (layout : ChainLayout) (payload : List UInt32) : Prop :=
  ∀ q, ¬ IsFieldPlace layout.segments q → Word.streamBit payload q = false

/-- Values are packed exactly if they match the layout, and then every bit of every field lies in
the payload at the place that the offset of its field gives, and every other bit of the payload is
zero. -/
theorem ChainLayout.pack_places_every_bit (layout : ChainLayout) (resolved : List ResolvedSegment)
    (checksum : Bool) :
    ((∃ image, layout.pack resolved checksum = .ok image) ↔ layout.Matches resolved) ∧
      ∀ image, layout.pack resolved checksum = .ok image →
        image.header = layout.header ∧
        image.payloadBits = (layout.chain.segments.map (·.bitWidth.toNat)).sum ∧
        image.payload.length = (image.payloadBits + 31) / 32 ∧
        (∀ (i j k : Nat) (s : PlacedSegment) (r : ResolvedSegment) (f : PlacedField)
            (v : ResolvedField), layout.segments[i]? = some s → resolved[i]? = some r →
          s.fields[j]? = some f → r.fields[j]? = some v → k < f.width.toNat →
          f.offset + k < s.bitWidth.toNat ∧
            v.value.get k =
              Word.streamBit image.payload (bitPlace layout.segments i s (f.offset + k))) ∧
        layout.SpareClear image.payload := by
  refine ⟨?_, ?_⟩
  · refine ⟨?_, ?_⟩
    · rintro ⟨image, hpack⟩
      exact (pack_eq_ok_iff.mp hpack).1
    · intro hmatch
      exact ⟨_, pack_eq_ok_iff.mpr ⟨hmatch, rfl⟩⟩
  · intro image hpack
    obtain ⟨hmatch, rfl⟩ := pack_eq_ok_iff.mp hpack
    refine ⟨rfl, ?_, Word.length_pack _, ?_, ?_⟩
    · show (chainStream layout.segments resolved).length = layout.payloadBits
      rw [length_chainStream layout.tiled hmatch, layout.totalWidth_segments]
    · -- The bit is found in its word, then in the chain, then in its segment.
      intro i j k s r f v hs hr hf hv hk
      have hin : s.Tiled := layout.tiled s (List.mem_of_getElem? hs)
      have htop := (Tiles.within hin (List.mem_of_getElem? hf)).2.1
      have hbit : f.offset + k < s.bitWidth.toNat := by omega
      refine ⟨hbit, ?_⟩
      show _ = Word.streamBit (Word.pack (chainStream layout.segments resolved)) _
      rw [Word.streamBit_pack, getD_chainStream layout.tiled hmatch hs hr hbit]
      obtain ⟨r', hr', hsegment⟩ := exists_related hmatch hs
      obtain rfl : r' = r := Option.some.inj (hr'.symm.trans hr)
      exact (PlacedSegment.getD_stream_of_field hin hsegment hf hv hk).symm
    · intro q hq
      show Word.streamBit (Word.pack (chainStream layout.segments resolved)) q = false
      rw [Word.streamBit_pack]
      exact getD_chainStream_eq_false layout.tiled hmatch hq

end ScanChain
