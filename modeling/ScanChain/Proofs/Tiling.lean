/-
# ScanChain.Proofs.Tiling — every place of a chain is a field bit, a padding bit or past the end

Offsets and streams count in opposite directions. Placing the fields of a segment subtracts their
widths from the top and records what is left as offsets; the stream of a chain runs from the most
significant bit of its first segment on. `Tiles` is the invariant of placement: the fields lie side
by side from `top` down to `bottom`, and what is below is padding. `bitPlace` turns a bit of a
segment into its place in the stream, and `not_isFieldPlace_iff` says that a place which belongs to
no field holds padding or lies past the last segment.
-/
import ScanChain.Chain.Layout

namespace ScanChain

/-! ## The fields of one segment -/

/-- The fields lie side by side below `top`, none of them empty, and the last ends at `bottom`. -/
inductive Tiles : Nat → List PlacedField → Nat → Prop
  | nil (bottom : Nat) : Tiles bottom [] bottom
  | cons {top bottom : Nat} {f : PlacedField} {fields : List PlacedField} :
      0 < f.width.toNat → f.offset + f.width.toNat = top → Tiles f.offset fields bottom →
      Tiles top (f :: fields) bottom

namespace Tiles

variable {top bottom : Nat} {fields : List PlacedField}

theorem bottom_le (h : Tiles top fields bottom) : bottom ≤ top := by
  induction h with
  | nil => exact Nat.le_refl _
  | cons _ htop _ ih => omega

/-- The widths add up to the distance between the ends. -/
theorem sum_width (h : Tiles top fields bottom) :
    (fields.map (·.width.toNat)).sum + bottom = top := by
  induction h with
  | nil => simp
  | cons _ htop _ ih =>
    rw [List.map_cons, List.sum_cons]
    omega

/-- A field lies between the ends. -/
theorem within (h : Tiles top fields bottom) {f : PlacedField} (hf : f ∈ fields) :
    bottom ≤ f.offset ∧ f.offset + f.width.toNat ≤ top ∧ 0 < f.width.toNat := by
  induction h with
  | nil => cases hf
  | cons hpos htop hrest ih =>
    rcases List.mem_cons.mp hf with rfl | hf
    · exact ⟨hrest.bottom_le, Nat.le_of_eq htop, hpos⟩
    · obtain ⟨hlow, hhigh, hwidth⟩ := ih hf
      exact ⟨hlow, by omega, hwidth⟩

/-- Between the ends there is no gap. -/
theorem cover (h : Tiles top fields bottom) {p : Nat} (hlow : bottom ≤ p) (hhigh : p < top) :
    ∃ f ∈ fields, f.offset ≤ p ∧ p < f.offset + f.width.toNat := by
  induction h with
  | nil => omega
  | @cons top bottom f fields hpos htop hrest ih =>
    rcases Nat.lt_or_ge p f.offset with hp | hp
    · obtain ⟨g, hg, hin⟩ := ih hlow hp
      exact ⟨g, List.mem_cons_of_mem _ hg, hin⟩
    · exact ⟨f, List.mem_cons_self, hp, by omega⟩

end Tiles

/-- Fields that have room below `top` are placed side by side. -/
theorem tiles_placeFields {top : Nat} {fields : List Field}
    (hpos : ∀ f ∈ fields, 0 < f.width.toNat) (hroom : (fields.map (·.width.toNat)).sum ≤ top) :
    Tiles top (Segment.placeFields top fields).1 (Segment.placeFields top fields).2 := by
  induction fields generalizing top with
  | nil => exact .nil top
  | cons f fields ih =>
    rw [List.map_cons, List.sum_cons] at hroom
    have hrest : (fields.map (·.width.toNat)).sum ≤ top - f.width.toNat := by omega
    refine .cons (hpos f List.mem_cons_self) ?_ (ih (fun g hg => hpos g (by simp [hg])) hrest)
    show top - f.width.toNat + f.width.toNat = top
    omega

/-- A field that an injector declares is not empty. -/
theorem Injector.width_pos {injector : Injector} {f : Field} (hf : f ∈ injector.fields) :
    0 < f.width.toNat := by
  have hne : f.width ≠ 0 := by simpa using (List.mem_filter.mp hf).2
  exact Nat.pos_of_ne_zero fun hzero => hne (UInt32.toNat_inj.mp hzero)

/-- The fields of a segment tile it down to its padding. -/
def PlacedSegment.Tiled (s : PlacedSegment) : Prop := Tiles s.bitWidth.toNat s.fields s.padding

theorem Segment.Fits.tiled {s : Segment} (h : s.Fits) : s.placed.Tiled :=
  tiles_placeFields (fun _ hf => Injector.width_pos hf) h.2.2

theorem ChainLayout.tiled (layout : ChainLayout) : ∀ s ∈ layout.segments, s.Tiled := by
  intro s hs
  obtain ⟨t, ht, rfl⟩ := List.mem_map.mp hs
  exact (layout.chain.fits t ht).tiled

/-! ## The segments of a chain -/

/-- The bits of the stream before segment `i`. -/
def segmentStart (segments : List PlacedSegment) (i : Nat) : Nat :=
  ((segments.take i).map (·.bitWidth.toNat)).sum

section Starts

variable {segments : List PlacedSegment} {s t : PlacedSegment} {i j q : Nat}

@[simp] theorem segmentStart_zero : segmentStart segments 0 = 0 := rfl

@[simp] theorem segmentStart_cons_succ :
    segmentStart (s :: segments) (i + 1) = s.bitWidth.toNat + segmentStart segments i := by
  simp [segmentStart]

theorem segmentStart_succ (hs : segments[i]? = some s) :
    segmentStart segments (i + 1) = segmentStart segments i + s.bitWidth.toNat := by
  simp [segmentStart, List.take_add_one, hs]

theorem segmentStart_mono (h : i ≤ j) : segmentStart segments i ≤ segmentStart segments j := by
  induction h with
  | refl => exact Nat.le_refl _
  | @step j _ ih =>
    cases hs : segments[j]? with
    | none =>
      have hall : segments.take (j + 1) = segments.take j := by simp [List.take_add_one, hs]
      simpa [segmentStart, hall] using ih
    | some s =>
      rw [segmentStart_succ hs]
      omega

/-- The bits of all segments. -/
def totalWidth (segments : List PlacedSegment) : Nat := segmentStart segments segments.length

@[simp] theorem totalWidth_nil : totalWidth [] = 0 := rfl

@[simp] theorem totalWidth_cons :
    totalWidth (s :: segments) = s.bitWidth.toNat + totalWidth segments :=
  segmentStart_cons_succ

theorem segmentStart_add_le (hs : segments[i]? = some s) :
    segmentStart segments i + s.bitWidth.toNat ≤ totalWidth segments := by
  have hi : i < segments.length := (List.getElem?_eq_some_iff.mp hs).1
  rw [← segmentStart_succ hs]
  exact segmentStart_mono hi

/-- A place before the end lies in a segment. -/
theorem exists_segment_of_lt (hq : q < totalWidth segments) :
    ∃ i s, segments[i]? = some s ∧ segmentStart segments i ≤ q ∧
      q < segmentStart segments i + s.bitWidth.toNat := by
  induction segments generalizing q with
  | nil => simp at hq
  | cons s segments ih =>
    -- The place lies in the first segment, or in the others when its width is taken off.
    rcases Nat.lt_or_ge q s.bitWidth.toNat with hlt | hge
    · exact ⟨0, s, rfl, by simp, by simpa using hlt⟩
    · rw [totalWidth_cons] at hq
      have hrest : q - s.bitWidth.toNat < totalWidth segments := by omega
      obtain ⟨i, t, ht, hlow, hhigh⟩ := ih hrest
      refine ⟨i + 1, t, ht, ?_, ?_⟩ <;> rw [segmentStart_cons_succ] <;> omega

/-- No place lies in two segments. -/
theorem segment_unique (hs : segments[i]? = some s) (ht : segments[j]? = some t)
    (hi : segmentStart segments i ≤ q ∧ q < segmentStart segments i + s.bitWidth.toNat)
    (hj : segmentStart segments j ≤ q ∧ q < segmentStart segments j + t.bitWidth.toNat) :
    i = j := by
  rcases Nat.lt_trichotomy i j with h | h | h
  · have hmono : segmentStart segments (i + 1) ≤ segmentStart segments j := segmentStart_mono h
    rw [segmentStart_succ hs] at hmono
    omega
  · exact h
  · have hmono : segmentStart segments (j + 1) ≤ segmentStart segments i := segmentStart_mono h
    rw [segmentStart_succ ht] at hmono
    omega

end Starts

/-- The segments of a layout are as wide as the chain says. -/
theorem ChainLayout.totalWidth_segments (layout : ChainLayout) :
    totalWidth layout.segments = layout.payloadBits := by
  rw [totalWidth, segmentStart, List.take_length]
  simp only [segments, Chain.placed, List.map_map]
  rfl

/-! ## Places of bits in the stream -/

/-- The place in the stream of bit `b` of segment `i`, counted from the segment's least significant
bit. Bit `k` of a field is bit `f.offset + k` of its segment. -/
def bitPlace (segments : List PlacedSegment) (i : Nat) (s : PlacedSegment) (b : Nat) : Nat :=
  segmentStart segments i + s.bitWidth.toNat - 1 - b

/-- The place holds a bit of a field. -/
def IsFieldPlace (segments : List PlacedSegment) (q : Nat) : Prop :=
  ∃ i s f k, segments[i]? = some s ∧ f ∈ s.fields ∧ k < f.width.toNat ∧
    q = bitPlace segments i s (f.offset + k)

/-- The place holds a padding bit of segment `i`. -/
def IsPaddingPlace (segments : List PlacedSegment) (i q : Nat) : Prop :=
  ∃ s b, segments[i]? = some s ∧ b < s.padding ∧ q = bitPlace segments i s b

section Places

variable {segments : List PlacedSegment} {i q b : Nat} {s : PlacedSegment}

/-- A place of a segment is the place of one of its bits. -/
theorem exists_bitPlace (hlow : segmentStart segments i ≤ q)
    (hhigh : q < segmentStart segments i + s.bitWidth.toNat) :
    ∃ b < s.bitWidth.toNat, q = bitPlace segments i s b := by
  refine ⟨segmentStart segments i + s.bitWidth.toNat - 1 - q, by omega, ?_⟩
  rw [bitPlace]
  omega

/-- A bit of a segment stays within the segment. -/
theorem bitPlace_within (hb : b < s.bitWidth.toNat) :
    segmentStart segments i ≤ bitPlace segments i s b ∧
      bitPlace segments i s b < segmentStart segments i + s.bitWidth.toNat := by
  rw [bitPlace]
  omega

theorem bitPlace_cons_succ {t : PlacedSegment} (hb : b < s.bitWidth.toNat) :
    bitPlace (t :: segments) (i + 1) s b = t.bitWidth.toNat + bitPlace segments i s b := by
  rw [bitPlace, bitPlace, segmentStart_cons_succ]
  omega

/-- Different bits have different places. -/
theorem bitPlace_unique {j c : Nat} {t : PlacedSegment} (hs : segments[i]? = some s)
    (ht : segments[j]? = some t) (hb : b < s.bitWidth.toNat) (hc : c < t.bitWidth.toNat)
    (hplace : bitPlace segments i s b = bitPlace segments j t c) : i = j ∧ s = t ∧ b = c := by
  have hin : segmentStart segments j ≤ bitPlace segments j t c ∧
      bitPlace segments j t c < segmentStart segments j + t.bitWidth.toNat := bitPlace_within hc
  rw [← hplace] at hin
  obtain rfl : i = j := segment_unique hs ht (bitPlace_within hb) hin
  obtain rfl : s = t := Option.some.inj (hs.symm.trans ht)
  rw [bitPlace, bitPlace] at hplace
  exact ⟨rfl, rfl, by omega⟩

/-- A place is no field's exactly if it holds padding or lies past the last segment. -/
theorem not_isFieldPlace_iff (htiled : ∀ s ∈ segments, s.Tiled) :
    ¬ IsFieldPlace segments q ↔
      totalWidth segments ≤ q ∨ ∃ i, IsPaddingPlace segments i q := by
  refine ⟨?_, ?_⟩
  · intro hnot
    -- Within a segment, a bit below the last field is padding, and a field covers any other.
    rcases Nat.lt_or_ge q (totalWidth segments) with hlt | hge
    · obtain ⟨i, s, hs, hlow, hhigh⟩ := exists_segment_of_lt hlt
      obtain ⟨b, hb, rfl⟩ := exists_bitPlace hlow hhigh
      rcases Nat.lt_or_ge b s.padding with hpad | hpad
      · exact Or.inr ⟨i, s, b, hs, hpad, rfl⟩
      · obtain ⟨f, hf, hin⟩ := (htiled s (List.mem_of_getElem? hs)).cover hpad hb
        exact absurd ⟨i, s, f, b - f.offset, hs, hf, by omega, by congr 1; omega⟩ hnot
    · exact Or.inl hge
  · rintro hout ⟨i, s, f, k, hs, hf, hk, rfl⟩
    obtain ⟨hlow, hhigh, -⟩ := (htiled s (List.mem_of_getElem? hs)).within hf
    have hbit : f.offset + k < s.bitWidth.toNat := by omega
    -- A field bit lies before the end, and above the padding of the one segment it is in.
    rcases hout with hend | ⟨j, t, b, ht, hb, hplace⟩
    · have hin : bitPlace segments i s (f.offset + k) <
          segmentStart segments i + s.bitWidth.toNat := (bitPlace_within hbit).2
      have hstop := segmentStart_add_le hs
      omega
    · have hle := (htiled t (List.mem_of_getElem? ht)).bottom_le
      obtain ⟨-, rfl, rfl⟩ := bitPlace_unique hs ht hbit (by omega) hplace
      omega

end Places

end ScanChain
