/-
# ScanChain.Proofs.Fitting — fields that fit tile their segment

A segment that has room for its fields places them from its most significant bit down. Placing
subtracts widths from what is left, and where the fields fit the subtraction always has room
(`placeFields?_eq`). The result is a tiling (`Tiles`), and all that is said of a placed segment
follows from it: where its first field ends, that each field ends where the one before begins, where
the last begins, and that every bit belongs to one field only or to the padding.

A segment that is as wide as its fields has no padding. Its width has 32 bits; fields that need more
get the greatest width there is, which is too small for them, and are refused.
-/
import Mathlib.Algebra.Group.Action.Defs
import Mathlib.Algebra.Order.BigOperators.Group.List
import Mathlib.Algebra.Order.Ring.Nat
import ScanChain.Proofs.Tiling

namespace ScanChain

/-- The field that was placed. -/
def PlacedField.field (f : PlacedField) : Field := ⟨f.name, f.width, f.binding⟩

/-- The field has the bit of its segment. -/
def PlacedField.Holds (f : PlacedField) (b : Nat) : Prop :=
  f.offset ≤ b ∧ b < f.offset + f.width.toNat

/-! ## Neighbours in a tiling -/

namespace Tiles

variable {top bottom : Nat} {fields : List PlacedField} {f g : PlacedField} {i j b : Nat}

theorem first_end (h : Tiles top fields bottom) (hf : fields[0]? = some f) :
    f.offset + f.width.toNat = top := by
  cases h with
  | nil => cases hf
  | cons _ htop _ =>
    cases hf
    exact htop

theorem next_end (h : Tiles top fields bottom) (hf : fields[i]? = some f)
    (hg : fields[i + 1]? = some g) : g.offset + g.width.toNat = f.offset := by
  induction h generalizing i with
  | nil => cases hf
  | cons _ _ hrest ih =>
    cases i with
    | zero =>
      cases hf
      exact hrest.first_end hg
    | succ i => exact ih hf hg

theorem last_offset (h : Tiles top fields bottom) (hf : fields.getLast? = some f) :
    f.offset = bottom := by
  induction h with
  | nil => cases hf
  | @cons top bottom first fields _ _ hrest ih =>
    cases hrest with
    | nil =>
      cases hf
      rfl
    | cons => exact ih hf

/-- No two fields have a bit in common. -/
theorem holds_unique (h : Tiles top fields bottom) (hf : fields[i]? = some f)
    (hg : fields[j]? = some g) (hb : f.Holds b) (hb' : g.Holds b) : i = j := by
  induction h generalizing i j with
  | nil => cases hf
  | @cons top bottom first fields _ _ hrest ih =>
    -- All further fields lie below the first one.
    have hbelow {k : Nat} {e : PlacedField} (he : fields[k]? = some e) (hin : e.Holds b) :
        b < first.offset := by
      have hend := (hrest.within (List.mem_of_getElem? he)).2.1
      exact Nat.lt_of_lt_of_le hin.2 hend
    cases i with
    | zero =>
      cases hf
      cases j with
      | zero => rfl
      | succ j => exact absurd (hbelow hg hb') (Nat.not_lt.mpr hb.1)
    | succ i =>
      cases j with
      | zero =>
        cases hg
        exact absurd (hbelow hf hb) (Nat.not_lt.mpr hb'.1)
      | succ j => rw [ih hf hg]

/-- A bit is below all fields, or belongs to exactly one. -/
theorem holds_once (h : Tiles top fields bottom) (hb : b < top) :
    (b < bottom ∧ ∀ f ∈ fields, ¬ f.Holds b) ∨
      (bottom ≤ b ∧ ∃! i : Nat, ∃ f, fields[i]? = some f ∧ f.Holds b) := by
  rcases Nat.lt_or_ge b bottom with hlow | hlow
  · refine .inl ⟨hlow, ?_⟩
    rintro f hf ⟨hstart, -⟩
    have hbottom := (h.within hf).1
    omega
  · obtain ⟨f, hf, hin⟩ := h.cover hlow hb
    obtain ⟨i, hi⟩ := List.mem_iff_getElem?.mp hf
    refine .inr ⟨hlow, i, ⟨f, hi, hin⟩, ?_⟩
    rintro j ⟨g, hg, hin'⟩
    exact h.holds_unique hg hi hin' hin

end Tiles

/-! ## Placing -/

namespace Segment

/-- The fields side by side below `top`, and what is left below them, unless a field is wider than
what is left. -/
def placeFields? : Nat → List Field → Option (List PlacedField × Nat)
  | top, [] => some ([], top)
  | top, field :: fields =>
    if top < field.width.toNat then none
    else (placeFields? (top - field.width.toNat) fields).map fun (placed, padding) =>
      (⟨field.name, field.width, top - field.width.toNat, field.binding⟩ :: placed, padding)

/-- Where there is room for all fields, there is room for each. -/
theorem placeFields?_eq {top : Nat} {fields : List Field}
    (hroom : (fields.map (·.width.toNat)).sum ≤ top) :
    placeFields? top fields = some (placeFields top fields) := by
  induction fields generalizing top with
  | nil => rfl
  | cons f fields ih =>
    rw [List.map_cons, List.sum_cons] at hroom
    rw [placeFields?, if_neg (by omega), ih (by omega)]
    rfl

theorem map_field_placeFields (top : Nat) (fields : List Field) :
    (placeFields top fields).1.map (·.field) = fields := by
  induction fields generalizing top with
  | nil => rfl
  | cons f fields ih =>
    show (⟨f.name, f.width, f.binding⟩ : Field) ::
      (placeFields (top - f.width.toNat) fields).1.map (·.field) = _
    rw [ih]

/-- Placing succeeds where the fields fit. -/
theorem place_eq_ok_iff {s : Segment} {p : PlacedSegment} :
    s.place = .ok p ↔ s.Fits ∧ p = s.placed := by
  rw [← fault?_eq_none_iff, place]
  cases s.fault? with
  | none => simp [eq_comm]
  | some e => simp

/-- A segment has been placed: it has its own name, position, width and injector, and the fields that
the injector declares lie side by side from its top down to the padding. -/
structure PlacedAs (s : Segment) (p : PlacedSegment) : Prop where
  name : p.name = s.name
  position : p.position = s.position
  bitWidth : p.bitWidth = s.bitWidth
  injector : p.injector = s.injector
  fields : p.fields.map (·.field) = s.injector.fields
  width_pos : ∀ f ∈ p.fields, 0 < f.width.toNat
  first : ∀ f, p.fields[0]? = some f → f.offset + f.width.toNat = s.bitWidth.toNat
  next : ∀ i f g, p.fields[i]? = some f → p.fields[i + 1]? = some g →
    g.offset + g.width.toNat = f.offset
  last : ∀ f, p.fields.getLast? = some f → f.offset = p.padding
  padding : p.padding = s.bitWidth.toNat - s.injector.fieldsWidth
  once : ∀ b < s.bitWidth.toNat, (b < p.padding ∧ ∀ f ∈ p.fields, ¬ f.Holds b) ∨
    (p.padding ≤ b ∧ ∃! i : Nat, ∃ f, p.fields[i]? = some f ∧ f.Holds b)

theorem Fits.placedAs {s : Segment} (h : s.Fits) : s.PlacedAs s.placed := by
  have htiles : Tiles s.bitWidth.toNat s.placed.fields s.placed.padding := h.tiled
  have hfields : s.placed.fields.map (·.field) = s.injector.fields := map_field_placeFields _ _
  have hsum := htiles.sum_width
  have hwidths : s.placed.fields.map (·.width.toNat) = s.injector.fields.map (·.width.toNat) := by
    rw [← hfields, List.map_map]
    rfl
  rw [hwidths] at hsum
  have hpadding : s.placed.padding = s.bitWidth.toNat - s.injector.fieldsWidth := by
    rw [Injector.fieldsWidth]
    omega
  exact {
    name := rfl, position := rfl, bitWidth := rfl, injector := rfl, fields := hfields
    width_pos := fun _ hf => (htiles.within hf).2.2
    first := fun _ hf => htiles.first_end hf
    next := fun _ _ _ hf hg => htiles.next_end hf hg
    last := fun _ hf => htiles.last_offset hf
    padding := hpadding
    once := fun _ hb => htiles.holds_once hb }

end Segment

/-! ## Widths of injectors -/

/-- The widths of an injector, of which there are at most four, add up within 64 bits. -/
theorem Injector.fieldsWidth_lt (injector : Injector) : injector.fieldsWidth < 2 ^ 64 := by
  have hcount : injector.declared.length ≤ 4 := by
    cases injector <;> simp [declared]
  have hlength : injector.fields.length ≤ 4 := (List.length_filter_le _ _).trans hcount
  have hsum : injector.fieldsWidth ≤ injector.fields.length * (2 ^ 32 - 1) := by
    have hbound : ∀ n ∈ injector.fields.map (·.width.toNat), n ≤ 2 ^ 32 - 1 := by
      intro n hn
      obtain ⟨f, -, rfl⟩ := List.mem_map.mp hn
      exact Nat.le_sub_one_of_lt f.width.toNat_lt
    have hle := List.sum_le_card_nsmul _ _ hbound
    rwa [List.length_map, smul_eq_mul] at hle
  omega

theorem Segment.toNat_bitWidth_ofInjector (name : String) (position : Nat) (injector : Injector) :
    (ofInjector name position injector).bitWidth.toNat =
      min injector.fieldsWidth (2 ^ 32 - 1) := by
  have hlt : min injector.fieldsWidth (2 ^ 32 - 1) < 2 ^ 32 := by omega
  rw [ofInjector, UInt32.toNat_ofNat', Nat.mod_eq_of_lt hlt]

/-- A segment of the width of its fields can be placed where that width is not zero and has 32 bits. -/
theorem Segment.fits_ofInjector_iff {name : String} {position : Nat} {injector : Injector} :
    (ofInjector name position injector).Fits ↔
      0 < injector.width.toNat ∧ 1 ≤ injector.fieldsWidth ∧ injector.fieldsWidth ≤ 2 ^ 32 - 1 := by
  have hwidth := toNat_bitWidth_ofInjector name position injector
  show 0 < (ofInjector name position injector).bitWidth.toNat ∧ 0 < injector.width.toNat ∧
    injector.fieldsWidth ≤ (ofInjector name position injector).bitWidth.toNat ↔ _
  rw [hwidth]
  omega

/-- A segment is placed exactly if it and its register have bits and its fields fit, with a sum that
does not overflow. The fields then lie side by side from the top, no offset is taken below zero, and
every bit belongs to one field or to the padding. A segment as wide as its fields is placed exactly
if its register and its fields have bits and their widths add up within 32 bits, and without padding. -/
theorem fields_tile_their_segment :
    (∀ s : Segment, s.injector.fieldsWidth < 2 ^ 64 ∧
      ((∃ p, s.place = .ok p) ↔ 0 < s.bitWidth.toNat ∧ 0 < s.injector.width.toNat ∧
        s.injector.fieldsWidth ≤ s.bitWidth.toNat) ∧
      ∀ p, s.place = .ok p →
        Segment.placeFields? s.bitWidth.toNat s.injector.fields = some (p.fields, p.padding) ∧
          s.PlacedAs p) ∧
    ∀ (name : String) (position : Nat) (injector : Injector),
      ((∃ p, (Segment.ofInjector name position injector).place = .ok p) ↔
        0 < injector.width.toNat ∧ 1 ≤ injector.fieldsWidth ∧
          injector.fieldsWidth ≤ 2 ^ 32 - 1) ∧
      ∀ p, (Segment.ofInjector name position injector).place = .ok p → p.padding = 0 := by
  have hplaces (s : Segment) : (∃ p, s.place = .ok p) ↔ s.Fits := by
    simp only [Segment.place_eq_ok_iff, exists_and_left, exists_eq, and_true]
  refine ⟨?_, ?_⟩
  · intro s
    refine ⟨s.injector.fieldsWidth_lt, hplaces s, ?_⟩
    intro p hp
    obtain ⟨hfits, rfl⟩ := Segment.place_eq_ok_iff.mp hp
    exact ⟨Segment.placeFields?_eq hfits.2.2, hfits.placedAs⟩
  · intro name position injector
    refine ⟨(hplaces _).trans Segment.fits_ofInjector_iff, ?_⟩
    intro p hp
    obtain ⟨hfits, rfl⟩ := Segment.place_eq_ok_iff.mp hp
    have hbounds := Segment.fits_ofInjector_iff.mp hfits
    rw [hfits.placedAs.padding, Segment.toNat_bitWidth_ofInjector]
    show min injector.fieldsWidth (2 ^ 32 - 1) - injector.fieldsWidth = 0
    omega

example : (Segment.mk "r" 0 70 (.stuckAt 32 32 32)).place =
    .ok ⟨"r", 0, 70, .stuckAt 32 32 32,
      [⟨"mask", 32, 38, .mask⟩, ⟨"value", 32, 6, .stuckAtValue⟩], 6⟩ := by decide +kernel

end ScanChain
