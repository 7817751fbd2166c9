/-
# ScanChain.Proofs.Resolving — what a policy puts into the fields of a chain

Filling goes through the fields of a segment and through the segments of a chain with one stream of
random masks, and stops at the first field without room. Both runs are followed by induction, at
any place of the stream: what is refused is what `RefusesFirst` names, and what is returned is
filled field by field.
-/
import Mathlib.Tactic.Tauto
import ScanChain.Proofs.Filling
import ScanChain.Proofs.Frame

namespace ScanChain

/-! ## The first field without room -/

/-- The fields of segments, each with its segment, in the order in which they are filled. -/
def fieldsOf (segments : List PlacedSegment) : List (PlacedSegment × PlacedField) :=
  segments.flatMap fun s => s.fields.map (s, ·)

namespace Policy

variable {policy : Policy} {e : Error} {s : PlacedSegment} {f : PlacedField}
variable {fields others : List (PlacedSegment × PlacedField)}

/-- The refusal of the first field without room; all fields before it have room. -/
def RefusesFirst (policy : Policy) (fields : List (PlacedSegment × PlacedField)) (e : Error) :
    Prop :=
  ∃ before s f after, fields = before ++ (s, f) :: after ∧
    (∀ entry ∈ before, policy.Fits entry.2) ∧ policy.Refuses s.name f e

theorem refusesFirst_nil : ¬ policy.RefusesFirst [] e := by
  rintro ⟨before, s, f, after, hsplit, -⟩
  simp at hsplit

theorem refusesFirst_cons :
    policy.RefusesFirst ((s, f) :: fields) e ↔
      policy.Refuses s.name f e ∨ policy.Fits f ∧ policy.RefusesFirst fields e := by
  refine ⟨?_, ?_⟩
  · rintro ⟨before, t, g, after, hsplit, hbefore, hrefused⟩
    cases before with
    | nil =>
      cases hsplit
      exact .inl hrefused
    | cons entry before =>
      cases hsplit
      obtain ⟨hfits, hbefore⟩ := List.forall_mem_cons.mp hbefore
      exact .inr ⟨hfits, before, t, g, after, rfl, hbefore, hrefused⟩
  · rintro (hrefused | ⟨hfits, before, t, g, after, rfl, hbefore, hrefused⟩)
    · exact ⟨[], s, f, fields, rfl, by simp, hrefused⟩
    · -- The list before the refused field grows by one that has room.
      refine ⟨(s, f) :: before, t, g, after, rfl, ?_, hrefused⟩
      exact List.forall_mem_cons.mpr ⟨hfits, hbefore⟩

theorem refusesFirst_append :
    policy.RefusesFirst (fields ++ others) e ↔
      policy.RefusesFirst fields e ∨
        (∀ entry ∈ fields, policy.Fits entry.2) ∧ policy.RefusesFirst others e := by
  induction fields with
  | nil => simp [refusesFirst_nil]
  | cons entry fields ih =>
    obtain ⟨s, f⟩ := entry
    rw [List.cons_append, refusesFirst_cons, refusesFirst_cons, ih, List.forall_mem_cons]
    tauto

/-- No field is refused exactly if all of them have room. -/
theorem forall_not_refusesFirst_iff :
    (∀ e, ¬ policy.RefusesFirst fields e) ↔ ∀ entry ∈ fields, policy.Fits entry.2 := by
  induction fields with
  | nil => simp [refusesFirst_nil]
  | cons entry fields ih =>
    obtain ⟨s, f⟩ := entry
    rw [List.forall_mem_cons, ← ih, ← not_exists]
    simp only [refusesFirst_cons, exists_or, exists_and_left, exists_refuses_iff]
    rw [← not_exists]
    tauto

/-! ## Filled segments -/

/-- A value with the name of a field, by which the field is filled. -/
def FillsField (policy : Policy) (f : PlacedField) (v : ResolvedField) : Prop :=
  v.name = f.name ∧ policy.Fills f v.value

/-- The name and the position of a segment, with a value that fills each of its fields. -/
def FillsSegment (policy : Policy) (s : PlacedSegment) (r : ResolvedSegment) : Prop :=
  r.name = s.name ∧ r.position = s.position ∧ List.Forall₂ policy.FillsField s.fields r.fields

theorem FillsSegment.reads {r : ResolvedSegment} (h : policy.FillsSegment s r) : s.Reads r := by
  obtain ⟨hname, hposition, hfields⟩ := h
  exact ⟨hname, hposition, hfields.imp fun _ _ hv => ⟨hv.1, hv.2.width⟩⟩

end Policy

namespace Resolution

open Policy

variable {policy : Policy} {e : Policy.Error} {s : PlacedSegment} {stream : MaskStream}

/-! ## One segment -/

theorem fieldsOf_cons {segments : List PlacedSegment} :
    fieldsOf (s :: segments) = s.fields.map (s, ·) ++ fieldsOf segments :=
  List.flatMap_cons

theorem resolveFields_fills (hprob : policy.probability.InUnit) {fields : List PlacedField}
    (hpos : ∀ f ∈ fields, 0 < f.width.toNat) {filled : List ResolvedField × MaskStream}
    (h : resolveFields policy s.name stream fields = .ok filled) :
    List.Forall₂ policy.FillsField fields filled.1 := by
  induction fields generalizing stream filled with
  | nil =>
    cases h
    exact .nil
  | cons f fields ih =>
    rw [List.forall_mem_cons] at hpos
    unfold resolveFields at h
    obtain ⟨⟨v, middle⟩, hfirst, h⟩ := bind_eq_ok_iff.mp h
    obtain ⟨others, hothers, h⟩ := bind_eq_ok_iff.mp h
    cases h
    exact .cons ⟨rfl, (fieldValue_fills hprob hpos.1 hfirst)⟩ (ih hpos.2 hothers)

/-- Filling the fields of a segment stops at the first one without room. -/
theorem resolveFields_eq_error_iff (hprob : policy.probability.InUnit)
    {fields : List PlacedField} (hpos : ∀ f ∈ fields, 0 < f.width.toNat) :
    resolveFields policy s.name stream fields = .error e ↔
      policy.RefusesFirst (fields.map (s, ·)) e := by
  induction fields generalizing stream with
  | nil =>
    refine ⟨?_, ?_⟩
    · intro h
      cases h
    · intro h
      exact absurd h refusesFirst_nil
  | cons f fields ih =>
    rw [List.forall_mem_cons] at hpos
    rw [List.map_cons, refusesFirst_cons]
    unfold resolveFields
    rw [bind_eq_error_iff, fieldValue_eq_error_iff hprob hpos.1]
    apply or_congr_right
    -- Wherever the first field has left the stream, the others refuse the same.
    refine ⟨?_, ?_⟩
    · rintro ⟨⟨v, middle⟩, hfirst, h⟩
      rcases bind_eq_error_iff.mp h with h | ⟨others, _, h⟩
      · exact ⟨(exists_fieldValue_iff hprob hpos.1).mp ⟨_, hfirst⟩, (ih hpos.2).mp h⟩
      · cases h
    · rintro ⟨hfits, hrest⟩
      obtain ⟨⟨v, middle⟩, hfirst⟩ := (exists_fieldValue_iff hprob hpos.1).mpr hfits
      exact ⟨_, hfirst, bind_eq_error_iff.mpr (.inl ((ih hpos.2).mpr hrest))⟩

theorem exists_resolveFields_iff (hprob : policy.probability.InUnit)
    {fields : List PlacedField} (hpos : ∀ f ∈ fields, 0 < f.width.toNat) :
    (∃ filled, resolveFields policy s.name stream fields = .ok filled) ↔
      ∀ f ∈ fields, policy.Fits f := by
  rw [exists_eq_ok_iff]
  simp only [ne_eq, resolveFields_eq_error_iff hprob hpos]
  rw [forall_not_refusesFirst_iff, List.forall_mem_map]

/-! ## All segments -/

theorem width_pos_of_tiled (htiled : s.Tiled) : ∀ f ∈ s.fields, 0 < f.width.toNat :=
  fun _ hf => (Tiles.within htiled hf).2.2

theorem resolveSegments_fills (hprob : policy.probability.InUnit)
    {segments : List PlacedSegment} (htiled : ∀ t ∈ segments, t.Tiled)
    {filled : List ResolvedSegment × MaskStream}
    (h : resolveSegments policy stream segments = .ok filled) :
    List.Forall₂ policy.FillsSegment segments filled.1 := by
  induction segments generalizing stream filled with
  | nil =>
    cases h
    exact .nil
  | cons s segments ih =>
    rw [List.forall_mem_cons] at htiled
    unfold resolveSegments at h
    obtain ⟨⟨values, middle⟩, hfirst, h⟩ := bind_eq_ok_iff.mp h
    obtain ⟨others, hothers, h⟩ := bind_eq_ok_iff.mp h
    cases h
    have hvalues := resolveFields_fills hprob (width_pos_of_tiled htiled.1) hfirst
    exact .cons ⟨rfl, rfl, hvalues⟩ (ih htiled.2 hothers)

/-- Filling the segments of a chain stops at the first field without room. -/
theorem resolveSegments_eq_error_iff (hprob : policy.probability.InUnit)
    {segments : List PlacedSegment} (htiled : ∀ t ∈ segments, t.Tiled) :
    resolveSegments policy stream segments = .error e ↔
      policy.RefusesFirst (fieldsOf segments) e := by
  induction segments generalizing stream with
  | nil =>
    refine ⟨?_, ?_⟩
    · intro h
      cases h
    · intro h
      exact absurd h refusesFirst_nil
  | cons s segments ih =>
    rw [List.forall_mem_cons] at htiled
    have hpos := width_pos_of_tiled htiled.1
    rw [fieldsOf_cons, refusesFirst_append, List.forall_mem_map]
    unfold resolveSegments
    rw [bind_eq_error_iff, resolveFields_eq_error_iff hprob hpos]
    apply or_congr_right
    refine ⟨?_, ?_⟩
    · rintro ⟨⟨values, middle⟩, hfirst, h⟩
      rcases bind_eq_error_iff.mp h with h | ⟨others, _, h⟩
      · exact ⟨(exists_resolveFields_iff hprob hpos).mp ⟨_, hfirst⟩, (ih htiled.2).mp h⟩
      · cases h
    · rintro ⟨hfits, hrest⟩
      obtain ⟨⟨values, middle⟩, hfirst⟩ := (exists_resolveFields_iff hprob hpos).mpr hfits
      exact ⟨_, hfirst, bind_eq_error_iff.mpr (.inl ((ih htiled.2).mpr hrest))⟩

end Resolution

/-! ## A chain -/

namespace ChainLayout

variable {layout : ChainLayout} {policy : Policy} {e : Policy.Error}

/-- The fields of a chain, each with its segment, in the order in which they are filled. -/
def fields (layout : ChainLayout) : List (PlacedSegment × PlacedField) := fieldsOf layout.segments

/-- Resolving looks at the probability and then at the fields. -/
theorem resolve_eq_error_iff :
    layout.resolve policy = .error e ↔
      ¬ policy.probability.InUnit ∧ e = .probabilityOutOfRange policy.probability ∨
        policy.probability.InUnit ∧ policy.RefusesFirst layout.fields e := by
  unfold resolve Policy.resolve Policy.validate
  -- The fields are looked at only under a probability in the unit interval.
  by_cases hprob : policy.probability.InUnit
  · rw [if_pos (Binary64.isProbability_iff.mpr hprob)]
    simp only [hprob, not_true_eq_false, false_and, true_and, false_or]
    show (Resolution.resolveSegments policy _ _ >>= _) = _ ↔ _
    rw [bind_eq_error_iff, Resolution.resolveSegments_eq_error_iff hprob layout.tiled]
    refine ⟨?_, ?_⟩
    · rintro (hrefused | ⟨filled, _, h⟩)
      · exact hrefused
      · cases h
    · exact .inl
  · rw [if_neg fun h => hprob (Binary64.isProbability_iff.mp h)]
    simp only [hprob, not_false_eq_true, true_and, false_and, or_false]
    refine ⟨?_, ?_⟩
    · intro h
      cases h
      rfl
    · rintro rfl
      rfl

/-- Resolving fills every field. -/
theorem resolve_fills {resolved : List ResolvedSegment} (h : layout.resolve policy = .ok resolved) :
    List.Forall₂ policy.FillsSegment layout.segments resolved := by
  have hprob : policy.probability.InUnit := by
    apply not_not.mp
    intro hnot
    rw [resolve_eq_error_iff.mpr (.inl ⟨hnot, rfl⟩)] at h
    cases h
  unfold resolve Policy.resolve at h
  obtain ⟨_, _, h⟩ := bind_eq_ok_iff.mp h
  obtain ⟨filled, hfilled, h⟩ := bind_eq_ok_iff.mp h
  cases h
  exact Resolution.resolveSegments_fills hprob layout.tiled hfilled

/-- Resolving succeeds exactly if the probability is in range and every field has room. -/
theorem exists_resolve_iff :
    (∃ resolved, layout.resolve policy = .ok resolved) ↔
      policy.probability.InUnit ∧ ∀ entry ∈ layout.fields, policy.Fits entry.2 := by
  -- There is a result exactly where there is no refusal.
  rw [exists_eq_ok_iff, ← Policy.forall_not_refusesFirst_iff]
  simp only [ne_eq, resolve_eq_error_iff, not_or]
  refine ⟨?_, ?_⟩
  · intro h
    have hprob : policy.probability.InUnit := not_not.mp fun hnot => (h _).1 ⟨hnot, rfl⟩
    exact ⟨hprob, fun e hrefused => (h e).2 ⟨hprob, hrefused⟩⟩
  · rintro ⟨hprob, hnone⟩ e
    exact ⟨fun h => h.1 hprob, fun h => hnone e h.2⟩

/-- What resolving returns is what can be read. -/
theorem resolve_reads {resolved : List ResolvedSegment} (h : layout.resolve policy = .ok resolved) :
    layout.Reads resolved :=
  (resolve_fills h).imp fun _ _ hr => hr.reads

/-- What resolving returns can be packed. -/
theorem exists_pack_of_resolve {resolved : List ResolvedSegment}
    (h : layout.resolve policy = .ok resolved) (checksum : Bool) :
    ∃ image, layout.pack resolved checksum = .ok image :=
  ⟨_, pack_eq_ok_iff.mpr ⟨(resolve_reads h).matches, rfl⟩⟩

end ChainLayout
end ScanChain
