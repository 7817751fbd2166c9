/-
# ScanChain.Proofs.RoundTrip — reading undoes packing

Packing looks at the fields of what it is given and not at the names and positions of its segments;
reading takes those from the layout. `relabel` is the difference, and all that a round trip
changes: the fields come back as they were, bit for bit. What a policy resolves to has the labels
of the layout, and comes back unchanged.
-/
import ScanChain.Proofs.Resolving

namespace ScanChain

/-- The name and the position of a segment. -/
def PlacedSegment.label (s : PlacedSegment) : String × Nat := (s.name, s.position)

/-- The name and the position that values stand under. -/
def ResolvedSegment.label (r : ResolvedSegment) : String × Nat := (r.name, r.position)

/-- Values under the names and positions of segments. -/
def relabel : List PlacedSegment → List ResolvedSegment → List ResolvedSegment :=
  List.zipWith fun s r => ⟨s.name, s.position, r.fields⟩

section Relabel

variable {segments : List PlacedSegment} {resolved read : List ResolvedSegment}

theorem relabel_reads (h : List.Forall₂ PlacedSegment.Matches segments resolved) :
    List.Forall₂ PlacedSegment.Reads segments (relabel segments resolved) := by
  induction h with
  | nil => exact .nil
  | cons hr _ ih => exact .cons ⟨rfl, rfl, hr⟩ ih

/-- New labels leave the fields alone. -/
theorem fields_relabel (h : List.Forall₂ PlacedSegment.Matches segments resolved) :
    (relabel segments resolved).map (·.fields) = resolved.map (·.fields) := by
  induction h with
  | nil => rfl
  | @cons s r _ _ _ _ ih =>
    show r.fields :: (relabel _ _).map (·.fields) = r.fields :: _
    rw [ih]

/-- New labels leave the stream alone. -/
theorem chainStream_relabel (h : List.Forall₂ PlacedSegment.Matches segments resolved) :
    chainStream segments (relabel segments resolved) = chainStream segments resolved := by
  induction h with
  | nil => rfl
  | @cons s r _ _ _ _ ih =>
    show s.stream r.fields ++ chainStream _ (relabel _ _) = s.stream r.fields ++ _
    rw [ih]

/-- What is read has the labels of the segments. -/
theorem labels_of_reads (h : List.Forall₂ PlacedSegment.Reads segments read) :
    read.map (·.label) = segments.map (·.label) := by
  induction h with
  | nil => rfl
  | @cons s r _ _ hr _ ih =>
    obtain ⟨hname, hposition, -⟩ := hr
    rw [List.map_cons, List.map_cons, ih]
    show (r.name, r.position) :: _ = (s.name, s.position) :: _
    rw [hname, hposition]

/-- Values are their labels and their fields. -/
theorem eq_of_labels_of_fields (hlabels : read.map (·.label) = resolved.map (·.label))
    (hfields : read.map (·.fields) = resolved.map (·.fields)) : read = resolved := by
  induction read generalizing resolved with
  | nil =>
    cases resolved with
    | nil => rfl
    | cons => cases hfields
  | cons a read ih =>
    cases resolved with
    | nil => cases hfields
    | cons r resolved =>
      obtain ⟨hlabel, hlabels⟩ := List.cons.inj hlabels
      obtain ⟨hfield, hfields⟩ := List.cons.inj hfields
      obtain ⟨hname, hposition⟩ := Prod.mk.inj hlabel
      rw [ih hlabels hfields]
      cases a
      cases r
      cases hname
      cases hposition
      cases hfield
      rfl

end Relabel

namespace ChainLayout

variable {layout : ChainLayout} {resolved : List ResolvedSegment} {image : Image} {checksum : Bool}

/-- Relabelled values are packed to the same image. -/
theorem pack_relabel (h : layout.pack resolved checksum = .ok image) :
    layout.pack (relabel layout.segments resolved) checksum = .ok image := by
  obtain ⟨hmatch, rfl⟩ := pack_eq_ok_iff.mp h
  have hreads : layout.Reads (relabel layout.segments resolved) := relabel_reads hmatch
  refine pack_eq_ok_iff.mpr ⟨hreads.matches, ?_⟩
  rw [chainStream_relabel hmatch]

/-- The words of a packed image hold the values under the labels of the layout. -/
theorem unpackWords_of_pack (h : layout.pack resolved checksum = .ok image) :
    layout.unpackWords image.words checksum = .ok (relabel layout.segments resolved) :=
  unpackWords_eq_ok_iff.mpr
    ⟨relabel_reads (pack_eq_ok_iff.mp h).1, image, pack_relabel h, rfl⟩

/-- The words of an image are framed as reading asks for. -/
theorem framed_of_pack (h : layout.pack resolved checksum = .ok image) :
    layout.Framed image.words checksum :=
  framed_of_unpackWords (unpackWords_of_pack h)

/-- A packed image has a checksum exactly if one was asked for. -/
theorem isSome_checksum_of_pack (h : layout.pack resolved checksum = .ok image) :
    image.checksum.isSome = checksum := by
  obtain ⟨-, rfl⟩ := pack_eq_ok_iff.mp h
  cases checksum <;> rfl

theorem unpack_of_pack (h : layout.pack resolved checksum = .ok image) :
    layout.unpack image = .ok (relabel layout.segments resolved) := by
  unfold unpack
  rw [isSome_checksum_of_pack h]
  exact unpackWords_of_pack h

theorem labels_of_resolve {policy : Policy} (h : layout.resolve policy = .ok resolved) :
    resolved.map (·.label) = layout.segments.map (·.label) :=
  labels_of_reads (resolve_reads h)

/-- A packed image, and its words, are read back with every field as it was packed and the labels
of the layout. The values are the same altogether exactly if they had those labels before, and what
a policy resolves to has. -/
theorem unpack_undoes_pack (layout : ChainLayout) (checksum : Bool) :
    (∀ resolved image, layout.pack resolved checksum = .ok image →
      ∃ read, layout.unpack image = .ok read ∧
        layout.unpackWords image.words checksum = .ok read ∧
        read.map (·.fields) = resolved.map (·.fields) ∧
        read.map (·.label) = layout.segments.map (·.label) ∧
        (read = resolved ↔ resolved.map (·.label) = layout.segments.map (·.label))) ∧
      ∀ policy resolved, layout.resolve policy = .ok resolved →
        resolved.map (·.label) = layout.segments.map (·.label) ∧
        ∃ image, layout.pack resolved checksum = .ok image ∧
          layout.unpack image = .ok resolved ∧
          layout.unpackWords image.words checksum = .ok resolved := by
  -- What holds of every packed image, for any values.
  have hfields {resolved image} (h : layout.pack resolved checksum = .ok image) :=
    fields_relabel (pack_eq_ok_iff.mp h).1
  have hlabels {resolved image} (h : layout.pack resolved checksum = .ok image) :=
    labels_of_reads (relabel_reads (pack_eq_ok_iff.mp h).1)
  have hsame {resolved image} (h : layout.pack resolved checksum = .ok image) :
      relabel layout.segments resolved = resolved ↔
        resolved.map (·.label) = layout.segments.map (·.label) := by
    refine ⟨?_, ?_⟩
    · intro heq
      rw [← hlabels h, heq]
    · intro hown
      exact eq_of_labels_of_fields ((hlabels h).trans hown.symm) (hfields h)
  refine ⟨?_, ?_⟩
  · -- What is read is what was packed, relabelled.
    intro resolved image h
    exact ⟨_, unpack_of_pack h, unpackWords_of_pack h, hfields h, hlabels h, hsame h⟩
  · -- What a policy resolves to is packable and bears the labels already.
    intro policy resolved hresolve
    have hown := labels_of_resolve hresolve
    obtain ⟨image, hpack⟩ := exists_pack_of_resolve hresolve checksum
    have heq := (hsame hpack).mpr hown
    refine ⟨hown, _, hpack, ?_, ?_⟩
    · rw [unpack_of_pack hpack, heq]
    · rw [unpackWords_of_pack hpack, heq]

-- Values packed under another name come back under that of the segment.
example :
    let layout : ChainLayout :=
      { kind := .length
        chain :=
          { name := "main", segments := [⟨"alu", 0, 10, .stuckAt 4 4 4⟩], nonempty := by decide
            positions := by decide, names_nodup := by decide, fits := by decide } }
    let values (name : String) : List ResolvedSegment :=
      [⟨name, 0, [⟨"mask", .ofNat 3 4⟩, ⟨"value", .ofNat 1 4⟩]⟩]
    (layout.pack (values "fpu") true >>= layout.unpack) = .ok (values "alu") := by
  decide +kernel

end ChainLayout
end ScanChain
