/-
# ScanChain.Proofs.Fingerprint — the description of a chain can be read in one way only

A fingerprint is taken of bytes that are written one part after the other with no separator between
them. Numbers have a fixed size and the name of a segment is announced by its length; what is left
to tell apart are the fields. A field of width zero is not written, so the bytes behind a field may
be those of any later field of the injector, those of the next segment, or none.

They are told apart by their beginnings. The fields of an injector start with different letters. A
segment starts with its position in eight bytes, and below 2^32 positions the upper four of them are
zero (`AtBoundary`); a field has a letter there, or a name of four letters and behind it its width,
which is not zero (`not_atBoundary`). Two descriptions with the same bytes are therefore
descriptions of the same segments, and chains share a fingerprint only where the digest does not
tell different bytes apart.
-/
import ScanChain.Chain.Header
import ScanChain.Word.Lemmas

namespace ScanChain

/-! ## Names of fault models and of their fields -/

/-- The names of the fields that a fault model declares, those of width zero included. -/
def fieldNames : String → List String
  | "pass-through" => ["data"]
  | "lfsr" => ["enable", "seed", "mask", "difficulty"]
  | "stuck-at" => ["mask", "value"]
  | "cycle" => ["enable", "cycle_count", "inject_at"]
  | _ => []

/-- The name has at least four bytes, none of which is zero. -/
def Legible (name : String) : Prop := 4 ≤ (Text.utf8 name).length ∧ 0 ∉ Text.utf8 name

instance (name : String) : Decidable (Legible name) := inferInstanceAs (Decidable (_ ∧ _))

/-- The names start with different bytes. -/
def StartApart (m n : String) : Prop := (Text.utf8 m).head? ≠ (Text.utf8 n).head?

instance (m n : String) : Decidable (StartApart m n) := inferInstanceAs (Decidable (_ ≠ _))

theorem fieldNames_told_apart :
    ∀ tag ∈ Injector.tags,
      (fieldNames tag).Pairwise StartApart ∧ ∀ name ∈ fieldNames tag, Legible name := by
  decide +kernel

theorem tags_told_apart :
    ∀ m ∈ Injector.tags, ∀ n ∈ Injector.tags, m ≠ n → StartApart m n ∧ Legible m := by
  decide +kernel

namespace Injector

variable {i j : Injector} {x y : List UInt8}

theorem tag_mem (i : Injector) : i.tag ∈ tags := by
  cases i <;> simp [tag, tags]

theorem map_name_declared (i : Injector) : i.declared.map (·.name) = fieldNames i.tag := by
  cases i <;> rfl

/-- An injector is its fault model, the width of its register and the widths of its fields. -/
theorem eq_of_widths (htag : i.tag = j.tag) (hwidth : i.width = j.width)
    (hfields : i.declared.map (·.width) = j.declared.map (·.width)) : i = j := by
  cases i <;> cases j <;> simp_all [tag, width, declared]

end Injector

/-! ## Where a field starts, and where it does not -/

/-- The bytes end here, or a segment of a low position may start. -/
def AtBoundary (bytes : List UInt8) : Prop := bytes = [] ∨ (bytes.drop 4).take 4 = [0, 0, 0, 0]

theorem head?_utf8_append {name : String} (h : Legible name) (x : List UInt8) :
    (Text.utf8 name ++ x).head? = (Text.utf8 name).head? := by
  have hlen := h.1
  cases hbytes : Text.utf8 name with
  | nil =>
    rw [hbytes] at hlen
    simp at hlen
  | cons letter letters => rfl

/-- Where a field starts, no segment does. -/
theorem not_atBoundary {f : Field} (hname : Legible f.name) (hwidth : f.width ≠ 0)
    (x : List UInt8) : ¬ AtBoundary (f.fingerprintBytes ++ x) := by
  obtain ⟨hlen, hzero⟩ := hname
  rintro (hnil | hupper)
  · have hcount := congrArg List.length hnil
    simp only [Field.fingerprintBytes, List.length_append, List.length_nil] at hcount
    omega
  · rw [Field.fingerprintBytes, List.append_assoc, List.drop_append_of_le_length hlen] at hupper
    cases hletters : (Text.utf8 f.name).drop 4 with
    | nil =>
      -- A name of four bytes is followed by the width.
      rw [hletters, List.nil_append, List.take_left' (Word.length_littleEndian 4 _)] at hupper
      have hzeros : Word.littleEndian 4 f.width.toNat ++ [] = Word.littleEndian 4 0 ++ [] := by
        rw [hupper]
        rfl
      have hnat := (Word.littleEndian_append_inj f.width.toNat_lt (by decide) hzeros).1
      exact hwidth (UInt32.toNat_inj.mp hnat)
    | cons letter letters =>
      rw [hletters] at hupper
      obtain rfl : letter = 0 := (List.cons.inj hupper).1
      exact hzero (List.mem_of_mem_drop (hletters ▸ List.mem_cons_self))

/-! ## Fields -/

/-- The bytes that describe fields; a field of width zero has none. -/
def fieldsBytes (fields : List Field) : List UInt8 :=
  (fields.filter (·.width ≠ 0)).flatMap (·.fingerprintBytes)

section Fields

variable {f : Field} {fields others : List Field} {x y : List UInt8}

theorem fieldsBytes_cons_of_zero (h : f.width = 0) :
    fieldsBytes (f :: fields) = fieldsBytes fields := by
  simp [fieldsBytes, h]

theorem fieldsBytes_cons_of_ne (h : f.width ≠ 0) :
    fieldsBytes (f :: fields) = f.fingerprintBytes ++ fieldsBytes fields := by
  simp [fieldsBytes, h]

/-- A field is not taken for one of another name, nor for what comes behind the fields. -/
theorem field_ne_others (hname : Legible f.name) (hwidth : f.width ≠ 0)
    (hothers : ∀ g ∈ others, StartApart f.name g.name ∧ Legible g.name) (hy : AtBoundary y) :
    f.fingerprintBytes ++ x ≠ fieldsBytes others ++ y := by
  induction others with
  | nil =>
    intro h
    apply not_atBoundary hname hwidth x
    rwa [h]
  | cons g others ih =>
    obtain ⟨⟨hapart, hlegible⟩, hothers⟩ := List.forall_mem_cons.mp hothers
    by_cases hzero : g.width = 0
    · rw [fieldsBytes_cons_of_zero hzero]
      exact ih hothers
    · intro h
      have hheads := congrArg List.head? h
      rw [fieldsBytes_cons_of_ne hzero] at hheads
      simp only [Field.fingerprintBytes, List.append_assoc, head?_utf8_append hname,
        head?_utf8_append hlegible] at hheads
      exact hapart hheads

/-- From the bytes of fields whose names are known the widths are read again, also the widths of
zero that left no bytes. -/
theorem fieldsBytes_append_inj (hnames : fields.map (·.name) = others.map (·.name))
    (hapart : (fields.map (·.name)).Pairwise StartApart)
    (hlegible : ∀ name ∈ fields.map (·.name), Legible name) (hx : AtBoundary x)
    (hy : AtBoundary y) (h : fieldsBytes fields ++ x = fieldsBytes others ++ y) :
    fields.map (·.width) = others.map (·.width) ∧ x = y := by
  induction fields generalizing others with
  | nil =>
    obtain rfl : others = [] := List.map_eq_nil_iff.mp hnames.symm
    exact ⟨rfl, h⟩
  | cons f fields ih =>
    obtain ⟨g, others, rfl⟩ : ∃ g rest, others = g :: rest := by
      cases others with
      | nil => cases hnames
      | cons g rest => exact ⟨g, rest, rfl⟩
    obtain ⟨hname, hnames⟩ := List.cons.inj hnames
    have hname : f.name = g.name := hname
    obtain ⟨hfirst, hapart⟩ := List.pairwise_cons.mp hapart
    obtain ⟨hf, hlegible⟩ := List.forall_mem_cons.mp hlegible
    have hrest : ∀ e ∈ fields, StartApart f.name e.name ∧ Legible e.name := fun e he =>
      ⟨hfirst _ (List.mem_map_of_mem he), hlegible _ (List.mem_map_of_mem he)⟩
    have hrest' : ∀ e ∈ others, StartApart f.name e.name ∧ Legible e.name := by
      intro e he
      have hmem : e.name ∈ fields.map (·.name) := hnames ▸ List.mem_map_of_mem he
      exact ⟨hfirst _ hmem, hlegible _ hmem⟩
    by_cases hzero : f.width = 0 <;> by_cases hzero' : g.width = 0
    · rw [fieldsBytes_cons_of_zero hzero, fieldsBytes_cons_of_zero hzero'] at h
      obtain ⟨hwidths, hxy⟩ := ih hnames hapart hlegible h
      exact ⟨by rw [List.map_cons, List.map_cons, hwidths, hzero, hzero'], hxy⟩
    · -- A field that only the second list has would be taken for a later one of the first.
      rw [fieldsBytes_cons_of_zero hzero, fieldsBytes_cons_of_ne hzero', List.append_assoc] at h
      exact absurd h.symm (field_ne_others (hname ▸ hf) hzero' (hname ▸ hrest) hx)
    · rw [fieldsBytes_cons_of_ne hzero, fieldsBytes_cons_of_zero hzero', List.append_assoc] at h
      exact absurd h (field_ne_others hf hzero hrest' hy)
    · rw [fieldsBytes_cons_of_ne hzero, fieldsBytes_cons_of_ne hzero', List.append_assoc,
        List.append_assoc, Field.fingerprintBytes, Field.fingerprintBytes, List.append_assoc,
        List.append_assoc, hname] at h
      obtain ⟨hnat, htail⟩ := Word.littleEndian_append_inj f.width.toNat_lt g.width.toNat_lt
        (List.append_cancel_left h)
      obtain ⟨hwidths, hxy⟩ := ih hnames hapart hlegible htail
      exact ⟨by rw [List.map_cons, List.map_cons, hwidths, UInt32.toNat_inj.mp hnat], hxy⟩

end Fields

/-! ## Injectors and segments -/

namespace Injector

variable {i j : Injector} {x y : List UInt8}

/-- The fault model is told by the first byte of its name. -/
theorem tag_append_inj (h : Text.utf8 i.tag ++ x = Text.utf8 j.tag ++ y) :
    i.tag = j.tag ∧ x = y := by
  by_cases htag : i.tag = j.tag
  · rw [htag] at h
    exact ⟨htag, List.append_cancel_left h⟩
  · obtain ⟨hapart, hi⟩ := tags_told_apart _ i.tag_mem _ j.tag_mem htag
    have hj := (tags_told_apart _ j.tag_mem _ i.tag_mem (Ne.symm htag)).2
    have hheads := congrArg List.head? h
    rw [head?_utf8_append hi, head?_utf8_append hj] at hheads
    exact absurd hheads hapart

/-- The bytes that describe an injector. -/
def fingerprintBytes (i : Injector) : List UInt8 :=
  Text.utf8 i.tag ++ Word.littleEndian 4 i.width.toNat ++ i.fields.flatMap (·.fingerprintBytes)

theorem fingerprintBytes_append_inj (hx : AtBoundary x) (hy : AtBoundary y)
    (h : i.fingerprintBytes ++ x = j.fingerprintBytes ++ y) : i = j ∧ x = y := by
  simp only [fingerprintBytes, List.append_assoc] at h
  obtain ⟨htag, h⟩ := tag_append_inj h
  obtain ⟨hnat, h⟩ := Word.littleEndian_append_inj i.width.toNat_lt j.width.toNat_lt h
  have hnames : i.declared.map (·.name) = j.declared.map (·.name) := by
    rw [map_name_declared, map_name_declared, htag]
  obtain ⟨hapart, hlegible⟩ := fieldNames_told_apart _ i.tag_mem
  rw [← map_name_declared] at hapart hlegible
  obtain ⟨hwidths, hxy⟩ := fieldsBytes_append_inj hnames hapart hlegible hx hy h
  exact ⟨eq_of_widths htag (UInt32.toNat_inj.mp hnat) hwidths, hxy⟩

end Injector

namespace Segment

variable {s t : Segment} {x y : List UInt8}

/-- The position of a segment is below 2^32, and the length of its name has room in eight bytes, as
the length of any text in memory has. -/
structure Describable (s : Segment) : Prop where
  position : s.position < 2 ^ 32
  name : (Text.utf8 s.name).length < 2 ^ 64

theorem fingerprintBytes_eq (s : Segment) :
    s.fingerprintBytes = Word.littleEndian 8 s.position ++
      (Word.littleEndian 8 (Text.utf8 s.name).length ++ (Text.utf8 s.name ++
        (Word.littleEndian 4 s.bitWidth.toNat ++ s.injector.fingerprintBytes))) := by
  simp only [fingerprintBytes, Injector.fingerprintBytes, List.append_assoc]

/-- Where a segment starts there is a boundary. -/
theorem Describable.atBoundary (h : s.Describable) (x : List UInt8) :
    AtBoundary (s.fingerprintBytes ++ x) := by
  have hposition := h.position
  have hupper : s.position / 256 / 256 / 256 / 256 = 0 := by omega
  refine .inr ?_
  rw [fingerprintBytes_eq, List.append_assoc]
  simp only [Word.littleEndian, hupper]
  rfl

theorem fingerprintBytes_ne_nil (s : Segment) (x : List UInt8) : s.fingerprintBytes ++ x ≠ [] := by
  rw [fingerprintBytes_eq]
  exact List.cons_ne_nil _ _

/-- A segment is read again from its bytes, wherever the fields end. -/
theorem fingerprintBytes_append_inj (hs : s.Describable) (ht : t.Describable) (hx : AtBoundary x)
    (hy : AtBoundary y) (h : s.fingerprintBytes ++ x = t.fingerprintBytes ++ y) :
    s = t ∧ x = y := by
  have hplace {u : Segment} (hu : u.Describable) : u.position < 256 ^ 8 :=
    Nat.lt_trans hu.position (by decide)
  rw [fingerprintBytes_eq, fingerprintBytes_eq] at h
  simp only [List.append_assoc] at h
  obtain ⟨hposition, h⟩ := Word.littleEndian_append_inj (hplace hs) (hplace ht) h
  obtain ⟨hlen, h⟩ := Word.littleEndian_append_inj hs.name ht.name h
  obtain ⟨hname, h⟩ := List.append_inj h hlen
  obtain ⟨hwidth, h⟩ := Word.littleEndian_append_inj s.bitWidth.toNat_lt t.bitWidth.toNat_lt h
  obtain ⟨hinjector, hxy⟩ := Injector.fingerprintBytes_append_inj hx hy h
  refine ⟨?_, hxy⟩
  cases s
  cases t
  cases hposition
  cases hinjector
  cases Text.utf8_injective hname
  cases UInt32.toNat_inj.mp hwidth
  rfl

end Segment

/-! ## Chains -/

section Segments

variable {segments others : List Segment}

/-- Behind the fields of a segment the next one starts, or the bytes end. -/
theorem atBoundary_segments (h : ∀ s ∈ segments, s.Describable) :
    AtBoundary (segments.flatMap (·.fingerprintBytes)) := by
  cases segments with
  | nil => exact .inl rfl
  | cons s segments =>
    rw [List.flatMap_cons]
    exact (h s List.mem_cons_self).atBoundary _

theorem segments_of_fingerprintBytes (hsegments : ∀ s ∈ segments, s.Describable)
    (hothers : ∀ s ∈ others, s.Describable)
    (h : segments.flatMap (·.fingerprintBytes) = others.flatMap (·.fingerprintBytes)) :
    segments = others := by
  induction segments generalizing others with
  | nil =>
    cases others with
    | nil => rfl
    | cons t others => exact absurd h.symm (t.fingerprintBytes_ne_nil _)
  | cons s segments ih =>
    cases others with
    | nil => exact absurd h (s.fingerprintBytes_ne_nil _)
    | cons t others =>
      obtain ⟨hs, hsegments'⟩ := List.forall_mem_cons.mp hsegments
      obtain ⟨ht, hothers'⟩ := List.forall_mem_cons.mp hothers
      rw [List.flatMap_cons, List.flatMap_cons] at h
      obtain ⟨hfirst, hrest⟩ := Segment.fingerprintBytes_append_inj hs ht
        (atBoundary_segments hsegments') (atBoundary_segments hothers') h
      rw [hfirst, ih hsegments' hothers' hrest]

end Segments

namespace Chain

/-- The chain has fewer than 2^32 segments, and the lengths of their names have room in eight bytes,
as the length of any text in memory has. -/
structure Describable (chain : Chain) : Prop where
  length : chain.segments.length < 2 ^ 32
  names : ∀ s ∈ chain.segments, (Text.utf8 s.name).length < 2 ^ 64

theorem Describable.segments {chain : Chain} (h : chain.Describable) :
    ∀ s ∈ chain.segments, s.Describable := by
  intro s hs
  refine ⟨?_, h.names s hs⟩
  have hmem : s.position ∈ chain.segments.map (·.position) := List.mem_map_of_mem hs
  rw [chain.positions, List.mem_range] at hmem
  exact Nat.lt_trans hmem h.length

/-- The bytes from which a fingerprint is taken determine the segments of a chain with their names,
positions, widths and injectors. Different chains share a fingerprint only if different bytes have
digests that start with the same word. -/
theorem fingerprint_describes_segments {c d : Chain} (hc : c.Describable) (hd : d.Describable) :
    (c.fingerprintBytes = d.fingerprintBytes ↔ c.segments = d.segments) ∧
      (c.segments ≠ d.segments → c.header .fingerprint = d.header .fingerprint →
        c.fingerprintBytes ≠ d.fingerprintBytes ∧
          (Sha256.digest c.fingerprintBytes).a = (Sha256.digest d.fingerprintBytes).a) := by
  have hbytes : c.fingerprintBytes = d.fingerprintBytes ↔ c.segments = d.segments := by
    refine ⟨segments_of_fingerprintBytes hc.segments hd.segments, ?_⟩
    intro hsegments
    rw [fingerprintBytes, fingerprintBytes, hsegments]
  refine ⟨hbytes, ?_⟩
  intro hne hheader
  exact ⟨fun h => hne (hbytes.mp h), hheader⟩

/-- Which of two optional fields of one width is left out shows in the bytes. -/
theorem omitted_field_is_described :
    let c : Chain :=
      { name := "main"
        segments := [⟨"alu", 0, 41, .lfsr 8 1 32 0 8⟩, ⟨"fpu", 1, 8, .passThrough 8⟩]
        nonempty := by decide, positions := by decide, names_nodup := by decide
        fits := by decide }
    let d : Chain :=
      { name := "main"
        segments := [⟨"alu", 0, 41, .lfsr 8 1 32 8 0⟩, ⟨"fpu", 1, 8, .passThrough 8⟩]
        nonempty := by decide, positions := by decide, names_nodup := by decide
        fits := by decide }
    c.Describable ∧ d.Describable ∧ c.fingerprintBytes ≠ d.fingerprintBytes := by
  intro c d
  have hc : c.Describable := ⟨by decide, by decide +kernel⟩
  have hd : d.Describable := ⟨by decide, by decide +kernel⟩
  have hne : c.segments ≠ d.segments := by decide
  exact ⟨hc, hd, fun h => hne ((fingerprint_describes_segments hc hd).1.mp h)⟩

end Chain
end ScanChain
