/-
# ScanChain.Proofs.Reading — reading looks at every bit of a stream once

Reading cuts a stream into fields and padding and looks at every bit once. `takeSegments_eq_ok_iff`
says that what it returns is the only list of matching values whose stream, filled up with zeros, is
the stream it was given. `PaddingRefused` says which set bit outside the fields is named, and
`takeSegments_eq_error_iff` that reading refuses for no other reason.
-/
import Mathlib.Data.Nat.Find
import ScanChain.Proofs.Packing

namespace ScanChain

/-! ## Fields -/

section Fields

variable {top bottom : Nat} {fields : List PlacedField}

theorem takeFields_rest (htiled : Tiles top fields bottom) (bits : List Bool) :
    (PlacedSegment.takeFields fields bits).2 = bits.drop (top - bottom) := by
  induction htiled generalizing bits with
  | nil => simp [PlacedSegment.takeFields]
  | @cons top bottom f fields hpos htop hrest ih =>
    -- The first field takes its width, and ends where the others start.
    show (PlacedSegment.takeFields fields (bits.drop f.width.toNat)).2 = _
    have hle := hrest.bottom_le
    rw [ih, List.drop_drop]
    congr 1
    omega

/-- Where the list is long enough, the values that are read match the fields. -/
theorem takeFields_matches (htiled : Tiles top fields bottom) {bits : List Bool}
    (hlen : top - bottom ≤ bits.length) :
    List.Forall₂ PlacedField.Matches fields (PlacedSegment.takeFields fields bits).1 := by
  induction htiled generalizing bits with
  | nil => exact .nil
  | @cons top bottom f fields hpos htop hrest ih =>
    have hle := hrest.bottom_le
    refine .cons ⟨rfl, ?_⟩ (ih (by rw [List.length_drop]; omega))
    rw [BitString.width_ofMsbFirst, List.length_take]
    omega

/-- What is read is what stood there. -/
theorem fieldStream_takeFields (htiled : Tiles top fields bottom) (bits : List Bool) :
    fieldStream (PlacedSegment.takeFields fields bits).1 = bits.take (top - bottom) := by
  induction htiled generalizing bits with
  | nil => simp [PlacedSegment.takeFields, fieldStream]
  | @cons top bottom f fields hpos htop hrest ih =>
    have hle := hrest.bottom_le
    have hsplit : top - bottom = f.width.toNat + (f.offset - bottom) := by omega
    show fieldStream (⟨f.name, .ofMsbFirst (bits.take f.width.toNat)⟩ ::
      (PlacedSegment.takeFields fields (bits.drop f.width.toNat)).1) = _
    rw [fieldStream_cons, BitString.msbFirst_ofMsbFirst, ih, hsplit, List.take_add]

/-- Matching values are read back from their stream, whatever follows. -/
theorem takeFields_fieldStream {values : List ResolvedField}
    (h : List.Forall₂ PlacedField.Matches fields values) (rest : List Bool) :
    PlacedSegment.takeFields fields (fieldStream values ++ rest) = (values, rest) := by
  induction h with
  | nil => rfl
  | @cons f v fields values hv _ ih =>
    have hwidth : v.value.msbFirst.length = f.width.toNat := by
      rw [BitString.length_msbFirst, hv.2]
    rw [fieldStream_cons, List.append_assoc, PlacedSegment.takeFields, ← hwidth,
      List.drop_left, List.take_left, ih, BitString.ofMsbFirst_msbFirst, ← hv.1]

end Fields

/-! ## Padding -/

/-- No padding bit of segment `i` is set. -/
def PaddingClear (segments : List PlacedSegment) (bit : Nat → Bool) (i : Nat) : Prop :=
  ∀ q, IsPaddingPlace segments i q → bit q = false

/-- No bit past the last segment is set. -/
def TailClear (segments : List PlacedSegment) (bit : Nat → Bool) : Prop :=
  ∀ q, totalWidth segments ≤ q → bit q = false

/-- The refusal of a set bit outside the fields: the first segment with one in its padding is named,
and the end of the stream comes last. -/
inductive PaddingRefused (segments : List PlacedSegment) (bit : Nat → Bool) : PackError → Prop
  | segment {i : Nat} {s : PlacedSegment} : segments[i]? = some s →
      (∀ j, j < i → PaddingClear segments bit j) → ¬ PaddingClear segments bit i →
      PaddingRefused segments bit (.nonZeroPadding (some s.name))
  | tail : (∀ i, PaddingClear segments bit i) → ¬ TailClear segments bit →
      PaddingRefused segments bit (.nonZeroPadding none)

section Padding

variable {segments : List PlacedSegment} {s : PlacedSegment} {bit : Nat → Bool}

theorem paddingClear_of_length_le {i : Nat} (hi : segments.length ≤ i) :
    PaddingClear segments bit i := by
  rintro q ⟨s, b, hs, -⟩
  rw [List.getElem?_eq_none hi] at hs
  cases hs

theorem paddingClear_cons_zero :
    PaddingClear (s :: segments) bit 0 ↔
      ∀ b, b < s.padding → bit (s.bitWidth.toNat - 1 - b) = false := by
  refine ⟨?_, ?_⟩
  · intro hclear b hb
    exact hclear _ ⟨s, b, rfl, hb, by rw [bitPlace, segmentStart_zero, Nat.zero_add]⟩
  · rintro hclear q ⟨t, b, ht, hb, rfl⟩
    obtain rfl : s = t := Option.some.inj ht
    rw [bitPlace, segmentStart_zero, Nat.zero_add]
    exact hclear b hb

theorem paddingClear_cons_succ (htiled : ∀ t ∈ segments, t.Tiled) {i : Nat} :
    PaddingClear (s :: segments) bit (i + 1) ↔
      PaddingClear segments (fun q => bit (s.bitWidth.toNat + q)) i := by
  have hbit {t : PlacedSegment} {b : Nat} (ht : segments[i]? = some t) (hb : b < t.padding) :
      bitPlace (s :: segments) (i + 1) t b = s.bitWidth.toNat + bitPlace segments i t b :=
    bitPlace_cons_succ
      (Nat.lt_of_lt_of_le hb (Tiles.bottom_le (htiled t (List.mem_of_getElem? ht))))
  refine ⟨?_, ?_⟩
  · rintro hclear q ⟨t, b, ht, hb, rfl⟩
    show bit (s.bitWidth.toNat + bitPlace segments i t b) = false
    rw [← hbit ht hb]
    exact hclear _ ⟨t, b, ht, hb, rfl⟩
  · rintro hclear q ⟨t, b, ht, hb, rfl⟩
    rw [hbit ht hb]
    exact hclear _ ⟨t, b, ht, hb, rfl⟩

theorem tailClear_cons :
    TailClear (s :: segments) bit ↔ TailClear segments fun q => bit (s.bitWidth.toNat + q) := by
  rw [TailClear, totalWidth_cons]
  refine ⟨?_, ?_⟩
  · intro hclear q hq
    exact hclear _ (by omega)
  · intro hclear q hq
    have hplace : q = s.bitWidth.toNat + (q - s.bitWidth.toNat) := by omega
    rw [hplace]
    exact hclear _ (by omega)

/-- Behind a segment whose padding is clear, the refusal is that of the other segments. -/
theorem paddingRefused_cons (htiled : ∀ t ∈ segments, t.Tiled)
    (hclear : PaddingClear (s :: segments) bit 0) {e : PackError} :
    PaddingRefused (s :: segments) bit e ↔
      PaddingRefused segments (fun q => bit (s.bitWidth.toNat + q)) e := by
  refine ⟨?_, ?_⟩
  · intro h
    cases h with
    | @segment i t ht hbefore hset =>
      cases i with
      | zero => exact absurd hclear hset
      | succ i =>
        refine .segment (i := i) ht ?_ ?_
        · intro j hj
          exact (paddingClear_cons_succ htiled).mp (hbefore (j + 1) (by omega))
        · rwa [paddingClear_cons_succ htiled] at hset
    | tail hall hset =>
      refine .tail (fun i => (paddingClear_cons_succ htiled).mp (hall (i + 1))) ?_
      rwa [tailClear_cons] at hset
  · intro h
    cases h with
    | @segment i t ht hbefore hset =>
      refine .segment (i := i + 1) ht ?_ ?_
      · intro j hj
        cases j with
        | zero => exact hclear
        | succ j => exact (paddingClear_cons_succ htiled).mpr (hbefore j (by omega))
      · rwa [paddingClear_cons_succ htiled]
    | tail hall hset =>
      refine .tail ?_ ?_
      · intro i
        cases i with
        | zero => exact hclear
        | succ i => exact (paddingClear_cons_succ htiled).mpr (hall i)
      · rwa [tailClear_cons]

/-- No bit outside the fields is set exactly if nothing is refused. -/
theorem not_isFieldPlace_clear_iff (htiled : ∀ t ∈ segments, t.Tiled) :
    (∀ q, ¬ IsFieldPlace segments q → bit q = false) ↔
      (∀ i, PaddingClear segments bit i) ∧ TailClear segments bit := by
  refine ⟨?_, ?_⟩
  · intro hclear
    refine ⟨?_, ?_⟩
    · intro i q hq
      exact hclear q ((not_isFieldPlace_iff htiled).mpr (Or.inr ⟨i, hq⟩))
    · intro q hq
      exact hclear q ((not_isFieldPlace_iff htiled).mpr (Or.inl hq))
  · rintro ⟨hpadding, htail⟩ q hq
    rcases (not_isFieldPlace_iff htiled).mp hq with hend | ⟨i, hplace⟩
    · exact htail q hend
    · exact hpadding i q hplace

/-- Some bit outside the fields is set exactly if one of them is refused. -/
theorem exists_paddingRefused_iff :
    (∃ e, PaddingRefused segments bit e) ↔
      ¬ ((∀ i, PaddingClear segments bit i) ∧ TailClear segments bit) := by
  refine ⟨?_, ?_⟩
  · rintro ⟨e, h⟩ ⟨hall, htail⟩
    cases h with
    | segment _ _ hset => exact hset (hall _)
    | tail _ hset => exact hset htail
  · intro hset
    by_cases hall : ∀ i, PaddingClear segments bit i
    · exact ⟨_, .tail hall fun htail => hset ⟨hall, htail⟩⟩
    · -- Of the segments with a set padding bit, the first one is named.
      classical
      have hex : ∃ i, ¬ PaddingClear segments bit i := not_forall.mp hall
      have hfirst := Nat.find_spec hex
      have hi : Nat.find hex < segments.length := by
        by_contra hge
        exact hfirst (paddingClear_of_length_le (Nat.not_lt.mp hge))
      exact ⟨_, .segment (List.getElem?_eq_getElem hi)
        (fun j hj => not_not.mp (Nat.find_min hex hj)) hfirst⟩

end Padding

/-! ## Segments -/

section Segments

variable {segments : List PlacedSegment} {s : PlacedSegment} {bits : List Bool}

/-- The bits between the fields of a segment and its end. -/
theorem takeFields_padding_iff (htiled : s.Tiled) :
    (((PlacedSegment.takeFields s.fields bits).2.take s.padding).any id = true) ↔
      ¬ PaddingClear (s :: segments) (fun q => bits.getD q false) 0 := by
  have hle := Tiles.bottom_le htiled
  -- The stream counts padding from the fields on, `PaddingClear` from the end of the segment.
  rw [takeFields_rest htiled, any_id_take_drop_iff, paddingClear_cons_zero]
  refine ⟨?_, ?_⟩
  · rintro ⟨q, hq, hset⟩ hclear
    have hplace : s.bitWidth.toNat - 1 - (s.padding - 1 - q) =
        s.bitWidth.toNat - s.padding + q := by omega
    have := hclear (s.padding - 1 - q) (by omega)
    rw [hplace, hset] at this
    cases this
  · intro hset
    push Not at hset
    obtain ⟨b, hb, hbit⟩ := hset
    refine ⟨s.padding - 1 - b, by omega, ?_⟩
    have hplace : s.bitWidth.toNat - s.padding + (s.padding - 1 - b) =
        s.bitWidth.toNat - 1 - b := by omega
    rw [hplace]
    exact Bool.of_not_eq_false hbit

/-- A segment is read from the first bits, and the others from what is left when its width is
dropped. -/
theorem takeSegments_cons (htiled : s.Tiled) :
    takeSegments (s :: segments) bits =
      if ((PlacedSegment.takeFields s.fields bits).2.take s.padding).any id then
        .error (.nonZeroPadding (some s.name))
      else (takeSegments segments (bits.drop s.bitWidth.toNat)).map
        (⟨s.name, s.position, (PlacedSegment.takeFields s.fields bits).1⟩ :: ·) := by
  have hle := Tiles.bottom_le htiled
  have hdrop : (PlacedSegment.takeFields s.fields bits).2.drop s.padding =
      bits.drop s.bitWidth.toNat := by
    rw [takeFields_rest htiled, List.drop_drop]
    congr 1
    omega
  rw [takeSegments, ← hdrop]

/-- Reading segments refuses exactly as `PaddingRefused` says. -/
theorem takeSegments_eq_error_iff (htiled : ∀ t ∈ segments, t.Tiled) {e : PackError} :
    takeSegments segments bits = .error e ↔
      PaddingRefused segments (fun q => bits.getD q false) e := by
  induction segments generalizing bits with
  | nil =>
    have htail : TailClear [] (fun q => bits.getD q false) ↔ ¬ bits.any id = true := by
      rw [any_id_iff, TailClear]
      simp
    rw [takeSegments]
    split
    · rename_i hset
      refine ⟨?_, ?_⟩
      · intro h
        cases h
        exact .tail (fun i => paddingClear_of_length_le (Nat.zero_le i)) fun h => htail.mp h hset
      · intro h
        cases h with
        | segment hs _ _ => cases hs
        | tail _ _ => rfl
    · rename_i hclear
      refine ⟨?_, ?_⟩
      · intro h
        cases h
      · intro h
        cases h with
        | segment hs _ _ => cases hs
        | tail _ hset => exact absurd (htail.mpr hclear) hset
  | cons s segments ih =>
    obtain ⟨hs, hrest⟩ := List.forall_mem_cons.mp htiled
    rw [takeSegments_cons hs]
    -- The padding of the first segment is looked at before the others are read.
    by_cases hclear : PaddingClear (s :: segments) (fun q => bits.getD q false) 0
    · rw [if_neg (fun h => (takeFields_padding_iff hs).mp h hclear), map_eq_error_iff, ih hrest,
        paddingRefused_cons hrest hclear]
      simp only [getD_drop]
    · rw [if_pos ((takeFields_padding_iff hs).mpr hclear)]
      refine ⟨?_, ?_⟩
      · intro h
        cases h
        exact .segment (i := 0) rfl (fun j hj => absurd hj (Nat.not_lt_zero j)) hclear
      · intro h
        cases h with
        | @segment i t ht hbefore _ =>
          cases i with
          | zero =>
            obtain rfl : s = t := Option.some.inj ht
            rfl
          | succ i => exact absurd (hbefore 0 (Nat.succ_pos i)) hclear
        | tail hall _ => exact absurd (hall 0) hclear

/-- What is read for a segment has its name, its position and matching values. -/
def PlacedSegment.Reads (s : PlacedSegment) (r : ResolvedSegment) : Prop :=
  r.name = s.name ∧ r.position = s.position ∧ s.Matches r

theorem eq_replicate_of_clear (h : ¬ bits.any id = true) :
    bits = List.replicate bits.length false := by
  apply List.eq_replicate_iff.mpr
  refine ⟨rfl, ?_⟩
  intro bit hbit
  by_contra hset
  exact h (List.any_eq_true.mpr ⟨bit, hbit, Bool.of_not_eq_false hset⟩)

/-- A segment whose padding is clear is the stream of what is read from it. -/
theorem stream_takeFields (htiled : s.Tiled) (hlen : s.bitWidth.toNat ≤ bits.length)
    (hclear : ¬ ((PlacedSegment.takeFields s.fields bits).2.take s.padding).any id = true) :
    s.stream (PlacedSegment.takeFields s.fields bits).1 = bits.take s.bitWidth.toNat := by
  have hle := Tiles.bottom_le htiled
  have hsplit : s.bitWidth.toNat = s.bitWidth.toNat - s.padding + s.padding := by omega
  have hzeros := eq_replicate_of_clear hclear
  rw [takeFields_rest htiled] at hzeros
  have hcount : ((bits.drop (s.bitWidth.toNat - s.padding)).take s.padding).length = s.padding := by
    rw [List.length_take, List.length_drop]
    omega
  rw [hcount] at hzeros
  rw [PlacedSegment.stream, fieldStream_takeFields htiled, ← hzeros, ← List.take_add, ← hsplit]

/-- Reading segments succeeds exactly on the stream of matching values, filled up with zeros. -/
theorem takeSegments_eq_ok_iff (htiled : ∀ t ∈ segments, t.Tiled)
    (hlen : totalWidth segments ≤ bits.length) {resolved : List ResolvedSegment} :
    takeSegments segments bits = .ok resolved ↔
      List.Forall₂ PlacedSegment.Reads segments resolved ∧
        ∃ n, bits = chainStream segments resolved ++ List.replicate n false := by
  induction segments generalizing bits resolved with
  | nil =>
    rw [takeSegments, List.forall₂_nil_left_iff]
    refine ⟨?_, ?_⟩
    · intro h
      split at h
      · cases h
      · rename_i hclear
        obtain rfl : resolved = [] := (Except.ok.inj h).symm
        exact ⟨rfl, bits.length, eq_replicate_of_clear hclear⟩
    · rintro ⟨rfl, n, rfl⟩
      rw [if_neg (by simp [chainStream])]
  | cons s segments ih =>
    obtain ⟨hs, hrest⟩ := List.forall_mem_cons.mp htiled
    rw [totalWidth_cons] at hlen
    have hlen' : totalWidth segments ≤ (bits.drop s.bitWidth.toNat).length := by
      rw [List.length_drop]
      omega
    rw [takeSegments_cons hs]
    refine ⟨?_, ?_⟩
    · intro h
      split at h
      · cases h
      · rename_i hclear
        obtain ⟨tail, htail, rfl⟩ := map_eq_ok_iff.mp h
        obtain ⟨hreads, n, hstream⟩ := (ih hrest hlen').mp htail
        have hle := Tiles.bottom_le hs
        refine ⟨.cons ⟨rfl, rfl, takeFields_matches hs (by omega)⟩ hreads, n, ?_⟩
        rw [chainStream, stream_takeFields hs (by omega) hclear, List.append_assoc, ← hstream,
          List.take_append_drop]
    · -- The stream of matching values starts with that of the first segment.
      rintro ⟨hreads, n, hstream⟩
      cases hreads with
      | @cons _ r _ tail hr hreads =>
        have hbits : bits = fieldStream r.fields ++
            (List.replicate s.padding false ++ (chainStream segments tail ++
              List.replicate n false)) := by
          rw [hstream, chainStream, PlacedSegment.stream, List.append_assoc, List.append_assoc]
        have hdrop : bits.drop s.bitWidth.toNat =
            chainStream segments tail ++ List.replicate n false := by
          rw [hstream, chainStream, List.append_assoc, ← PlacedSegment.length_stream hs hr.2.2,
            List.drop_left]
        have htake : PlacedSegment.takeFields s.fields bits = (r.fields, _) :=
          hbits ▸ takeFields_fieldStream hr.2.2 _
        rw [hdrop, htake, (ih hrest (by rwa [hdrop] at hlen')).mpr ⟨hreads, n, rfl⟩]
        rw [if_neg (by simp)]
        show Except.ok (⟨s.name, s.position, r.fields⟩ :: tail) = .ok (r :: tail)
        rw [← hr.1, ← hr.2.1]

end Segments

end ScanChain
