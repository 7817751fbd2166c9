/-
# ScanChain.Chain.Basic — well-formed chains

A chain is a nonempty list of segments in shift order: the segment at index `i` has position `i`, no
name occurs twice, and every segment has room for its fields. `Chain.ofSegments` takes segments in
any order and either builds the chain or names the first fault: positions are looked at first, from
zero up, and then names and widths together, segment by segment.
-/
import ScanChain.Segment.Placement

namespace ScanChain

/-- Segments in shift order. -/
structure Chain where
  name : String
  segments : List Segment
  nonempty : segments ≠ []
  positions : segments.map (·.position) = List.range segments.length
  names_nodup : (segments.map (·.name)).Nodup
  fits : ∀ s ∈ segments, s.Fits

namespace Chain

/-! ## Faults -/

/-- The first segment, of those that should hold the positions from `expected` up, that does not. It
either repeats the position of the one before it or leaves a gap. -/
def positionFault? : Option Segment → Nat → List Segment → Option ChainError
  | _, _, [] => none
  | previous, expected, s :: rest =>
    if s.position = expected then positionFault? (some s) (expected + 1) rest
    else match previous with
      | none => some (.positionGap s.name expected s.position)
      | some p =>
        if p.position = s.position then some (.duplicatePosition s.position p.name s.name)
        else some (.positionGap s.name expected s.position)

/-- The first segment with a name seen before, or without room for its fields. -/
def segmentFault? : List String → List Segment → Option ChainError
  | _, [] => none
  | seen, s :: rest =>
    if s.name ∈ seen then some (.duplicateName s.name)
    else match s.fault? with
      | some e => some e
      | none => segmentFault? (s.name :: seen) rest

theorem positions_of_positionFault?_eq_none {previous : Option Segment} {expected : Nat}
    {segments : List Segment} (h : positionFault? previous expected segments = none) :
    segments.map (·.position) = List.range' expected segments.length := by
  induction segments generalizing previous expected with
  | nil => rfl
  | cons s rest ih =>
    simp only [positionFault?] at h
    split at h
    · rename_i eq
      simp [List.range'_succ, eq, ih h]
    · split at h
      · exact absurd h (by simp)
      · split at h <;> exact absurd h (by simp)

theorem names_of_segmentFault?_eq_none {seen : List String} {segments : List Segment}
    (h : segmentFault? seen segments = none) :
    (segments.map (·.name)).Nodup ∧ (∀ s ∈ segments, s.name ∉ seen) ∧ ∀ s ∈ segments, s.Fits := by
  induction segments generalizing seen with
  | nil => simp
  | cons s rest ih =>
    simp only [segmentFault?] at h
    split at h
    · exact absurd h (by simp)
    · rename_i new
      split at h
      · exact absurd h (by simp)
      · rename_i fits
        obtain ⟨nodup, fresh, fit⟩ := ih h
        refine ⟨List.nodup_cons.mpr ⟨?_, nodup⟩, ?_, ?_⟩
        · intro mem
          obtain ⟨t, ht, eq⟩ := List.mem_map.mp mem
          exact fresh t ht (by simp [eq])
        · intro t ht
          rcases List.mem_cons.mp ht with rfl | ht
          · exact new
          · exact fun mem => fresh t ht (List.mem_cons_of_mem _ mem)
        · intro t ht
          rcases List.mem_cons.mp ht with rfl | ht
          · exact (Segment.fault?_eq_none_iff _).mp fits
          · exact fit t ht

/-! ## Building a chain -/

/-- The segments by position; segments of one position keep their order. -/
def sorted (segments : List Segment) : List Segment :=
  segments.mergeSort fun s t => decide (s.position ≤ t.position)

/-- The chain of segments given in any order. -/
def ofSegments (name : String) (segments : List Segment) : Except ChainError Chain :=
  if empty : segments = [] then .error (.emptyChain name)
  else match position : positionFault? none 0 (sorted segments) with
    | some e => .error e
    | none =>
      match segment : segmentFault? [] (sorted segments) with
      | some e => .error e
      | none => .ok {
          name
          segments := sorted segments
          nonempty := fun h => empty <| List.length_eq_zero_iff.mp <| by
            simpa [sorted] using congrArg List.length h
          positions := by
            rw [positions_of_positionFault?_eq_none position, List.range_eq_range']
          names_nodup := (names_of_segmentFault?_eq_none segment).1
          fits := (names_of_segmentFault?_eq_none segment).2.2 }

/-! ## Views -/

/-- The segments with their fields in place, in shift order. -/
def placed (chain : Chain) : List PlacedSegment := chain.segments.map Segment.placed

/-- The sum of the segment widths. -/
def totalBits (chain : Chain) : Nat := (chain.segments.map (·.bitWidth.toNat)).sum

end Chain
end ScanChain
