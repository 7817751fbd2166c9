/-
# ScanChain.Proofs.Arrangement — a chain does not depend on the order of its entries

Segments are sorted by position and then scanned once. A chain is its name and its sorted segments,
so building one succeeds exactly if the sorted segments are those of a chain (`ofSegments_eq_ok_iff`);
and where all positions differ there is only one way to sort.

The scan knows the segment before the one that it looks at, and that is enough to tell a position
that is held twice from one that is not held at all: everything before the fault holds the positions
from zero up, and everything after it holds none below (`refused_of_positionFault?`). What
the fault says is about the list as it was given, since it names entries and counts positions.
-/
import Mathlib.Data.List.Permutation
import ScanChain.Proofs.Selection

namespace ScanChain

namespace Chain

/-! ## What the scans accept -/

section Scans

variable {segments : List Segment}

theorem positionFault?_eq_none_iff {previous : Option Segment} {expected : Nat} :
    positionFault? previous expected segments = none ↔
      segments.map (·.position) = List.range' expected segments.length := by
  refine ⟨positions_of_positionFault?_eq_none, ?_⟩
  induction segments generalizing previous expected with
  | nil => exact fun _ => rfl
  | cons s rest ih =>
    intro h
    rw [List.map_cons, List.length_cons, List.range'_succ] at h
    obtain ⟨hfirst, hrest⟩ := List.cons.inj h
    unfold positionFault?
    rw [if_pos hfirst]
    exact ih hrest

theorem segmentFault?_eq_none_iff {seen : List String} :
    segmentFault? seen segments = none ↔
      (segments.map (·.name)).Nodup ∧ (∀ s ∈ segments, s.name ∉ seen) ∧
        ∀ s ∈ segments, s.Fits := by
  refine ⟨names_of_segmentFault?_eq_none, ?_⟩
  induction segments generalizing seen with
  | nil => exact fun _ => rfl
  | cons s rest ih =>
    rintro ⟨hnodup, hfresh, hfits⟩
    obtain ⟨hnew, hrest⟩ := List.nodup_cons.mp hnodup
    obtain ⟨hfirst, hothers⟩ := List.forall_mem_cons.mp hfresh
    obtain ⟨hfit, hfits⟩ := List.forall_mem_cons.mp hfits
    rw [segmentFault?, if_neg hfirst, (Segment.fault?_eq_none_iff s).mpr hfit]
    refine ih ⟨hrest, ?_, hfits⟩
    -- A later segment has neither a name seen before nor that of this one.
    intro t ht hmem
    rcases List.mem_cons.mp hmem with heq | hmem
    · exact hnew (List.mem_map.mpr ⟨t, ht, heq⟩)
    · exact hothers t ht hmem

end Scans

/-! ## Sorting -/

section Sorting

variable {segments others : List Segment}

theorem sorted_perm (segments : List Segment) : (sorted segments).Perm segments :=
  List.mergeSort_perm _ _

theorem pairwise_sorted (segments : List Segment) :
    (sorted segments).Pairwise fun s t => s.position ≤ t.position := by
  have h : (sorted segments).Pairwise fun s t => decide (s.position ≤ t.position) = true := by
    apply List.pairwise_mergeSort
    · intro s t u hst htu
      exact decide_eq_true (Nat.le_trans (of_decide_eq_true hst) (of_decide_eq_true htu))
    · intro s t
      rw [Bool.or_eq_true, decide_eq_true_iff, decide_eq_true_iff]
      exact Nat.le_total _ _
  exact h.imp of_decide_eq_true

/-- The sorted segments hold the positions from zero up exactly if all segments together do. -/
theorem positions_sorted_iff :
    (sorted segments).map (·.position) = List.range (sorted segments).length ↔
      (segments.map (·.position)).Perm (List.range segments.length) := by
  have hperm := (sorted_perm segments).map (·.position)
  rw [(sorted_perm segments).length_eq]
  constructor
  · intro h
    rw [← h]
    exact hperm.symm
  · intro h
    have hsorted : ((sorted segments).map (·.position)).Pairwise (· ≤ ·) :=
      List.pairwise_map.mpr (pairwise_sorted segments)
    exact List.Perm.eq_of_pairwise (fun _ _ _ _ => Nat.le_antisymm) hsorted
      List.pairwise_le_range (hperm.trans h)

/-- Segments at different positions are sorted in one way only. -/
theorem sorted_eq_of_perm (hdistinct : (segments.map (·.position)).Nodup)
    (hperm : segments.Perm others) : sorted segments = sorted others := by
  have hboth : (sorted segments).Perm (sorted others) :=
    ((sorted_perm segments).trans hperm).trans (sorted_perm others).symm
  refine List.Perm.eq_of_pairwise ?_ (pairwise_sorted segments) (pairwise_sorted others) hboth
  intro s t hs ht hle hge
  have hs : s ∈ segments := (sorted_perm segments).mem_iff.mp hs
  have ht : t ∈ segments := hperm.mem_iff.mpr ((sorted_perm others).mem_iff.mp ht)
  exact List.inj_on_of_nodup_map hdistinct hs ht (Nat.le_antisymm hle hge)

end Sorting

/-! ## Building a chain -/

section Building

variable {name : String} {segments others : List Segment} {chain : Chain}

/-- A chain is its name and its segments. -/
theorem eq_of_segments {c d : Chain} (hname : c.name = d.name) (hsegments : c.segments = d.segments) :
    c = d := by
  cases c
  cases d
  cases hname
  cases hsegments
  rfl

/-- Segments make a chain exactly if they are those of the chain when sorted. -/
theorem ofSegments_eq_ok_iff :
    ofSegments name segments = .ok chain ↔
      chain.name = name ∧ chain.segments = sorted segments := by
  constructor
  · intro h
    refine ⟨name_of_ofSegments h, ?_⟩
    unfold ofSegments at h
    split at h
    · cases h
    split at h
    · cases h
    split at h
    · cases h
    · cases h
      rfl
  · rintro ⟨hname, hsegments⟩
    have hne : segments ≠ [] := by
      rintro rfl
      exact chain.nonempty (hsegments.trans List.mergeSort_nil)
    have hposition : positionFault? none 0 (sorted segments) = none := by
      rw [positionFault?_eq_none_iff, ← List.range_eq_range', ← hsegments]
      exact chain.positions
    have hsegment : segmentFault? [] (sorted segments) = none := by
      rw [segmentFault?_eq_none_iff, ← hsegments]
      exact ⟨chain.names_nodup, by simp, chain.fits⟩
    unfold ofSegments
    rw [dif_neg hne]
    split
    · rename_i hfault
      rw [hposition] at hfault
      cases hfault
    split
    · rename_i hfault
      rw [hsegment] at hfault
      cases hfault
    · exact congrArg Except.ok (eq_of_segments hname.symm hsegments.symm)

/-- Segments make a chain exactly if there are any, they hold the positions from zero up, no name
occurs twice and each is laid out. -/
theorem exists_ofSegments_iff :
    (∃ chain, ofSegments name segments = .ok chain) ↔
      segments ≠ [] ∧ (segments.map (·.position)).Perm (List.range segments.length) ∧
        (segments.map (·.name)).Nodup ∧ ∀ s ∈ segments, ∃ placed, s.place = .ok placed := by
  have hperm := sorted_perm segments
  have hplace (s : Segment) : (∃ placed, s.place = .ok placed) ↔ s.Fits := by
    rw [← Segment.fault?_eq_none_iff, Segment.place]
    cases s.fault? <;> simp
  simp only [hplace, ofSegments_eq_ok_iff, ← positions_sorted_iff]
  constructor
  · rintro ⟨chain, -, hsegments⟩
    rw [← hsegments] at hperm ⊢
    refine ⟨?_, chain.positions, ?_, ?_⟩
    · rintro rfl
      exact chain.nonempty hperm.eq_nil
    · exact (hperm.map _).nodup_iff.mp chain.names_nodup
    · exact fun s hs => chain.fits s (hperm.mem_iff.mpr hs)
  · rintro ⟨hne, hpositions, hnodup, hfits⟩
    exact ⟨{
      name
      segments := sorted segments
      nonempty := fun h => hne (List.Perm.eq_nil (h ▸ hperm.symm))
      positions := hpositions
      names_nodup := (hperm.map _).nodup_iff.mpr hnodup
      fits := fun s hs => hfits s (hperm.mem_iff.mp hs) }, rfl, rfl⟩

/-- Segments that make a chain make the same one in any order. -/
theorem ofSegments_of_perm (h : ofSegments name segments = .ok chain)
    (hperm : segments.Perm others) : ofSegments name others = .ok chain := by
  have hpositions := (exists_ofSegments_iff.mp ⟨chain, h⟩).2.1
  have hdistinct : (segments.map (·.position)).Nodup :=
    hpositions.nodup_iff.mpr List.nodup_range
  obtain ⟨hname, hsegments⟩ := ofSegments_eq_ok_iff.mp h
  refine ofSegments_eq_ok_iff.mpr ⟨hname, ?_⟩
  rw [hsegments, sorted_eq_of_perm hdistinct hperm]

/-- The segment at index `i` of a chain has position `i`. -/
theorem position_of_getElem? {i : Nat} {s : Segment} (hs : chain.segments[i]? = some s) :
    s.position = i := by
  have hi : i < chain.segments.length := (List.getElem?_eq_some_iff.mp hs).1
  have h := congrArg (·[i]?) chain.positions
  simp only [List.getElem?_map, hs, List.getElem?_range hi] at h
  exact Option.some.inj h

end Building

/-! ## What the scan of the positions refuses -/

/-- Two entries of a list, at different places of it. -/
def TwoEntries (segments : List Segment) (s t : Segment) : Prop :=
  ∃ i j : Nat, i ≠ j ∧ segments[i]? = some s ∧ segments[j]? = some t

/-- Every position below is held by exactly one entry. -/
def HeldOnceBelow (segments : List Segment) (position : Nat) : Prop :=
  ∀ p < position, (segments.map (·.position)).count p = 1

/-- What a fault of the positions says about a list of segments. Either two entries hold the position
that is named, or no entry holds the one that is expected and the next that is held is found;
every position below is held once. -/
inductive PositionRefused (segments : List Segment) : ChainError → Prop
  | duplicate {s t : Segment} : TwoEntries segments s t → s.position = t.position →
      HeldOnceBelow segments s.position →
      PositionRefused segments (.duplicatePosition s.position s.name t.name)
  | gap {s : Segment} {expected : Nat} : s ∈ segments → expected < s.position →
      (∀ t ∈ segments, t.position ≠ expected) →
      (∀ t ∈ segments, expected < t.position → s.position ≤ t.position) →
      HeldOnceBelow segments expected →
      PositionRefused segments (.positionGap s.name expected s.position)

section Faults

variable {segments others : List Segment} {e : ChainError}

theorem twoEntries_of_sublist {s t : Segment} (h : [s, t].Sublist segments) :
    TwoEntries segments s t ∧ TwoEntries segments t s := by
  obtain ⟨front, back, rfl, hs, ht⟩ := List.cons_sublist_iff.mp h
  obtain ⟨i, hi⟩ := List.mem_iff_getElem?.mp hs
  obtain ⟨j, hj⟩ := List.mem_iff_getElem?.mp (List.singleton_sublist.mp ht)
  have hlt : i < front.length := (List.getElem?_eq_some_iff.mp hi).1
  have hs : (front ++ back)[i]? = some s := by rwa [List.getElem?_append_left hlt]
  have ht : (front ++ back)[front.length + j]? = some t := by
    rwa [List.getElem?_append_right (by omega), Nat.add_sub_cancel_left]
  exact ⟨⟨_, _, by omega, hs, ht⟩, ⟨_, _, by omega, ht, hs⟩⟩

/-- Two entries of a list stay two entries in any order of it. -/
theorem twoEntries_of_perm {s t : Segment} (h : [s, t].Sublist segments)
    (hperm : segments.Perm others) : TwoEntries others s t := by
  obtain ⟨pair, hpair, hsub⟩ := h.subperm.trans hperm.subperm
  -- The two are a sublist of the other order, one way round or the other.
  rcases List.perm_pair.mp hpair with rfl | rfl
  · exact (twoEntries_of_sublist hsub).1
  · exact (twoEntries_of_sublist hsub).2

theorem HeldOnceBelow.of_perm {position : Nat} (h : HeldOnceBelow segments position)
    (hperm : segments.Perm others) : HeldOnceBelow others position := by
  intro p hp
  rw [← (hperm.map _).count_eq, h p hp]

/-- Entries that hold the positions from zero up, before others that hold none of these, hold each of
them once. -/
theorem heldOnceBelow_append {before : List Segment} {position : Nat}
    (hbefore : before.map (·.position) = List.range before.length)
    (hle : position ≤ before.length) (hafter : ∀ s ∈ segments, position ≤ s.position) :
    HeldOnceBelow (before ++ segments) position := by
  intro p hp
  have hone : (List.range before.length).count p = 1 :=
    List.count_eq_one_of_mem List.nodup_range (List.mem_range.mpr (by omega))
  have hnone : (segments.map (·.position)).count p = 0 := by
    apply List.count_eq_zero_of_not_mem
    intro hmem
    obtain ⟨s, hs, rfl⟩ := List.mem_map.mp hmem
    have := hafter s hs
    omega
  rw [List.map_append, List.count_append, hbefore, hone, hnone]

/-- Behind segments that hold the positions from zero up, a sorted list that goes on higher has a
gap. -/
theorem refused_of_gap {before rest : List Segment} {s : Segment}
    (hbefore : before.map (·.position) = List.range before.length)
    (hafter : ∀ t ∈ s :: rest, s.position ≤ t.position) (hlt : before.length < s.position)
    (hperm : (before ++ s :: rest).Perm segments) :
    PositionRefused segments (.positionGap s.name before.length s.position) := by
  have hbelow : ∀ t ∈ before, t.position < before.length := by
    intro t ht
    rw [← List.mem_range, ← hbefore]
    exact List.mem_map_of_mem ht
  have hcases : ∀ t ∈ segments, t.position < before.length ∨ s.position ≤ t.position := by
    intro t ht
    rcases List.mem_append.mp (hperm.mem_iff.mpr ht) with ht | ht
    · exact Or.inl (hbelow t ht)
    · exact Or.inr (hafter t ht)
  refine .gap (hperm.mem_iff.mp (by simp)) hlt ?_ ?_ ?_
  · intro t ht
    have := hcases t ht
    omega
  · intro t ht hexpected
    have := hcases t ht
    omega
  · refine (heldOnceBelow_append hbefore (Nat.le_refl _) ?_).of_perm hperm
    intro t ht
    exact Nat.le_trans (Nat.le_of_lt hlt) (hafter t ht)

/-- A fault that is found behind segments that hold the positions from zero up is one of the whole
list. -/
theorem refused_of_positionFault? {before rest : List Segment}
    (hbefore : before.map (·.position) = List.range before.length)
    (hsorted : (before ++ rest).Pairwise fun s t => s.position ≤ t.position)
    (hperm : (before ++ rest).Perm segments)
    (h : positionFault? before.getLast? before.length rest = some e) :
    PositionRefused segments e := by
  induction rest generalizing before with
  | nil => cases h
  | cons s rest ih =>
    have hsplit : before ++ s :: rest = (before ++ [s]) ++ rest := by simp
    obtain ⟨-, hrest, hbetween⟩ := List.pairwise_append.mp hsorted
    have hafter : ∀ t ∈ s :: rest, s.position ≤ t.position :=
      List.forall_mem_cons.mpr ⟨Nat.le_refl _, fun t ht => List.rel_of_pairwise_cons hrest ht⟩
    unfold positionFault? at h
    by_cases heq : s.position = before.length
    · -- The segment has its place, and joins those before the fault.
      rw [if_pos heq] at h
      rw [hsplit] at hsorted hperm
      refine ih ?_ hsorted hperm ?_
      · rw [List.map_append, hbefore, List.length_append, List.length_singleton,
          List.range_succ, List.map_singleton, heq]
      · rwa [List.getLast?_concat, List.length_append]
    rw [if_neg heq] at h
    rcases List.eq_nil_or_concat' before with rfl | ⟨front, p, rfl⟩
    · obtain rfl := Option.some.inj h
      exact refused_of_gap hbefore hafter (Nat.pos_of_ne_zero heq) hperm
    · -- The segment before has the last position that is taken, and this one has no lower.
      have hlast : p.position = front.length := by
        have hentry := congrArg (·[front.length]?) hbefore
        simpa using hentry
      have hle : p.position ≤ s.position := hbetween p (by simp) s (by simp)
      rw [List.length_append, List.length_singleton] at heq
      rw [List.getLast?_concat] at h
      dsimp only at h
      split at h
      · rename_i hsame
        obtain rfl := Option.some.inj h
        rw [← hsame]
        have hpair : [p, s].Sublist ((front ++ [p]) ++ s :: rest) :=
          List.Sublist.append (List.sublist_append_right front [p])
            (List.cons_sublist_cons.mpr (List.nil_sublist rest))
        refine .duplicate (twoEntries_of_perm hpair hperm) hsame ?_
        refine (heldOnceBelow_append hbefore ?_ ?_).of_perm hperm
        · simp [hlast]
        · intro t ht
          exact Nat.le_trans hle (hafter t ht)
      · rename_i hdifferent
        obtain rfl := Option.some.inj h
        refine refused_of_gap hbefore hafter ?_ hperm
        rw [List.length_append, List.length_singleton]
        omega

theorem positionRefused_of_sorted (h : positionFault? none 0 (sorted segments) = some e) :
    PositionRefused segments e :=
  @refused_of_positionFault? segments e [] (sorted segments) rfl (pairwise_sorted segments)
    (sorted_perm segments) h

/-- A refusal for a name or for a width. -/
def SegmentRefused (e : ChainError) : Prop :=
  ∃ s : Segment, e = .duplicateName s.name ∨ e = .zeroWidth s.name ∨
    e = .fieldsExceedWidth s.name s.injector.tag s.injector.fieldsWidth s.bitWidth.toNat

theorem segmentRefused_of_segmentFault? {seen : List String}
    (h : segmentFault? seen segments = some e) : SegmentRefused e := by
  induction segments generalizing seen with
  | nil => cases h
  | cons s rest ih =>
    unfold segmentFault? at h
    split at h
    · exact ⟨s, Or.inl (Option.some.inj h).symm⟩
    split at h
    · rename_i hfault
      rw [← hfault, Segment.fault?] at h
      split at h
      · exact ⟨s, Or.inr (Or.inl (Option.some.inj h).symm)⟩
      split at h
      · exact ⟨s, Or.inr (Or.inr (Option.some.inj h).symm)⟩
      · cases h
    · exact ih h

/-- A refusal is that of a list without segments, of the positions, or of a name or a width. -/
theorem ofSegments_eq_error {name : String} (h : ofSegments name segments = .error e) :
    e = .emptyChain name ∨ PositionRefused segments e ∨ SegmentRefused e := by
  unfold ofSegments at h
  split at h
  · exact Or.inl (Except.error.inj h).symm
  split at h
  · rename_i hfault
    obtain rfl := Except.error.inj h
    exact Or.inr (Or.inl (positionRefused_of_sorted hfault))
  split at h
  · rename_i hfault
    obtain rfl := Except.error.inj h
    exact Or.inr (Or.inr (segmentRefused_of_segmentFault? hfault))
  · cases h

/-- Only the positions are refused for a position. -/
theorem positionRefused_of_form {name : String} (h : ofSegments name segments = .error e)
    (hform : (∃ position first second, e = .duplicatePosition position first second) ∨
      ∃ segment expected found, e = .positionGap segment expected found) :
    PositionRefused segments e := by
  rcases ofSegments_eq_error h with rfl | hrefused | ⟨s, rfl | rfl | rfl⟩
  · simp at hform
  · exact hrefused
  · simp at hform
  · simp at hform
  · simp at hform

/-- Positions with a gap or held twice are looked at first, and refused as such. -/
theorem ofSegments_of_positions {name : String} (hne : segments ≠ [])
    (hpositions : ¬ (segments.map (·.position)).Perm (List.range segments.length)) :
    ∃ e, ofSegments name segments = .error e ∧ PositionRefused segments e := by
  cases hfault : positionFault? none 0 (sorted segments) with
  | none =>
    rw [positionFault?_eq_none_iff, ← List.range_eq_range', positions_sorted_iff] at hfault
    exact absurd hfault hpositions
  | some e =>
    refine ⟨e, ?_, positionRefused_of_sorted hfault⟩
    unfold ofSegments
    rw [dif_neg hne]
    split
    · rename_i hfound
      rw [Option.some.inj (hfound.symm.trans hfault)]
    · rename_i hfound
      rw [hfault] at hfound
      cases hfound

end Faults

end Chain

/-! ## Descriptors with their entries in another order -/

namespace Descriptor

/-- The descriptors have the same chains, each with the same entries in any order. -/
def SameEntries (d d' : Descriptor) : Prop :=
  List.Forall₂ (fun a b => a.1 = b.1 ∧ a.2.Perm b.2) d.chains.entries d'.chains.entries

variable {d d' : Descriptor}

theorem SameEntries.symm (h : d.SameEntries d') : d'.SameEntries d :=
  (List.Forall₂.imp (fun _ _ hab => ⟨hab.1.symm, hab.2.symm⟩) h).flip

theorem SameEntries.names (h : d.SameEntries d') : d.names = d'.names := by
  unfold Descriptor.names NameTable.names
  unfold SameEntries at h
  generalize d.chains.entries = entries at h ⊢
  generalize d'.chains.entries = others at h ⊢
  induction h with
  | nil => rfl
  | cons hfirst _ ih => rw [List.map_cons, List.map_cons, hfirst.1, ih]

theorem SameEntries.find? (h : d.SameEntries d') {name : String} {entries : List SegmentEntry}
    (hentries : d.chains.find? name = some entries) :
    ∃ others, d'.chains.find? name = some others ∧ entries.Perm others := by
  unfold NameTable.find? at hentries ⊢
  unfold SameEntries at h
  generalize d.chains.entries = table at h hentries
  generalize d'.chains.entries = table' at h ⊢
  induction h with
  | nil => cases hentries
  | @cons a b _ _ hfirst _ ih =>
    rw [List.find?_cons] at hentries ⊢
    rw [← hfirst.1]
    by_cases hname : a.1 = name
    · rw [decide_eq_true hname] at hentries ⊢
      obtain rfl := Option.some.inj hentries
      exact ⟨b.2, rfl, hfirst.2⟩
    · rw [decide_eq_false hname] at hentries ⊢
      exact ih hentries

/-- A chain is the same in any order of its entries. -/
theorem SameEntries.chain (h : d.SameEntries d') {name : String} {chain : Chain}
    (hchain : d.chain name = .ok chain) : d'.chain name = .ok chain := by
  unfold Descriptor.chain at hchain ⊢
  split at hchain
  · cases hchain
  · rename_i entries hentries
    obtain ⟨segments, hsegments, hchain⟩ := bind_eq_ok_iff.mp hchain
    obtain ⟨others, hothers, hperm⟩ := h.find? hentries
    -- The segments of the other order are the same in that order.
    obtain ⟨arranged, harranged, hperm⟩ :=
      List.perm_comp_forall₂ hperm.symm (mapM_eq_ok_iff.mp hsegments)
    rw [hothers]
    exact bind_eq_ok_iff.mpr
      ⟨arranged, mapM_eq_ok_iff.mpr harranged, Chain.ofSegments_of_perm hchain hperm.symm⟩

end Descriptor

namespace Config

variable {config : Config} {d d' : Descriptor} {policy : Policy}

theorem compileChain_of_sameEntries (h : d.SameEntries d') {name : String} {compiled : Compiled}
    (hcompile : config.compileChain d name policy = .ok compiled) :
    config.compileChain d' name policy = .ok compiled := by
  obtain ⟨chain, hchain⟩ := exists_chain_of_compileChain hcompile
  rwa [compileChain_of_chain (h.chain hchain), ← compileChain_of_chain hchain]

/-- Compiled chains are the same in any order of the entries. -/
theorem compileSelected_of_sameEntries (h : d.SameEntries d') {selected : Option String}
    {all : List Compiled} (hcompile : config.compileSelected d selected policy = .ok all) :
    config.compileSelected d' selected policy = .ok all := by
  cases selected with
  | some name =>
    obtain ⟨compiled, hone, hall⟩ := map_eq_ok_iff.mp hcompile
    exact map_eq_ok_iff.mpr ⟨compiled, compileChain_of_sameEntries h hone, hall⟩
  | none =>
    have heach := compileAll_eq_ok_iff.mp hcompile
    rw [h.names] at heach
    exact compileAll_eq_ok_iff.mpr (heach.imp fun _ _ => compileChain_of_sameEntries h)

end Config

/-- Segments make a chain exactly if there are any, they hold the positions from zero up, no name
occurs twice and each is laid out. The chain has the segments in the order of their positions, and
is the same for any order in which they are given; so are the images that are compiled from a
descriptor. Positions that are held twice or not at all are refused with the first of them. -/
theorem accepts_positions_in_any_order :
    (∀ (name : String) (segments : List Segment),
      ((∃ chain, Chain.ofSegments name segments = .ok chain) ↔
        segments ≠ [] ∧ (segments.map (·.position)).Perm (List.range segments.length) ∧
          (segments.map (·.name)).Nodup ∧ ∀ s ∈ segments, ∃ placed, s.place = .ok placed) ∧
      (∀ chain, Chain.ofSegments name segments = .ok chain →
        chain.segments.Perm segments ∧
        (∀ (i : Nat) (s : Segment), chain.segments[i]? = some s → s.position = i) ∧
        ∀ others, segments.Perm others → Chain.ofSegments name others = .ok chain) ∧
      (segments ≠ [] → ¬ (segments.map (·.position)).Perm (List.range segments.length) →
        ∃ e, Chain.ofSegments name segments = .error e ∧ Chain.PositionRefused segments e) ∧
      (∀ position first second,
        Chain.ofSegments name segments = .error (.duplicatePosition position first second) →
          Chain.PositionRefused segments (.duplicatePosition position first second)) ∧
      ∀ segment expected found,
        Chain.ofSegments name segments = .error (.positionGap segment expected found) →
          Chain.PositionRefused segments (.positionGap segment expected found)) ∧
      ∀ (d d' : Descriptor), d.SameEntries d' →
        ∀ (config : Config) (selected : Option String) (policy : Policy) (all : List Compiled),
          config.compileSelected d selected policy = .ok all ↔
            config.compileSelected d' selected policy = .ok all := by
  refine ⟨?_, ?_⟩
  · intro name segments
    refine ⟨Chain.exists_ofSegments_iff, ?_, Chain.ofSegments_of_positions, ?_, ?_⟩
    · intro chain h
      refine ⟨?_, fun _ _ => Chain.position_of_getElem?, fun _ => Chain.ofSegments_of_perm h⟩
      rw [(Chain.ofSegments_eq_ok_iff.mp h).2]
      exact Chain.sorted_perm segments
    · intro position first second h
      exact Chain.positionRefused_of_form h (Or.inl ⟨position, first, second, rfl⟩)
    · intro segment expected found h
      exact Chain.positionRefused_of_form h (Or.inr ⟨segment, expected, found, rfl⟩)
  · intro d d' hsame config selected policy all
    exact ⟨Config.compileSelected_of_sameEntries hsame,
      Config.compileSelected_of_sameEntries hsame.symm⟩

end ScanChain
