/-
# ScanChain.Proofs.FileTree — what file operations leave of a tree

A place is a path from the root. Writing a file puts its bytes at the one place that its path leads
to, making directories puts directories where nothing was, and every other place is left alone. No
operation takes a directory away, so a path that led to a file goes on leading to its place
(`LeadsTo.target_of_keeps`), and whatever a run of writes has changed is a whole file of the run, found
again under the path it was written to (`changed_of_writeAll`).
-/
import Mathlib.Data.List.Induction
import ScanChain.Files.Tree
import ScanChain.Proofs.Outcome

namespace ScanChain.FileTree

variable {tree middle later : FileTree} {place other : List String} {node : Node}

/-! ## Places -/

theorem node?_nil : tree.node? [] = some .directory := if_pos rfl

theorem node?_put (hplace : place ≠ []) : (tree.put place node).node? place = some node := by
  have hnone : (tree.nodes.filter (·.1 ≠ place)).find? (·.1 = place) = none := by
    rw [List.find?_filter, List.find?_eq_none]
    simp
  rw [node?, if_neg hplace, put, List.find?_append, hnone]
  simp

theorem node?_put_of_ne (hne : other ≠ place) :
    (tree.put place node).node? other = tree.node? other := by
  have hfind : ∀ n : List String × Node, (!decide (n.1 = place) && decide (n.1 = other)) =
      decide (n.1 = other) := by
    intro n
    by_cases hn : n.1 = other
    · simp [hn, hne]
    · simp [hn]
  simp [node?, put, List.find?_append, List.find?_filter, hfind, Ne.symm hne]

/-- What is put at a place replaces what was put there before. -/
theorem put_put {first : Node} : (tree.put place first).put place node = tree.put place node := by
  simp [put, List.filter_append, List.filter_filter]

/-! ## New directories -/

/-- The later tree is the earlier one with nothing but new directories: every file of either is a file
of the other, with the same bytes. -/
structure AddsDirectories (tree later : FileTree) : Prop where
  home : later.home = tree.home
  node : ∀ place, later.node? place = tree.node? place ∨
    tree.node? place = none ∧ later.node? place = some .directory

/-- Directories stay directories, and relative paths start where they did. -/
structure KeepsDirectories (tree later : FileTree) : Prop where
  home : later.home = tree.home
  node : ∀ place, tree.node? place = some .directory → later.node? place = some .directory

theorem AddsDirectories.refl (tree : FileTree) : tree.AddsDirectories tree :=
  ⟨rfl, fun _ => Or.inl rfl⟩

theorem AddsDirectories.trans (hfirst : tree.AddsDirectories middle)
    (hsecond : middle.AddsDirectories later) : tree.AddsDirectories later := by
  refine ⟨hsecond.home.trans hfirst.home, fun place => ?_⟩
  rcases hsecond.node place with hsame | ⟨hnone, hnew⟩
  · rw [hsame]
    exact hfirst.node place
  · rcases hfirst.node place with hsame | ⟨-, hdirectory⟩
    · exact Or.inr ⟨hsame ▸ hnone, hnew⟩
    · rw [hnone] at hdirectory
      cases hdirectory

/-- The files are the same. -/
theorem AddsDirectories.file_iff (h : tree.AddsDirectories later) {bytes : List UInt8} :
    later.node? place = some (.file bytes) ↔ tree.node? place = some (.file bytes) := by
  rcases h.node place with hsame | ⟨hnone, hnew⟩
  · rw [hsame]
  · rw [hnone, hnew]
    simp

theorem KeepsDirectories.refl (tree : FileTree) : tree.KeepsDirectories tree :=
  ⟨rfl, fun _ h => h⟩

theorem KeepsDirectories.trans (hfirst : tree.KeepsDirectories middle)
    (hsecond : middle.KeepsDirectories later) : tree.KeepsDirectories later :=
  ⟨hsecond.home.trans hfirst.home, fun place h => hsecond.node place (hfirst.node place h)⟩

/-! ## Following a path -/

/-- The place of a file that is there or can be made, and whether a directory is asked for. -/
def Target.leaf? : Target → Option (List String × Bool)
  | .directory _ => none
  | .file place _ slash => some (place, slash)
  | .missing place slash => some (place, slash)

/-- The target is what the tree has at its place. -/
def Target.Stands (tree : FileTree) : Target → Prop
  | .directory _ => True
  | .file place bytes _ => tree.node? place = some (.file bytes)
  | .missing place _ => tree.node? place = none

theorem follow_stands {here parts : List String} {target : Target}
    (h : tree.follow here parts = .ok target) : target.Stands tree := by
  fun_induction follow tree here parts with
  | case1 here =>
    cases h
    trivial
  | case2 here part rest _ ih => exact ih h
  | case3 here rest _ ih => exact ih h
  | case4 here part rest hlong => cases h
  | case5 here part rest _ _ _ path hnode ih => exact ih h
  | case6 here part rest _ _ _ path bytes hnode hlast =>
    cases h
    exact hnode
  | case7 here part rest _ _ _ path bytes hnode hfurther => cases h
  | case8 here part rest _ _ _ path hnode hlast =>
    cases h
    exact hnode
  | case9 here part rest _ _ _ path hnode hfurther => cases h

section Names

variable {here rest : List String} {part : String} (hskip : ¬(part = "" ∨ part = "."))
  (hup : part ≠ "..") (hlong : ¬255 < part.utf8ByteSize)

include hskip hup hlong

/-- A directory is entered. -/
theorem follow_of_directory (hnode : tree.node? (here ++ [part]) = some .directory) :
    tree.follow here (part :: rest) = tree.follow (here ++ [part]) rest := by
  simp only [follow, if_neg hskip, if_neg hup, if_neg hlong, hnode]

/-- A path ends at a file. -/
theorem follow_of_file {bytes : List UInt8} (hlast : rest.all (· = "") = true)
    (hnode : tree.node? (here ++ [part]) = some (.file bytes)) :
    tree.follow here (part :: rest) = .ok (.file (here ++ [part]) bytes (rest ≠ [])) := by
  simp only [follow, if_neg hskip, if_neg hup, if_neg hlong, hnode, hlast, if_true]

end Names

/-- A file that has come to stand where a path ends is what the path leads to, as long as the
directories on its way are still there. -/
theorem follow_of_keeps (hkeeps : tree.KeepsDirectories later) {here parts : List String}
    {target : Target} {slash : Bool} {bytes : List UInt8}
    (h : tree.follow here parts = .ok target) (hleaf : target.leaf? = some (place, slash))
    (hfile : later.node? place = some (.file bytes)) :
    later.follow here parts = .ok (.file place bytes slash) := by
  fun_induction follow tree here parts with
  | case1 here =>
    cases h
    cases hleaf
  | case2 here part rest hskip ih =>
    rw [follow, if_pos hskip]
    exact ih h
  | case3 here rest hskip ih =>
    rw [follow, if_neg hskip, if_pos rfl]
    exact ih h
  | case4 here part rest hskip hup hlong => cases h
  | case5 here part rest hskip hup hlong path hnode ih =>
    rw [follow_of_directory hskip hup hlong (hkeeps.node _ hnode)]
    exact ih h
  | case6 here part rest hskip hup hlong path old hnode hlast =>
    obtain rfl := Except.ok.inj h
    obtain ⟨rfl, rfl⟩ := Prod.mk.inj (Option.some.inj hleaf)
    exact follow_of_file hskip hup hlong hlast hfile
  | case7 here part rest hskip hup hlong path old hnode hfurther => cases h
  | case8 here part rest hskip hup hlong path hnode hlast =>
    obtain rfl := Except.ok.inj h
    obtain ⟨rfl, rfl⟩ := Prod.mk.inj (Option.some.inj hleaf)
    exact follow_of_file hskip hup hlong hlast hfile
  | case9 here part rest hskip hup hlong path hnode hfurther => cases h

/-- A written path leads to a place where a file is or can be made. -/
def LeadsTo (tree : FileTree) (path : String) (place : List String) : Prop :=
  ∃ target, tree.target path = .ok target ∧ target.leaf? = some (place, false)

theorem target_stands {path : String} {target : Target} (h : tree.target path = .ok target) :
    target.Stands tree := by
  unfold FileTree.target at h
  split_ifs at h
  · exact follow_stands h
  · exact follow_stands h

/-- No directory stands at the place, and it is not the root. -/
theorem LeadsTo.node?_ne_directory {path : String} (h : tree.LeadsTo path place) :
    tree.node? place ≠ some .directory := by
  obtain ⟨target, htarget, hleaf⟩ := h
  have hstands := target_stands htarget
  cases target with
  | directory path => cases hleaf
  | file path bytes slash =>
    cases hleaf
    simp [show tree.node? place = some (.file bytes) from hstands]
  | missing path slash =>
    cases hleaf
    simp [show tree.node? place = none from hstands]

theorem LeadsTo.ne_nil {path : String} (h : tree.LeadsTo path place) : place ≠ [] := by
  rintro rfl
  exact h.node?_ne_directory node?_nil

/-- A path goes on leading to its place, and to the file that stands there. -/
theorem LeadsTo.target_of_keeps {path : String} (h : tree.LeadsTo path place)
    (hkeeps : tree.KeepsDirectories later) {bytes : List UInt8}
    (hfile : later.node? place = some (.file bytes)) :
    later.target path = .ok (.file place bytes false) := by
  obtain ⟨target, htarget, hleaf⟩ := h
  unfold FileTree.target at htarget ⊢
  rw [hkeeps.home]
  split_ifs at htarget ⊢
  · exact follow_of_keeps hkeeps htarget hleaf hfile
  · exact follow_of_keeps hkeeps htarget hleaf hfile

/-! ## Single operations -/

/-- A file is made at the place that its path leads to. -/
theorem create_eq_ok_iff {path : String} {handle : Handle} :
    tree.create path = .ok (handle, later) ↔
      ∃ place, tree.LeadsTo path place ∧ handle = .file place ∧ later = tree.put place (.file []) := by
  unfold create LeadsTo
  cases tree.target path with
  | error e => simp
  | ok target =>
    cases target with
    | directory path => simp [Target.leaf?]
    | file path old slash => cases slash <;> simp [Target.leaf?, eq_comm]
    | missing path slash => cases slash <;> simp [Target.leaf?, eq_comm]

/-- A file that is there is added to. -/
theorem append_of_file {before : List UInt8} (h : tree.node? place = some (.file before))
    (bytes : List UInt8) :
    tree.append (.file place) bytes = .ok (tree.put place (.file (before ++ bytes))) := by
  rw [append, h]

/-- A file that has just been made holds what is added to it and nothing else. -/
theorem append_put_empty (hplace : place ≠ []) (bytes : List UInt8) :
    (tree.put place (.file [])).append (.file place) bytes = .ok (tree.put place (.file bytes)) := by
  rw [append_of_file (node?_put hplace), List.nil_append, put_put]

/-- A file is written at the place that its path leads to. -/
theorem write_eq_ok_iff {path : String} {bytes : List UInt8} :
    tree.write path bytes = .ok later ↔
      ∃ place, tree.LeadsTo path place ∧ later = tree.put place (.file bytes) := by
  rw [write, bind_eq_ok_iff]
  constructor
  · rintro ⟨⟨handle, made⟩, hcreate, happend⟩
    obtain ⟨place, hleads, rfl, rfl⟩ := create_eq_ok_iff.mp hcreate
    have hfilled : (tree.put place (.file [])).append (.file place) bytes =
        .ok (tree.put place (.file bytes)) := append_put_empty hleads.ne_nil bytes
    exact ⟨place, hleads, Except.ok.inj (happend.symm.trans hfilled)⟩
  · rintro ⟨place, hleads, rfl⟩
    refine ⟨_, create_eq_ok_iff.mpr ⟨place, hleads, rfl, rfl⟩, ?_⟩
    exact append_put_empty hleads.ne_nil bytes

/-- A directory is made only where nothing stands. -/
theorem makeDirectory_eq_ok {path : String} (h : tree.makeDirectory path = .ok later) :
    ∃ place, tree.node? place = none ∧ later = tree.put place .directory := by
  unfold makeDirectory at h
  split at h
  · cases h
  · cases h
  · cases h
  · next place slash htarget =>
    cases h
    exact ⟨place, target_stands htarget, rfl⟩

theorem addsDirectories_of_makeDirectory {path : String}
    (h : tree.makeDirectory path = .ok later) : tree.AddsDirectories later := by
  obtain ⟨place, hnone, rfl⟩ := makeDirectory_eq_ok h
  have hplace : place ≠ [] := by
    rintro rfl
    rw [node?_nil] at hnone
    cases hnone
  refine ⟨rfl, fun other => ?_⟩
  by_cases hother : other = place
  · subst hother
    exact Or.inr ⟨hnone, node?_put hplace⟩
  · exact Or.inl (node?_put_of_ne hother)

/-- Directories stay where a file is put at a place that a path leads to. -/
theorem LeadsTo.keepsDirectories_put {path : String} (h : tree.LeadsTo path place)
    (bytes : List UInt8) : tree.KeepsDirectories (tree.put place (.file bytes)) := by
  refine ⟨rfl, fun other hother => ?_⟩
  have hne : other ≠ place := by
    rintro rfl
    exact h.node?_ne_directory hother
  rw [node?_put_of_ne hne, hother]

theorem keepsDirectories_of_write {path : String} {bytes : List UInt8}
    (h : tree.write path bytes = .ok later) : tree.KeepsDirectories later := by
  obtain ⟨place, hleads, rfl⟩ := write_eq_ok_iff.mp h
  exact hleads.keepsDirectories_put bytes

/-! ## Runs of writes -/

/-- Files written one after the other, until one is refused. -/
def writeAll (tree : FileTree) (files : List (String × List UInt8)) : Except FileError FileTree :=
  files.foldlM (fun tree file => tree.write file.1 file.2) tree

@[simp] theorem writeAll_nil : tree.writeAll [] = .ok tree := rfl

theorem writeAll_cons (file : String × List UInt8) (files : List (String × List UInt8)) :
    tree.writeAll (file :: files) = tree.write file.1 file.2 >>= (writeAll · files) := by
  rw [writeAll, List.foldlM_cons]
  rfl

theorem writeAll_append (files further : List (String × List UInt8)) :
    tree.writeAll (files ++ further) = tree.writeAll files >>= (writeAll · further) :=
  List.foldlM_append

/-- A file that is found under a path is found there again after a file has been put elsewhere. -/
theorem LeadsTo.target_put_of_ne {path path' : String} {other : List String} {bytes : List UInt8}
    (h : tree.LeadsTo path place) (hne : other ≠ place)
    (htarget : tree.target path' = .ok (.file other bytes false)) (written : List UInt8) :
    (tree.put place (.file written)).target path' = .ok (.file other bytes false) := by
  have hfound : tree.LeadsTo path' other := ⟨_, htarget, rfl⟩
  refine hfound.target_of_keeps (h.keepsDirectories_put written) ?_
  exact (node?_put_of_ne hne).trans (target_stands htarget)

/-- A file that is put where a path leads is found under the path. -/
theorem LeadsTo.target_put {path : String} (h : tree.LeadsTo path place) (bytes : List UInt8) :
    (tree.put place (.file bytes)).target path = .ok (.file place bytes false) :=
  h.target_of_keeps (h.keepsDirectories_put bytes) (node?_put h.ne_nil)

/-- Directories stay, and whatever has changed is a whole file of the run, found again under the path
it was written to. -/
theorem changed_of_writeAll {files : List (String × List UInt8)}
    (h : tree.writeAll files = .ok later) :
    tree.KeepsDirectories later ∧ ∀ place, later.node? place ≠ tree.node? place →
      ∃ file ∈ files, later.target file.1 = .ok (.file place file.2 false) := by
  -- On the last file: what it puts stays, and what earlier files left elsewhere is found as before.
  induction files using List.reverseRecOn generalizing later with
  | nil =>
    obtain rfl := Except.ok.inj h
    exact ⟨.refl tree, fun place hchanged => absurd rfl hchanged⟩
  | append_singleton files file ih =>
    rw [writeAll_append, bind_eq_ok_iff] at h
    obtain ⟨middle, hmiddle, h⟩ := h
    have hwrite : middle.write file.1 file.2 = .ok later := by
      simpa [writeAll_cons, bind_eq_ok_iff] using h
    obtain ⟨hkeeps, hfound⟩ := ih hmiddle
    refine ⟨hkeeps.trans (keepsDirectories_of_write hwrite), fun place hchanged => ?_⟩
    obtain ⟨written, hleads, rfl⟩ := write_eq_ok_iff.mp hwrite
    by_cases hplace : place = written
    · subst hplace
      exact ⟨file, by simp, hleads.target_put file.2⟩
    · rw [node?_put_of_ne hplace] at hchanged
      obtain ⟨earlier, hmem, htarget⟩ := hfound place hchanged
      exact ⟨earlier, by simp [hmem], hleads.target_put_of_ne hplace htarget file.2⟩

end ScanChain.FileTree
