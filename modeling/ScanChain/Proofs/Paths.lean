/-
# ScanChain.Proofs.Paths — files that paths share

Two written paths can lead to one place, and what is written under the one is then what is read under
the other (`SamePlace`); trees have no links, so there is no other way for two paths to share a file.
The last component of a path is the name of the file that it leads to, so paths to one place have one
ending. Of files that are written one after the other, a file is kept as it was written unless a later
one has its place (`read_of_writeAll`).
-/
import ScanChain.Proofs.FileTree

namespace ScanChain

/-! ## Last components -/

namespace FileStore

theorem foldr_splitOff_of_no_slash {text : List Char} (h : '/' ∉ text) :
    text.foldr splitOff [[]] = [text] := by
  induction text with
  | nil => rfl
  | cons c text ih =>
    rw [List.mem_cons, not_or] at h
    rw [List.foldr_cons, ih h.2]
    simp [splitOff, Ne.symm h.1]

/-- Characters without an end of their own go before the first part. -/
theorem exists_foldr_splitOff (text part : List Char) (parts : List (List Char)) :
    ∃ front last, text.foldr splitOff (part :: parts) = front ++ (last ++ part) :: parts := by
  induction text with
  | nil => exact ⟨[], [], rfl⟩
  | cons c text ih =>
    obtain ⟨front, last, hsplit⟩ := ih
    rw [List.foldr_cons, hsplit]
    unfold splitOff
    split
    · exact ⟨[] :: front, last, rfl⟩
    · cases front with
      | nil => exact ⟨[], c :: last, rfl⟩
      | cons part front => exact ⟨(c :: part) :: front, last, rfl⟩

/-- An ending without a slash is the end of the last component. -/
theorem exists_components_append (path : String) {ending : String} (h : '/' ∉ ending.toList) :
    ∃ front last, components (path ++ ending) = front ++ [last ++ ending] := by
  obtain ⟨front, last, hsplit⟩ := exists_foldr_splitOff path.toList ending.toList []
  refine ⟨front.map String.ofList, String.ofList last, ?_⟩
  rw [components, String.toList_append, List.foldr_append, foldr_splitOff_of_no_slash h, hsplit]
  simp

/-- What follows a slash and has none is the last component. -/
theorem exists_components_slash (path : String) {name : String} (h : '/' ∉ name.toList) :
    ∃ front, components (path ++ "/" ++ name) = front ++ [name] := by
  obtain ⟨front, last, hsplit⟩ := exists_foldr_splitOff path.toList [] [name.toList]
  have hslash : "/".toList.foldr splitOff [name.toList] = [[], name.toList] := rfl
  refine ⟨front.map String.ofList ++ [String.ofList last], ?_⟩
  rw [components, String.toList_append, String.toList_append, List.foldr_append, List.foldr_append,
    foldr_splitOff_of_no_slash h, hslash, hsplit]
  simp

/-- A name without a slash is the last component wherever it is joined to. -/
theorem exists_components_join (directory : String) {name : String} (h : '/' ∉ name.toList) :
    ∃ front, components (join directory name) = front ++ [name] := by
  have hrelative : isAbsolute name = false := by
    rw [isAbsolute, decide_eq_false_iff_not]
    intro hhead
    exact h (List.mem_of_mem_head? hhead)
  rw [join, hrelative, if_neg (by decide)]
  split
  · next hend =>
    rw [Bool.or_eq_true, String.isEmpty_iff, decide_eq_true_eq] at hend
    rcases hend with rfl | hend
    · refine ⟨[], ?_⟩
      rw [String.empty_append, components, foldr_splitOff_of_no_slash h]
      simp
    · obtain ⟨front, hfront⟩ := List.getLast?_eq_some_iff.mp hend
      have hdirectory : directory = String.ofList front ++ "/" := by
        rw [← String.toList_inj, hfront, String.toList_append, String.toList_ofList]
        rfl
      rw [hdirectory]
      exact exists_components_slash _ h
  · exact exists_components_slash _ h

/-- A file name has its ending wherever it is joined to. -/
theorem exists_join_append (directory name ending : String) :
    ∃ front, join directory (name ++ ending) = front ++ ending := by
  unfold join
  split
  · exact ⟨name, rfl⟩
  split
  · exact ⟨directory ++ name, by rw [String.append_assoc]⟩
  · exact ⟨directory ++ "/" ++ name, by simp only [String.append_assoc]⟩

end FileStore

namespace FileTree

variable {tree middle later : FileTree} {place : List String}

/-- Where nothing but empty components follow, the last component that is not empty is the first. -/
theorem part_eq_of_getLast? {part name : String} {rest : List String}
    (hlast : rest.all (· = "") = true) (hname : (part :: rest).getLast? = some name)
    (hproper : name ≠ "") : part = name := by
  cases rest with
  | nil => exact Option.some.inj hname
  | cons next rest =>
    rw [List.getLast?_cons_cons] at hname
    have hempty := List.all_eq_true.mp hlast name (List.mem_of_getLast? hname)
    exact absurd (of_decide_eq_true hempty) hproper

/-- A file stands under the last component of the path to it. -/
theorem getLast?_of_follow {here parts : List String} {target : Target} {slash : Bool} {name : String}
    (h : tree.follow here parts = .ok target) (hleaf : target.leaf? = some (place, slash))
    (hname : parts.getLast? = some name) (hproper : name ≠ "" ∧ name ≠ "." ∧ name ≠ "..") :
    place.getLast? = some name := by
  fun_induction follow tree here parts with
  | case1 here => cases hname
  | case2 here part rest hskip ih =>
    cases rest with
    | nil =>
      cases hname
      rcases hskip with rfl | rfl
      · exact absurd rfl hproper.1
      · exact absurd rfl hproper.2.1
    | cons next rest => exact ih h (by rwa [List.getLast?_cons_cons] at hname)
  | case3 here rest hskip ih =>
    cases rest with
    | nil =>
      cases hname
      exact absurd rfl hproper.2.2
    | cons next rest => exact ih h (by rwa [List.getLast?_cons_cons] at hname)
  | case4 here part rest hskip hup hlong => cases h
  | case5 here part rest hskip hup hlong path hnode ih =>
    cases rest with
    | nil =>
      cases h
      cases hleaf
    | cons next rest => exact ih h (by rwa [List.getLast?_cons_cons] at hname)
  | case6 here part rest hskip hup hlong path old hnode hlast =>
    obtain rfl := Except.ok.inj h
    obtain ⟨rfl, rfl⟩ := Prod.mk.inj (Option.some.inj hleaf)
    obtain rfl := part_eq_of_getLast? hlast hname hproper.1
    exact List.getLast?_concat
  | case7 here part rest hskip hup hlong path old hnode hfurther => cases h
  | case8 here part rest hskip hup hlong path hnode hlast =>
    obtain rfl := Except.ok.inj h
    obtain ⟨rfl, rfl⟩ := Prod.mk.inj (Option.some.inj hleaf)
    obtain rfl := part_eq_of_getLast? hlast hname hproper.1
    exact List.getLast?_concat
  | case9 here part rest hskip hup hlong path hnode hfurther => cases h

/-- A written path to a file ends as the place of the file does. -/
theorem LeadsTo.getLast? {path : String} {name : String} {front : List String}
    (h : tree.LeadsTo path place) (hname : FileStore.components path = front ++ [name])
    (hproper : name ≠ "" ∧ name ≠ "." ∧ name ≠ "..") : place.getLast? = some name := by
  obtain ⟨target, htarget, hleaf⟩ := h
  have hlast : (FileStore.components path).getLast? = some name := by
    rw [hname, List.getLast?_concat]
  unfold FileTree.target at htarget
  split_ifs at htarget
  · exact getLast?_of_follow htarget hleaf hlast hproper
  · exact getLast?_of_follow htarget hleaf hlast hproper

/-! ## One place under two paths -/

/-- Both paths lead to one place. -/
def SamePlace (tree : FileTree) (path other : String) : Prop :=
  ∃ place, tree.LeadsTo path place ∧ tree.LeadsTo other place

/-- An ending of a name: a dot and letters behind it. -/
def IsEnding (ending : String) : Prop :=
  '/' ∉ ending.toList ∧ ∀ front : String,
    front ++ ending ≠ "" ∧ front ++ ending ≠ "." ∧ front ++ ending ≠ ".."

/-- Names with different endings of one another are no names of one file. -/
theorem not_samePlace_of_endings {ending ending' : String} (h : IsEnding ending)
    (h' : IsEnding ending') (hdiffer : ∀ a b : String, a ++ ending ≠ b ++ ending')
    (front front' : String) : ¬ tree.SamePlace (front ++ ending) (front' ++ ending') := by
  rintro ⟨place, hleads, hleads'⟩
  obtain ⟨parts, last, hsplit⟩ := FileStore.exists_components_append front h.1
  obtain ⟨parts', last', hsplit'⟩ := FileStore.exists_components_append front' h'.1
  have hname := hleads.getLast? hsplit (h.2 last)
  have hname' := hleads'.getLast? hsplit' (h'.2 last')
  exact hdiffer last last' (Option.some.inj (hname.symm.trans hname'))

/-! ## What stays -/

theorem AddsDirectories.keeps (h : tree.AddsDirectories later) : tree.KeepsDirectories later := by
  refine ⟨h.home, fun place hdirectory => ?_⟩
  rcases h.node place with hsame | ⟨hnone, -⟩
  · rw [hsame, hdirectory]
  · rw [hnone] at hdirectory
    cases hdirectory

/-- A file is read where its path leads. -/
theorem read_eq_ok_iff {path : String} {bytes : List UInt8} :
    tree.read path = .ok bytes ↔ ∃ place, tree.target path = .ok (.file place bytes false) := by
  rw [read, bind_eq_ok_iff]
  unfold openFile
  cases htarget : tree.target path with
  | error e => simp
  | ok target =>
    cases target with
    | directory path => simp [contents]
    | file place old slash =>
      have hthere : tree.node? place = some (.file old) := target_stands htarget
      cases slash <;> simp [contents, hthere]
    | missing path slash => simp

theorem leadsTo_of_leaf? {path : String}
    (h : (tree.target path).toOption.bind Target.leaf? = some (place, false)) :
    tree.LeadsTo path place := by
  unfold LeadsTo
  cases htarget : tree.target path with
  | error e =>
    rw [htarget] at h
    cases h
  | ok target =>
    rw [htarget] at h
    exact ⟨target, rfl, h⟩

theorem ne_empty_of_read {path : String} {bytes : List UInt8} (h : tree.read path = .ok bytes) :
    path ≠ "" := by
  rintro rfl
  obtain ⟨place, htarget⟩ := read_eq_ok_iff.mp h
  cases htarget

theorem leadsTo_of_target {path : String} {bytes : List UInt8}
    (h : tree.target path = .ok (.file place bytes false)) : tree.LeadsTo path place :=
  ⟨_, h, rfl⟩

/-- A file that stands where a path leads is read as it was, after writes that do not go to its place. -/
theorem read_of_keeps {path : String} {bytes : List UInt8} {files : List (String × List UInt8)}
    (hleads : tree.LeadsTo path place) (hkeeps : tree.KeepsDirectories middle)
    (hfile : middle.node? place = some (.file bytes)) (h : middle.writeAll files = .ok later)
    (hother : ∀ file ∈ files, ¬ later.SamePlace path file.1) : later.read path = .ok bytes := by
  obtain ⟨hlater, hchanged⟩ := changed_of_writeAll h
  have hkept := hkeeps.trans hlater
  by_cases hsame : later.node? place = middle.node? place
  · rw [hfile] at hsame
    exact read_eq_ok_iff.mpr ⟨place, hleads.target_of_keeps hkept hsame⟩
  · -- A file that was written to the place is found there, and under this path too.
    exfalso
    obtain ⟨file, hmem, htarget⟩ := hchanged place hsame
    have hthere : later.node? place = some (.file file.2) := target_stands htarget
    exact hother file hmem
      ⟨place, leadsTo_of_target (hleads.target_of_keeps hkept hthere), leadsTo_of_target htarget⟩

/-- Of files that are written one after the other, each is read as it was written, unless one that is
written after it has its place. -/
theorem read_of_writeAll {before after : List (String × List UInt8)} {path : String}
    {bytes : List UInt8} (h : tree.writeAll (before ++ (path, bytes) :: after) = .ok later)
    (hother : ∀ file ∈ after, ¬ later.SamePlace path file.1) : later.read path = .ok bytes := by
  rw [writeAll_append, bind_eq_ok_iff] at h
  obtain ⟨first, -, h⟩ := h
  rw [writeAll_cons, bind_eq_ok_iff] at h
  obtain ⟨written, hwrite, h⟩ := h
  obtain ⟨place, hleads, rfl⟩ := write_eq_ok_iff.mp hwrite
  exact read_of_keeps hleads (keepsDirectories_of_write hwrite) (node?_put hleads.ne_nil) h hother

end FileTree
end ScanChain
