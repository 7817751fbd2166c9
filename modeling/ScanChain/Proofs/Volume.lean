/-
# ScanChain.Proofs.Volume — what file operations leave of the tree in a state

An operation first meets its fault, if the state has one for it, and does to the tree what the tree
allows. Looking at the tree leaves it alone (`LeavesTree`), making directories leaves nothing behind but
directories (`OnlyDirectories`), a file that cannot be made is not made (`run_create`), and a file that
cannot be filled holds the part of its bytes for which there was room (`run_append`).
-/
import ScanChain.Proofs.FileTree

namespace ScanChain.Volume

variable {σ α β : Type} [Volume σ] {state : σ}

/-! ## Faults -/

/-- A state with the tree has the fault for its next operation. -/
def Meets (σ : Type) [Volume σ] (before : FileTree) (fault : Fault) : Prop :=
  ∃ state : σ, tree state = before ∧ (fault? state).1 = some fault

/-- A tree by itself has a fault for none. -/
theorem not_meets_tree (before : FileTree) (fault : Fault) : ¬ Meets FileTree before fault := by
  rintro ⟨state, -, hfault⟩
  cases hfault

/-- The operation is refused by the tree, or stopped by a fault. -/
def Refuses (σ : Type) [Volume σ] (before : FileTree) (result : Except FileError α)
    (cause : FileError) : Prop :=
  result = .error cause ∨ ∃ fault, Meets σ before fault ∧ fault.cause = cause

theorem run_unlessFault (operation : StateM σ (Except FileError α)) (state : σ) :
    Id.run ((unlessFault operation).run state) =
      match (fault? state).1 with
      | some fault => (.error fault.cause, (fault? state).2)
      | none => Id.run (operation.run (fault? state).2) := by
  simp only [unlessFault, StateT.run_bind, StateT.run_modifyGet, pure_bind]
  cases (fault? state).1 <;> rfl

theorem run_look (operation : FileTree → Except FileError α) (state : σ) :
    Id.run ((look operation).run state) = (operation (tree state), state) := rfl

theorem run_change (operation : FileTree → Except FileError (α × FileTree)) (state : σ) :
    Id.run ((change operation).run state) =
      match operation (tree state) with
      | .ok (a, after) => (.ok a, setTree state after)
      | .error e => (.error e, state) := by
  simp only [change, StateT.run_bind, StateT.run_get, pure_bind]
  rcases operation (tree state) with e | ⟨a, after⟩ <;> rfl

/-- An operation that changes the tree fails and leaves it, or does what it does to the tree. -/
theorem run_unlessFault_change (operation : FileTree → Except FileError (α × FileTree)) (state : σ) :
    (∃ cause later, tree later = tree state ∧
        Refuses σ (tree state) (operation (tree state)) cause ∧
        Id.run ((unlessFault (change operation)).run state) = (.error cause, later)) ∨
      ∃ a later, operation (tree state) = .ok (a, tree later) ∧
        Id.run ((unlessFault (change operation)).run state) = (.ok a, later) := by
  rw [run_unlessFault, run_change, tree_fault?]
  cases hfault : (fault? state).1 with
  | some fault =>
    have hmeets : Meets σ (tree state) fault := ⟨state, rfl, hfault⟩
    exact Or.inl ⟨fault.cause, _, tree_fault? state, Or.inr ⟨fault, hmeets, rfl⟩, rfl⟩
  | none =>
    cases operation (tree state) with
    | error e => exact Or.inl ⟨e, _, tree_fault? state, Or.inl rfl, rfl⟩
    | ok made =>
      refine Or.inr ⟨made.1, setTree (fault? state).2 made.2, ?_, rfl⟩
      rw [tree_setTree]

/-! ## Reading -/

/-- An operation that leaves the tree alone. -/
def LeavesTree (operation : StateM σ α) : Prop :=
  ∀ state, tree (Id.run (operation.run state)).2 = tree state

theorem leavesTree_look (operation : FileTree → Except FileError α) :
    LeavesTree (unlessFault (look operation) : StateM σ _) := by
  intro state
  rw [run_unlessFault, run_look]
  cases (fault? state).1 <;> exact tree_fault? state

theorem leavesTree_openFile (path : String) :
    LeavesTree (FileStore.openFile path : StateM σ _) := leavesTree_look _

theorem leavesTree_contents (handle : FileStore.Handle (StateM σ)) :
    LeavesTree (FileStore.contents handle : StateM σ _) := leavesTree_look _

theorem leavesTree_read (path : String) : LeavesTree (FileStore.read path : StateM σ _) := by
  intro state
  have hopened := leavesTree_openFile path state
  rw [FileStore.read, StateT.run_bind, Id.run_bind]
  rcases hopen : Id.run ((FileStore.openFile path : StateM σ _).run state) with ⟨e | handle, opened⟩
  · rw [hopen] at hopened
    exact hopened
  · rw [hopen] at hopened
    exact (leavesTree_contents handle opened).trans hopened

/-! ## Writing -/

/-- A file that is not made leaves the tree as it was. -/
theorem run_create (path : String) (state : σ) :
    (∃ cause later, tree later = tree state ∧
        Refuses σ (tree state) ((tree state).create path) cause ∧
        Id.run ((FileStore.create path : StateM σ _).run state) = (.error cause, later)) ∨
      ∃ handle later, (tree state).create path = .ok (handle, tree later) ∧
        Id.run ((FileStore.create path : StateM σ _).run state) = (.ok handle, later) :=
  run_unlessFault_change (·.create path) state

/-- A file is filled, or a fault leaves it with as many of the bytes as there was room for. -/
theorem run_append {place : List String} {before : List UInt8}
    (hfile : (tree state).node? place = some (.file before)) (bytes : List UInt8) :
    (∃ later, tree later = (tree state).put place (.file (before ++ bytes)) ∧
        Id.run ((FileStore.append (FileTree.Handle.file place) bytes : StateM σ _).run state) =
          (.ok (), later)) ∨
      ∃ fault later, Meets σ (tree state) fault ∧ fault.room < bytes.length ∧
        tree later = (tree state).put place (.file (before ++ bytes.take fault.room)) ∧
        Id.run ((FileStore.append (FileTree.Handle.file place) bytes : StateM σ _).run state) =
          (.error fault.cause, later) := by
  -- What is done to the tree once the fault has been met, whichever bytes are written.
  have hadd (bytes : List UInt8) : Id.run (StateT.run (change fun tree =>
      (tree.append (.file place) bytes).map ((), ·)) (fault? state).2) =
      (.ok (), setTree (fault? state).2 ((tree state).put place (.file (before ++ bytes)))) := by
    rw [run_change, tree_fault?, FileTree.append_of_file hfile]
    rfl
  simp only [FileStore.append, append, StateT.run_bind, StateT.run_modifyGet, pure_bind]
  cases hfault : (fault? state).1 with
  | none => exact Or.inl ⟨_, tree_setTree _ _, hadd bytes⟩
  | some fault =>
    by_cases hroom : bytes.length ≤ fault.room
    · simp only [if_pos hroom]
      exact Or.inl ⟨_, tree_setTree _ _, hadd bytes⟩
    · simp only [if_neg hroom, StateT.run_bind, Id.run_bind, hadd]
      exact Or.inr ⟨fault, _, ⟨state, rfl, hfault⟩, Nat.not_le.mp hroom, tree_setTree _ _, rfl⟩

/-! ## Trees by themselves -/

section Trees

variable {tree : FileTree} {path : String}

/-- On a tree by itself, a file that can be made is made. -/
theorem run_create_tree {handle : FileTree.Handle} {made : FileTree}
    (h : tree.create path = .ok (handle, made)) :
    Id.run ((FileStore.create path : StateM FileTree _).run tree) = (.ok handle, made) := by
  have hrun := run_change (·.create path) tree
  rw [show Volume.tree tree = tree from rfl, h] at hrun
  exact hrun

theorem run_append_tree {handle : FileTree.Handle} {bytes : List UInt8} {filled : FileTree}
    (h : tree.append handle bytes = .ok filled) :
    Id.run ((FileStore.append handle bytes : StateM FileTree _).run tree) = (.ok (), filled) := by
  have hrun := run_change (fun tree => (tree.append handle bytes).map ((), ·)) tree
  rw [show Volume.tree tree = tree from rfl, h] at hrun
  exact hrun

theorem run_read_tree (path : String) (tree : FileTree) :
    Id.run ((FileStore.read path : StateM FileTree _).run tree) = (tree.read path, tree) := by
  have hopen : Id.run ((FileStore.openFile path : StateM FileTree _).run tree) =
      (tree.openFile path, tree) := rfl
  rw [FileStore.read, StateT.run_bind, Id.run_bind, hopen, FileTree.read]
  cases tree.openFile path <;> rfl

end Trees

/-! ## Making directories -/

/-- An operation that leaves nothing behind but new directories. -/
def OnlyDirectories (operation : StateM σ α) : Prop :=
  ∀ state, (tree state).AddsDirectories (tree (Id.run (operation.run state)).2)

theorem LeavesTree.onlyDirectories {operation : StateM σ α} (h : LeavesTree operation) :
    OnlyDirectories operation := by
  intro state
  rw [h state]
  exact .refl _

theorem onlyDirectories_pure (a : α) : OnlyDirectories (pure a : StateM σ α) :=
  fun _ => .refl _

theorem OnlyDirectories.bind {operation : StateM σ α} {next : α → StateM σ β}
    (hfirst : OnlyDirectories operation) (hnext : ∀ a, OnlyDirectories (next a)) :
    OnlyDirectories (operation >>= next) :=
  fun state => (hfirst state).trans (hnext _ _)

theorem onlyDirectories_isDirectory (path : String) :
    OnlyDirectories (FileStore.isDirectory path : StateM σ Bool) := by
  refine (leavesTree_look _).onlyDirectories.bind fun found => ?_
  cases found <;> exact onlyDirectories_pure _

theorem onlyDirectories_makeDirectory (path : String) :
    OnlyDirectories (FileStore.makeDirectory path : StateM σ _) := by
  intro state
  rcases run_unlessFault_change (fun tree => (tree.makeDirectory path).map ((), ·)) state with
    ⟨cause, later, hlater, -, hrun⟩ | ⟨⟨⟩, later, hmade, hrun⟩
  · show FileTree.AddsDirectories _ (tree (Id.run (StateT.run (unlessFault _) state)).2)
    rw [hrun, hlater]
    exact .refl _
  · show FileTree.AddsDirectories _ (tree (Id.run (StateT.run (unlessFault _) state)).2)
    rw [hrun]
    obtain ⟨made, hmake, hpair⟩ := map_eq_ok_iff.mp hmade
    rw [← (Prod.mk.inj hpair).2]
    exact FileTree.addsDirectories_of_makeDirectory hmake

theorem onlyDirectories_ensureDirectory (path : String) :
    OnlyDirectories (FileStore.ensureDirectory path : StateM σ _) := by
  refine (onlyDirectories_makeDirectory path).bind fun result => ?_
  cases result with
  | ok _ => exact onlyDirectories_pure _
  | error e =>
    refine (onlyDirectories_isDirectory path).bind fun there => ?_
    cases there <;> exact onlyDirectories_pure _

theorem onlyDirectories_ensureWith (path : String) (parents : List String) :
    OnlyDirectories (FileStore.ensureWith path parents : StateM σ _) := by
  induction parents generalizing path with
  | nil =>
    rw [FileStore.ensureWith]
    split
    · exact onlyDirectories_pure _
    · exact onlyDirectories_ensureDirectory path
  | cons parent further ih =>
    rw [FileStore.ensureWith]
    split
    · exact onlyDirectories_pure _
    · refine (onlyDirectories_makeDirectory path).bind fun result => ?_
      split
      · exact onlyDirectories_pure _
      · refine (ih parent).bind fun result => ?_
        cases result with
        | error e => exact onlyDirectories_pure _
        | ok _ => exact onlyDirectories_ensureDirectory path
      · refine (onlyDirectories_isDirectory path).bind fun there => ?_
        cases there <;> exact onlyDirectories_pure _

/-- Making a directory with all that it stands in touches no file, whether it succeeds or not. -/
theorem onlyDirectories_ensureDirectories (path : String) :
    OnlyDirectories (FileStore.ensureDirectories path : StateM σ _) :=
  onlyDirectories_ensureWith path _

end ScanChain.Volume
