/-
# ScanChain.Proofs.Writing — what a compilation writes

A compilation reads, compiles, makes its directory, and then writes the files of one chain after the
other: the image, the listing, the report. Everything that can fail before the first of these files
leaves every file alone. A file that fails ends the run there and then: the files before it have been
written whole and stay, and those after it are not written. The file itself is as it was if it could not
be made (`FileStore.create`), and is cut short if it was made, or emptied, and could not be filled
(`FileStore.append`); so even one file that fails can take the place of a good one.
-/
import ScanChain.Files.Disk
import ScanChain.Proofs.Running

namespace ScanChain

/-- What is written of a file, and where. -/
def OutputFile.entry (file : OutputFile) : String × List UInt8 := (file.path, file.bytes)

namespace Command

open FileTree Volume

section Steps

variable {m : Type → Type} [Monad m] [FileStore m]

/-- Everything before the first write: the chains that are compiled. -/
def compiling (chain : ChainOptions) (policy : PolicyOptions) (output : OutputOptions) :
    Run m (List Compiled) := do
  let descriptor ← readDescriptor chain.descriptor
  let policy ← loadPolicy policy
  orFail .compile ((config chain output.verify).compileSelected descriptor chain.chain policy)

theorem runCompile_eq [LawfulMonad m] (chain : ChainOptions) (policy : PolicyOptions)
    (output : OutputOptions) :
    (runCompile chain policy output : Run m Unit) = (do
      let compiled ← compiling chain policy output
      let made ← (FileStore.ensureDirectories output.directory : m _)
      orFail .file made
      compiled.forM (writeCompiled output)) := by
  simp [runCompile, compiling]

end Steps

/-! ## Where a run of writes stops -/

section Stops

variable (σ : Type) [Volume σ]

/-- A fault is met when the file has been made, or emptied, and only the bytes for which there is room
are in it. -/
def CutShort (before : FileTree) (file : OutputFile) (cause : FileError) (later : FileTree) : Prop :=
  ∃ place fault, before.LeadsTo file.path place ∧ Meets σ (before.put place (.file [])) fault ∧
    fault.cause = cause ∧ fault.room < file.bytes.length ∧
    later = before.put place (.file (file.bytes.take fault.room))

/-- A file fails: it is refused or stopped before it is made and nothing has changed, or it is cut
short. -/
def StopsAt (before : FileTree) (file : OutputFile) (failure : OutputFileError) (later : FileTree) :
    Prop :=
  (∃ cause, failure = .file cause ∧ Refuses σ before (before.create file.path) cause ∧
      later = before) ∨
    ∃ cause, failure = file.refusal cause ∧ CutShort σ before file cause later

/-- Of files that are written one after the other, those in `done` are written whole, the next one
fails, and none is written after it. -/
def StopsAfter (before : FileTree) (done : List OutputFile) (file : OutputFile)
    (files : List OutputFile) (failure : OutputFileError) (later : FileTree) : Prop :=
  ∃ rest written, files = done ++ file :: rest ∧
    before.writeAll (done.map OutputFile.entry) = .ok written ∧ StopsAt σ written file failure later

variable {σ} {before middle later : FileTree} {done first files further : List OutputFile}
  {file : OutputFile} {failure : OutputFileError}

/-- On a tree by itself a file fails only where the tree refuses it, and is never cut short. -/
theorem stopsAt_tree_iff : StopsAt FileTree before file failure later ↔
    ∃ cause, failure = .file cause ∧ before.create file.path = .error cause ∧ later = before := by
  constructor
  · rintro (⟨cause, hfailure, hrefused | ⟨fault, hmeets, -⟩, hsame⟩ |
      ⟨cause, -, place, fault, -, hmeets, -⟩)
    · exact ⟨cause, hfailure, hrefused, hsame⟩
    · exact absurd hmeets (not_meets_tree _ _)
    · exact absurd hmeets (not_meets_tree _ _)
  · rintro ⟨cause, hfailure, hrefused, hsame⟩
    exact Or.inl ⟨cause, hfailure, Or.inl hrefused, hsame⟩

theorem StopsAt.stopsAfter (h : StopsAt σ before file failure later) (rest : List OutputFile) :
    StopsAfter σ before [] file (file :: rest) failure later :=
  ⟨rest, before, rfl, rfl, h⟩

/-- The run stops where it does whatever files would come after. -/
theorem StopsAfter.append (h : StopsAfter σ before done file files failure later) :
    StopsAfter σ before done file (files ++ further) failure later := by
  obtain ⟨rest, written, rfl, hdone, hstops⟩ := h
  exact ⟨rest ++ further, written, by simp, hdone, hstops⟩

/-- Files that come before all of the others are written as well. -/
theorem StopsAfter.behind (h : StopsAfter σ middle done file files failure later)
    (hfirst : before.writeAll (first.map OutputFile.entry) = .ok middle) :
    StopsAfter σ before (first ++ done) file (first ++ files) failure later := by
  obtain ⟨rest, written, rfl, hdone, hstops⟩ := h
  refine ⟨rest, written, by simp, ?_, hstops⟩
  rw [List.map_append, writeAll_append, hfirst]
  exact hdone

/-- Whatever has changed is a file that was written whole or the one that was cut short, and is found
again under its path. -/
theorem StopsAfter.changed (h : StopsAfter σ before done file files failure later)
    {place : List String} (hchanged : later.node? place ≠ before.node? place) :
    (∃ whole ∈ done, later.target whole.path = .ok (.file place whole.bytes false)) ∨
      ∃ kept < file.bytes.length,
        later.target file.path = .ok (.file place (file.bytes.take kept) false) := by
  obtain ⟨rest, written, -, hdone, hstops⟩ := h
  have hwhole : written.node? place ≠ before.node? place →
      ∃ whole ∈ done, written.target whole.path = .ok (.file place whole.bytes false) := by
    intro hchanged
    obtain ⟨entry, hmem, htarget⟩ := (changed_of_writeAll hdone).2 place hchanged
    obtain ⟨whole, hwhole, rfl⟩ := List.mem_map.mp hmem
    exact ⟨whole, hwhole, htarget⟩
  rcases hstops with ⟨cause, -, -, rfl⟩ | ⟨-, -, cut, fault, hleads, -, -, hroom, rfl⟩
  · exact Or.inl (hwhole hchanged)
  · by_cases hplace : place = cut
    · subst hplace
      exact Or.inr ⟨fault.room, hroom, hleads.target_put _⟩
    · rw [node?_put_of_ne hplace] at hchanged
      obtain ⟨whole, hmem, htarget⟩ := hwhole hchanged
      exact Or.inl ⟨whole, hmem, hleads.target_put_of_ne hplace htarget _⟩

end Stops

/-! ## Running the writes -/

section Runs

variable {σ : Type} [Volume σ]

/-- A file is written, or fails. -/
theorem reach_writeImageFile (file : OutputFile) (printed : String) (state : σ) :
    (∃ later, (tree state).write file.path file.bytes = .ok (tree later) ∧
        reach (writeImageFile file) printed state = ⟨.ok (), printed, later⟩) ∨
      ∃ failure later, StopsAt σ (tree state) file failure (tree later) ∧
        reach (writeImageFile file) printed state = ⟨.error (.output failure), printed, later⟩ := by
  rw [writeImageFile, reach_bind_of_ok (reach_operation _)]
  rcases run_create file.path state with
    ⟨cause, later, hsame, hrefused, hrun⟩ | ⟨handle, made, hcreate, hrun⟩
  · rw [hrun]
    refine Or.inr ⟨.file cause, later, Or.inl ⟨cause, rfl, hrefused, hsame⟩, ?_⟩
    exact reach_bind_of_error (reach_orFail _ _)
  · obtain ⟨place, hleads, rfl, hmade⟩ := create_eq_ok_iff.mp hcreate
    have hempty : (tree made).node? place = some (.file []) := by
      rw [hmade]
      exact node?_put hleads.ne_nil
    -- What is added to the empty file is what stands at its place.
    have hput (bytes : List UInt8) : (tree made).put place (.file ([] ++ bytes)) =
        (tree state).put place (.file bytes) := by
      rw [hmade, put_put, List.nil_append]
    have hopened : reach (orFail (fun e => .output (.file e))
        (.ok (.file place) : Except FileError FileTree.Handle)) printed made =
          ⟨.ok (.file place), printed, made⟩ := rfl
    rw [hrun]
    rw [reach_bind_of_ok hopened, reach_bind_of_ok (reach_operation _)]
    rcases run_append hempty file.bytes with
      ⟨later, hlater, hrun⟩ | ⟨fault, later, hmeets, hroom, hlater, hrun⟩
    · rw [hput] at hlater
      refine Or.inl ⟨later, write_eq_ok_iff.mpr ⟨place, hleads, hlater⟩, ?_⟩
      rw [hrun]
      exact reach_orFail _ _
    · rw [hput] at hlater
      rw [hmade] at hmeets
      refine Or.inr ⟨file.refusal fault.cause, later,
        Or.inr ⟨fault.cause, rfl, place, fault, hleads, hmeets, rfl, hroom, hlater⟩, ?_⟩
      rw [hrun]
      exact reach_orFail _ _

/-- Files are all written, or up to one that fails. -/
theorem reach_writeFiles (files : List OutputFile) (printed : String) (state : σ) :
    (∃ later, (tree state).writeAll (files.map OutputFile.entry) = .ok (tree later) ∧
        reach (files.forM writeImageFile) printed state = ⟨.ok (), printed, later⟩) ∨
      ∃ done file failure later, StopsAfter σ (tree state) done file files failure (tree later) ∧
        reach (files.forM writeImageFile) printed state =
          ⟨.error (.output failure), printed, later⟩ := by
  induction files generalizing state with
  | nil => exact Or.inl ⟨state, rfl, rfl⟩
  | cons file files ih =>
    rw [reach_forM_cons]
    rcases reach_writeImageFile file printed state with
      ⟨middle, hwrite, hreach⟩ | ⟨failure, later, hstops, hreach⟩
    · have hone : (tree state).writeAll ([file].map OutputFile.entry) = .ok (tree middle) := by
        rw [List.map_singleton, writeAll_cons]
        exact bind_eq_ok_iff.mpr ⟨_, hwrite, rfl⟩
      rw [reach_bind_of_ok hreach]
      rcases ih middle with ⟨later, hlater, hrest⟩ | ⟨done, cut, failure, later, hstops, hrest⟩
      · refine Or.inl ⟨later, ?_, hrest⟩
        rw [List.map_cons, writeAll_cons]
        exact bind_eq_ok_iff.mpr ⟨_, hwrite, hlater⟩
      · exact Or.inr ⟨_, cut, failure, later, hstops.behind hone, hrest⟩
    · exact Or.inr ⟨[], file, failure, later, hstops.stopsAfter files, reach_bind_of_error hreach⟩

/-- The files of all chains are written, or up to one that fails. -/
theorem reach_writeCompiled (output : OutputOptions) (all : List Compiled) (printed : String)
    (state : σ) :
    (∃ text later,
        (tree state).writeAll ((all.flatMap (outputFiles output)).map OutputFile.entry) =
          .ok (tree later) ∧
        reach (all.forM (writeCompiled output)) printed state = ⟨.ok (), text, later⟩) ∨
      ∃ done file failure text later,
        StopsAfter σ (tree state) done file (all.flatMap (outputFiles output)) failure (tree later) ∧
        reach (all.forM (writeCompiled output)) printed state =
          ⟨.error (.output failure), text, later⟩ := by
  induction all generalizing printed state with
  | nil => exact Or.inl ⟨printed, state, rfl, rfl⟩
  | cons compiled all ih =>
    rw [reach_forM_cons, List.flatMap_cons, writeCompiled, bind_assoc]
    rcases reach_writeFiles (outputFiles output compiled) printed state with
      ⟨middle, hmiddle, hreach⟩ | ⟨done, file, failure, later, hstops, hreach⟩
    · rw [reach_bind_of_ok hreach, reach_bind_of_ok (reach_printLine _)]
      rcases ih (printed ++ (summary compiled ++ "\n")) middle with
        ⟨text, later, hlater, hrest⟩ | ⟨done, file, failure, text, later, hstops, hrest⟩
      · refine Or.inl ⟨text, later, ?_, hrest⟩
        rw [List.map_append, writeAll_append, hmiddle]
        exact hlater
      · exact Or.inr ⟨_, file, failure, text, later, hstops.behind hmiddle, hrest⟩
    · exact Or.inr ⟨done, file, failure, printed, later, hstops.append, reach_bind_of_error hreach⟩

/-! ## Running a compilation -/

theorem readsOnly_compiling (chain : ChainOptions) (policy : PolicyOptions)
    (output : OutputOptions) :
    ReadsOnly (compiling chain policy output : Run (StateM σ) (List Compiled)) := by
  refine (readsOnly_readDescriptor chain.descriptor).bind fun descriptor => ?_
  refine (readsOnly_loadPolicy policy).bind fun policy => ?_
  exact readsOnly_orFail _ _

/-- A compilation fails before the first file, with nothing but new directories left behind, or goes on
to the files of the chains that it has compiled. -/
theorem reach_runCompile (chain : ChainOptions) (policy : PolicyOptions) (output : OutputOptions)
    (state : σ) :
    (∃ e made, (tree state).AddsDirectories (tree made) ∧
        reach (runCompile chain policy output) "" state = ⟨.error e, "", made⟩) ∨
      ∃ compiled made, (reach (compiling chain policy output) "" state).result = .ok compiled ∧
        (tree state).AddsDirectories (tree made) ∧
        reach (runCompile chain policy output) "" state =
          reach (compiled.forM (writeCompiled output)) "" made := by
  obtain ⟨hprinted, hsame⟩ := readsOnly_compiling chain policy output "" state
  rw [runCompile_eq]
  rcases hreach : reach (compiling chain policy output) "" state with ⟨e | compiled, printed, read⟩
  · rw [hreach] at hprinted hsame
    obtain rfl : printed = "" := hprinted
    refine Or.inl ⟨e, read, ?_, reach_bind_of_error hreach⟩
    rw [show tree read = tree state from hsame]
    exact .refl _
  · rw [hreach] at hprinted hsame
    obtain rfl : printed = "" := hprinted
    rw [reach_bind_of_ok hreach, reach_bind_of_ok (reach_operation _)]
    have hmade := onlyDirectories_ensureDirectories output.directory read
    rw [show tree read = tree state from hsame] at hmade
    rcases hensure : Id.run ((FileStore.ensureDirectories output.directory : StateM σ _).run read)
      with ⟨cause | _, made⟩
    · rw [hensure] at hmade
      refine Or.inl ⟨.file cause, made, hmade, ?_⟩
      exact reach_bind_of_error (reach_orFail _ _)
    · rw [hensure] at hmade
      refine Or.inr ⟨compiled, made, rfl, hmade, ?_⟩
      exact reach_bind_of_ok (reach_orFail _ _)

/-- What a line that compiles comes to. It fails before the first file, with nothing but new directories
left behind; or it has compiled its chains and made its directories, and then writes all files and exits
with 0, or writes up to one that fails and exits with 1. -/
theorem runOn_compile {line : List String} {chain : ChainOptions} {policy : PolicyOptions}
    {output : OutputOptions} (hline : parse? line = some (.compile chain policy output)) (state : σ) :
    (∃ e later, (tree state).AddsDirectories (tree later) ∧
        runOn state line = (⟨1, "", some e⟩, later)) ∨
      ∃ compiled made, (reach (compiling chain policy output) "" state).result = .ok compiled ∧
        (tree state).AddsDirectories made ∧
        ((∃ text later, runOn state line = (⟨0, text, none⟩, later) ∧
            made.writeAll ((compiled.flatMap (outputFiles output)).map OutputFile.entry) =
              .ok (tree later)) ∨
          ∃ done file failure text later,
            runOn state line = (⟨1, text, some (.output failure)⟩, later) ∧
            StopsAfter σ made done file (compiled.flatMap (outputFiles output)) failure
              (tree later)) := by
  rw [runOn_of_parse_compile hline]
  rcases reach_runCompile chain policy output state with
    ⟨e, made, hmade, hreach⟩ | ⟨compiled, made, hcompiled, hmade, hreach⟩
  · rw [hreach]
    exact Or.inl ⟨e, made, hmade, rfl⟩
  rw [hreach]
  rcases reach_writeCompiled output compiled "" made with
    ⟨text, later, hwritten, hfiles⟩ | ⟨done, file, failure, text, later, hstops, hfiles⟩
  · rw [hfiles]
    exact Or.inr ⟨compiled, tree made, hcompiled, hmade, Or.inl ⟨text, later, rfl, hwritten⟩⟩
  · rw [hfiles]
    exact Or.inr ⟨compiled, tree made, hcompiled, hmade,
      Or.inr ⟨done, file, failure, text, later, rfl, hstops⟩⟩

/-- A compilation that fails leaves every file as it was, unless what failed is an output file that is
not the first or that was cut short. Then everything had been compiled, the output files before it have
been written whole and none has been written after it. The file itself was refused by the tree or stopped
by a fault, either before it was made or after. Every place that has changed since the directories were
made holds one of the files that were written whole, or is that of the file that was cut short and holds
the first of its bytes; either is found again under its path. -/
theorem failed_compile_stops_at_one_file {line : List String} {chain : ChainOptions}
    {policy : PolicyOptions} {output : OutputOptions} {state later : σ} {outcome : Outcome}
    (hline : parse? line = some (.compile chain policy output))
    (hrun : runOn state line = (outcome, later)) (hexit : outcome.exitCode = 1) :
    (tree state).AddsDirectories (tree later) ∨
      ∃ compiled made done file failure,
        (reach (compiling chain policy output) "" state).result = .ok compiled ∧
        (tree state).AddsDirectories made ∧
        StopsAfter σ made done file (compiled.flatMap (outputFiles output)) failure (tree later) ∧
        (done = [] → ∃ cause, CutShort σ made file cause (tree later)) ∧
        outcome.failure = some (.output failure) ∧
        ∀ place, (tree later).node? place ≠ made.node? place →
          (∃ whole ∈ done,
            (tree later).target whole.path = .ok (.file place whole.bytes false)) ∨
          ∃ kept < file.bytes.length,
            (tree later).target file.path = .ok (.file place (file.bytes.take kept) false) := by
  rcases runOn_compile hline state with ⟨e, made, hmade, hends⟩ | ⟨compiled, made, hcompiled, hmade,
    ⟨text, written, hends, -⟩ | ⟨done, file, failure, text, written, hends, hstops⟩⟩
  · rw [hends] at hrun
    obtain ⟨-, rfl⟩ := Prod.mk.inj hrun
    exact Or.inl hmade
  · rw [hends] at hrun
    obtain ⟨rfl, -⟩ := Prod.mk.inj hrun
    cases hexit
  · rw [hends] at hrun
    obtain ⟨rfl, rfl⟩ := Prod.mk.inj hrun
    -- Where nothing was written and the first file was not made, the tree has new directories only.
    by_cases hfirst : done = [] → ∃ cause, CutShort σ made file cause (tree written)
    · exact Or.inr ⟨compiled, made, done, file, failure, hcompiled, hmade, hstops, hfirst, rfl,
        fun place hchanged => hstops.changed hchanged⟩
    · obtain ⟨rfl, hcut⟩ := Classical.not_imp.mp hfirst
      obtain ⟨rest, whole, -, hdone, hstop⟩ := hstops
      obtain rfl := Except.ok.inj hdone
      rcases hstop with ⟨cause, -, -, hsame⟩ | ⟨cause, -, hshort⟩
      · rw [hsame]
        exact Or.inl hmade
      · exact absurd ⟨cause, hshort⟩ hcut

end Runs

/-- The segments of a chain with one stuck-at register of one bit, as a descriptor has them. -/
def oneSegment : String :=
  "[\x7b\"name\":\"r\",\"position\":0," ++
    "\"injector\":\x7b\"kind\":\"stuck-at\",\"width\":1\x7d\x7d]"

/-- A tree with a descriptor of two chains; the name of the second has a slash in it, so its files
would stand in a directory that is not there. -/
def slashedTree : FileTree :=
  let text := "\x7b\"a\":" ++ oneSegment ++ ",\"b/c\":" ++ oneSegment ++ "\x7d"
  ⟨[(["d.json"], .file (Text.utf8 text))], []⟩

/-- Compiles all chains of the descriptor into the working directory. -/
def slashedLine : List String := ["compile", "d.json", "-o", ".", "--header", "length"]

/-- The tree with the image of the first chain. -/
def slashedTreeAfter : FileTree := slashedTree.put ["a.bin"] (.file [2, 0, 0, 0, 0, 0, 0, 0])

/-- A tree with a descriptor of one chain, and an image that it has. -/
def imageTree : FileTree :=
  ⟨[(["d.json"], .file (Text.utf8 ("\x7b\"a\":" ++ oneSegment ++ "\x7d"))),
    (["a.bin"], .file [2, 0, 0, 0, 0, 0, 0, 64])], []⟩

/-- The disk that it is on takes no more than three bytes when the image is written again; reading the
descriptor, making the directory and emptying the image have been the five operations before. -/
def fullDisk : Disk :=
  ⟨imageTree, List.replicate 5 none ++ [some ⟨.other "No space left on device (os error 28)", 3⟩]⟩

/-- The disk with what is left of the image. -/
def fullDiskAfter : Disk := ⟨imageTree.put ["a.bin"] (.file [2, 0, 0]), []⟩

theorem parse?_slashedLine :
    parse? slashedLine = some (.compile ⟨"d.json", none, .length, false⟩
      ⟨none, none, none, none, none, none, none⟩ ⟨".", false, none, false, false⟩) := by
  decide +kernel

/-- The first image is written and its line is printed; the second image is refused. -/
theorem runOn_slashedLine :
    runOn slashedTree slashedLine =
      (⟨1, "a: 2 words (2 payload bits), header 0x00000002\n", some (.output (.file .notFound))⟩,
        slashedTreeAfter) := by
  decide +kernel

/-- The image is emptied, and three bytes of it are written. -/
theorem runOn_fullDisk :
    runOn fullDisk slashedLine =
      (⟨1, "", some (.output (.file (.other "No space left on device (os error 28)")))⟩,
        fullDiskAfter) := by
  decide +kernel

theorem node?_slashedTree : slashedTree.node? ["a.bin"] = none := by decide +kernel

theorem node?_slashedTreeAfter :
    slashedTreeAfter.node? ["a.bin"] = some (.file [2, 0, 0, 0, 0, 0, 0, 0]) :=
  FileTree.node?_put (by simp)

theorem node?_imageTree :
    imageTree.node? ["a.bin"] = some (.file [2, 0, 0, 0, 0, 0, 0, 64]) := by decide +kernel

theorem node?_fullDiskAfter : fullDiskAfter.tree.node? ["a.bin"] = some (.file [2, 0, 0]) :=
  FileTree.node?_put (by simp)

/-- A run stops at the second image, which the tree refuses, or at the first one, which is cut short. -/
theorem runs_stop_at_missing_and_at_short_image :
    (parse? slashedLine = some (.compile ⟨"d.json", none, .length, false⟩
        ⟨none, none, none, none, none, none, none⟩ ⟨".", false, none, false, false⟩)) ∧
      ((runOn slashedTree slashedLine).1.exitCode = 1 ∧
        ∃ compiled made done file rest,
          List.flatMap (outputFiles ⟨".", false, none, false, false⟩) compiled =
            done ++ file :: rest ∧
          FileTree.writeAll made (done.map OutputFile.entry) = .ok slashedTreeAfter ∧
          slashedTreeAfter.create file.path = .error .notFound) ∧
      (runOn fullDisk slashedLine).1.exitCode = 1 ∧
        ∃ compiled made done file,
          StopsAfter Disk made done file
            (List.flatMap (outputFiles ⟨".", false, none, false, false⟩) compiled)
            (.file (.other "No space left on device (os error 28)")) fullDiskAfter.tree := by
  refine ⟨parse?_slashedLine, ⟨by rw [runOn_slashedLine], ?_⟩, by rw [runOn_fullDisk], ?_⟩
  · rcases failed_compile_stops_at_one_file parse?_slashedLine runOn_slashedLine rfl with
      hsame | ⟨compiled, made, done, file, failure, -, -, hstops, -, hfailure, -⟩
    · -- The new file rules out that nothing has changed.
      have hnew := hsame.file_iff.mp node?_slashedTreeAfter
      rw [show (tree slashedTree).node? ["a.bin"] = none from node?_slashedTree] at hnew
      cases hnew
    · obtain ⟨rest, written, hsplit, hdone, hstop⟩ := hstops
      obtain ⟨cause, rfl, hrefused, hsame⟩ := stopsAt_tree_iff.mp hstop
      obtain rfl : slashedTreeAfter = written := hsame
      cases hfailure
      exact ⟨compiled, made, done, file, rest, hsplit, hdone, hrefused⟩
  · rcases failed_compile_stops_at_one_file parse?_slashedLine runOn_fullDisk rfl with
      hsame | ⟨compiled, made, done, file, failure, -, -, hstops, -, hfailure, -⟩
    · -- So does the image, which has other bytes now.
      have hold := hsame.file_iff.mp node?_fullDiskAfter
      rw [show (tree fullDisk).node? ["a.bin"] = _ from node?_imageTree] at hold
      simp at hold
    · cases hfailure
      exact ⟨compiled, made, done, file, hstops⟩

/-- A compilation that fails can leave a file behind that was not there before. -/
theorem failed_compile_can_leave_a_new_file :
    (∃ chain policy output, parse? slashedLine = some (.compile chain policy output)) ∧
      (runOn slashedTree slashedLine).1.exitCode = 1 ∧ slashedTree.node? ["a.bin"] = none ∧
      (runOn slashedTree slashedLine).2.node? ["a.bin"] =
        some (.file [2, 0, 0, 0, 0, 0, 0, 0]) := by
  rw [runOn_slashedLine]
  exact ⟨⟨_, _, _, parse?_slashedLine⟩, rfl, node?_slashedTree, node?_slashedTreeAfter⟩

end Command
end ScanChain
