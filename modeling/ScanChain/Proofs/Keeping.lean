/-
# ScanChain.Proofs.Keeping — images that are kept are read back

A compilation that succeeds has written the files of every chain, one chain after the other and without
a look at what stands there. Listings and reports have endings of their own, so the file of an image can
only be lost to the image of a later chain whose file has the same place: a name may lead elsewhere than
it looks, and `a` and `./a` are two names and one file. An image that is not lost is decoded to the
values that it was compiled from, as long as the descriptor itself has not been written over.

All of this is about file trees (`ScanChain.Files.Tree`). They have no links, so a file is told from
another by its path from the root alone, and no permissions. On a file system with links, two names that
share no place in a tree can still be one file, and an image can be lost to it.
-/
import ScanChain.Proofs.DecodeLine
import ScanChain.Proofs.DescriptorText
import ScanChain.Proofs.Paths
import ScanChain.Proofs.RoundTrip
import ScanChain.Proofs.Selection
import ScanChain.Proofs.Writing

namespace ScanChain

/-- The image of a compiled chain is read as the values that the chain was resolved to. -/
theorem Config.unpackWords_of_compileChain {config : Config} {descriptor : Descriptor} {name : String}
    {policy : Policy} {compiled : Compiled}
    (h : config.compileChain descriptor name policy = .ok compiled) :
    ∃ chain, descriptor.chain name = .ok chain ∧
      (config.layout chain).unpackWords compiled.image.words config.checksum =
        .ok compiled.resolved := by
  obtain ⟨chain, hchain⟩ := exists_chain_of_compileChain h
  rw [compileChain_of_chain hchain] at h
  obtain ⟨-, hresolve, hpack⟩ := compile_eq_ok_iff.mp h
  refine ⟨chain, hchain, ?_⟩
  rw [ChainLayout.unpackWords_of_pack hpack]
  -- The values bear the labels of the layout already.
  have hmatch := (ChainLayout.pack_eq_ok_iff.mp hpack).1
  rw [eq_of_labels_of_fields
    ((labels_of_reads (relabel_reads hmatch)).trans (ChainLayout.labels_of_resolve hresolve).symm)
    (fields_relabel hmatch)]

/-- Every chain that is compiled is compiled under its name. -/
theorem Config.compileChain_of_compileSelected {config : Config} {descriptor : Descriptor}
    {name : Option String} {policy : Policy} {all : List Compiled}
    (h : config.compileSelected descriptor name policy = .ok all) :
    ∀ one ∈ all, config.compileChain descriptor one.chain policy = .ok one := by
  intro one hone
  cases name with
  | some name =>
    obtain ⟨compiled, hcompile, rfl⟩ := map_eq_ok_iff.mp h
    obtain rfl := List.mem_singleton.mp hone
    rwa [chain_of_compileChain hcompile]
  | none =>
    have heach := compileAll_eq_ok_iff.mp h
    rw [← chains_of_compileAll heach, List.forall₂_map_left_iff, List.forall₂_same] at heach
    exact heach one hone

/-- No two of the chains that are compiled have one name. -/
theorem Config.pairwise_chains_of_compileSelected {config : Config} {descriptor : Descriptor}
    {name : Option String} {policy : Policy} {all : List Compiled}
    (h : config.compileSelected descriptor name policy = .ok all) :
    all.Pairwise fun one other => one.chain ≠ other.chain := by
  cases name with
  | some name =>
    obtain ⟨compiled, -, rfl⟩ := map_eq_ok_iff.mp h
    exact List.pairwise_singleton _ _
  | none =>
    have hnames : all.map (·.chain) = descriptor.names :=
      chains_of_compileAll (compileAll_eq_ok_iff.mp h)
    have hascending : descriptor.names.Pairwise (· < ·) := by
      rw [Descriptor.names, NameTable.names, List.pairwise_map]
      exact descriptor.chains.ascending
    rw [← hnames, List.pairwise_map] at hascending
    refine hascending.imp fun hless hsame => ?_
    rw [hsame] at hless
    exact String.lt_irrefl _ hless

namespace Command

open FileTree

variable {tree later : FileTree}

/-! ## The files of images -/

/-- The file of an image. -/
def imagePath (output : OutputOptions) (compiled : Compiled) : String :=
  FileStore.join output.directory (compiled.chain ++ ".bin")

section Endings

theorem isEnding_bin : IsEnding ".bin" := by
  refine ⟨by decide, fun front => ⟨?_, ?_, ?_⟩⟩ <;> intro h <;>
    simpa using congrArg (fun path : String => path.toList.reverse) h

theorem isEnding_listing : IsEnding ".S" := by
  refine ⟨by decide, fun front => ⟨?_, ?_, ?_⟩⟩ <;> intro h <;>
    simpa using congrArg (fun path : String => path.toList.reverse) h

theorem isEnding_json : IsEnding ".json" := by
  refine ⟨by decide, fun front => ⟨?_, ?_, ?_⟩⟩ <;> intro h <;>
    simpa using congrArg (fun path : String => path.toList.reverse) h

theorem append_bin_ne_append_listing (a b : String) : a ++ ".bin" ≠ b ++ ".S" := by
  intro h
  simpa using congrArg (fun path : String => path.toList.reverse) h

theorem append_bin_ne_append_json (a b : String) : a ++ ".bin" ≠ b ++ ".json" := by
  intro h
  simpa using congrArg (fun path : String => path.toList.reverse) h

end Endings

/-- The first file of a chain is its image. -/
theorem outputFiles_eq (output : OutputOptions) (compiled : Compiled) :
    outputFiles output compiled =
      ⟨imagePath output compiled, Word.toBytes compiled.image.words, .file⟩ ::
        (outputFiles output compiled).tail := rfl

/-- The other files of a chain have endings of their own. -/
theorem path_of_mem_tail {output : OutputOptions} {compiled : Compiled} {file : OutputFile}
    (h : file ∈ (outputFiles output compiled).tail) :
    ∃ front, file.path = front ++ ".S" ∨ file.path = front ++ ".json" := by
  simp only [outputFiles, List.tail_cons, List.mem_append] at h
  rcases h with h | h
  · split at h
    · obtain rfl := List.mem_singleton.mp h
      obtain ⟨front, hfront⟩ := FileStore.exists_join_append output.directory compiled.chain ".S"
      exact ⟨front, Or.inl hfront⟩
    · cases h
  · split at h
    · obtain rfl := List.mem_singleton.mp h
      obtain ⟨front, hfront⟩ := FileStore.exists_join_append output.directory compiled.chain ".json"
      exact ⟨front, Or.inr hfront⟩
    · cases h

/-- So none of them has the place of an image. -/
theorem not_samePlace_of_mem_tail {output : OutputOptions} {one other : Compiled}
    {file : OutputFile} (h : file ∈ (outputFiles output other).tail) :
    ¬ tree.SamePlace (imagePath output one) file.path := by
  obtain ⟨front, hfront⟩ := FileStore.exists_join_append output.directory one.chain ".bin"
  have himage : imagePath output one = front ++ ".bin" := hfront
  obtain ⟨last, hpath | hpath⟩ := path_of_mem_tail h
  · rw [himage, hpath]
    exact not_samePlace_of_endings isEnding_bin isEnding_listing append_bin_ne_append_listing _ _
  · rw [himage, hpath]
    exact not_samePlace_of_endings isEnding_bin isEnding_json append_bin_ne_append_json _ _

/-- Nor do two images share a place whose chains have different names without a slash. -/
theorem not_samePlace_of_names {output : OutputOptions} {one other : Compiled}
    (hone : '/' ∉ one.chain.toList) (hother : '/' ∉ other.chain.toList)
    (hdiffer : one.chain ≠ other.chain) :
    ¬ tree.SamePlace (imagePath output one) (imagePath output other) := by
  have hplain : ∀ name : String, '/' ∉ name.toList → '/' ∉ (name ++ ".bin").toList := by
    intro name hname
    rw [String.toList_append, List.mem_append, not_or]
    exact ⟨hname, isEnding_bin.1⟩
  rintro ⟨place, hleads, hleads'⟩
  obtain ⟨parts, hsplit⟩ := FileStore.exists_components_join output.directory (hplain _ hone)
  obtain ⟨parts', hsplit'⟩ := FileStore.exists_components_join output.directory (hplain _ hother)
  have hname := hleads.getLast? hsplit (isEnding_bin.2 one.chain)
  have hname' := hleads'.getLast? hsplit' (isEnding_bin.2 other.chain)
  have hsame : one.chain ++ ".bin" = other.chain ++ ".bin" :=
    Option.some.inj (hname.symm.trans hname')
  rw [← String.toList_inj, String.toList_append, String.toList_append] at hsame
  exact hdiffer (String.toList_inj.mp (List.append_cancel_right hsame))

/-- An image is read as it was written, unless the image of a later chain has its place. -/
theorem read_imagePath {output : OutputOptions} {before after : List Compiled} {one : Compiled}
    (h : tree.writeAll (((before ++ one :: after).flatMap (outputFiles output)).map
      OutputFile.entry) = .ok later)
    (hother : ∀ other ∈ after,
      ¬ later.SamePlace (imagePath output one) (imagePath output other)) :
    later.read (imagePath output one) = .ok (Word.toBytes one.image.words) := by
  rw [List.flatMap_append, List.flatMap_cons, outputFiles_eq output one, List.cons_append,
    List.map_append, List.map_cons] at h
  refine read_of_writeAll h fun entry hentry => ?_
  obtain ⟨file, hfile, rfl⟩ := List.mem_map.mp hentry
  rcases List.mem_append.mp hfile with hfile | hfile
  · exact not_samePlace_of_mem_tail hfile
  · obtain ⟨other, hmem, hfile⟩ := List.mem_flatMap.mp hfile
    rw [outputFiles_eq, List.mem_cons] at hfile
    rcases hfile with rfl | hfile
    · exact hother other hmem
    · exact not_samePlace_of_mem_tail hfile

/-! ## Decoding -/

/-- The lines about the values of a segment. -/
def segmentText (segment : ResolvedSegment) : String :=
  "  [" ++ toString segment.position ++ "] " ++ segment.name ++ "\n" ++
    String.join (segment.fields.map fun field =>
      "      " ++ Text.padRight 12 field.name ++ " " ++ field.value.display ++ "\n")

/-- What is printed about an image: its chain, its words and header, and every value. -/
def decodedText (name : String) (words : List UInt32) (resolved : List ResolvedSegment) : String :=
  "chain " ++ name ++ " (" ++ toString words.length ++ " words, header " ++
    Text.hexWord (words.headD 0) ++ ")" ++ "\n" ++ String.join (resolved.map segmentText)

/-- Steps that each print a text print all texts in order. -/
theorem reach_forM {α : Type} {step : α → Run (StateM FileTree) Unit} {text : α → String}
    (hstep : ∀ a printed tree, reach (step a) printed tree = ⟨.ok (), printed ++ text a, tree⟩)
    (entries : List α) (printed : String) (tree : FileTree) :
    reach (entries.forM step) printed tree =
      ⟨.ok (), printed ++ String.join (entries.map text), tree⟩ := by
  induction entries generalizing printed with
  | nil =>
    show (⟨.ok (), printed, tree⟩ : Reached FileTree Unit) = ⟨.ok (), printed ++ "", tree⟩
    rw [String.append_empty]
  | cons a entries ih =>
    rw [reach_forM_cons, reach_bind_of_ok (hstep a printed tree), ih, List.map_cons,
      String.join_cons, String.append_assoc]

theorem reach_printValues (resolved : List ResolvedSegment) (printed : String) (tree : FileTree) :
    reach (resolved.forM fun segment => do
      printLine ("  [" ++ toString segment.position ++ "] " ++ segment.name)
      segment.fields.forM fun field =>
        printLine ("      " ++ Text.padRight 12 field.name ++ " " ++ field.value.display))
      printed tree = ⟨.ok (), printed ++ String.join (resolved.map segmentText), tree⟩ := by
  refine reach_forM (fun segment printed tree => ?_) resolved printed tree
  rw [reach_bind_of_ok (reach_printLine _),
    reach_forM (fun field printed tree => reach_printLine _) segment.fields]
  simp only [segmentText, String.append_assoc]

section Readers

variable {path : String} {bytes : List UInt8} {printed : String}

theorem reach_read (path printed : String) (tree : FileTree) :
    reach ((FileStore.read path : StateM FileTree _) : Run (StateM FileTree) _) printed tree =
      ⟨.ok (tree.read path), printed, tree⟩ := by
  rw [reach_operation, Volume.run_read_tree]

/-- A descriptor that is read is in the bytes of a file. -/
theorem result_readDescriptor {descriptor : Descriptor} :
    (reach (readDescriptor path) printed tree).result = .ok descriptor ↔
      ∃ bytes, tree.read path = .ok bytes ∧ Descriptor.ofBytes bytes = .ok descriptor := by
  have hsteps : (reach (readDescriptor path) printed tree).result = (do
      let handle ← (tree.openFile path).mapError fun e => .descriptor (.file e)
      let bytes ← (tree.contents handle).mapError fun _ => .descriptor .json
      (Descriptor.ofBytes bytes).mapError fun _ => .descriptor .json) := by
    rw [readDescriptor, reach_bind_of_ok (reach_operation _)]
    show (reach (orFail _ (tree.openFile path) >>= _) printed tree).result = _
    cases tree.openFile path with
    | error e => rfl
    | ok handle =>
      show (reach (orFail _ (tree.contents handle) >>= _) printed tree).result =
        ((tree.contents handle).mapError _ >>= _)
      cases tree.contents handle with
      | error e => rfl
      | ok bytes => exact congrArg Reached.result (reach_orFail _ _)
  rw [hsteps]
  simp only [bind_eq_ok_iff, mapError_eq_ok_iff, FileTree.read]
  constructor
  · rintro ⟨handle, hopen, bytes, hcontents, hbytes⟩
    exact ⟨bytes, ⟨handle, hopen, hcontents⟩, hbytes⟩
  · rintro ⟨bytes, ⟨handle, hopen, hcontents⟩, hbytes⟩
    exact ⟨handle, hopen, bytes, hcontents, hbytes⟩

theorem reach_readDescriptor {descriptor : Descriptor} (h : tree.read path = .ok bytes)
    (hdescriptor : Descriptor.ofBytes bytes = .ok descriptor) :
    reach (readDescriptor path) printed tree = ⟨.ok descriptor, printed, tree⟩ := by
  rw [(readsOnly_readDescriptor path).reach_eq, result_readDescriptor.mpr ⟨bytes, h, hdescriptor⟩]

theorem reach_readWords {words : List UInt32} (h : tree.read path = .ok (Word.toBytes words)) :
    reach (readWords path) printed tree = ⟨.ok words, printed, tree⟩ := by
  have hbytes : reach (orFail (fun e => .image (.file e)) (tree.read path)) printed tree =
      ⟨.ok (Word.toBytes words), printed, tree⟩ := by
    rw [reach_orFail, h]
    rfl
  rw [readWords, reach_bind_of_ok (reach_read path printed tree), reach_bind_of_ok hbytes,
    Word.fromBytes?_toBytes]
  rfl

end Readers

/-- An image that stands in a file is decoded to the values that its words hold, or is refused where
they hold none. -/
theorem reach_runDecode (options : ChainOptions) {name image : String} {bytes : List UInt8}
    {words : List UInt32} {descriptor : Descriptor} {chain : Chain}
    (hname : options.chain = some name) (hread : tree.read options.descriptor = .ok bytes)
    (hdescriptor : Descriptor.ofBytes bytes = .ok descriptor)
    (hchain : descriptor.chain name = .ok chain)
    (hwords : tree.read image = .ok (Word.toBytes words)) :
    reach (runDecode options image) "" tree =
      match (ChainLayout.mk chain options.header).unpackWords words options.checksum with
      | .ok resolved => ⟨.ok (), decodedText name words resolved, tree⟩
      | .error cause => ⟨.error (.decode cause), "", tree⟩ := by
  have hsingle : reach (singleChain descriptor options.chain) "" tree = ⟨.ok name, "", tree⟩ := by
    rw [hname]
    rfl
  have hbuilt : reach (orFail .chain (descriptor.chain name)) "" tree = ⟨.ok chain, "", tree⟩ := by
    rw [reach_orFail, hchain]
    rfl
  have hvalues : reach (orFail .decode (((config options false).layout chain).unpackWords words
      options.checksum)) "" tree = ⟨_, "", tree⟩ := reach_orFail _ _
  rw [runDecode, reach_bind_of_ok (reach_readDescriptor hread hdescriptor), reach_bind_of_ok hsingle,
    reach_bind_of_ok hbuilt, reach_bind_of_ok (reach_readWords hwords)]
  show _ = match ((config options false).layout chain).unpackWords words options.checksum with
    | .ok resolved => _
    | .error cause => _
  cases hunpack : ((config options false).layout chain).unpackWords words options.checksum with
  | error cause =>
    rw [hunpack] at hvalues
    exact reach_bind_of_error hvalues
  | ok resolved =>
    rw [hunpack] at hvalues
    rw [reach_bind_of_ok hvalues, reach_bind_of_ok (reach_printLine _), reach_printValues,
      String.empty_append]
    rfl

/-! ## Compiling and decoding -/

/-- A compilation that succeeds has compiled its chains and written their files. -/
theorem writeAll_of_runOn {line : List String} {chain : ChainOptions} {policy : PolicyOptions}
    {output : OutputOptions} {outcome : Outcome}
    (hline : parse? line = some (.compile chain policy output))
    (hrun : runOn tree line = (outcome, later)) (hexit : outcome.exitCode = 0) :
    ∃ compiled made, (reach (compiling chain policy output) "" tree).result = .ok compiled ∧
      tree.AddsDirectories made ∧
      made.writeAll ((compiled.flatMap (outputFiles output)).map OutputFile.entry) = .ok later := by
  rcases runOn_compile hline tree with ⟨e, made, -, hends⟩ | ⟨compiled, made, hcompiled, hmade,
    ⟨text, written, hends, hwritten⟩ | ⟨done, file, failure, text, written, hends, -⟩⟩
  · rw [hends] at hrun
    obtain ⟨rfl, -⟩ := Prod.mk.inj hrun
    cases hexit
  · rw [hends] at hrun
    obtain ⟨-, rfl⟩ := Prod.mk.inj hrun
    exact ⟨compiled, made, hcompiled, hmade, hwritten⟩
  · rw [hends] at hrun
    obtain ⟨rfl, -⟩ := Prod.mk.inj hrun
    cases hexit

/-- A file that can be written is written. -/
theorem reach_writeImageFile_of_write {file : OutputFile}
    (h : tree.write file.path file.bytes = .ok later) (printed : String) :
    reach (writeImageFile file) printed tree = ⟨.ok (), printed, later⟩ := by
  obtain ⟨⟨handle, made⟩, hcreate, hfill⟩ := bind_eq_ok_iff.mp h
  have hopened : reach (orFail (fun e => .output (.file e)) (.ok handle : Except FileError Handle))
      printed made = ⟨.ok handle, printed, made⟩ := rfl
  rw [writeImageFile, reach_bind_of_ok (reach_operation _), Volume.run_create_tree hcreate]
  rw [reach_bind_of_ok hopened, reach_bind_of_ok (reach_operation _), Volume.run_append_tree hfill]
  exact reach_orFail _ _

theorem reach_writeFiles_of_writeAll {files : List OutputFile}
    (h : tree.writeAll (files.map OutputFile.entry) = .ok later) (printed : String) :
    reach (files.forM writeImageFile) printed tree = ⟨.ok (), printed, later⟩ := by
  induction files generalizing tree with
  | nil =>
    obtain rfl := Except.ok.inj h
    rfl
  | cons file files ih =>
    rw [List.map_cons, writeAll_cons] at h
    obtain ⟨middle, hfirst, hrest⟩ := bind_eq_ok_iff.mp h
    rw [reach_forM_cons, reach_bind_of_ok (reach_writeImageFile_of_write hfirst printed)]
    exact ih hrest

/-- Files that can all be written are all written. -/
theorem exists_reach_writeCompiled {output : OutputOptions} {all : List Compiled}
    (h : tree.writeAll ((all.flatMap (outputFiles output)).map OutputFile.entry) = .ok later)
    (printed : String) :
    ∃ text, reach (all.forM (writeCompiled output)) printed tree = ⟨.ok (), text, later⟩ := by
  induction all generalizing printed tree with
  | nil =>
    obtain rfl := Except.ok.inj h
    exact ⟨printed, rfl⟩
  | cons compiled all ih =>
    rw [List.flatMap_cons, List.map_append, writeAll_append] at h
    obtain ⟨middle, hfirst, hrest⟩ := bind_eq_ok_iff.mp h
    rw [reach_forM_cons, writeCompiled, bind_assoc,
      reach_bind_of_ok (reach_writeFiles_of_writeAll hfirst printed),
      reach_bind_of_ok (reach_printLine _)]
    exact ih hrest _

/-- What is compiled comes from a descriptor in a file. -/
theorem exists_descriptor_of_compiling {chain : ChainOptions} {policy : PolicyOptions}
    {output : OutputOptions} {compiled : List Compiled}
    (h : (reach (compiling chain policy output) "" tree).result = .ok compiled) :
    ∃ bytes descriptor values, tree.read chain.descriptor = .ok bytes ∧
      Descriptor.ofBytes bytes = .ok descriptor ∧
      (config chain output.verify).compileSelected descriptor chain.chain values = .ok compiled := by
  obtain ⟨descriptor, printed, after, hdescriptor, h⟩ := exists_reach_of_bind h
  obtain ⟨values, printed', after', -, h⟩ := exists_reach_of_bind h
  obtain ⟨bytes, hread, hbytes⟩ :=
    result_readDescriptor.mp (congrArg Reached.result hdescriptor)
  rw [reach_orFail] at h
  exact ⟨bytes, descriptor, values, hread, hbytes, mapError_eq_ok_iff.mp h⟩

/-- Where the names of the chains have no slash, a compilation that succeeds on a file tree keeps every
image: without links, different names in one directory are different files. -/
theorem images_of_plain_names_are_kept {line : List String} {chain : ChainOptions}
    {policy : PolicyOptions} {output : OutputOptions} {outcome : Outcome}
    (hline : parse? line = some (.compile chain policy output))
    (hrun : runOn tree line = (outcome, later)) (hexit : outcome.exitCode = 0) :
    ∃ compiled, (reach (compiling chain policy output) "" tree).result = .ok compiled ∧
      ((∀ one ∈ compiled, '/' ∉ one.chain.toList) →
        ∀ one ∈ compiled,
          later.read (imagePath output one) = .ok (Word.toBytes one.image.words)) := by
  obtain ⟨compiled, made, hcompiled, -, hwritten⟩ := writeAll_of_runOn hline hrun hexit
  refine ⟨compiled, hcompiled, fun hplain one hone => ?_⟩
  obtain ⟨bytes, descriptor, values, -, -, hselected⟩ := exists_descriptor_of_compiling hcompiled
  have hnames := Config.pairwise_chains_of_compileSelected hselected
  obtain ⟨before, after, rfl⟩ := List.append_of_mem hone
  have hafter := List.pairwise_cons.mp (List.pairwise_append.mp hnames).2.1
  refine read_imagePath hwritten fun other hother => ?_
  have hmem : other ∈ before ++ one :: after :=
    List.mem_append_right before (List.mem_cons_of_mem one hother)
  exact not_samePlace_of_names (hplain one hone) (hplain other hmem) (hafter.1 other hother)

/-- After a compilation that succeeds on a file tree, the file of an image holds its words, unless the
image of a later chain has its place, which in a tree without links is to have the same path from the
root. If no output file has the place of the descriptor, the image is then decoded, with the same
options, to the values that the chain was resolved to. -/
theorem kept_images_are_decoded {line : List String} {chain : ChainOptions} {policy : PolicyOptions}
    {output : OutputOptions} {outcome : Outcome}
    (hline : parse? line = some (.compile chain policy output))
    (hrun : runOn tree line = (outcome, later)) (hexit : outcome.exitCode = 0) :
    ∃ compiled, (reach (compiling chain policy output) "" tree).result = .ok compiled ∧
      ∀ before one after, compiled = before ++ one :: after →
        (∀ other ∈ after, ¬ later.SamePlace (imagePath output one) (imagePath output other)) →
        later.read (imagePath output one) = .ok (Word.toBytes one.image.words) ∧
        ((∀ file ∈ compiled.flatMap (outputFiles output),
            ¬ later.SamePlace chain.descriptor file.1) →
          parse? (decodeLine chain one.chain (imagePath output one)) =
              some (.decode { chain with chain := some one.chain } (imagePath output one)) ∧
            ∀ again, parse? again =
                some (.decode { chain with chain := some one.chain } (imagePath output one)) →
              runOn later again =
                (⟨0, decodedText one.chain one.image.words one.resolved, none⟩, later)) := by
  obtain ⟨compiled, made, hcompiled, hmade, hwritten⟩ := writeAll_of_runOn hline hrun hexit
  refine ⟨compiled, hcompiled, fun before one after hsplit hother => ?_⟩
  have hread : later.read (imagePath output one) = .ok (Word.toBytes one.image.words) := by
    rw [hsplit] at hwritten
    exact read_imagePath hwritten hother
  refine ⟨hread, fun hkept => ?_⟩
  obtain ⟨bytes, descriptor, values, hbytes, hdescriptor, hselected⟩ :=
    exists_descriptor_of_compiling hcompiled
  -- The descriptor is read as before, since none of the files has its place.
  have hagain : later.read chain.descriptor = .ok bytes := by
    obtain ⟨place, htarget⟩ := read_eq_ok_iff.mp hbytes
    have hfile := hmade.file_iff.mpr (target_stands htarget)
    exact read_of_keeps (leadsTo_of_target htarget) hmade.keeps hfile hwritten
      (List.forall_mem_map.mpr hkept)
  have hone : (config chain output.verify).compileChain descriptor one.chain values = .ok one :=
    Config.compileChain_of_compileSelected hselected one (by simp [hsplit])
  obtain ⟨built, hbuilt, hunpack⟩ := Config.unpackWords_of_compileChain hone
  refine ⟨parse?_decodeLine (ne_empty_of_read hbytes) (ne_empty_of_read hread), ?_⟩
  intro again hparse
  have hlayout : (ChainLayout.mk built chain.header).unpackWords one.image.words chain.checksum =
      .ok one.resolved := hunpack
  have hdecode := reach_runDecode { chain with chain := some one.chain } rfl hagain hdescriptor hbuilt
    hread
  rw [hlayout] at hdecode
  rw [runOn_of_parse_decode hparse, hdecode]

/-! ### Two names of one file -/

/-- A descriptor of two chains, `./a` and `a`, each with one segment. -/
def sharedDescriptor : Descriptor :=
  let entry (width : UInt32) : SegmentEntry :=
    ⟨"r", 0, none, ⟨"stuck-at", ⟨[("width", width)], by simp⟩⟩⟩
  ⟨⟨[("./a", [entry 1]), ("a", [entry 2])], by decide⟩⟩

/-- A tree with nothing but the descriptor. -/
def sharedTree : FileTree :=
  ⟨[(["d.json"], .file (Text.utf8 sharedDescriptor.toJson.compact))], []⟩

/-- Compiles both chains into the working directory. -/
def sharedLine : List String :=
  ["compile", "d.json", "-o", ".", "--header", "length", "--mask", "1"]

/-- The chains of the line. -/
def sharedChain : ChainOptions := ⟨"d.json", none, .length, false⟩

/-- The policy of the line. -/
def sharedPolicy : PolicyOptions :=
  ⟨none, some ⟨[true, false, false, false]⟩, none, none, none, none, none⟩

/-- The output of the line. -/
def sharedOutput : OutputOptions := ⟨".", false, none, false, false⟩

/-- The first chain, whose image is lost. -/
def lostCompiled : Compiled :=
  ⟨"./a", [⟨"r", 0, [⟨"mask", .ofNat 1 1⟩, ⟨"value", .ofNat 0 1⟩]⟩], ⟨2, none, [0x80000000], 2⟩⟩

/-- The second chain, whose image is kept. -/
def keptCompiled : Compiled :=
  ⟨"a", [⟨"r", 0, [⟨"mask", .ofNat 1 2⟩, ⟨"value", .ofNat 0 2⟩]⟩], ⟨4, none, [0x40000000], 4⟩⟩

/-- The tree with the one image file, which is written twice. -/
def sharedTreeAfter : FileTree :=
  (sharedTree.put ["a.bin"] (.file (Word.toBytes lostCompiled.image.words))).put ["a.bin"]
    (.file (Word.toBytes keptCompiled.image.words))

theorem parse?_sharedLine :
    parse? sharedLine = some (.compile sharedChain sharedPolicy sharedOutput) := by
  decide +kernel

theorem ofBytes_sharedDescriptor :
    Descriptor.ofBytes (Text.utf8 sharedDescriptor.toJson.compact) = .ok sharedDescriptor := by
  apply Descriptor.ofBytes_compact
  simp [Descriptor.Readable, sharedDescriptor, SegmentEntry.Readable, InjectorEntry.Readable]

theorem reach_compiling_shared :
    reach (compiling sharedChain sharedPolicy sharedOutput) "" sharedTree =
      ⟨.ok [lostCompiled, keptCompiled], "", sharedTree⟩ := by
  let values : Policy := { Policy.inert with mask := ⟨[true, false, false, false]⟩ }
  have hdescriptor : reach (readDescriptor sharedChain.descriptor) "" sharedTree =
      ⟨.ok sharedDescriptor, "", sharedTree⟩ := reach_readDescriptor rfl ofBytes_sharedDescriptor
  have hvalues : (reach (loadPolicy sharedPolicy) "" sharedTree).result = .ok values := by
    decide +kernel
  have hpolicy := (readsOnly_loadPolicy sharedPolicy).reach_eq "" sharedTree
  rw [hvalues] at hpolicy
  have hcompile : (config sharedChain sharedOutput.verify).compileSelected sharedDescriptor
      sharedChain.chain values = .ok [lostCompiled, keptCompiled] := by
    decide +kernel
  rw [compiling, reach_bind_of_ok hdescriptor, reach_bind_of_ok hpolicy, reach_orFail, hcompile]
  rfl

/-- Both images are written, to one file. -/
theorem runOn_sharedLine :
    ∃ text, runOn sharedTree sharedLine = (⟨0, text, none⟩, sharedTreeAfter) := by
  have hwritten : sharedTree.writeAll
      (([lostCompiled, keptCompiled].flatMap (outputFiles sharedOutput)).map OutputFile.entry) =
        .ok sharedTreeAfter := by
    have hfirst : sharedTree.LeadsTo "././a.bin" ["a.bin"] :=
      leadsTo_of_leaf? (by decide +kernel)
    have hsecond : (sharedTree.put ["a.bin"] (.file (Word.toBytes lostCompiled.image.words))).LeadsTo
        "./a.bin" ["a.bin"] := leadsTo_of_leaf? (by decide +kernel)
    have hfiles : ([lostCompiled, keptCompiled].flatMap (outputFiles sharedOutput)).map
        OutputFile.entry = [("././a.bin", Word.toBytes lostCompiled.image.words),
          ("./a.bin", Word.toBytes keptCompiled.image.words)] := by
      decide +kernel
    rw [hfiles, writeAll_cons]
    refine bind_eq_ok_iff.mpr ⟨_, write_eq_ok_iff.mpr ⟨_, hfirst, rfl⟩, ?_⟩
    rw [writeAll_cons]
    exact bind_eq_ok_iff.mpr ⟨_, write_eq_ok_iff.mpr ⟨_, hsecond, rfl⟩, rfl⟩
  obtain ⟨text, hfiles⟩ := exists_reach_writeCompiled hwritten ""
  have hrun : reach (runCompile sharedChain sharedPolicy sharedOutput) "" sharedTree =
      ⟨.ok (), text, sharedTreeAfter⟩ := by
    have hmade : reach ((FileStore.ensureDirectories sharedOutput.directory : StateM FileTree _) :
        Run (StateM FileTree) _) "" sharedTree = ⟨.ok (.ok ()), "", sharedTree⟩ := rfl
    have htaken : reach (orFail .file (Except.ok () : Except FileError Unit)) "" sharedTree =
        ⟨.ok (), "", sharedTree⟩ := rfl
    rw [runCompile_eq, reach_bind_of_ok reach_compiling_shared, reach_bind_of_ok hmade,
      reach_bind_of_ok htaken, hfiles]
  refine ⟨text, ?_⟩
  rw [runOn_of_parse_compile parse?_sharedLine, hrun]

/-- The image of the second chain is in its file, and is decoded. -/
theorem last_image_of_a_place_is_decoded :
    parse? sharedLine = some (.compile sharedChain sharedPolicy sharedOutput) ∧
      (∃ text, runOn sharedTree sharedLine = (⟨0, text, none⟩, sharedTreeAfter)) ∧
      sharedTreeAfter.read "./a.bin" = .ok (Word.toBytes keptCompiled.image.words) ∧
      runOn sharedTreeAfter (decodeLine sharedChain "a" "./a.bin") =
        (⟨0, decodedText "a" keptCompiled.image.words keptCompiled.resolved, none⟩,
          sharedTreeAfter) := by
  obtain ⟨text, hrun⟩ := runOn_sharedLine
  refine ⟨parse?_sharedLine, ⟨text, hrun⟩, ?_⟩
  obtain ⟨compiled, hcompiled, hkept⟩ := kept_images_are_decoded parse?_sharedLine hrun rfl
  rw [reach_compiling_shared] at hcompiled
  obtain rfl := Except.ok.inj hcompiled
  obtain ⟨hread, hdecode⟩ := hkept [lostCompiled] keptCompiled [] rfl (by simp)
  -- Both files are images, and the descriptor has another ending.
  have hname : sharedChain.descriptor = "d" ++ ".json" := by decide
  have hfree : ∀ file ∈ [lostCompiled, keptCompiled].flatMap (outputFiles sharedOutput),
      ¬ sharedTreeAfter.SamePlace sharedChain.descriptor file.1 := by
    intro file hfile
    obtain ⟨one, -, hfile⟩ := List.mem_flatMap.mp hfile
    obtain rfl : file = ⟨imagePath sharedOutput one, Word.toBytes one.image.words, .file⟩ := by
      simpa [outputFiles, sharedOutput, imagePath] using hfile
    obtain ⟨front, hfront⟩ := FileStore.exists_join_append sharedOutput.directory one.chain ".bin"
    rw [imagePath, hfront, hname]
    exact not_samePlace_of_endings isEnding_json isEnding_bin
      (fun a b h => append_bin_ne_append_json b a h.symm) "d" front
  obtain ⟨hparse, hagain⟩ := hdecode hfree
  have hpath : imagePath sharedOutput keptCompiled = "./a.bin" := by decide +kernel
  rw [hpath] at hread hparse hagain
  exact ⟨hread, hagain _ hparse⟩

/-- A compilation that succeeds can lose an image: the file under the path of its chain holds other words,
and asking for the values of the chain fails. -/
theorem image_of_a_compiled_chain_can_be_lost :
    parse? sharedLine = some (.compile sharedChain sharedPolicy sharedOutput) ∧
      (∃ text, runOn sharedTree sharedLine = (⟨0, text, none⟩, sharedTreeAfter)) ∧
      (reach (compiling sharedChain sharedPolicy sharedOutput) "" sharedTree).result =
        .ok [lostCompiled, keptCompiled] ∧
      imagePath sharedOutput lostCompiled = "././a.bin" ∧
      sharedTreeAfter.read "././a.bin" ≠ .ok (Word.toBytes lostCompiled.image.words) ∧
      (runOn sharedTreeAfter (decodeLine sharedChain lostCompiled.chain "././a.bin")).1.exitCode =
        1 := by
  have hread : sharedTreeAfter.read "././a.bin" = .ok (Word.toBytes keptCompiled.image.words) := by
    decide +kernel
  have hagain : sharedTreeAfter.read sharedChain.descriptor =
      .ok (Text.utf8 sharedDescriptor.toJson.compact) := rfl
  have hparse : parse? (decodeLine sharedChain lostCompiled.chain "././a.bin") =
      some (.decode { sharedChain with chain := some lostCompiled.chain } "././a.bin") :=
    parse?_decodeLine (by decide) (by decide)
  -- The words in the file have the header of the other chain.
  have hheader : (sharedDescriptor.chain lostCompiled.chain).map (fun chain =>
      (ChainLayout.mk chain .length).unpackWords keptCompiled.image.words false) =
        .ok (.error (.headerMismatch 2 4)) := by
    decide +kernel
  obtain ⟨chain, hchain, hunpack⟩ := map_eq_ok_iff.mp hheader
  have hdecode := reach_runDecode { sharedChain with chain := some lostCompiled.chain } rfl hagain
    ofBytes_sharedDescriptor hchain hread
  have hrefused : (ChainLayout.mk chain sharedChain.header).unpackWords keptCompiled.image.words
      sharedChain.checksum = .error (.headerMismatch 2 4) := hunpack
  rw [hrefused] at hdecode
  refine ⟨parse?_sharedLine, runOn_sharedLine, by rw [reach_compiling_shared], by decide +kernel,
    by rw [hread]; decide, ?_⟩
  rw [runOn_of_parse_decode hparse, hdecode]

end Command
end ScanChain
