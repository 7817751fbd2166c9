/-
# ScanChain.Proofs.Divergences — every word that differs is listed

Comparing counts the words at the front that match, and on its own the list of divergences looks at
every place of the longer list. Both come to the same first divergence: the words that match are the
longest common prefix (`isLongestCommonPrefix_take`), so the first place at which the lists differ is
the one right after it (`find?_differing`). The list is complete: the second word list is made again
from the first, its length and the divergences (`rebuild_divergences`).

Image files are the same to a comparison of files exactly if they have the same bytes, and whole words.
-/
import ScanChain.Proofs.Blame
import ScanChain.Proofs.Keeping

namespace ScanChain

/-- What two lists have in common at their front. -/
structure IsLongestCommonPrefix {α : Type} (front first second : List α) : Prop where
  left : front <+: first
  right : front <+: second
  longest : ∀ other, other <+: first → other <+: second → other <+: front

/-- Two lists have different words at a place, or one of them has ended and the other has not. -/
def DifferAt (first second : List UInt32) (i : Nat) : Prop :=
  (∃ x y, first[i]? = some x ∧ second[i]? = some y ∧ x ≠ y) ∨
    (first.length ≤ i ∧ i < second.length) ∨ (second.length ≤ i ∧ i < first.length)

/-- What a divergence says of two word lists is so. -/
structure Divergence.Describes (d : Divergence) (first second : List UInt32) : Prop where
  region : d.region = if d.index = 0 then .header else .payload
  first : d.first = first[d.index]?
  second : d.second = second[d.index]?
  segments : d.segments = []

/-- A word list of a length, with the words that divergences have for their second image, and those of
the first image elsewhere. -/
def rebuild (first : List UInt32) (length : Nat) (found : List Divergence) : List UInt32 :=
  (List.range length).filterMap fun i =>
    match found.find? (·.index = i) with
    | some d => d.second
    | none => first[i]?

section Words

variable {first second : List UInt32} {i : Nat}

/-! ## The words that match -/

theorem matchingWords_le_length (first second : List UInt32) :
    matchingWords first second ≤ first.length := by
  induction first generalizing second with
  | nil => exact Nat.zero_le _
  | cons x first ih =>
    cases second with
    | nil => exact Nat.zero_le _
    | cons y second =>
      rw [matchingWords]
      split
      · exact Nat.succ_le_succ (ih second)
      · exact Nat.zero_le _

theorem getElem?_eq_of_lt_matchingWords (h : i < matchingWords first second) :
    first[i]? = second[i]? := by
  rw [← List.getElem?_take_of_lt h, take_matchingWords, List.getElem?_take_of_lt h]

theorem isLongestCommonPrefix_take (first second : List UInt32) :
    IsLongestCommonPrefix (first.take (matchingWords first second)) first second := by
  refine ⟨List.take_prefix _ _, ?_, fun other hfirst hsecond => ?_⟩
  · rw [take_matchingWords]
    exact List.take_prefix _ _
  · -- A longer one would have the word at which different lists differ.
    refine List.prefix_take_iff.mpr ⟨hfirst, ?_⟩
    by_cases heq : first = second
    · rw [← heq, matchingWords_self]
      exact hfirst.length_le
    · by_contra hlong
      have hlt : matchingWords first second < other.length := Nat.not_le.mp hlong
      apply getElem?_matchingWords_ne heq
      rw [List.prefix_iff_getElem?.mp hfirst _ hlt, List.prefix_iff_getElem?.mp hsecond _ hlt]

/-! ## The words that differ -/

theorem getElem?_ne_iff : first[i]? ≠ second[i]? ↔ DifferAt first second i := by
  rcases Nat.lt_or_ge i first.length with hfirst | hfirst
  · rcases Nat.lt_or_ge i second.length with hsecond | hsecond
    · simp [DifferAt, hfirst, hsecond]
    · simp [DifferAt, hfirst, hsecond]
  · rcases Nat.lt_or_ge i second.length with hsecond | hsecond
    · simp [DifferAt, hfirst, hsecond]
    · simp [DifferAt, hfirst, hsecond]

theorem lt_of_getElem?_ne (h : first[i]? ≠ second[i]?) : i < max first.length second.length := by
  by_contra hlt
  apply h
  rw [List.getElem?_eq_none (by omega), List.getElem?_eq_none (by omega)]

/-- The first place at which different lists differ is right after the words that match. -/
theorem find?_differing (first second : List UInt32) :
    (List.range (max first.length second.length)).find? (fun i => first[i]? ≠ second[i]?) =
      if first = second then none else some (matchingWords first second) := by
  split
  · rename_i heq
    simp [heq]
  · rename_i hne
    have hdiffer := getElem?_matchingWords_ne hne
    rw [List.find?_range_eq_some]
    refine ⟨decide_eq_true hdiffer, List.mem_range.mpr (lt_of_getElem?_ne hdiffer), fun i hi => ?_⟩
    simp [getElem?_eq_of_lt_matchingWords hi]

theorem divergence_eq_head? (first second : List UInt32) :
    (compareWords first second).divergence = (divergences first second).head? := by
  rw [compareWords, divergence_compareBy, divergences, List.head?_map, List.head?_filter,
    find?_differing]
  split
  · rfl
  · rfl

theorem divergences_eq_nil_iff : divergences first second = [] ↔ first = second := by
  rw [← List.head?_eq_none_iff, ← divergence_eq_head?]
  exact divergence_compareBy_eq_none_iff

theorem identical_iff : (compareWords first second).identical = true ↔ first = second := by
  show (compareWords first second).divergence.isNone = true ↔ _
  rw [Option.isNone_iff_eq_none]
  exact divergence_compareBy_eq_none_iff

theorem index_divergences (first second : List UInt32) :
    (divergences first second).map (·.index) =
      (List.range (max first.length second.length)).filter fun i => first[i]? ≠ second[i]? := by
  rw [divergences, List.map_map]
  exact List.map_id _

theorem mem_index_divergences :
    i ∈ (divergences first second).map (·.index) ↔ first[i]? ≠ second[i]? := by
  rw [index_divergences, List.mem_filter, List.mem_range, decide_eq_true_eq]
  exact and_iff_right_of_imp lt_of_getElem?_ne

theorem describes_of_mem {d : Divergence} (h : d ∈ divergences first second) :
    d.Describes first second := by
  obtain ⟨i, -, rfl⟩ := List.mem_map.mp h
  exact ⟨by simp [WordRegion.ofIndex], rfl, rfl, rfl⟩

theorem filterMap_getElem?_range (words : List UInt32) :
    (List.range words.length).filterMap (words[·]?) = words := by
  induction words with
  | nil => rfl
  | cons word words ih =>
    rw [List.length_cons, List.range_succ_eq_map, List.filterMap_cons, List.filterMap_map]
    show word :: (List.range words.length).filterMap (words[·]?) = _
    rw [ih]

/-- The second list is made again from the first and from what is listed. -/
theorem rebuild_divergences (first second : List UInt32) :
    rebuild first second.length (divergences first second) = second := by
  have hword (i : Nat) : (match (divergences first second).find? (·.index = i) with
      | some d => d.second
      | none => first[i]?) = second[i]? := by
    cases hfind : (divergences first second).find? (·.index = i) with
    | some d =>
      obtain rfl : d.index = i := by simpa using List.find?_some hfind
      exact (describes_of_mem (List.mem_of_find?_eq_some hfind)).second
    | none =>
      -- Where nothing is listed the lists do not differ.
      by_contra hne
      obtain ⟨d, hd, hi⟩ := List.mem_map.mp (mem_index_divergences.mpr hne)
      exact absurd (decide_eq_true hi) (List.find?_eq_none.mp hfind d hd)
  simp only [rebuild, hword]
  exact filterMap_getElem?_range second

end Words

/-! ## Comparing files -/

namespace Command

open FileTree

/-- What is printed about two word lists: how they compare and, if more than one word differs, all that
do. -/
def comparedText (first second : List UInt32) : String :=
  let all := divergences first second
  (compareWords first second).text ++
    if 1 < all.length then
      "\n" ++ toString all.length ++ " words differ in total:" ++ "\n" ++ String.join (all.map fun d =>
        "  word " ++ Text.padLeft 5 (toString d.index) ++ ": " ++ wordOrEnd d.first ++ " vs " ++
          wordOrEnd d.second ++ "\n")
    else ""

/-- A command line that compares two files, whatever their names are. -/
def diffLine (first second : String) : List String := ["diff", "--", first, second]

variable {tree : FileTree} {path path' printed : String}

theorem parse?_diffLine (h : path ≠ "") (h' : path' ≠ "") :
    parse? (diffLine path path') = some (.diff path path') := by
  show (sortOut [verbose] none ["--", path, path'] .none >>= fun given => _) = _
  rw [sortOut_plain]
  show (path? path >>= fun first => path? path' >>= fun second => some (Command.diff first second)) = _
  rw [path?_of_ne h, path?_of_ne h']
  rfl

/-- The words of a file are read if it has whole words, and reading is all that is done. -/
theorem reach_readWords_cases (tree : FileTree) (path printed : String) :
    (∃ words, tree.read path = .ok (Word.toBytes words) ∧
      reach (readWords path) printed tree = ⟨.ok words, printed, tree⟩) ∨
    ((∀ words, tree.read path ≠ .ok (Word.toBytes words)) ∧
      ∃ cause, reach (readWords path) printed tree = ⟨.error (.image cause), printed, tree⟩) := by
  by_cases hwords : ∃ words, tree.read path = .ok (Word.toBytes words)
  · obtain ⟨words, hread⟩ := hwords
    exact .inl ⟨words, hread, reach_readWords hread⟩
  refine .inr ⟨fun words hread => hwords ⟨words, hread⟩, ?_⟩
  have hbytes : reach (orFail (fun e => .image (.file e)) (tree.read path)) printed tree =
      ⟨_, printed, tree⟩ := reach_orFail _ _
  rw [readWords, reach_bind_of_ok (reach_read path printed tree)]
  cases hread : tree.read path with
  | error cause =>
    rw [hread] at hbytes
    exact ⟨.file cause, reach_bind_of_error hbytes⟩
  | ok bytes =>
    rw [hread] at hbytes
    rw [reach_bind_of_ok hbytes]
    cases hparse : Word.fromBytes? bytes with
    | none => exact ⟨.misaligned bytes.length, rfl⟩
    | some words =>
      rw [← Word.toBytes_of_fromBytes? hparse] at hread
      exact absurd ⟨words, hread⟩ hwords

/-- A comparison fails exactly if the words are not the same. -/
theorem reach_failIfDifferent (first second : List UInt32) (path path' printed : String)
    (tree : FileTree) :
    reach (if (!(compareWords first second).identical) = true then throw (.imagesDiffer path path')
      else pure () : Run (StateM FileTree) Unit) printed tree =
      ⟨if first = second then .ok () else .error (.imagesDiffer path path'), printed, tree⟩ := by
  by_cases heq : first = second
  · rw [if_pos heq, identical_iff.mpr heq]
    rfl
  · rw [if_neg heq, Bool.eq_false_iff.mpr fun h => heq (identical_iff.mp h)]
    rfl

/-- Files of whole words are compared word by word, and nothing is written. -/
theorem reach_runDiff {first second : List UInt32}
    (hfirst : tree.read path = .ok (Word.toBytes first))
    (hsecond : tree.read path' = .ok (Word.toBytes second)) :
    reach (runDiff path path') printed tree =
      ⟨if first = second then .ok () else .error (.imagesDiffer path path'),
        printed ++ comparedText first second, tree⟩ := by
  have hcompared : reach (print (compareWords first second).text) printed tree =
      ⟨.ok (), printed ++ (compareWords first second).text, tree⟩ := rfl
  rw [runDiff, reach_bind_of_ok (reach_readWords hfirst), reach_bind_of_ok (reach_readWords hsecond),
    reach_bind_of_ok hcompared, comparedText]
  dsimp only
  split
  · rw [reach_bind_of_ok (reach_printLine _),
      reach_bind_of_ok (reach_forM (fun d printed tree => reach_printLine _) _ _ _),
      reach_failIfDifferent]
    simp only [String.append_assoc]
  · rw [reach_failIfDifferent, String.append_empty]

/-- Comparing files succeeds exactly if they have the same whole words, and leaves the tree. -/
theorem result_runDiff (tree : FileTree) (path path' printed : String) :
    ((reach (runDiff path path') printed tree).result = .ok () ↔
        ∃ words, tree.read path = .ok (Word.toBytes words) ∧
          tree.read path' = .ok (Word.toBytes words)) ∧
      (reach (runDiff path path') printed tree).state = tree := by
  rcases reach_readWords_cases tree path printed with
    ⟨first, hfirst, hreach⟩ | ⟨hnone, cause, hreach⟩
  · rcases reach_readWords_cases tree path' printed with
      ⟨second, hsecond, -⟩ | ⟨hnone, cause, hreach'⟩
    · rw [reach_runDiff hfirst hsecond]
      refine ⟨?_, rfl⟩
      by_cases heq : first = second
      · rw [if_pos heq]
        exact iff_of_true rfl ⟨first, hfirst, heq ▸ hsecond⟩
      · rw [if_neg heq]
        refine iff_of_false nofun ?_
        rintro ⟨words, hwords, hwords'⟩
        rw [hfirst] at hwords
        rw [hsecond, ← hwords] at hwords'
        exact heq (Word.toBytes_inj (Except.ok.inj hwords').symm)
    · rw [runDiff, reach_bind_of_ok hreach, reach_bind_of_error hreach']
      exact ⟨iff_of_false nofun fun ⟨words, _, hwords⟩ => hnone words hwords, rfl⟩
  · rw [runDiff, reach_bind_of_error hreach]
    exact ⟨iff_of_false nofun fun ⟨words, hwords, _⟩ => hnone words hwords, rfl⟩

/-- Whole words are the same words exactly if they are the same bytes. -/
theorem exists_words_iff :
    (∃ words, tree.read path = .ok (Word.toBytes words) ∧
      tree.read path' = .ok (Word.toBytes words)) ↔
    ∃ bytes, tree.read path = .ok bytes ∧ tree.read path' = .ok bytes ∧ bytes.length % 4 = 0 := by
  constructor
  · rintro ⟨words, hfirst, hsecond⟩
    refine ⟨_, hfirst, hsecond, (Word.fromBytes?_isSome_iff _).mp ?_⟩
    rw [Word.fromBytes?_toBytes]
    rfl
  · rintro ⟨bytes, hfirst, hsecond, hwhole⟩
    obtain ⟨words, hwords⟩ :=
      Option.isSome_iff_exists.mp ((Word.fromBytes?_isSome_iff bytes).mpr hwhole)
    rw [← Word.toBytes_of_fromBytes? hwords] at hfirst hsecond
    exact ⟨words, hfirst, hsecond⟩

end Command

/-- Comparing finds the longest common prefix, and the first entry of the list of divergences where the
lists are not equal. The list has an entry for every place at which the lists differ and for no other,
in order, and with one of the lists and the length of the other it gives the other. Comparing two files
by a command line succeeds exactly if they have the same bytes and these are whole words. -/
theorem comparison_is_exact :
    (∀ first second : List UInt32,
      (∃ front, IsLongestCommonPrefix front first second ∧
        (compareWords first second).matching = front.length) ∧
      ((compareWords first second).identical = true ↔ first = second) ∧
      ((compareWords first second).divergence = none ↔ first = second) ∧
      (divergences first second = [] ↔ first = second) ∧
      (compareWords first second).divergence = (divergences first second).head? ∧
      ((divergences first second).map (·.index)).Pairwise (· < ·) ∧
      (∀ i, i ∈ (divergences first second).map (·.index) ↔
        i < max first.length second.length ∧ DifferAt first second i) ∧
      (∀ d ∈ divergences first second, d.Describes first second) ∧
      rebuild first second.length (divergences first second) = second) ∧
    ∀ path path' : String,
      (path ≠ "" → path' ≠ "" →
        Command.parse? (Command.diffLine path path') = some (.diff path path')) ∧
      ∀ (tree : FileTree) (line : List String), Command.parse? line = some (.diff path path') →
        (Command.runOn tree line).2 = tree ∧
        ((Command.runOn tree line).1.exitCode = 0 ↔
          ∃ bytes, tree.read path = .ok bytes ∧ tree.read path' = .ok bytes ∧
            bytes.length % 4 = 0) := by
  refine ⟨fun first second => ?_, fun path path' => ⟨Command.parse?_diffLine, fun tree line h => ?_⟩⟩
  · have hlength : (compareWords first second).matching =
        (first.take (matchingWords first second)).length :=
      (List.length_take_of_le (matchingWords_le_length first second)).symm
    have hascending : ((divergences first second).map (·.index)).Pairwise (· < ·) := by
      rw [index_divergences]
      exact List.pairwise_lt_range.filter _
    have hlisted (i : Nat) : i ∈ (divergences first second).map (·.index) ↔
        i < max first.length second.length ∧ DifferAt first second i := by
      rw [mem_index_divergences, ← getElem?_ne_iff]
      exact (and_iff_right_of_imp lt_of_getElem?_ne).symm
    exact ⟨⟨_, isLongestCommonPrefix_take first second, hlength⟩, identical_iff,
      divergence_compareBy_eq_none_iff, divergences_eq_nil_iff, divergence_eq_head? first second,
      hascending, hlisted, fun _ => describes_of_mem, rebuild_divergences first second⟩
  · obtain ⟨hresult, hleft⟩ := Command.result_runDiff tree path path' ""
    exact ⟨(Command.exitCode_runOn h).2.trans hleft,
      (Command.exitCode_runOn h).1.trans (hresult.trans Command.exists_words_iff)⟩

example : (divergences [1, 2, 3] [1, 5]).map (fun d => (d.index, d.first, d.second)) =
    [(1, some 2, some 5), (2, some 3, none)] := by decide

end ScanChain
