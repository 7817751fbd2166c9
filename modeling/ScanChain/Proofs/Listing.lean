/-
# ScanChain.Proofs.Listing — the words of an image as bytes, directives and a definition

A listing is read again without the program that wrote it: `Text.lines` takes a text apart at its
line feeds, `Image.wordOf?` takes the eight digits behind `.word 0x` for a number to base sixteen,
and `Text.splice` joins lines at backslashes, as a preprocessor does first. Each row of a listing
has no line feed of its own, so the lines are the rows (`lines_flatMap`), and what is read from them
is the words of the image. Joined, the rows of a definition are one line.
-/
import ScanChain.Image.Listing
import ScanChain.Proofs.HexGrammar
import ScanChain.Word.Lemmas

namespace ScanChain

/-! ## Lines -/

namespace Text

variable {row rest : List Char} {rows : List (List Char)}

/-- The lines of a text. What is behind the last line feed is a line only if there is anything. -/
def lines (text : List Char) : List (List Char) :=
  let pieces := text.splitOn '\n'
  if pieces.getLast? = some [] then pieces.dropLast else pieces

theorem intercalate_rows (rows : List (List Char)) :
    ['\n'].intercalate (rows ++ [[]]) = rows.flatMap (· ++ ['\n']) := by
  induction rows with
  | nil => rfl
  | cons row rows ih =>
    rw [List.flatMap_cons, ← ih]
    cases rows <;> simp [List.intercalate]

/-- Rows that have no line feed of their own are the lines of their text. -/
theorem lines_flatMap (h : ∀ row ∈ rows, '\n' ∉ row) :
    lines (rows.flatMap (· ++ ['\n'])) = rows := by
  have hpieces : (rows.flatMap (· ++ ['\n'])).splitOn '\n' = rows ++ [[]] := by
    rw [← intercalate_rows]
    refine List.splitOn_intercalate '\n' ?_ (by simp)
    intro row hrow
    rcases List.mem_append.mp hrow with hrow | hrow
    · exact h row hrow
    · rw [List.mem_singleton.mp hrow]
      exact List.not_mem_nil
  unfold lines
  dsimp only
  rw [hpieces, List.getLast?_concat, List.dropLast_concat, if_pos rfl]

/-- The text with each line that ends with a backslash joined with the next. -/
def splice : List Char → List Char
  | '\\' :: '\n' :: rest => splice rest
  | c :: rest => c :: splice rest
  | [] => []

/-- Within a line every character stays. -/
theorem splice_append (h : '\n' ∉ row) (hrest : rest.head? ≠ some '\n') :
    splice (row ++ rest) = row ++ splice rest := by
  induction row with
  | nil => rfl
  | cons c row ih =>
    obtain ⟨-, hrow⟩ := not_or.mp (mt List.mem_cons.mpr h)
    have hnext : (row ++ rest).head? ≠ some '\n' := by
      cases row with
      | nil => exact hrest
      | cons d row =>
        rintro ⟨rfl⟩
        exact hrow List.mem_cons_self
    rw [List.cons_append, List.cons_append, ← ih hrow, splice]
    rintro text - htext
    rw [htext] at hnext
    exact hnext rfl

end Text

/-! ## The word on a line -/

namespace BitString

theorem digitNumber_digitChar : ∀ d < 16, digitNumber (Nat.digitChar d) = d := by decide

theorem digitChar_mem : ∀ d < 16, Nat.digitChar d ∈ digitChars := by decide

theorem mem_digitChars_of_mem_hexDigits {count n : Nat} {c : Char}
    (h : c ∈ Text.hexDigits count n) : c ∈ digitChars := by
  obtain ⟨i, -, rfl⟩ := List.mem_map.mp h
  exact digitChar_mem _ (Nat.mod_lt _ (by decide))

/-- Four bits at a time, a number is taken apart into digits to base sixteen. -/
theorem ofDigits_shifts (count n : Nat) :
    Nat.ofDigits 16 ((List.range count).map fun i => n >>> (4 * i) % 16) = n % 16 ^ count := by
  induction count generalizing n with
  | zero =>
    rw [Nat.pow_zero, Nat.mod_one]
    rfl
  | succ count ih =>
    have hshift (i : Nat) : n >>> (4 * (i + 1)) = (n / 16) >>> (4 * i) := by
      rw [Nat.mul_succ, Nat.add_comm, Nat.shiftRight_add, Nat.shiftRight_eq_div_pow n 4]
    rw [List.range_succ_eq_map, List.map_cons, List.map_map, Nat.ofDigits_cons]
    simp only [Function.comp_def, Nat.succ_eq_add_one, hshift]
    rw [ih, Nat.pow_succ, Nat.mul_comm (16 ^ count), Nat.mod_mul]
    rfl

/-- Digits stand for the number that they are written for, as far as there are enough of them. -/
theorem hexNumber_hexDigits (count n : Nat) :
    hexNumber (Text.hexDigits count n) = n % 16 ^ count := by
  rw [hexNumber, Text.hexDigits, ← List.map_reverse, List.reverse_reverse, List.map_map,
    ← ofDigits_shifts]
  apply congrArg (Nat.ofDigits 16)
  apply List.map_congr_left
  intro i _
  exact digitNumber_digitChar _ (Nat.mod_lt _ (by decide))

end BitString

namespace Image

variable {word : UInt32} {words : List UInt32} {blanks rest : List Char}

/-- The word that the eight digits behind `.word 0x` stand for, where a line starts with it after
spaces. -/
def wordOf? (line : List Char) : Option UInt32 :=
  ((line.dropWhile (· = ' ')).dropPrefix? ".word 0x".toList).bind fun text =>
    let digits := text.take 8
    if digits.length = 8 ∧ digits.all BitString.digitChars.contains then
      some (UInt32.ofNat (BitString.hexNumber digits))
    else none

theorem toList_directive (word : UInt32) :
    (directive word).toList = ".word 0x".toList ++ Text.hexDigits 8 word.toNat := by
  have hdigits : (String.ofList (Text.hexDigits 8 word.toNat)).toList =
      Text.hexDigits 8 word.toNat := String.toList_ofList
  rw [directive, Text.hexWord, String.toList_append, String.toList_append, hdigits]
  rfl

/-- A directive is read as its word, whatever is behind it. -/
theorem wordOf?_directive (hblanks : ∀ c ∈ blanks, c = ' ') :
    wordOf? (blanks ++ ((directive word).toList ++ rest)) = some word := by
  have hdrop : (blanks ++ ((directive word).toList ++ rest)).dropWhile (· = ' ') =
      ".word 0x".toList ++ (Text.hexDigits 8 word.toNat ++ rest) := by
    rw [List.dropWhile_append_of_pos (by simpa using hblanks), toList_directive, List.append_assoc]
    rfl
  have htake : (Text.hexDigits 8 word.toNat ++ rest).take 8 = Text.hexDigits 8 word.toNat :=
    List.take_left' (Text.length_hexDigits ..)
  have hdigits : (Text.hexDigits 8 word.toNat).all BitString.digitChars.contains = true := by
    refine List.all_eq_true.mpr fun c hc => ?_
    exact List.contains_iff_mem.mpr (BitString.mem_digitChars_of_mem_hexDigits hc)
  have hnumber : UInt32.ofNat (BitString.hexNumber (Text.hexDigits 8 word.toNat)) = word := by
    rw [BitString.hexNumber_hexDigits, Nat.mod_eq_of_lt word.toNat_lt, UInt32.ofNat_toNat]
  unfold wordOf?
  rw [hdrop, List.dropPrefix?_append_of_beq _ (beq_self_eq_true _), Option.bind_some]
  dsimp only
  rw [htake, if_pos ⟨Text.length_hexDigits .., hdigits⟩, hnumber]

theorem wordOf?_directive_append (word : UInt32) (rest : List Char) :
    wordOf? ((directive word).toList ++ rest) = some word := by
  rw [← List.nil_append ((directive word).toList ++ rest)]
  exact wordOf?_directive (List.forall_mem_nil _)

theorem newline_not_mem_directive (word : UInt32) : '\n' ∉ (directive word).toList := by
  rw [toList_directive, List.mem_append, not_or]
  refine ⟨by decide, ?_⟩
  intro h
  exact absurd (BitString.mem_digitChars_of_mem_hexDigits h) (by decide)

/-! ## Listings -/

theorem toList_directives (image : Image) :
    image.directives.toList =
      (image.words.map fun word => (directive word).toList).flatMap (· ++ ['\n']) := by
  rw [directives, String.toList_join, List.flatMap_map, List.flatMap_map]
  apply List.flatMap_congr
  intro word _
  exact String.toList_append

/-- A line of a definition, by what is behind its directive. -/
def definitionRow (word : UInt32) (ending : List Char) : List Char :=
  [' ', ' '] ++ ((directive word).toList ++ ending)

/-- The lines of a definition after the first. -/
def definitionRows : List UInt32 → List (List Char)
  | [] => []
  | [word] => [definitionRow word [';']]
  | word :: words => definitionRow word [';', '\\'] :: definitionRows words

theorem toList_definitionLines (words : List UInt32) :
    (definitionLines words).toList = (definitionRows words).flatMap (· ++ ['\n']) := by
  fun_induction definitionRows words with
  | case1 => rfl
  | case2 word =>
    rw [definitionLines, String.toList_append, String.toList_append, definitionRow]
    simp
  | case3 word words hne ih =>
    have hlines : definitionLines (word :: words) =
        "  " ++ directive word ++ ";\\\n" ++ definitionLines words := by
      rw [definitionLines]
      exact hne
    rw [hlines, String.toList_append, String.toList_append, String.toList_append, ih,
      List.flatMap_cons, definitionRow]
    simp

theorem length_definitionRows (words : List UInt32) :
    (definitionRows words).length = words.length := by
  fun_induction definitionRows words with
  | case1 => rfl
  | case2 word => rfl
  | case3 word words hne ih => rw [List.length_cons, ih, List.length_cons]

theorem wordOf?_definitionRow (word : UInt32) (ending : List Char) :
    wordOf? (definitionRow word ending) = some word := by
  apply wordOf?_directive
  simp

theorem map_wordOf?_definitionRows (words : List UInt32) :
    (definitionRows words).map wordOf? = words.map some := by
  fun_induction definitionRows words with
  | case1 => rfl
  | case2 word => rw [List.map_singleton, wordOf?_definitionRow, List.map_singleton]
  | case3 word words hne ih => rw [List.map_cons, wordOf?_definitionRow, ih, List.map_cons]

theorem definitionRow_append (word : UInt32) (ending rest : List Char) :
    definitionRow word ending ++ rest = definitionRow word (ending ++ rest) := by
  rw [definitionRow, List.append_assoc, List.append_assoc, definitionRow]

theorem getLast?_definitionRow (word : UInt32) (ending : List Char) (c : Char) :
    (definitionRow word (ending ++ [c])).getLast? = some c := by
  rw [← definitionRow_append, List.getLast?_concat]

theorem newline_not_mem_definitionRow {ending : List Char} (h : '\n' ∉ ending) :
    '\n' ∉ definitionRow word ending := by
  rw [definitionRow, List.mem_append, List.mem_append, not_or, not_or]
  exact ⟨by decide, newline_not_mem_directive word, h⟩

theorem newline_not_mem_definitionRows {row : List Char} (h : row ∈ definitionRows words) :
    '\n' ∉ row := by
  fun_induction definitionRows words with
  | case1 => cases h
  | case2 word =>
    rw [List.mem_singleton.mp h]
    exact newline_not_mem_definitionRow (by decide)
  | case3 word words hne ih =>
    rcases List.mem_cons.mp h with rfl | h
    · exact newline_not_mem_definitionRow (by decide)
    · exact ih h

/-- All lines but the last end with a backslash. -/
theorem getLast?_definitionRows {i : Nat} {row : List Char}
    (h : (definitionRows words)[i]? = some row) :
    row.getLast? = some '\\' ↔ i + 1 < words.length := by
  fun_induction definitionRows words generalizing i with
  | case1 => cases h
  | case2 word =>
    have hlast : (definitionRow word [';']).getLast? = some ';' :=
      getLast?_definitionRow word [] ';'
    cases i with
    | zero =>
      obtain rfl := Option.some.inj h
      rw [hlast]
      exact iff_of_false (by decide) (Nat.lt_irrefl 1)
    | succ i => cases h
  | case3 word words hne ih =>
    have hlast : (definitionRow word [';', '\\']).getLast? = some '\\' :=
      getLast?_definitionRow word [';'] '\\'
    have hpos : 0 < words.length := List.length_pos_iff.mpr fun hnil => hne hnil
    rw [List.length_cons, Nat.add_lt_add_iff_right]
    cases i with
    | zero =>
      obtain rfl := Option.some.inj h
      rw [hlast]
      exact iff_of_true rfl hpos
    | succ i => exact ih h

theorem splice_definitionRow (word : UInt32) {ending : List Char}
    (h : ending.head? ≠ some '\n') :
    Text.splice (definitionRow word ending) = definitionRow word (Text.splice ending) := by
  rw [definitionRow, ← List.append_assoc, Text.splice_append _ h, List.append_assoc, definitionRow]
  rw [List.mem_append, not_or]
  exact ⟨by decide, newline_not_mem_directive word⟩

/-- Joined at the backslashes, the lines are one. -/
theorem splice_definitionLines (h : words ≠ []) :
    Text.splice (definitionLines words).toList =
      words.flatMap (definitionRow · [';']) ++ ['\n'] := by
  rw [toList_definitionLines]
  fun_induction definitionRows words with
  | case1 => exact absurd rfl h
  | case2 word =>
    rw [List.flatMap_singleton, List.flatMap_singleton, definitionRow_append]
    apply splice_definitionRow
    decide
  | case3 word words hne ih =>
    rw [List.flatMap_cons, definitionRow_append, definitionRow_append, List.flatMap_cons,
      List.append_assoc (definitionRow word [';']), ← ih fun hnil => hne hnil,
      definitionRow_append]
    apply splice_definitionRow
    exact nofun

/-- The first line of a definition, without the backslash. -/
def definitionHead (name : String) : List Char := "#define ".toList ++ name.toList ++ [' ']

theorem toList_definition (name : String) (image : Image) :
    (definition name image).toList =
      definitionHead name ++ '\\' :: '\n' :: (definitionLines image.words).toList := by
  unfold definition definitionHead
  rw [String.toList_append, String.toList_append, String.toList_append, List.append_assoc,
    List.append_assoc, List.append_assoc]
  rfl

section Definition

variable {name : String} (hname : '\n' ∉ name.toList) (image : Image)
include hname

theorem newline_not_mem_definitionHead : '\n' ∉ definitionHead name := by
  unfold definitionHead
  rw [List.mem_append, List.mem_append, not_or, not_or]
  exact ⟨⟨by decide, hname⟩, by decide⟩

theorem lines_definition :
    Text.lines (definition name image).toList =
      (definitionHead name ++ ['\\']) :: definitionRows image.words := by
  have htext : (definition name image).toList =
      ((definitionHead name ++ ['\\']) :: definitionRows image.words).flatMap (· ++ ['\n']) := by
    rw [toList_definition, toList_definitionLines]
    simp
  rw [htext]
  apply Text.lines_flatMap
  intro row hrow
  rcases List.mem_cons.mp hrow with rfl | hrow
  · rw [List.mem_append, not_or]
    exact ⟨newline_not_mem_definitionHead hname, by decide⟩
  · exact newline_not_mem_definitionRows hrow

/-- Joined at the backslashes, a definition is one line. -/
theorem lines_splice_definition :
    Text.lines (Text.splice (definition name image).toList) =
      [definitionHead name ++ image.words.flatMap (definitionRow · [';'])] := by
  have hhead := newline_not_mem_definitionHead hname
  have hjoined : Text.splice (definition name image).toList =
      [definitionHead name ++ image.words.flatMap (definitionRow · [';'])].flatMap
        (· ++ ['\n']) := by
    have hnext : ('\\' :: '\n' :: (definitionLines image.words).toList).head? ≠ some '\n' := by simp
    have hwords : image.words ≠ [] := List.cons_ne_nil _ _
    rw [toList_definition, Text.splice_append hhead hnext, List.flatMap_singleton,
      List.append_assoc, ← splice_definitionLines hwords, Text.splice]
  rw [hjoined]
  apply Text.lines_flatMap
  intro row hrow
  rw [List.mem_singleton.mp hrow, List.mem_append, List.mem_flatMap, not_or]
  refine ⟨hhead, ?_⟩
  rintro ⟨word, -, hword⟩
  exact newline_not_mem_definitionRow (by decide) hword

end Definition

/-- Bytes, directives and definitions all carry the words of an image. The bytes are read back as
the words, and are bytes of words exactly if their number is a multiple of four. Each line of a
listing has one word, in order; and a definition has one line more, all but the last of which are
continued, so that it is one line to a preprocessor. -/
theorem listings_carry_the_words :
    (∀ words, Word.fromBytes? (Word.toBytes words) = some words) ∧
    (∀ bytes, (Word.fromBytes? bytes).isSome ↔ bytes.length % 4 = 0) ∧
    (∀ bytes words, Word.fromBytes? bytes = some words → Word.toBytes words = bytes) ∧
    (∀ image : Image, (Text.lines image.directives.toList).length = image.wordCount ∧
      (Text.lines image.directives.toList).map wordOf? = image.words.map some) ∧
    ∀ (image : Image) (name : String), '\n' ∉ name.toList →
      ∃ first rows, Text.lines (definition name image).toList = first :: rows ∧
        first = ("#define " ++ name ++ " \\").toList ∧ rows.length = image.wordCount ∧
        rows.map wordOf? = image.words.map some ∧
        (∀ i row, (first :: rows)[i]? = some row →
          (row.getLast? = some '\\' ↔ i + 1 < (first :: rows).length)) ∧
        Text.lines (Text.splice (definition name image).toList) =
          [("#define " ++ name ++ " ").toList ++ image.words.flatMap (definitionRow · [';'])] := by
  refine ⟨Word.fromBytes?_toBytes, Word.fromBytes?_isSome_iff,
    fun bytes words => Word.toBytes_of_fromBytes?, ?_, ?_⟩
  · intro image
    have hlines : Text.lines image.directives.toList =
        image.words.map fun word => (directive word).toList := by
      rw [toList_directives]
      apply Text.lines_flatMap
      intro row hrow
      obtain ⟨word, -, rfl⟩ := List.mem_map.mp hrow
      exact newline_not_mem_directive word
    rw [hlines, List.length_map, List.map_map]
    refine ⟨rfl, ?_⟩
    apply List.map_congr_left
    intro word _
    rw [Function.comp_apply, ← List.append_nil (directive word).toList, wordOf?_directive_append]
  · intro image name hname
    have hlength : (definitionRows image.words).length = image.wordCount :=
      length_definitionRows image.words
    refine ⟨_, _, lines_definition hname image, ?_, hlength, map_wordOf?_definitionRows image.words,
      ?_, ?_⟩
    · unfold definitionHead
      rw [String.toList_append, String.toList_append, List.append_assoc]
      rfl
    · intro i row hrow
      rw [List.length_cons, Nat.add_lt_add_iff_right, hlength]
      cases i with
      | zero =>
        obtain rfl := Option.some.inj hrow
        rw [List.getLast?_concat]
        exact iff_of_true rfl (Nat.zero_lt_succ _)
      | succ i => exact getLast?_definitionRows hrow
    · rw [lines_splice_definition hname, String.toList_append, String.toList_append]
      rfl

/-- The definition of an image with one word of payload. -/
theorem definition_of_two_words :
    let image : Image := ⟨0x1e3, none, [0xdeadbeef], 32⟩
    definition "FAULT" image =
        "#define FAULT \\\n  .word 0x000001e3;\\\n  .word 0xdeadbeef;\n" ∧
      ∃ first rows, Text.lines (definition "FAULT" image).toList = first :: rows ∧
        rows.map wordOf? = [some 0x1e3, some 0xdeadbeef] ∧
        Text.lines (Text.splice (definition "FAULT" image).toList) =
          ["#define FAULT   .word 0x000001e3;  .word 0xdeadbeef;".toList] := by
  intro image
  obtain ⟨-, -, -, -, hdefinition⟩ := listings_carry_the_words
  obtain ⟨first, rows, hlines, -, -, hwords, -, hjoined⟩ :=
    hdefinition image "FAULT" (by decide)
  refine ⟨by decide +kernel, first, rows, hlines, hwords, hjoined.trans ?_⟩
  decide +kernel

end Image
end ScanChain
