/-
# ScanChain.Proofs.Annotation — the note behind an encoded word

The word of an operation is printed with a note of the operation and of two registers. The line is
read here as a reader of the listing would, and the note is compared with what the word is decoded
to. The operation and the destination are always those of the word. The source that is shown is the
one that was asked for; the word has it if the operation reads its source, and register zero if not.
-/
import ScanChain.Proofs.DecodeLine
import ScanChain.Proofs.Instructions
import ScanChain.Proofs.Listing
import ScanChain.Proofs.Running

namespace ScanChain.Command

open Control

/-! ## Reading a line -/

/-- A word, and an operation and the numbers of two registers in the note behind it. -/
structure Annotation where
  word : UInt32
  operation : Operation
  rd : Nat
  rs1 : Nat
deriving DecidableEq

/-- The decimal number behind a mark. -/
def numberBehind? (mark : String) (text : List Char) : Option Nat :=
  (text.dropPrefix? mark.toList).bind fun digits =>
    if digits ≠ [] ∧ digits.all Char.isDigit then some (Nat.ofDigitChars 10 digits 0) else none

/-- What a line says: behind spaces and `#` stand the name of the operation and both registers. -/
def Annotation.ofLine? (line : List Char) : Option Annotation :=
  match line.splitOn ' ' with
  | [_, _, [], ['#'], name, rd, rs1] => do
    let word ← Image.wordOf? line
    let operation ← Operation.all.find? (·.mnemonic.toList = name)
    let rd ← numberBehind? "rd=x" rd
    let rs1 ← numberBehind? "rs1=x" rs1
    return ⟨word, operation, rd, rs1⟩
  | _ => none

theorem find?_mnemonic (operation : Operation) :
    Operation.all.find? (·.mnemonic.toList = operation.mnemonic.toList) = some operation := by
  cases operation <;> decide

theorem toList_toString (n : Nat) : (toString n).toList = Nat.toDigits 10 n := by
  rw [Nat.toString_eq_ofList_toDigits, String.toList_ofList]

theorem isDigit_of_mem_toString {n : Nat} {c : Char} (h : c ∈ (toString n).toList) :
    c.isDigit = true := by
  rw [toList_toString] at h
  exact Nat.isDigit_of_mem_toDigits (by decide) (by decide) h

theorem numberBehind?_toString (mark : String) (n : Nat) :
    numberBehind? mark (mark.toList ++ (toString n).toList) = some n := by
  have hdigits : (toString n).toList ≠ [] ∧ (toString n).toList.all Char.isDigit = true := by
    refine ⟨?_, List.all_eq_true.mpr fun c => isDigit_of_mem_toString⟩
    rw [toList_toString]
    exact Nat.toDigits_ne_nil
  rw [numberBehind?, List.dropPrefix?_append_of_beq _ (beq_self_eq_true _), Option.bind_some,
    if_pos hdigits, toList_toString, Nat.ofDigitChars_ten_toDigits]

/-- The line that is printed. -/
def annotated (word : UInt32) (operation : Operation) (rd rs1 : Nat) : String :=
  Image.directive word ++ "  # " ++ operation.mnemonic ++ " rd=x" ++ toString rd ++ " rs1=x" ++
    toString rs1

/-- The pieces of the line between its spaces. -/
def annotatedPieces (word : UInt32) (operation : Operation) (rd rs1 : Nat) : List (List Char) :=
  [".word".toList, "0x".toList ++ Text.hexDigits 8 word.toNat, [], ['#'], operation.mnemonic.toList,
    "rd=x".toList ++ (toString rd).toList, "rs1=x".toList ++ (toString rs1).toList]

theorem toList_annotated (word : UInt32) (operation : Operation) (rd rs1 : Nat) :
    (annotated word operation rd rs1).toList =
      [' '].intercalate (annotatedPieces word operation rd rs1) := by
  unfold annotated annotatedPieces
  simp only [String.toList_append, Image.toList_directive]
  simp [List.intercalate]

theorem not_mem_toString {c : Char} (h : c.isDigit = false) (n : Nat) :
    c ∉ (toString n).toList := by
  intro hc
  rw [isDigit_of_mem_toString hc] at h
  cases h

theorem space_not_mem_annotatedPieces {word : UInt32} {operation : Operation} {rd rs1 : Nat}
    {piece : List Char} (h : piece ∈ annotatedPieces word operation rd rs1) : ' ' ∉ piece := by
  have hhex : ' ' ∉ Text.hexDigits 8 word.toNat := fun hc =>
    absurd (BitString.mem_digitChars_of_mem_hexDigits hc) (by decide)
  have hname : ' ' ∉ operation.mnemonic.toList := by cases operation <;> decide
  have hdigits (n : Nat) : ' ' ∉ (toString n).toList := not_mem_toString rfl n
  simp only [annotatedPieces, List.mem_cons, List.not_mem_nil, or_false] at h
  rcases h with rfl | rfl | rfl | rfl | rfl | rfl | rfl
  · decide
  · exact fun hc => (List.mem_append.mp hc).elim (by decide) hhex
  · exact List.not_mem_nil
  · decide
  · exact hname
  · exact fun hc => (List.mem_append.mp hc).elim (by decide) (hdigits rd)
  · exact fun hc => (List.mem_append.mp hc).elim (by decide) (hdigits rs1)

/-- It is read as what it is printed for. -/
theorem ofLine?_annotated (word : UInt32) (operation : Operation) (rd rs1 : Nat) :
    Annotation.ofLine? (annotated word operation rd rs1).toList =
      some ⟨word, operation, rd, rs1⟩ := by
  have hpieces : (annotated word operation rd rs1).toList.splitOn ' ' =
      annotatedPieces word operation rd rs1 := by
    rw [toList_annotated]
    exact List.splitOn_intercalate ' ' (fun _ => space_not_mem_annotatedPieces) nofun
  have hword : Image.wordOf? (annotated word operation rd rs1).toList = some word := by
    unfold annotated
    simp only [String.toList_append, List.append_assoc]
    exact Image.wordOf?_directive_append word _
  unfold Annotation.ofLine?
  rw [hpieces, annotatedPieces]
  simp only [hword, find?_mnemonic, numberBehind?_toString]
  rfl

theorem newline_not_mem_annotated (word : UInt32) (operation : Operation) (rd rs1 : Nat) :
    '\n' ∉ (annotated word operation rd rs1).toList := by
  have hname : '\n' ∉ operation.mnemonic.toList := by cases operation <;> decide
  have hdigits (n : Nat) : '\n' ∉ (toString n).toList := not_mem_toString rfl n
  unfold annotated
  simp only [String.toList_append, List.mem_append, not_or]
  exact ⟨⟨⟨⟨⟨⟨Image.newline_not_mem_directive word, by decide⟩, hname⟩, by decide⟩, hdigits rd⟩,
    by decide⟩, hdigits rs1⟩

/-! ## A command line for every encoding -/

/-- The name of an operation on the command line. -/
def operationName : Operation → String
  | .echo => "echo"
  | .cycle => "cycle"
  | .enable => "enable"
  | .check => "check"
  | .writeSeed => "write-seed"
  | .writeDifficulty => "write-difficulty"
  | .writeDuration => "write-duration"

/-- The switches of an encoding. -/
def encodeSwitches : List Switch :=
  [verbose, .option "rd" none, .option "rs1" none, .option "custom" none]

/-- A command line that asks for the word of an operation. -/
def encodeLine (operation : Operation) (rd : UInt8) (rs1 : Option UInt8) (custom : UInt8) :
    List String :=
  "encode" :: ("--rd=" ++ toString rd.toNat) :: ("--custom=" ++ toString custom.toNat) ::
    ((rs1.map fun register => "--rs1=" ++ toString register.toNat).toList ++
      ["--", operationName operation])

theorem word8?_toString (n : UInt8) : word8? (toString n.toNat) = some n := by
  have hall : ∀ c ∈ Nat.toDigits 10 n.toNat, c.isDigit := fun c hc =>
    Nat.isDigit_of_mem_toDigits (by decide) (by decide) hc
  have hsign : Binary64.splitSign (Nat.toDigits 10 n.toNat) = (false, Nat.toDigits 10 n.toNat) := by
    unfold Binary64.splitSign
    split
    · rename_i hdigits
      exact absurd (hall '-' (hdigits ▸ List.mem_cons_self)) (by decide)
    · rename_i hdigits
      exact absurd (hall '+' (hdigits ▸ List.mem_cons_self)) (by decide)
    · rfl
  have hvalue : Binary64.valueOfDigits (Nat.toDigits 10 n.toNat) = n.toNat :=
    Nat.ofDigitChars_ten_toDigits
  have hempty : (Nat.toDigits 10 n.toNat).isEmpty = false := by
    rw [List.isEmpty_eq_false_iff]
    exact Nat.toDigits_ne_nil
  have hdigits : (Nat.toDigits 10 n.toNat).all Char.isDigit = true := List.all_eq_true.mpr hall
  have hlimit : ¬ 255 < n.toNat := Nat.not_lt.mpr (Nat.le_of_lt_succ n.toNat_lt)
  unfold word8? number?
  rw [toList_toString, hsign]
  simp [hvalue, hempty, hdigits, hlimit]

/-- What is sorted out of the line. -/
def encodeGiven (operation : Operation) (rd : UInt8) (rs1 : Option UInt8) (custom : UInt8) :
    Given :=
  ⟨(rs1.map fun register => ("rs1", toString register.toNat)).toList ++
    [("custom", toString custom.toNat), ("rd", toString rd.toNat)], [], [operationName operation]⟩

theorem sortOut_encodeLine (operation : Operation) (rd : UInt8) (rs1 : Option UInt8)
    (custom : UInt8) :
    sortOut encodeSwitches none (encodeLine operation rd rs1 custom).tail .none =
      some (encodeGiven operation rd rs1 custom) := by
  show sortOut encodeSwitches none (("--rd=" ++ toString rd.toNat) ::
    ("--custom=" ++ toString custom.toNat) :: _) _ = _
  rw [sortOut_value "--rd=" "rd" rfl (by decide) rfl rfl rfl,
    sortOut_value "--custom=" "custom" rfl (by decide) rfl rfl rfl]
  cases rs1 with
  | none => exact sortOut_plain
  | some register =>
    exact (sortOut_value "--rs1=" "rs1" rfl (by decide) rfl rfl rfl).trans sortOut_plain

/-- The line asks for this word. -/
theorem parse?_encodeLine (operation : Operation) (rd : UInt8) (rs1 : Option UInt8)
    (custom : UInt8) :
    parse? (encodeLine operation rd rs1 custom) = some (.encode operation rd rs1 custom) := by
  have hname : operation? (operationName operation) = some operation := by
    cases operation <;> rfl
  have hread (n : UInt8) : (word8? (toString n.toNat)).map some = some (some n) := by
    rw [word8?_toString, Option.map_some]
  have hrd : (encodeGiven operation rd rs1 custom).value? "rd" word8? = some (some rd) := by
    cases rs1 <;> exact hread rd
  have hrs1 : (encodeGiven operation rd rs1 custom).value? "rs1" word8? = some rs1 := by
    cases rs1 with
    | none => rfl
    | some register => exact hread register
  have hcustom : (encodeGiven operation rd rs1 custom).value? "custom" word8? =
      some (some custom) := by
    cases rs1 <;> exact hread custom
  show (sortOut encodeSwitches none (encodeLine operation rd rs1 custom).tail .none >>=
    fun given => _) = _
  rw [sortOut_encodeLine]
  show (operation? (operationName operation) >>= fun operation => _) = _
  rw [hname]
  show ((encodeGiven operation rd rs1 custom).value? "rd" word8? >>= fun rd => _) = _
  rw [hrd]
  show ((encodeGiven operation rd rs1 custom).value? "rs1" word8? >>= fun rs1 => _) = _
  rw [hrs1]
  show ((encodeGiven operation rd rs1 custom).value? "custom" word8? >>= fun custom => _) = _
  rw [hcustom]
  rfl

/-! ## What is printed -/

variable {operation : Operation} {rd custom source : UInt8} {rs1 : Option UInt8} {word : UInt32}
  {line : List String} {tree : FileTree}

/-- The word of an operation is printed with its note. -/
theorem runOn_of_word (h : parse? line = some (.encode operation rd rs1 custom))
    (hword : operation.word? custom rd (rs1.getD operation.defaultSource) = some word) :
    runOn tree line = (⟨0, annotated word operation rd.toNat
      (rs1.getD operation.defaultSource).toNat ++ "\n", none⟩, tree) := by
  have hreach : reach (Command.encode operation rd rs1 custom).run "" tree =
      ⟨.ok (), annotated word operation rd.toNat (rs1.getD operation.defaultSource).toNat ++ "\n",
        tree⟩ := by
    show reach (runEncode operation rd rs1 custom) "" tree = _
    simp only [runEncode, hword, reach_printLine, String.empty_append, annotated]
  rw [runOn_of_parse h, hreach]

/-- Where there is none, nothing is printed. -/
theorem exitCode_runOn_of_no_word (h : parse? line = some (.encode operation rd rs1 custom))
    (hword : operation.word? custom rd (rs1.getD operation.defaultSource) = none) :
    (runOn tree line).1.exitCode = 1 := by
  have hreach : reach (Command.encode operation rd rs1 custom).run "" tree =
      ⟨.error (.cannotEncode operation custom rd (rs1.getD operation.defaultSource)), "",
        tree⟩ := by
    show reach (runEncode operation rd rs1 custom) "" tree = _
    simp only [runEncode, hword]
    rfl
  rw [runOn_of_parse h, hreach]

theorem isSome_word? :
    (operation.word? custom rd source).isSome ↔
      custom ≤ 3 ∧ rd ≤ 31 ∧ (operation.operand ≠ .none → source ≤ 31) := by
  rw [Operation.word?_eq, Instruction.isSome_encode?, Operation.fits_instruction]

/-- What is printed is one line. -/
theorem lines_annotated (word : UInt32) (operation : Operation) (rd rs1 : Nat) :
    Text.lines (annotated word operation rd rs1 ++ "\n").toList =
      [(annotated word operation rd rs1).toList] := by
  have htext : (annotated word operation rd rs1 ++ "\n").toList =
      [(annotated word operation rd rs1).toList].flatMap (· ++ ['\n']) := by
    rw [String.toList_append, List.flatMap_singleton]
    rfl
  rw [htext]
  apply Text.lines_flatMap
  intro row hrow
  rw [List.mem_singleton.mp hrow]
  exact newline_not_mem_annotated word operation rd rs1

/-- The word is decoded to the operation of the note, with its destination. -/
structure Annotation.Names (a : Annotation) (i : Instruction) : Prop where
  decoded : Instruction.decode? a.word = some i
  operation : Operation.ofInstruction? i = some a.operation
  rd : i.rd.toNat = a.rd

/-- The source in a word is the one asked for if the operation reads it, or if it is zero. -/
theorem source_eq_iff {i : Instruction} (h : i.Carries operation custom rd source) :
    i.rs1.toNat = source.toNat ↔ operation.operand ≠ .none ∨ source = 0 := by
  rw [UInt8.toNat_inj, h.rs1]
  split
  · rename_i hnone
    rw [eq_comm]
    exact (or_iff_right (not_not.mpr hnone)).symm
  · rename_i hreads
    exact iff_of_true rfl (.inl hreads)

theorem reads_or_defaultSource_eq_zero (operation : Operation) :
    operation.operand ≠ .none ∨ operation.defaultSource = 0 := by
  cases operation <;> decide

/-- There is a command line for every operation with its registers and slot. It exits with 0 exactly
if the slot and the registers that are used fit, and then prints one line, whose note names the
operation and the destination of the word. The source it shows is the one asked for; this is in the
word where the operation reads it, and where it is register zero, as when none was asked for. -/
theorem annotation_names_word_and_shows_arguments (operation : Operation) (rd : UInt8)
    (rs1 : Option UInt8) (custom : UInt8) :
    parse? (encodeLine operation rd rs1 custom) = some (.encode operation rd rs1 custom) ∧
    ∀ line, parse? line = some (.encode operation rd rs1 custom) →
      ∀ (tree : FileTree) (source : UInt8), source = rs1.getD operation.defaultSource →
        ((runOn tree line).1.exitCode = 0 ↔
          custom ≤ 3 ∧ rd ≤ 31 ∧ (operation.operand ≠ .none → source ≤ 31)) ∧
        ((runOn tree line).1.exitCode = 0 →
          ∃ row a i, Text.lines (runOn tree line).1.output.toList = [row] ∧
            Annotation.ofLine? row = some a ∧ a.Names i ∧ i.custom = custom ∧
            a.operation = operation ∧ a.rd = rd.toNat ∧ a.rs1 = source.toNat ∧
            (operation.operand = .none → i.rs1 = 0) ∧
            (i.rs1.toNat = a.rs1 ↔ operation.operand ≠ .none ∨ source = 0) ∧
            (rs1 = none → i.rs1.toNat = a.rs1)) := by
  refine ⟨parse?_encodeLine operation rd rs1 custom, ?_⟩
  rintro line h tree source rfl
  rw [← isSome_word?]
  cases hword : operation.word? custom rd (rs1.getD operation.defaultSource) with
  | none =>
    rw [exitCode_runOn_of_no_word h hword]
    exact ⟨iff_of_false (by decide) nofun, fun hexit => absurd hexit (by decide)⟩
  | some word =>
    obtain ⟨i, hdecode, hcarries⟩ := Operation.word?_eq_some_iff.mp hword
    rw [runOn_of_word h hword]
    refine ⟨iff_of_true rfl rfl, fun _ => ?_⟩
    refine ⟨_, _, i, lines_annotated _ _ _ _, ofLine?_annotated _ _ _ _, ?_, hcarries.custom, rfl,
      rfl, rfl, ?_, source_eq_iff hcarries, ?_⟩
    · exact ⟨hdecode, hcarries.selects, congrArg UInt8.toNat hcarries.rd⟩
    · intro hnone
      rw [hcarries.rs1, if_pos hnone]
    · rintro rfl
      exact (source_eq_iff hcarries).mpr (reads_or_defaultSource_eq_zero operation)

/-- The word of an echo from the register that is used where none is named. -/
theorem echo_is_annotated :
    let tree : FileTree := ⟨[], []⟩
    let line := ["encode", "echo", "--rd", "5"]
    parse? line = some (.encode .echo 5 none 2) ∧ (runOn tree line).1.exitCode = 0 ∧
      ∃ row a i, Text.lines (runOn tree line).1.output.toList = [row] ∧
        Annotation.ofLine? row = some a ∧ a.Names i ∧ a.operation = .echo ∧ i.rd.toNat = 5 ∧
        a.rs1 = 10 ∧ i.rs1.toNat = a.rs1 := by
  intro tree line
  have hparse : parse? line = some (.encode .echo 5 none 2) := by decide +kernel
  obtain ⟨hexit, hannotated⟩ :=
    (annotation_names_word_and_shows_arguments .echo 5 none 2).2 line hparse tree 10 rfl
  have hfits := hexit.mpr (by decide)
  obtain ⟨row, a, i, hrow, ha, hnames, -, hoperation, hrd, hrs1, -, hsource, -⟩ :=
    hannotated hfits
  exact ⟨hparse, hfits, row, a, i, hrow, ha, hnames, hoperation, hnames.rd.trans hrd, hrs1,
    hsource.mpr (.inl (by decide))⟩

/-- The note of an enabling shows a register that is asked for and not in the word. -/
theorem ignored_source_is_shown :
    let outcome := (runOn ⟨[], []⟩ ["encode", "enable", "--rs1", "7"]).1
    outcome.exitCode = 0 ∧ outcome.output = ".word 0x0400705b  # ENABLE rd=x0 rs1=x7\n" ∧
      Annotation.ofLine? ".word 0x0400705b  # ENABLE rd=x0 rs1=x7".toList =
        some ⟨0x0400705b, .enable, 0, 7⟩ ∧
      ∃ i, Instruction.decode? 0x0400705b = some i ∧ i.rs1 = 0 := by
  refine ⟨by decide +kernel, by decide +kernel, by decide +kernel, _, rfl, by decide⟩

end ScanChain.Command
