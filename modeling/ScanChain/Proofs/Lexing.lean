/-
# ScanChain.Proofs.Lexing — the lexemes of a written value

A value is written in two forms, with blanks and without, and both are cut into the same lexemes
(`tokens_compact`, `tokens_pretty`). A string comes back character by character: what is escaped is
written so that it stands for itself again, and no escape names half of a surrogate pair. A number
ends where a comma, a bracket or a blank stands, and nothing else follows a number that is written.

Counts are read back as they are. A binary64 number is written with the fewest digits that stand for
it and read in rounded steps, which is another matter; a text with such a number is cut right as soon
as the number alone is (`Lexable`).
-/
import Mathlib.Data.List.TakeWhile
import ScanChain.Json.Token
import ScanChain.Json.Value

namespace ScanChain.Json

namespace Token

/-! ## Lexemes take characters -/

section Lengths

variable {text rest after : List Char}

theorem length_pieces? {pieces : List Piece} (h : pieces? text = some (pieces, after)) :
    after.length < text.length := by
  fun_induction pieces? text generalizing pieces with
  | case1 => cases h
  | case2 rest =>
    cases h
    simp
  | case3 a b c d rest value ps tail hrest _ ih =>
    cases h
    have := ih hrest
    simp only [List.length_cons]
    omega
  | case4 => cases h
  | case5 c rest _ value ps tail hrest _ ih =>
    cases h
    have := ih hrest
    simp only [List.length_cons]
    omega
  | case6 => cases h
  | case7 => cases h
  | case8 c rest _ _ _ _ ps tail hrest ih =>
    cases h
    have := ih hrest
    simp only [List.length_cons]
    omega
  | case9 => cases h

theorem length_fraction? {fraction : Option (List Char)}
    (h : fraction? text = some (fraction, after)) : after.length ≤ text.length := by
  unfold fraction? at h
  split at h
  · next rest =>
    split at h
    · cases h
    · cases h
      have := (List.dropWhile_suffix Char.isDigit (l := rest)).length_le
      simp only [List.length_cons]
      omega
  · cases h
    exact Nat.le_refl _

theorem length_splitSign (text : List Char) :
    (Binary64.splitSign text).2.length ≤ text.length := by
  unfold Binary64.splitSign
  split <;> simp

theorem length_power? {exponent : Option Int} (h : power? text = some (exponent, after)) :
    after.length ≤ text.length := by
  unfold power? at h
  split at h
  · cases h
    exact Nat.le_refl _
  · next mark rest =>
    split at h
    · simp only at h
      split at h
      · cases h
      · cases h
        have hdigits := (List.dropWhile_suffix Char.isDigit
          (l := (Binary64.splitSign rest).2)).length_le
        have := length_splitSign rest
        simp only [List.length_cons]
        omega
    · cases h
      exact Nat.le_refl _

/-- A number is a sign, digits, a fraction and a power of ten, one after the other. -/
theorem numeral?_eq_some_iff {numeral : Numeral} :
    numeral? text = some (numeral, after) ↔
      numeral.negative = (signOf text).1 ∧ numeral.whole = (wholeOf (signOf text).2).1 ∧
        numeral.whole ≠ [] ∧ ∃ afterFraction,
          fraction? (wholeOf (signOf text).2).2 = some (numeral.fraction, afterFraction) ∧
            power? afterFraction = some (numeral.exponent, after) := by
  unfold numeral?
  rcases signOf text with ⟨negative, unsigned⟩
  rcases hwhole : wholeOf unsigned with ⟨whole, afterWhole⟩
  simp only [hwhole]
  constructor
  · intro h
    split at h
    · cases h
    next hne =>
    split at h
    · cases h
    next fraction afterFraction hfraction =>
    split at h
    · cases h
    next exponent rest hpower =>
    cases h
    exact ⟨rfl, rfl, hne, afterFraction, hfraction, hpower⟩
  · rintro ⟨rfl, rfl, hne, afterFraction, hfraction, hpower⟩
    rw [if_neg hne, hfraction]
    simp only [hpower]

theorem length_wholeOf (text : List Char) :
    (wholeOf text).1.length + (wholeOf text).2.length = text.length := by
  unfold wholeOf
  split
  · simp
    omega
  · rw [← List.length_append, List.takeWhile_append_dropWhile]

theorem length_signOf (text : List Char) : (signOf text).2.length ≤ text.length := by
  unfold signOf
  split <;> simp

theorem length_numeral? {numeral : Numeral} (h : numeral? text = some (numeral, after)) :
    after.length < text.length := by
  obtain ⟨-, hwhole, hne, afterFraction, hfraction, hpower⟩ := numeral?_eq_some_iff.mp h
  have hpos : 0 < numeral.whole.length := List.length_pos_iff.mpr hne
  rw [hwhole] at hpos
  have := length_wholeOf (signOf text).2
  have := length_signOf text
  have := length_fraction? hfraction
  have := length_power? hpower
  omega

/-- A lexeme leaves no more than what follows its first character. -/
theorem length_lexeme (c : Char) (rest : List Char) :
    (lexeme c rest).2.length ≤ rest.length := by
  unfold lexeme
  split
  · exact Nat.le_refl _
  · exact Nat.le_refl _
  · exact Nat.le_refl _
  · exact Nat.le_refl _
  · exact Nat.le_refl _
  · exact Nat.le_refl _
  · split
    · next hpieces => exact Nat.le_of_lt (length_pieces? hpieces)
    · exact Nat.zero_le _
  · split
    · exact (List.drop_suffix 3 rest).length_le
    · exact Nat.zero_le _
  · split
    · exact (List.drop_suffix 3 rest).length_le
    · exact Nat.zero_le _
  · split
    · exact (List.drop_suffix 4 rest).length_le
    · exact Nat.zero_le _
  · split
    · next hnumeral => exact Nat.le_of_lt_succ (length_numeral? hnumeral)
    · exact Nat.zero_le _

end Lengths
end Token

section Tokens

variable {c : Char} {rest text : List Char}

/-- As many characters as the text has are enough. -/
theorem tokensWithin_eq {fuel : Nat} (h : text.length ≤ fuel) :
    tokensWithin fuel text = tokens text := by
  suffices hsame : ∀ more, text.length ≤ more → tokensWithin fuel text = tokensWithin more text from
    hsame _ (Nat.le_refl _)
  intro more hmore
  induction fuel generalizing text more with
  | zero =>
    obtain rfl : text = [] := List.length_eq_zero_iff.mp (Nat.le_zero.mp h)
    cases more <;> rfl
  | succ fuel ih =>
    match text, more with
    | [], 0 => rfl
    | [], more + 1 => rfl
    | c :: rest, more + 1 =>
      have hrest : rest.length ≤ fuel := Nat.le_of_succ_le_succ h
      have hrest' : rest.length ≤ more := Nat.le_of_succ_le_succ hmore
      have hafter := Token.length_lexeme c rest
      simp only [tokensWithin]
      split
      · exact ih hrest more hrest'
      · rw [ih (Nat.le_trans hafter hrest) more (Nat.le_trans hafter hrest')]

@[simp] theorem tokens_nil : tokens [] = [] := rfl

theorem tokens_gap (h : Token.isGap c = true) : tokens (c :: rest) = tokens rest := by
  show tokensWithin (rest.length + 1) (c :: rest) = _
  rw [tokensWithin, if_pos h, tokensWithin_eq (Nat.le_refl _)]

theorem tokens_cons (h : Token.isGap c = false) :
    tokens (c :: rest) = (Token.lexeme c rest).1 :: tokens (Token.lexeme c rest).2 := by
  show tokensWithin (rest.length + 1) (c :: rest) = _
  rw [tokensWithin, if_neg (by simp [h])]
  exact congrArg (List.cons _) (tokensWithin_eq (Token.length_lexeme c rest))

end Tokens

/-! ## Numbers -/

/-- What may stand behind a number without becoming a part of it. -/
def Delimits (rest : List Char) : Prop :=
  ∀ c ∈ rest.head?, c.isDigit = false ∧ c ≠ '.' ∧ c ≠ 'e' ∧ c ≠ 'E'

theorem delimits_nil : Delimits [] := by simp [Delimits]

theorem delimits_cons {c : Char} {rest : List Char}
    (h : c.isDigit = false ∧ c ≠ '.' ∧ c ≠ 'e' ∧ c ≠ 'E') : Delimits (c :: rest) := by
  simpa [Delimits] using h

namespace Token

section Numbers

variable {text rest after : List Char}

theorem takeWhile_isDigit_append (hrest : Delimits rest) :
    (text ++ rest).takeWhile Char.isDigit = text.takeWhile Char.isDigit := by
  have hnone : rest.takeWhile Char.isDigit = [] := by
    cases rest with
    | nil => rfl
    | cons c rest => simp [(hrest c rfl).1]
  rw [List.takeWhile_append, hnone, List.append_nil]
  split
  · next hall =>
    exact ((List.takeWhile_prefix Char.isDigit).eq_of_length hall).symm
  · rfl

theorem dropWhile_isDigit_append (hrest : Delimits rest) :
    (text ++ rest).dropWhile Char.isDigit = text.dropWhile Char.isDigit ++ rest := by
  have hnone : rest.dropWhile Char.isDigit = rest := by
    cases rest with
    | nil => rfl
    | cons c rest => simp [(hrest c rfl).1]
  rw [List.dropWhile_append, hnone]
  split
  · next hall => rw [List.isEmpty_iff.mp hall, List.nil_append]
  · rfl

theorem fraction?_append (hrest : Delimits rest) {fraction : Option (List Char)}
    (h : fraction? text = some (fraction, after)) :
    fraction? (text ++ rest) = some (fraction, after ++ rest) := by
  unfold fraction? at h
  split at h
  · next digits =>
    split at h
    · cases h
    next hne =>
    cases h
    rw [List.cons_append, fraction?, takeWhile_isDigit_append hrest, dropWhile_isDigit_append hrest,
      if_neg hne]
  · next hpoint =>
    cases h
    unfold fraction?
    split
    · next digits htext =>
      exfalso
      cases text with
      | nil =>
        rw [List.nil_append] at htext
        subst htext
        exact (hrest '.' rfl).2.1 rfl
      | cons c text =>
        obtain ⟨rfl, -⟩ := List.cons.inj htext
        exact hpoint text rfl
    · rfl

theorem splitSign_append (hne : (Binary64.splitSign text).2 ≠ []) :
    Binary64.splitSign (text ++ rest) =
      ((Binary64.splitSign text).1, (Binary64.splitSign text).2 ++ rest) := by
  cases text with
  | nil => exact absurd rfl hne
  | cons c text =>
    unfold Binary64.splitSign
    rw [List.cons_append]
    split <;> simp_all

theorem power?_append (hrest : Delimits rest) {exponent : Option Int}
    (h : power? text = some (exponent, after)) :
    power? (text ++ rest) = some (exponent, after ++ rest) := by
  cases text with
  | nil =>
    cases h
    rw [List.nil_append]
    cases rest with
    | nil => rfl
    | cons c rest =>
      have hmark := hrest c rfl
      rw [power?, if_neg (by simp [hmark])]
  | cons mark text =>
    rw [power?] at h
    rw [List.cons_append, power?]
    split at h
    · next hmark =>
      simp only at h
      split at h
      · cases h
      next hdigits =>
      have hne : (Binary64.splitSign text).2 ≠ [] := by
        intro hnil
        exact hdigits (by rw [hnil]; rfl)
      cases h
      rw [if_pos hmark, splitSign_append hne]
      simp only [takeWhile_isDigit_append hrest, dropWhile_isDigit_append hrest, if_neg hdigits]
    · next hmark =>
      cases h
      rw [if_neg hmark, List.cons_append]

theorem wholeOf_append (hrest : Delimits rest) :
    wholeOf (text ++ rest) = ((wholeOf text).1, (wholeOf text).2 ++ rest) := by
  by_cases hzero : ∃ digits, text = '0' :: digits
  · obtain ⟨digits, rfl⟩ := hzero
    rfl
  · have hboth : ∀ digits, text ++ rest ≠ '0' :: digits := by
      intro digits heq
      cases text with
      | nil =>
        rw [List.nil_append] at heq
        subst heq
        exact absurd (hrest '0' rfl).1 (by decide)
      | cons c text =>
        obtain ⟨rfl, -⟩ := List.cons.inj heq
        exact hzero ⟨text, rfl⟩
    rw [wholeOf.eq_2 _ hboth, wholeOf.eq_2 _ fun digits heq => hzero ⟨digits, heq⟩,
      takeWhile_isDigit_append hrest, dropWhile_isDigit_append hrest]

theorem signOf_append (hne : text ≠ []) :
    signOf (text ++ rest) = ((signOf text).1, (signOf text).2 ++ rest) := by
  cases text with
  | nil => exact absurd rfl hne
  | cons c text =>
    unfold signOf
    rw [List.cons_append]
    split <;> simp_all

/-- A number ends at what delimits it. -/
theorem numeral?_append (hrest : Delimits rest) {numeral : Numeral}
    (h : numeral? text = some (numeral, after)) :
    numeral? (text ++ rest) = some (numeral, after ++ rest) := by
  obtain ⟨hsign, hwhole, hne, afterFraction, hfraction, hpower⟩ := numeral?_eq_some_iff.mp h
  have htext : text ≠ [] := by
    rintro rfl
    exact hne hwhole
  rw [numeral?_eq_some_iff, signOf_append htext, wholeOf_append hrest]
  exact ⟨hsign, hwhole, hne, _, fraction?_append hrest hfraction, power?_append hrest hpower⟩

/-- A number starts with a minus or a digit. -/
theorem first_of_numeral? {c : Char} {numeral : Numeral}
    (h : numeral? (c :: text) = some (numeral, after)) : c = '-' ∨ c.isDigit = true := by
  obtain ⟨-, hwhole, hne, -⟩ := numeral?_eq_some_iff.mp h
  by_cases hminus : c = '-'
  · exact Or.inl hminus
  · refine Or.inr (Decidable.byContradiction fun hdigit => hne ?_)
    have hzero : ∀ digits, c :: text ≠ '0' :: digits := by
      rintro digits heq
      obtain ⟨rfl, -⟩ := List.cons.inj heq
      exact hdigit (by decide)
    have hunsigned : signOf (c :: text) = (false, c :: text) := by
      refine signOf.eq_2 _ fun rest heq => ?_
      exact hminus (List.cons.inj heq).1
    rw [hwhole, hunsigned, wholeOf.eq_2 _ hzero]
    simp [hdigit]

theorem lexeme_of_number {c : Char} (h : c = '-' ∨ c.isDigit = true) :
    lexeme c rest = match numeral? (c :: rest) with
      | some (numeral, after) => (.number numeral, after)
      | none => (.bad, []) := by
  unfold lexeme
  split
  all_goals first
    | rfl
    | exact absurd h (by decide)

theorem isGap_of_number {c : Char} (h : c = '-' ∨ c.isDigit = true) : isGap c = false := by
  rcases h with rfl | h
  · rfl
  · refine Bool.eq_false_iff.mpr fun hgap => ?_
    simp only [isGap, Bool.or_eq_true, beq_iff_eq] at hgap
    rcases hgap with ((rfl | rfl) | rfl) | rfl <;> cases h

theorem tokens_numeral (hrest : Delimits rest) {numeral : Numeral}
    (h : numeral? text = some (numeral, after)) :
    tokens (text ++ rest) = .number numeral :: tokens (after ++ rest) := by
  cases text with
  | nil => cases h
  | cons c text =>
    have hfirst := first_of_numeral? h
    have happend := numeral?_append hrest h
    rw [List.cons_append] at happend
    rw [List.cons_append, tokens_cons (isGap_of_number hfirst), lexeme_of_number hfirst, happend]

theorem numeral?_of_lexeme {c : Char} {numeral : Numeral} (h : (lexeme c rest).1 = .number numeral) :
    numeral? (c :: rest) = some (numeral, (lexeme c rest).2) := by
  unfold lexeme at h ⊢
  split at h
  case h_11 =>
    split at h
    · next found after hnumeral =>
      cases h
      simp only [hnumeral]
    · cases h
  all_goals first
    | cases h
    | split at h <;> cases h

/-- Blanks at the end of a text are passed over. -/
theorem tokens_append_of_nil (h : tokens text = []) : tokens (text ++ rest) = tokens rest := by
  induction text with
  | nil => rfl
  | cons c text ih =>
    cases hgap : isGap c with
    | true =>
      rw [tokens_gap hgap] at h
      rw [List.cons_append, tokens_gap hgap, ih h]
    | false =>
      rw [tokens_cons hgap] at h
      cases h

/-- A text that is one number is this number before whatever delimits it. -/
theorem tokens_append_of_number (hrest : Delimits rest) {numeral : Numeral}
    (h : tokens text = [.number numeral]) :
    tokens (text ++ rest) = .number numeral :: tokens rest := by
  induction text with
  | nil => cases h
  | cons c text ih =>
    cases hgap : isGap c with
    | true =>
      rw [tokens_gap hgap] at h
      rw [List.cons_append, tokens_gap hgap, ih h]
    | false =>
      rw [tokens_cons hgap, List.cons.injEq] at h
      have hnumeral := numeral?_of_lexeme h.1
      rw [tokens_numeral hrest hnumeral, tokens_append_of_nil h.2]

end Numbers

/-! ## Counts -/

/-- A number above zero does not start with `0`. -/
theorem head?_toDigits_ne {n : Nat} (hn : 0 < n) : (Nat.toDigits 10 n).head? ≠ some '0' := by
  induction n using Nat.strongRecOn with
  | ind n ih =>
    rcases Nat.lt_or_ge n 10 with hlt | hge
    · have hdigit : ∀ d < 10, 0 < d → d.digitChar ≠ '0' := by decide
      rw [Nat.toDigits_of_lt_base hlt]
      simpa using hdigit n hlt hn
    · have hfirst := ih (n / 10) (by omega) (by omega)
      rw [Nat.toDigits_of_base_le (by decide) hge, List.head?_append]
      cases hdigits : Nat.toDigits 10 (n / 10) with
      | nil => exact absurd hdigits Nat.toDigits_ne_nil
      | cons c digits => rwa [hdigits] at hfirst

theorem numeral?_toDigits (n : Nat) :
    numeral? (Nat.toDigits 10 n) = some (⟨false, Nat.toDigits 10 n, none, none⟩, []) := by
  have hdigit : ∀ c ∈ Nat.toDigits 10 n, c.isDigit = true := fun c hc =>
    Nat.isDigit_of_mem_toDigits (by decide) (by decide) hc
  have hsign : signOf (Nat.toDigits 10 n) = (false, Nat.toDigits 10 n) := by
    refine signOf.eq_2 _ fun rest heq => ?_
    exact absurd (hdigit '-' (by rw [heq]; simp)) (by decide)
  have hwhole : wholeOf (Nat.toDigits 10 n) = (Nat.toDigits 10 n, []) := by
    rcases Nat.eq_zero_or_pos n with rfl | hn
    · rfl
    · have hzero : ∀ digits, Nat.toDigits 10 n ≠ '0' :: digits := by
        intro digits heq
        exact head?_toDigits_ne hn (by rw [heq]; rfl)
      rw [wholeOf.eq_2 _ hzero, List.takeWhile_eq_self_iff.mpr hdigit,
        List.dropWhile_eq_nil_iff.mpr hdigit]
  rw [numeral?_eq_some_iff, hsign, hwhole]
  exact ⟨rfl, rfl, Nat.toDigits_ne_nil, [], rfl, rfl⟩

/-! ## Strings -/

/-- The piece that a character is written as: a code unit for a control character without a letter of
its own. -/
def pieceOf (c : Char) : Piece :=
  if c.toNat < 0x20 ∧ c ∉ ['\x08', '\t', '\n', '\x0c', '\r'] then .codeUnit c.toNat else .char c

theorem codeUnit?_hexDigits {n : Nat} (h : n < 0x20) :
    ∃ a b c d, Text.hexDigits 4 n = [a, b, c, d] ∧ codeUnit? a b c d = some n := by
  have hall : ∀ n < 0x20, codeUnit? (Nat.digitChar (n >>> 12 % 16)) (Nat.digitChar (n >>> 8 % 16))
      (Nat.digitChar (n >>> 4 % 16)) (Nat.digitChar (n >>> 0 % 16)) = some n := by
    decide
  exact ⟨_, _, _, _, rfl, hall n h⟩

/-- A character is one piece. -/
theorem pieces?_escape {text after : List Char} {pieces : List Piece}
    (h : pieces? text = some (pieces, after)) (c : Char) :
    pieces? (Value.escape c ++ text) = some (pieceOf c :: pieces, after) := by
  by_cases hletter : c ∈ ['\x22', '\x5c', '\x08', '\t', '\n', '\x0c', '\r']
  · -- It has a letter of its own behind the backslash, or stands for itself there.
    simp only [List.mem_cons, List.not_mem_nil, or_false] at hletter
    rcases hletter with rfl | rfl | rfl | rfl | rfl | rfl | rfl
    all_goals simp [Value.escape, pieces?, shortEscape?, h, pieceOf]
  simp only [List.mem_cons, List.not_mem_nil, or_false, not_or] at hletter
  obtain ⟨hquote, hslash, hb, ht, hn, hf, hr⟩ := hletter
  by_cases hlow : c.toNat < 0x20
  · obtain ⟨d₁, d₂, d₃, d₄, hdigits, hvalue⟩ := codeUnit?_hexDigits hlow
    have hpiece : pieceOf c = .codeUnit c.toNat := by simp [pieceOf, hlow, hb, ht, hn, hf, hr]
    have hescape : Value.escape c = ['\x5c', 'u', d₁, d₂, d₃, d₄] := by
      simp [Value.escape, hquote, hslash, hb, ht, hn, hf, hr, hlow, hdigits]
    rw [hescape, hpiece]
    show pieces? ('\x5c' :: 'u' :: d₁ :: d₂ :: d₃ :: d₄ :: text) = _
    rw [pieces?.eq_3, hvalue, h]
  · have hpiece : pieceOf c = .char c := by simp [pieceOf, hlow]
    have hescape : Value.escape c = [c] := by
      simp [Value.escape, hquote, hslash, hb, ht, hn, hf, hr, hlow]
    rw [hescape, hpiece, List.singleton_append, pieces?.eq_5 _ _ hquote
      (fun _ _ _ _ _ heq _ => hslash heq) (fun _ _ heq _ => hslash heq), h]
    simp [hlow, hslash]

theorem pieces?_flatMap_escape (content rest : List Char) :
    pieces? (content.flatMap Value.escape ++ '\x22' :: rest) = some (content.map pieceOf, rest) := by
  induction content with
  | nil => simp [pieces?]
  | cons c content ih =>
    rw [List.flatMap_cons, List.append_assoc, List.map_cons]
    exact pieces?_escape ih c

/-- A code unit below the surrogates is a character. -/
theorem join?_codeUnit {value : Nat} (h : value < 0xd800) (pieces : List Piece) :
    join? (.codeUnit value :: pieces) = (join? pieces).map (Char.ofNat value :: ·) := by
  have hhigh : ¬(0xd800 ≤ value ∧ value < 0xdc00) := by omega
  have hlow : ¬(0xdc00 ≤ value ∧ value < 0xe000) := by omega
  have hany : ¬(0xd800 ≤ value ∧ value < 0xe000) := by omega
  match pieces with
  | [] => simp only [join?, if_neg hany]
  | .char _ :: _ => simp only [join?, if_neg hany]
  | .codeUnit _ :: _ => rw [join?, if_neg hhigh, if_neg hlow]

theorem join?_pieceOf (c : Char) (pieces : List Piece) :
    join? (pieceOf c :: pieces) = (join? pieces).map (c :: ·) := by
  unfold pieceOf
  split
  · next hcontrol =>
    rw [join?_codeUnit (by omega), Char.ofNat_toNat]
  · rfl

theorem join?_map_pieceOf (content : List Char) : join? (content.map pieceOf) = some content := by
  induction content with
  | nil => rfl
  | cons c content ih => rw [List.map_cons, join?_pieceOf, ih, Option.map_some]

end Token

/-- A string is one lexeme, with its text. -/
theorem tokens_textForm (content : String) (rest : List Char) :
    tokens ((Value.textForm content).toList ++ rest) = .text (some content) :: tokens rest := by
  have hform : (Value.textForm content).toList ++ rest =
      '\x22' :: (content.toList.flatMap Value.escape ++ '\x22' :: rest) := by
    simp [Value.textForm]
  rw [hform, tokens_cons rfl]
  simp only [Token.lexeme, Token.pieces?_flatMap_escape, Token.join?_map_pieceOf, Option.map_some,
    String.ofList_toList]

/-! ## Values -/

namespace Value

mutual

/-- The lexemes of a value. -/
def lexemes : Value → List Token
  | null => [.null]
  | boolean value => [.boolean value]
  | count n => [.number ⟨false, Nat.toDigits 10 n, none, none⟩]
  | real x => tokens (realForm x).toList
  | text content => [.text (some content)]
  | array items => .openArray :: itemLexemes items
  | object members => .openObject :: memberLexemes members

/-- The lexemes of items, with the bracket behind them. -/
def itemLexemes : List Value → List Token
  | [] => [.closeArray]
  | item :: items => item.lexemes ++ furtherItems items

/-- The lexemes of items from the comma before them. -/
def furtherItems : List Value → List Token
  | [] => [.closeArray]
  | item :: items => .comma :: (item.lexemes ++ furtherItems items)

/-- The lexemes of members, with the bracket behind them. -/
def memberLexemes : List (String × Value) → List Token
  | [] => [.closeObject]
  | (name, value) :: members =>
    .text (some name) :: .colon :: (value.lexemes ++ furtherMembers members)

/-- The lexemes of members from the comma before them. -/
def furtherMembers : List (String × Value) → List Token
  | [] => [.closeObject]
  | (name, value) :: members =>
    .comma :: .text (some name) :: .colon :: (value.lexemes ++ furtherMembers members)

end

mutual

/-- Every binary64 number in a value is cut right where it stands alone. -/
def Lexable : Value → Prop
  | real x => ∃ numeral, tokens (realForm x).toList = [.number numeral]
  | array items => LexableItems items
  | object members => LexableMembers members
  | null | boolean _ | count _ | text _ => True

/-- Every item is lexable. -/
def LexableItems : List Value → Prop
  | [] => True
  | item :: items => item.Lexable ∧ LexableItems items

/-- Every value of a member is lexable. -/
def LexableMembers : List (String × Value) → Prop
  | [] => True
  | (_, value) :: members => value.Lexable ∧ LexableMembers members

end

theorem lexableItems_iff {items : List Value} : LexableItems items ↔ ∀ v ∈ items, v.Lexable := by
  induction items with
  | nil => simp [LexableItems]
  | cons item items ih => simp [LexableItems, ih]

theorem lexableMembers_iff {members : List (String × Value)} :
    LexableMembers members ↔ ∀ m ∈ members, m.2.Lexable := by
  induction members with
  | nil => simp [LexableMembers]
  | cons member members ih => simp [LexableMembers, ih]

end Value

section Signs

variable (rest : List Char)

@[simp] theorem tokens_openArray : tokens ('[' :: rest) = .openArray :: tokens rest := tokens_cons rfl

@[simp] theorem tokens_closeArray : tokens (']' :: rest) = .closeArray :: tokens rest :=
  tokens_cons rfl

@[simp] theorem tokens_openObject : tokens ('\x7b' :: rest) = .openObject :: tokens rest :=
  tokens_cons rfl

@[simp] theorem tokens_closeObject : tokens ('\x7d' :: rest) = .closeObject :: tokens rest :=
  tokens_cons rfl

@[simp] theorem tokens_colon : tokens (':' :: rest) = .colon :: tokens rest := tokens_cons rfl

@[simp] theorem tokens_comma : tokens (',' :: rest) = .comma :: tokens rest := tokens_cons rfl

end Signs

namespace Value

theorem delimits_closeArray (rest : List Char) : Delimits (']' :: rest) := delimits_cons (by decide)

theorem delimits_closeObject (rest : List Char) : Delimits ('\x7d' :: rest) :=
  delimits_cons (by decide)

theorem delimits_comma (rest : List Char) : Delimits (',' :: rest) := delimits_cons (by decide)

theorem toList_comma_append (rest : List Char) : ",".toList ++ rest = ',' :: rest := rfl

theorem toList_colon_append (rest : List Char) : ":".toList ++ rest = ':' :: rest := rfl

theorem toList_colon_blank_append (rest : List Char) : ": ".toList ++ rest = ':' :: ' ' :: rest :=
  rfl

theorem tokens_count (n : Nat) {rest : List Char} (hrest : Delimits rest) :
    tokens ((toString n).toList ++ rest) = (count n).lexemes ++ tokens rest := by
  rw [Nat.toString_eq_ofList_toDigits, String.toList_ofList]
  exact Token.tokens_numeral hrest (Token.numeral?_toDigits n)

theorem tokens_real {x : Binary64} (hx : (real x).Lexable) {rest : List Char}
    (hrest : Delimits rest) :
    tokens ((realForm x).toList ++ rest) = (real x).lexemes ++ tokens rest := by
  obtain ⟨numeral, hnumeral⟩ := hx
  rw [lexemes, hnumeral, Token.tokens_append_of_number hrest hnumeral]
  rfl

theorem furtherItems_cons (item : Value) (items : List Value) :
    furtherItems (item :: items) = .comma :: itemLexemes (item :: items) := by
  simp only [furtherItems, itemLexemes]

theorem furtherMembers_cons (member : String × Value) (members : List (String × Value)) :
    furtherMembers (member :: members) = .comma :: memberLexemes (member :: members) := by
  simp only [furtherMembers, memberLexemes]

/-! ### Without blanks -/

mutual

theorem tokens_compact_append : ∀ (v : Value), v.Lexable → ∀ rest, Delimits rest →
    tokens (v.compact.toList ++ rest) = v.lexemes ++ tokens rest
  | null, _, rest, _ => by
    simp only [compact, lexemes]
    exact tokens_cons rfl
  | boolean true, _, rest, _ => by
    simp only [compact, lexemes]
    exact tokens_cons rfl
  | boolean false, _, rest, _ => by
    simp only [compact, lexemes]
    exact tokens_cons rfl
  | count n, _, rest, hrest => by
    rw [compact]
    exact tokens_count n hrest
  | real x, hx, rest, hrest => by
    rw [compact]
    exact tokens_real hx hrest
  | text content, _, rest, _ => by
    simp only [compact, lexemes]
    exact tokens_textForm content rest
  | array items, h, rest, _ => by
    have hitems := tokens_compactItems_append items h rest
    simp [compact, lexemes, hitems]
  | object members, h, rest, _ => by
    have hmembers := tokens_compactMembers_append members h rest
    simp [compact, lexemes, hmembers]

theorem tokens_compactItems_append : ∀ (items : List Value), LexableItems items → ∀ rest,
    tokens ((compactItems items).toList ++ ']' :: rest) = itemLexemes items ++ tokens rest
  | [], _, rest => by simp [compactItems, itemLexemes]
  | [item], h, rest => by
    have hitem := tokens_compact_append item h.1 _ (delimits_closeArray rest)
    simp [compactItems, itemLexemes, furtherItems, hitem]
  | item :: next :: items, h, rest => by
    have hitems := tokens_compactItems_append (next :: items) h.2 rest
    rw [compactItems, itemLexemes, furtherItems_cons]
    · simp only [String.toList_append, List.append_assoc, toList_comma_append, List.cons_append]
      rw [tokens_compact_append item h.1 _ (delimits_comma _)]
      simp [hitems]
    · simp

theorem tokens_compactMembers_append : ∀ (members : List (String × Value)),
    LexableMembers members → ∀ rest,
    tokens ((compactMembers members).toList ++ '\x7d' :: rest) =
      memberLexemes members ++ tokens rest
  | [], _, rest => by simp [compactMembers, memberLexemes]
  | [(name, value)], h, rest => by
    have hvalue := tokens_compact_append value h.1 _ (delimits_closeObject rest)
    simp [compactMembers, memberLexemes, furtherMembers, tokens_textForm, hvalue]
  | (name, value) :: next :: members, h, rest => by
    have hmembers := tokens_compactMembers_append (next :: members) h.2 rest
    rw [compactMembers, memberLexemes, furtherMembers_cons]
    · simp only [String.toList_append, List.append_assoc, toList_colon_append, toList_comma_append,
        List.cons_append]
      rw [tokens_textForm, tokens_colon, tokens_compact_append value h.1 _ (delimits_comma _)]
      simp [hmembers]
    · simp

end

/-- A value without blanks is cut into its lexemes. -/
theorem tokens_compact {v : Value} (h : v.Lexable) : tokens v.compact.toList = v.lexemes := by
  have halone := tokens_compact_append v h [] delimits_nil
  rwa [List.append_nil, tokens_nil, List.append_nil] at halone

/-! ### On lines of their own -/

theorem newLine_append (level : Nat) (rest : List Char) :
    (newLine level).toList ++ rest = '\n' :: (List.replicate (2 * level) ' ' ++ rest) := by
  simp [newLine]

theorem tokens_newLine (level : Nat) (rest : List Char) :
    tokens ((newLine level).toList ++ rest) = tokens rest := by
  have hblanks : ∀ count, tokens (List.replicate count ' ' ++ rest) = tokens rest := by
    intro count
    induction count with
    | zero => rfl
    | succ count ih =>
      rw [List.replicate_succ, List.cons_append, tokens_gap rfl, ih]
  rw [newLine_append, tokens_gap rfl, hblanks]

theorem delimits_newLine (level : Nat) (rest : List Char) :
    Delimits ((newLine level).toList ++ rest) := by
  rw [newLine_append]
  exact delimits_cons (by decide)

mutual

theorem tokens_indented_append : ∀ (v : Value), v.Lexable → ∀ level rest, Delimits rest →
    tokens ((v.indented level).toList ++ rest) = v.lexemes ++ tokens rest
  | null, h, level, rest, hrest => by
    have hcompact := tokens_compact_append null h rest hrest
    rwa [indented, ← compact]
  | boolean true, h, level, rest, hrest => by
    have hcompact := tokens_compact_append (boolean true) h rest hrest
    rwa [indented, ← compact]
  | boolean false, h, level, rest, hrest => by
    have hcompact := tokens_compact_append (boolean false) h rest hrest
    rwa [indented, ← compact]
  | count n, h, level, rest, hrest => by
    have hcompact := tokens_compact_append (count n) h rest hrest
    rwa [indented, ← compact]
  | real x, h, level, rest, hrest => by
    have hcompact := tokens_compact_append (real x) h rest hrest
    rwa [indented, ← compact]
  | text content, h, level, rest, hrest => by
    have hcompact := tokens_compact_append (text content) h rest hrest
    rwa [indented, ← compact]
  | array [], _, level, rest, _ => by
    simp [indented, lexemes, itemLexemes]
  | array (item :: items), h, level, rest, _ => by
    have hitems := tokens_indentedItems_append (item :: items) h (level + 1) level rest (by simp)
    rw [indented, lexemes]
    · simp [hitems]
    · simp
  | object [], _, level, rest, _ => by
    simp [indented, lexemes, memberLexemes]
  | object (member :: members), h, level, rest, _ => by
    have hmembers :=
      tokens_indentedMembers_append (member :: members) h (level + 1) level rest (by simp)
    rw [indented, lexemes]
    · simp [hmembers]
    · simp

theorem tokens_indentedItems_append : ∀ (items : List Value), LexableItems items →
    ∀ level outer rest, items ≠ [] →
    tokens ((indentedItems level items).toList ++ ((newLine outer).toList ++ ']' :: rest)) =
      itemLexemes items ++ tokens rest
  | [], _, level, outer, rest, hne => absurd rfl hne
  | [item], h, level, outer, rest, _ => by
    rw [indentedItems, String.toList_append, List.append_assoc, tokens_newLine,
      tokens_indented_append item h.1 _ _ (delimits_newLine outer _), tokens_newLine,
      tokens_closeArray]
    simp [itemLexemes, furtherItems]
  | item :: next :: items, h, level, outer, rest, _ => by
    have hitems := tokens_indentedItems_append (next :: items) h.2 level outer rest (by simp)
    rw [indentedItems, itemLexemes, furtherItems_cons]
    · simp only [String.toList_append, List.append_assoc, toList_comma_append, List.cons_append]
      rw [tokens_newLine, tokens_indented_append item h.1 _ _ (delimits_comma _)]
      simp [hitems]
    · simp

theorem tokens_indentedMembers_append : ∀ (members : List (String × Value)),
    LexableMembers members → ∀ level outer rest, members ≠ [] →
    tokens ((indentedMembers level members).toList ++ ((newLine outer).toList ++ '\x7d' :: rest)) =
      memberLexemes members ++ tokens rest
  | [], _, level, outer, rest, hne => absurd rfl hne
  | [(name, value)], h, level, outer, rest, _ => by
    rw [indentedMembers]
    simp only [String.toList_append, List.append_assoc, toList_colon_blank_append, List.cons_append]
    rw [tokens_newLine, tokens_textForm, tokens_colon, tokens_gap rfl,
      tokens_indented_append value h.1 _ _ (delimits_newLine outer _), tokens_newLine,
      tokens_closeObject]
    simp [memberLexemes, furtherMembers]
  | (name, value) :: next :: members, h, level, outer, rest, _ => by
    have hmembers := tokens_indentedMembers_append (next :: members) h.2 level outer rest (by simp)
    rw [indentedMembers, memberLexemes, furtherMembers_cons]
    · simp only [String.toList_append, List.append_assoc, toList_colon_blank_append,
        toList_comma_append, List.cons_append]
      rw [tokens_newLine, tokens_textForm, tokens_colon, tokens_gap rfl,
        tokens_indented_append value h.1 _ _ (delimits_comma _)]
      simp [hmembers]
    · simp

end

/-- A value on lines of its own is cut into the same lexemes. -/
theorem tokens_pretty {v : Value} (h : v.Lexable) : tokens v.pretty.toList = v.lexemes := by
  have halone := tokens_indented_append v h 0 [] delimits_nil
  rwa [List.append_nil, tokens_nil, List.append_nil] at halone

end Value
end ScanChain.Json
