/-
# ScanChain.Proofs.HexGrammar — the texts that are hexadecimal numerals, and what they stand for

The grammar is said without the reader: `StandsIn` says which part of a text is between its blanks,
`Unmarked` what is behind the mark of the base, and `Leaves` puts both together and drops the
underscores. What a text leaves is one list of characters (`leaves_iff`). If these are digits, the text
is read as the bit string with four bits for each of them (`ofHex_of_numeral`), whose number, width and
text are known from the digits alone. A character that is no digit has a byte that is none, whether or
not it is one byte long (`exists_nibble?_eq_none`), so every other text is refused.
-/
import ScanChain.Proofs.WidthAndNumber

namespace ScanChain.BitString

/-! ## The characters a text leaves -/

/-- The characters between the blanks at the ends of a text. -/
structure StandsIn (core text : List Char) : Prop where
  split : ∃ before after, text = before ++ (core ++ after) ∧
    (∀ c ∈ before, Text.isBlank c) ∧ ∀ c ∈ after, Text.isBlank c
  first : ∀ c ∈ core.head?, ¬ Text.isBlank c
  last : ∀ c ∈ core.getLast?, ¬ Text.isBlank c

/-- One mark of the base is dropped from the front, if there is one. -/
inductive Unmarked : List Char → List Char → Prop where
  | lower (rest : List Char) : Unmarked ('0' :: 'x' :: rest) rest
  | upper (rest : List Char) : Unmarked ('0' :: 'X' :: rest) rest
  | neither {core : List Char} (hlower : ∀ rest, core ≠ '0' :: 'x' :: rest)
      (hupper : ∀ rest, core ≠ '0' :: 'X' :: rest) : Unmarked core core

/-- The characters that are left of a text without the blanks at its ends, then without the mark of the
base, then without underscores. -/
def Leaves (text : String) (chars : List Char) : Prop :=
  ∃ core rest, StandsIn core text.toList ∧ Unmarked core rest ∧ chars = rest.filter (· != '_')

/-- What is left of a list is determined by its first element, which stays, and those before it. -/
theorem dropWhile_eq_iff {α : Type} {p : α → Bool} {list rest : List α} :
    list.dropWhile p = rest ↔
      ∃ before, list = before ++ rest ∧ (∀ a ∈ before, p a) ∧ ∀ a ∈ rest.head?, ¬ p a := by
  constructor
  · rintro rfl
    refine ⟨list.takeWhile p, List.takeWhile_append_dropWhile.symm, fun a ha => ?_, fun a ha => ?_⟩
    · exact List.all_eq_true.mp List.all_takeWhile a ha
    · have hhead := List.head?_dropWhile_not p list
      rw [Option.mem_def.mp ha] at hhead
      simpa using hhead
  · rintro ⟨before, rfl, hbefore, hhead⟩
    rw [List.dropWhile_append_of_pos hbefore]
    cases rest with
    | nil => rfl
    | cons a rest => exact List.dropWhile_cons_of_neg (hhead a rfl)

theorem standsIn_trim (text : List Char) : StandsIn (Text.trim text) text := by
  obtain ⟨before, htext, hbefore, hfirst⟩ :=
    dropWhile_eq_iff.mp (Eq.refl (text.dropWhile Text.isBlank))
  obtain ⟨after, hrest, hafter, hlast⟩ :=
    dropWhile_eq_iff.mp (Eq.refl ((text.dropWhile Text.isBlank).reverse.dropWhile Text.isBlank))
  have hsplit : text.dropWhile Text.isBlank = Text.trim text ++ after.reverse := by
    rw [← List.reverse_inj, hrest, Text.trim, List.reverse_append, List.reverse_reverse,
      List.reverse_reverse]
  refine ⟨⟨before, after.reverse, hsplit ▸ htext, hbefore, ?_⟩, fun c hc => ?_, fun c hc => ?_⟩
  · simpa using hafter
  · refine hfirst c ?_
    rw [hsplit, List.head?_append, Option.mem_def.mp hc]
    rfl
  · refine hlast c ?_
    rwa [Text.trim, List.getLast?_reverse] at hc

theorem StandsIn.eq_trim {core text : List Char} (h : StandsIn core text) :
    core = Text.trim text := by
  obtain ⟨⟨before, after, rfl, hbefore, hafter⟩, hfirst, hlast⟩ := h
  rw [Text.trim, List.dropWhile_append_of_pos hbefore]
  cases core with
  | nil =>
    have hblank : after.dropWhile Text.isBlank = [] :=
      dropWhile_eq_iff.mpr ⟨after, (List.append_nil after).symm, hafter, by simp⟩
    rw [List.nil_append, hblank]
    rfl
  | cons c core =>
    have hkept : (c :: core ++ after).dropWhile Text.isBlank = c :: core ++ after :=
      dropWhile_eq_iff.mpr ⟨[], rfl, by simp, hfirst⟩
    have hcore : (c :: core ++ after).reverse.dropWhile Text.isBlank = (c :: core).reverse := by
      refine dropWhile_eq_iff.mpr ⟨after.reverse, List.reverse_append, ?_, ?_⟩
      · simpa using hafter
      · rwa [List.head?_reverse]
    rw [hkept, hcore, List.reverse_reverse]

theorem unmarked_digitsOf (text : String) :
    ∃ rest, Unmarked (Text.trim text.toList) rest ∧ digitsOf text = rest.filter (· != '_') := by
  unfold digitsOf
  generalize Text.trim text.toList = core
  dsimp only
  split
  · exact ⟨_, .lower _, rfl⟩
  · exact ⟨_, .upper _, rfl⟩
  · next hlower hupper => exact ⟨_, .neither hlower hupper, rfl⟩

theorem Unmarked.unique {core rest rest' : List Char} (h : Unmarked core rest)
    (h' : Unmarked core rest') : rest' = rest := by
  cases h with
  | lower =>
    cases h' with
    | lower => rfl
    | neither hlower => exact absurd rfl (hlower _)
  | upper =>
    cases h' with
    | upper => rfl
    | neither _ hupper => exact absurd rfl (hupper _)
  | neither hlower hupper =>
    cases h' with
    | lower => exact absurd rfl (hlower _)
    | upper => exact absurd rfl (hupper _)
    | neither => rfl

/-- Every text leaves one list of characters, and this is the one that is read. -/
theorem leaves_iff {text : String} {chars : List Char} :
    Leaves text chars ↔ chars = digitsOf text := by
  obtain ⟨rest, hrest, hdigits⟩ := unmarked_digitsOf text
  rw [hdigits]
  constructor
  · rintro ⟨core, rest', hcore, hrest', rfl⟩
    rw [hcore.eq_trim] at hrest'
    rw [hrest.unique hrest']
  · rintro rfl
    exact ⟨_, rest, standsIn_trim _, hrest, rfl⟩

example : Leaves " 0x_F_00\n" ['F', '0', '0'] := leaves_iff.mpr (by decide)

/-! ## Digits -/

/-- The digits to base sixteen in lower case, each at the place of its number. -/
def lowerDigits : List Char :=
  ['0', '1', '2', '3', '4', '5', '6', '7', '8', '9', 'a', 'b', 'c', 'd', 'e', 'f']

/-- The digits of either case. -/
def digitChars : List Char := lowerDigits ++ ['A', 'B', 'C', 'D', 'E', 'F']

/-- The number of a digit of either case. -/
def digitNumber (c : Char) : Nat := lowerDigits.idxOf c.toLower

/-- There is at least one character, and each is a digit. -/
structure HexNumeral (chars : List Char) : Prop where
  nonempty : chars ≠ []
  digits : ∀ c ∈ chars, c ∈ digitChars

/-- The number that digits stand for, the most significant first. -/
def hexNumber (chars : List Char) : Nat := Nat.ofDigits 16 (chars.reverse.map digitNumber)

/-- The four bits of the number of a digit, the least significant first. -/
def digitBits (c : Char) : List Bool :=
  [(digitNumber c).testBit 0, (digitNumber c).testBit 1, (digitNumber c).testBit 2,
    (digitNumber c).testBit 3]

/-- The bits of the digits. -/
def ofHexDigits (chars : List Char) : BitString := ⟨chars.reverse.flatMap digitBits⟩

/-- The numbers of the digits, among those of characters and of bytes. -/
def IsDigitCode (n : Nat) : Prop := 48 ≤ n ∧ n ≤ 57 ∨ 97 ≤ n ∧ n ≤ 102 ∨ 65 ≤ n ∧ n ≤ 70

instance : DecidablePred IsDigitCode := fun _ => inferInstanceAs (Decidable (_ ∨ _))

/-- What is to be known of every digit is tried on the list, not on all characters. -/
theorem forall_digitChars {p : Char → Prop} [DecidablePred p]
    (h : digitChars.all (fun c => decide (p c)) = true) : ∀ c ∈ digitChars, p c := by
  simpa using h

theorem mem_digitChars_iff {c : Char} : c ∈ digitChars ↔ IsDigitCode c.toNat := by
  have hcode : ∀ c ∈ digitChars, IsDigitCode c.toNat := forall_digitChars (by decide)
  have hchar : ∀ n < 128, IsDigitCode n → Char.ofNat n ∈ digitChars := by decide
  constructor
  · exact hcode c
  · intro h
    have hlow : c.toNat < 128 := by
      rw [IsDigitCode] at h
      omega
    have hmem := hchar c.toNat hlow h
    rwa [Char.ofNat_toNat] at hmem

theorem nibble?_digit : ∀ c ∈ digitChars,
    nibble? (UInt8.ofNat c.toNat) = some (digitBits c).reverse :=
  forall_digitChars (by decide)

theorem lt_of_mem_digitChars : ∀ c ∈ digitChars, c.toNat < 128 := forall_digitChars (by decide)

theorem hexDigit_digit : ∀ c ∈ digitChars,
    hexDigit ((digitNumber c).testBit 0) ((digitNumber c).testBit 1) ((digitNumber c).testBit 2)
      ((digitNumber c).testBit 3) = c.toLower :=
  forall_digitChars (by decide)

theorem digitNumber_eq_bits : ∀ c ∈ digitChars,
    digitNumber c = ((digitNumber c).testBit 0).toNat + 2 * ((digitNumber c).testBit 1).toNat +
      4 * ((digitNumber c).testBit 2).toNat + 8 * ((digitNumber c).testBit 3).toNat :=
  forall_digitChars (by decide)

/-- A digit below others counts once, and the others sixteen times. -/
theorem toNat_digitBits_append {c : Char} (hc : c ∈ digitChars) (bits : List Bool) :
    (⟨digitBits c ++ bits⟩ : BitString).toNat =
      digitNumber c + 16 * (⟨bits⟩ : BitString).toNat := by
  have hnumber := digitNumber_eq_bits c hc
  show (⟨_ :: _ :: _ :: _ :: bits⟩ : BitString).toNat = _
  simp only [toNat_cons]
  omega

/-! ## The bit string of a numeral -/

section Digits

variable {digits : List Char}

theorem length_flatMap_digitBits (digits : List Char) :
    (digits.flatMap digitBits).length = 4 * digits.length := by
  induction digits with
  | nil => rfl
  | cons c digits ih =>
    rw [List.flatMap_cons, List.length_append, ih, List.length_cons]
    show 4 + _ = _
    omega

theorem toNat_flatMap_digitBits (h : ∀ c ∈ digits, c ∈ digitChars) :
    (⟨digits.flatMap digitBits⟩ : BitString).toNat = Nat.ofDigits 16 (digits.map digitNumber) := by
  induction digits with
  | nil => rfl
  | cons c digits ih =>
    rw [List.flatMap_cons, toNat_digitBits_append (h c (by simp)),
      ih fun c hc => h c (by simp [hc]), List.map_cons, Nat.ofDigits_cons]

theorem hexDigitsOf_flatMap_digitBits (h : ∀ c ∈ digits, c ∈ digitChars) :
    hexDigitsOf (digits.flatMap digitBits) = digits.map Char.toLower := by
  induction digits with
  | nil => rfl
  | cons c digits ih =>
    have hfirst : hexDigitsOf ((c :: digits).flatMap digitBits) =
        hexDigit ((digitNumber c).testBit 0) ((digitNumber c).testBit 1) ((digitNumber c).testBit 2)
          ((digitNumber c).testBit 3) :: hexDigitsOf (digits.flatMap digitBits) := rfl
    rw [hfirst, hexDigit_digit c (h c (by simp)), ih fun c hc => h c (by simp [hc]), List.map_cons]

end Digits

variable {chars : List Char}

theorem HexNumeral.digits_reverse (h : HexNumeral chars) : ∀ c ∈ chars.reverse, c ∈ digitChars :=
  fun c hc => h.digits c (List.mem_reverse.mp hc)

theorem is_ofHexDigits (h : HexNumeral chars) :
    (ofHexDigits chars).Is (4 * chars.length) (hexNumber chars) where
  width_eq := by rw [width, ofHexDigits, length_flatMap_digitBits, List.length_reverse]
  toNat_eq := toNat_flatMap_digitBits h.digits_reverse

/-- The text of a numeral's bits is the numeral in lower case. -/
theorem toHex_ofHexDigits (h : HexNumeral chars) :
    (ofHexDigits chars).toHex = String.ofList (chars.map Char.toLower) := by
  rw [toHex, ofHexDigits, hexDigitsOf_flatMap_digitBits h.digits_reverse, ← List.map_reverse,
    List.reverse_reverse]

/-! ## Reading -/

theorem nibbles_ofHexDigits {chars : List Char} (h : ∀ c ∈ chars, c ∈ digitChars) (place : Nat) :
    nibbles place (chars.map fun c => UInt8.ofNat c.toNat) = .ok (ofHexDigits chars).msbFirst := by
  induction chars generalizing place with
  | nil => rfl
  | cons c chars ih =>
    have hbits : (ofHexDigits (c :: chars)).msbFirst =
        (digitBits c).reverse ++ (ofHexDigits chars).msbFirst := by
      simp [msbFirst, ofHexDigits]
    rw [List.map_cons, nibbles, nibble?_digit c (h c (by simp)), hbits]
    simp only [ih fun c hc => h c (by simp [hc])]
    rfl

theorem nibble?_eq_none {byte : UInt8} (h : ¬ IsDigitCode byte.toNat) : nibble? byte = none := by
  simp only [IsDigitCode, not_or] at h
  have hfigure : ¬ (48 ≤ byte ∧ byte ≤ 57) := h.1
  have hlower : ¬ (97 ≤ byte ∧ byte ≤ 102) := h.2.1
  have hupper : ¬ (65 ≤ byte ∧ byte ≤ 70) := h.2.2
  simp only [nibble?, if_neg hfigure, if_neg hlower, if_neg hupper]
  rfl

/-- The form of a character from 128 up starts with a byte from 192 up. -/
theorem exists_lead {c : Char} (h : 127 < c.toNat) :
    ∃ lead, 192 ≤ lead ∧ lead < 256 ∧ UInt8.ofNat lead ∈ String.utf8EncodeChar c := by
  have hlong : ¬ c.val.toNat ≤ 127 := Nat.not_le.mpr h
  simp only [String.utf8EncodeChar, if_neg hlong]
  split
  · exact ⟨c.val.toNat / 64 % 32 + 192, by omega, by omega, List.mem_cons_self⟩
  · split
    · exact ⟨c.val.toNat / 4096 % 16 + 224, by omega, by omega, List.mem_cons_self⟩
    · exact ⟨c.val.toNat / 262144 % 8 + 240, by omega, by omega, List.mem_cons_self⟩

/-- A character that is no digit has a byte that is none. -/
theorem exists_nibble?_eq_none {c : Char} (h : c ∉ digitChars) :
    ∃ byte ∈ String.utf8EncodeChar c, nibble? byte = none := by
  rw [mem_digitChars_iff] at h
  rcases Nat.lt_or_ge 127 c.toNat with hlong | hascii
  · obtain ⟨lead, hlow, hhigh, hmem⟩ := exists_lead hlong
    refine ⟨_, hmem, nibble?_eq_none ?_⟩
    rw [UInt8.toNat_ofNat', Nat.mod_eq_of_lt hhigh, IsDigitCode]
    omega
  · refine ⟨UInt8.ofNat c.toNat, ?_, nibble?_eq_none ?_⟩
    · have hshort : c.val.toNat ≤ 127 := hascii
      simp only [String.utf8EncodeChar, if_pos hshort]
      exact List.mem_singleton_self _
    · rwa [UInt8.toNat_ofNat', Nat.mod_eq_of_lt (by omega)]

/-- Bytes of which one is no digit are not read. -/
theorem exists_nibbles_eq_error {bytes : List UInt8} {byte : UInt8} (hmem : byte ∈ bytes)
    (hbyte : nibble? byte = none) (place : Nat) : ∃ fault, nibbles place bytes = .error fault := by
  induction bytes generalizing place with
  | nil => cases hmem
  | cons first bytes ih =>
    rw [nibbles]
    cases hfirst : nibble? first with
    | none => exact ⟨_, rfl⟩
    | some bits =>
      have hrest : byte ∈ bytes := by
        refine (List.mem_cons.mp hmem).resolve_left ?_
        rintro rfl
        rw [hbyte] at hfirst
        cases hfirst
      obtain ⟨fault, hfault⟩ := ih hrest (place + 1)
      refine ⟨fault, ?_⟩
      simp only [hfault]
      rfl

theorem ofHex_of_numeral {text : String} (h : HexNumeral (digitsOf text)) :
    ofHex text = .ok (ofHexDigits (digitsOf text)) := by
  have hascii : ∀ c ∈ digitsOf text, c.toNat < 128 := fun c hc =>
    lt_of_mem_digitChars c (h.digits c hc)
  have hsome : ¬ ((digitsOf text).map fun c => UInt8.ofNat c.toNat).isEmpty := by
    rw [List.isEmpty_iff, List.map_eq_nil_iff]
    exact h.nonempty
  unfold ofHex
  simp only [Text.utf8_ofList_of_ascii hascii, if_neg hsome, nibbles_ofHexDigits h.digits,
    ofMsbFirst_msbFirst]

theorem ofHex_of_no_digits {text : String} (h : digitsOf text = []) :
    ofHex text = .error ⟨text, .noDigits⟩ := by
  have hbytes : Text.utf8 (String.ofList (digitsOf text)) = [] := by
    rw [h, Text.utf8_eq_flatMap, String.toList_ofList, List.flatMap_nil]
  unfold ofHex
  simp only [hbytes]
  rfl

theorem ofHex_of_not_numeral {text : String} (h : ¬ HexNumeral (digitsOf text)) :
    ∃ fault, ofHex text = .error ⟨text, fault⟩ := by
  by_cases hsome : digitsOf text = []
  · exact ⟨_, ofHex_of_no_digits hsome⟩
  · obtain ⟨c, hc, hother⟩ : ∃ c ∈ digitsOf text, c ∉ digitChars := by
      by_contra hall
      exact h ⟨hsome, fun c hc => by_contra fun hother => hall ⟨c, hc, hother⟩⟩
    obtain ⟨byte, hbyte, hnone⟩ := exists_nibble?_eq_none hother
    have hmem : byte ∈ Text.utf8 (String.ofList (digitsOf text)) := by
      rw [Text.utf8_eq_flatMap, String.toList_ofList]
      exact List.mem_flatMap.mpr ⟨c, hc, hbyte⟩
    have hbytes : ¬ (Text.utf8 (String.ofList (digitsOf text))).isEmpty := by
      rw [List.isEmpty_iff]
      exact List.ne_nil_of_mem hmem
    obtain ⟨fault, hfault⟩ := exists_nibbles_eq_error hmem hnone
      ((Text.utf8 (String.ofList (digitsOf text))).length % 2)
    unfold ofHex
    simp only [if_neg hbytes, hfault]
    exact ⟨fault, rfl⟩

/-! ## Writing and reading -/

theorem fitTo?_wholeDigits (b : BitString) :
    b.fitTo? (4 * ((b.width + 3) / 4)) = some b.wholeDigits :=
  fitTo?_eq_some_iff_is.mpr
    ⟨b.toNat_wholeDigits ▸ b.width_wholeDigits ▸ b.wholeDigits.toNat_lt,
      b.width_wholeDigits, b.toNat_wholeDigits⟩

/-- A text is read exactly if what it leaves is a numeral, and then as this numeral; every other text is
named in its refusal. The text of a bit string is read as its number, with the width rounded up to
whole digits, unless there is no bit. -/
theorem hex_text_is_read_by_its_grammar :
    (∀ text, ∃ chars, (∀ chars', Leaves text chars' ↔ chars' = chars) ∧
      (HexNumeral chars ∧
          (∃ b, ofHex text = .ok b ∧ b.Is (4 * chars.length) (hexNumber chars) ∧
            b.toHex = String.ofList (chars.map Char.toLower)) ∨
        ¬ HexNumeral chars ∧ ∃ fault, ofHex text = .error ⟨text, fault⟩)) ∧
    ∀ b : BitString,
      b.width = 0 ∧ ofHex b.toHex = .error ⟨b.toHex, .noDigits⟩ ∨
      0 < b.width ∧ ∃ c, ofHex b.toHex = .ok c ∧ b.fitTo? (4 * ((b.width + 3) / 4)) = some c ∧
        (c = b ↔ 4 ∣ b.width) := by
  refine ⟨fun text => ⟨digitsOf text, fun _ => leaves_iff, ?_⟩, fun b => ?_⟩
  · by_cases h : HexNumeral (digitsOf text)
    · exact .inl ⟨h, _, ofHex_of_numeral h, is_ofHexDigits h, toHex_ofHexDigits h⟩
    · exact .inr ⟨h, ofHex_of_not_numeral h⟩
  · rcases Nat.eq_zero_or_pos b.width with hzero | hpos
    · refine .inl ⟨hzero, ofHex_of_no_digits ?_⟩
      rw [digitsOf_toHex, toList_toHex_eq_nil_iff.mpr hzero]
    · have hsome : b.toHex.toList ≠ [] := fun h => hpos.ne' (toList_toHex_eq_nil_iff.mp h)
      exact .inr ⟨hpos, _, ofHex_toHex hsome, fitTo?_wholeDigits b, wholeDigits_eq_iff⟩

end ScanChain.BitString
