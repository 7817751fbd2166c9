/-
# ScanChain.Text.Utf8 — text as bytes

Names are hashed and files are stored as UTF-8. Not every byte list is the form of a text; one that is
not still has characters, and bytes between them that belong to none.
-/

namespace ScanChain.Text

/-- The bytes of a text. -/
def utf8 (text : String) : List UInt8 := text.toUTF8.toList

/-- What is left to read of bytes goes behind what was read. -/
theorem toList_loop (bytes : ByteArray) (i : Nat) (read : List UInt8) :
    ByteArray.toList.loop bytes i read = read.reverse ++ bytes.data.toList.drop i := by
  fun_induction ByteArray.toList.loop bytes i read with
  | case1 i read hlt ih =>
    have hin : i < bytes.data.toList.length := by simpa using hlt
    have hbyte : bytes.get! i = bytes.data.toList[i] := by
      cases bytes
      exact getElem!_pos _ i hlt
    rw [ih, List.drop_eq_getElem_cons hin, hbyte]
    simp
  | case2 i read hge =>
    have hend : bytes.data.toList.length ≤ i := by simpa using hge
    rw [List.drop_eq_nil_of_le hend, List.append_nil]

theorem utf8_eq_data (text : String) : utf8 text = text.toByteArray.data.toList := by
  show ByteArray.toList.loop text.toByteArray 0 [] = _
  rw [toList_loop]
  rfl

/-- No two texts have the same bytes. -/
theorem utf8_injective {s t : String} (h : utf8 s = utf8 t) : s = t := by
  rw [utf8_eq_data, utf8_eq_data] at h
  exact String.toByteArray_inj.mp (ByteArray.ext (Array.toList_inj.mp h))

/-! ## The order of texts -/

/-- Lists of bytes are ordered by their first bytes, and by the others if these are equal. -/
theorem ofNat_cons_lt {a b : Nat} {x y : List UInt8} (hb : b < 256) (hle : a ≤ b)
    (hrest : a = b → x < y) : UInt8.ofNat a :: x < UInt8.ofNat b :: y := by
  rw [List.cons_lt_cons_iff, UInt8.lt_iff_toNat_lt, UInt8.toNat_ofNat', UInt8.toNat_ofNat']
  rcases Nat.lt_or_eq_of_le hle with hlt | rfl
  · exact Or.inl (by omega)
  · exact Or.inr ⟨rfl, hrest rfl⟩

/-- Characters are in the order of their bytes, whatever bytes follow them. -/
theorem utf8EncodeChar_append_lt {c d : Char} (h : c < d) (x y : List UInt8) :
    String.utf8EncodeChar c ++ x < String.utf8EncodeChar d ++ y := by
  have hlt : c.val.toNat < d.val.toNat := h
  have hd : d.val.toNat < 1114112 := by
    have := d.valid
    simp only [UInt32.isValidChar, Nat.isValidChar] at this
    omega
  simp only [String.utf8EncodeChar]
  generalize c.val.toNat = m at hlt ⊢
  generalize d.val.toNat = n at hlt hd ⊢
  -- A shorter form starts with a smaller byte; forms of one length differ in a digit to base 64.
  by_cases h1 : n ≤ 127
  · rw [if_pos h1, if_pos (by omega)]
    exact ofNat_cons_lt (by omega) (by omega) (by omega)
  rw [if_neg h1]
  by_cases h2 : n ≤ 2047
  · rw [if_pos h2]
    split
    · exact ofNat_cons_lt (by omega) (by omega) (by omega)
    · rw [if_pos (by omega)]
      refine ofNat_cons_lt (by omega) (by omega) fun _ => ?_
      exact ofNat_cons_lt (by omega) (by omega) (by omega)
  rw [if_neg h2]
  by_cases h3 : n ≤ 65535
  · rw [if_pos h3]
    split
    · exact ofNat_cons_lt (by omega) (by omega) (by omega)
    split
    · exact ofNat_cons_lt (by omega) (by omega) (by omega)
    · rw [if_pos (by omega)]
      refine ofNat_cons_lt (by omega) (by omega) fun _ => ?_
      refine ofNat_cons_lt (by omega) (by omega) fun _ => ?_
      exact ofNat_cons_lt (by omega) (by omega) (by omega)
  rw [if_neg h3]
  split
  · exact ofNat_cons_lt (by omega) (by omega) (by omega)
  split
  · exact ofNat_cons_lt (by omega) (by omega) (by omega)
  split
  · exact ofNat_cons_lt (by omega) (by omega) (by omega)
  · refine ofNat_cons_lt (by omega) (by omega) fun _ => ?_
    refine ofNat_cons_lt (by omega) (by omega) fun _ => ?_
    refine ofNat_cons_lt (by omega) (by omega) fun _ => ?_
    exact ofNat_cons_lt (by omega) (by omega) (by omega)

/-- The bytes of a text are those of its characters. -/
theorem utf8_eq_flatMap (text : String) :
    utf8 text = text.toList.flatMap String.utf8EncodeChar := by
  have hbytes : text.toByteArray = text.toList.utf8Encode := by
    rw [← String.toByteArray_ofList, String.ofList_toList]
  rw [utf8_eq_data, hbytes, List.utf8Encode]
  simp

theorem flatMap_utf8EncodeChar_lt {s t : List Char} (h : s < t) :
    s.flatMap String.utf8EncodeChar < t.flatMap String.utf8EncodeChar := by
  induction s generalizing t with
  | nil =>
    cases t with
    | nil => exact absurd h (List.lt_irrefl [])
    | cons d t =>
      rw [List.flatMap_cons, List.flatMap_nil]
      have hne : String.utf8EncodeChar d ≠ [] := String.utf8EncodeChar_ne_nil
      cases hd : String.utf8EncodeChar d with
      | nil => exact absurd hd hne
      | cons b rest => exact List.nil_lt_cons _ _
  | cons c s ih =>
    cases t with
    | nil => exact absurd h (List.not_lt_nil _)
    | cons d t =>
      rw [List.flatMap_cons, List.flatMap_cons]
      rcases List.cons_lt_cons_iff.mp h with hlt | ⟨rfl, hlt⟩
      · exact utf8EncodeChar_append_lt hlt _ _
      · exact List.append_left_lt (ih hlt)

/-- Texts are in the order of their bytes. -/
theorem utf8_lt {s t : String} (h : s < t) : utf8 s < utf8 t := by
  rw [utf8_eq_flatMap, utf8_eq_flatMap]
  exact flatMap_utf8EncodeChar_lt h

/-! ## Reading bytes -/

/-- The text whose form the bytes are. -/
def ofUtf8? (bytes : List UInt8) : Option String := String.fromUTF8? ⟨bytes.toArray⟩

/-- The bytes of a text are the form of this text. -/
theorem ofUtf8?_utf8 (text : String) : ofUtf8? (utf8 text) = some text := by
  have hbytes : (⟨(utf8 text).toArray⟩ : ByteArray) = text.toByteArray := by rw [utf8_eq_data]
  rw [ofUtf8?, hbytes, String.fromUTF8?, dif_pos text.isValidUTF8]
  rfl

/-- The character that the bytes start with, which takes one to four of them, and what follows. -/
def firstChar? (bytes : List UInt8) : Option (Char × List UInt8) :=
  [1, 2, 3, 4].findSome? fun size =>
    match (ofUtf8? (bytes.take size)).map String.toList with
    | some [c] => some (c, bytes.drop size)
    | _ => none

/-- The characters of bytes, as far as `fuel` of them; each takes at least one byte. -/
def charsWithin : Nat → List UInt8 → List (Option Char)
  | 0, _ => []
  | _, [] => []
  | fuel + 1, b :: rest =>
    match firstChar? (b :: rest) with
    | some (c, after) => some c :: charsWithin fuel after
    | none => none :: charsWithin fuel rest

/-- The characters of bytes, with `none` for a byte that belongs to no character. -/
def chars (bytes : List UInt8) : List (Option Char) := charsWithin bytes.length bytes

end ScanChain.Text
