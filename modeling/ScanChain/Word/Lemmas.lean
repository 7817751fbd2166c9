/-
# ScanChain.Word.Lemmas — packing loses nothing but the end of the stream

Words hold their bits (`toBits_ofBits`, `ofBits_toBits`) and their bytes (`ofBytes_littleEndian`), so a
stream that is packed is found again with zeros to the end of its last word (`unpack_pack`), words
that are taken apart are packed to the same words (`pack_unpack`), and bytes are words exactly if
their number is a multiple of four (`fromBytes?_toBytes`, `toBytes_of_fromBytes?`).
-/
import ScanChain.BitString.Lemmas
import ScanChain.Word

namespace ScanChain.Word

/-! ## One word -/

@[simp] theorem length_toBits (word : UInt32) : (toBits word).length = 32 := by simp [toBits]

/-- Bits that start with the most significant one stand for the number of their bit string. -/
theorem natOfBits_eq (bits : List Bool) : natOfBits bits = (BitString.ofMsbFirst bits).toNat := by
  simp only [natOfBits, BitString.ofMsbFirst, BitString.toNat, List.foldr_reverse]
  congr 1
  funext n bit
  omega

theorem natOfBits_lt (bits : List Bool) : natOfBits bits < 2 ^ bits.length := by
  have := (BitString.ofMsbFirst bits).toNat_lt
  rwa [BitString.width_ofMsbFirst, ← natOfBits_eq] at this

/-- Bit `i` from the front is bit `length - 1 - i` of the number. -/
theorem testBit_natOfBits (bits : List Bool) {i : Nat} (h : i < bits.length) :
    (natOfBits bits).testBit (bits.length - 1 - i) = bits[i] := by
  rw [natOfBits_eq, BitString.testBit_toNat]
  simp only [BitString.get, BitString.ofMsbFirst, List.getD_eq_getElem?_getD]
  rw [List.getElem?_reverse (by omega)]
  have : bits.length - 1 - (bits.length - 1 - i) = i := by omega
  rw [this, List.getElem?_eq_getElem h, Option.getD_some]

theorem toNat_ofBits {bits : List Bool} (h : bits.length ≤ 32) :
    (ofBits bits).toNat = natOfBits bits * 2 ^ (32 - bits.length) := by
  rw [ofBits, UInt32.toNat_ofNat']
  apply Nat.mod_eq_of_lt
  calc natOfBits bits * 2 ^ (32 - bits.length)
      < 2 ^ bits.length * 2 ^ (32 - bits.length) :=
        (Nat.mul_lt_mul_right (Nat.two_pow_pos _)).mpr (natOfBits_lt bits)
    _ = 2 ^ 32 := by rw [← Nat.pow_add]; congr 1; omega

/-- The bits of a word that starts with given bits: those, and zeros. -/
theorem toBits_ofBits {bits : List Bool} (h : bits.length ≤ 32) :
    toBits (ofBits bits) = bits ++ List.replicate (32 - bits.length) false := by
  apply List.ext_getElem
  · simp
    omega
  intro i hi _
  have hi : i < 32 := by simpa using hi
  simp only [toBits, List.getElem_map, List.getElem_range, toNat_ofBits h,
    Nat.testBit_mul_two_pow]
  rcases Nat.lt_or_ge i bits.length with lt | ge
  · have place : 31 - i - (32 - bits.length) = bits.length - 1 - i := by omega
    rw [List.getElem_append_left lt, place, testBit_natOfBits bits lt]
    simp only [Bool.and_eq_right_iff_imp, decide_eq_true_eq]
    intro _
    omega
  · rw [List.getElem_append_right ge, List.getElem_replicate]
    have : ¬ 32 - bits.length ≤ 31 - i := by omega
    simp [this]

/-- A word is the word of its bits. -/
theorem ofBits_toBits (word : UInt32) : ofBits (toBits word) = word := by
  apply UInt32.toNat_inj.mp
  apply Nat.eq_of_testBit_eq
  intro i
  have bits := @toBits_ofBits (toBits word) (by simp)
  simp only [length_toBits, Nat.sub_self, List.replicate_zero, List.append_nil] at bits
  rcases Nat.lt_or_ge i 32 with lt | ge
  · have at31 := congrArg (·[31 - i]?) bits
    have place : 31 - (31 - i) = i := by omega
    simpa [toBits, show 31 - i < 32 by omega, place] using at31
  · have small (w : UInt32) : w.toNat.testBit i = false :=
      Nat.testBit_lt_two_pow (Nat.lt_of_lt_of_le w.toNat_lt (Nat.pow_le_pow_right (by decide) ge))
    rw [small, small]

/-- The bits of a word stand for its number. -/
theorem natOfBits_toBits (word : UInt32) : natOfBits (toBits word) = word.toNat := by
  have h := toNat_ofBits (Nat.le_of_eq (length_toBits word))
  rw [ofBits_toBits] at h
  simpa using h.symm

/-! ## Streams of bits -/

theorem unpack_cons (word : UInt32) (words : List UInt32) :
    unpack (word :: words) = toBits word ++ unpack words := by
  simp [unpack]

@[simp] theorem length_unpack (words : List UInt32) :
    (unpack words).length = 32 * words.length := by
  induction words with
  | nil => rfl
  | cons word words ih =>
    rw [unpack_cons, List.length_append, length_toBits, ih, List.length_cons]
    omega

@[simp] theorem length_packWords (count : Nat) (bits : List Bool) :
    (packWords count bits).length = count := by
  induction count generalizing bits with
  | zero => rfl
  | succ count ih => simp [packWords, ih]

@[simp] theorem length_pack (bits : List Bool) : (pack bits).length = countFor bits.length := by
  simp [pack]

theorem unpack_packWords {count : Nat} {bits : List Bool} (h : bits.length ≤ 32 * count) :
    unpack (packWords count bits) =
      bits ++ List.replicate (32 * count - bits.length) false := by
  induction count generalizing bits with
  | zero =>
    have : bits = [] := List.length_eq_zero_iff.mp (by omega)
    simp [this, packWords, unpack]
  | succ count ih =>
    have rest : (bits.drop 32).length ≤ 32 * count := by
      rw [List.length_drop]
      omega
    have first : (bits.take 32).length ≤ 32 := by
      rw [List.length_take]
      omega
    rw [packWords, unpack_cons, toBits_ofBits first, ih rest]
    rcases Nat.lt_or_ge bits.length 32 with lt | ge
    · have none : bits.drop 32 = [] := List.drop_eq_nil_iff.mpr (by omega)
      have all : bits.take 32 = bits := List.take_of_length_le (by omega)
      rw [none, all, List.nil_append, List.append_assoc, List.replicate_append_replicate]
      congr 2
      simp only [List.length_nil]
      omega
    · have full : 32 - (bits.take 32).length = 0 := by
        rw [List.length_take]
        omega
      rw [full, List.replicate_zero, List.append_nil, ← List.append_assoc, List.take_append_drop]
      congr 2
      rw [List.length_drop]
      omega

/-- A stream is found again in its words, with zeros to the end of the last. -/
theorem unpack_pack (bits : List Bool) :
    unpack (pack bits) = bits ++ List.replicate (32 * countFor bits.length - bits.length) false :=
  unpack_packWords (by simp only [countFor]; omega)

theorem packWords_unpack (words : List UInt32) : packWords words.length (unpack words) = words := by
  induction words with
  | nil => rfl
  | cons word words ih =>
    have first : (unpack (word :: words)).take 32 = toBits word := by
      rw [unpack_cons, List.take_append_of_le_length (by simp), List.take_of_length_le (by simp)]
    have rest : (unpack (word :: words)).drop 32 = unpack words := by
      rw [unpack_cons, List.drop_append_of_le_length (by simp), List.drop_of_length_le (by simp),
        List.nil_append]
    rw [List.length_cons, packWords, first, rest, ofBits_toBits, ih]

/-- Words that are taken apart are packed to the same words. -/
theorem pack_unpack (words : List UInt32) : pack (unpack words) = words := by
  have count : countFor (unpack words).length = words.length := by
    rw [length_unpack, countFor]
    omega
  rw [pack, count, packWords_unpack]

/-! ## Bytes -/

@[simp] theorem length_littleEndian (count n : Nat) : (littleEndian count n).length = count := by
  induction count generalizing n with
  | zero => rfl
  | succ count ih => rw [littleEndian, List.length_cons, ih]

/-- A number with room in a count of bytes is found again in front of whatever follows. -/
theorem littleEndian_append_inj {count m n : Nat} {x y : List UInt8} (hm : m < 256 ^ count)
    (hn : n < 256 ^ count) (h : littleEndian count m ++ x = littleEndian count n ++ y) :
    m = n ∧ x = y := by
  induction count generalizing m n with
  | zero =>
    have hzero : m = n := by
      rw [Nat.pow_zero] at hm hn
      omega
    exact ⟨hzero, h⟩
  | succ count ih =>
    obtain ⟨hbyte, hrest⟩ := List.cons.inj h
    have hmod : m % 256 = n % 256 := by
      have heq := congrArg UInt8.toNat hbyte
      rwa [UInt8.toNat_ofNat', UInt8.toNat_ofNat'] at heq
    rw [Nat.pow_succ] at hm hn
    have hm' : m / 256 < 256 ^ count := Nat.div_lt_of_lt_mul (by omega)
    have hn' : n / 256 < 256 ^ count := Nat.div_lt_of_lt_mul (by omega)
    obtain ⟨hdiv, hxy⟩ := ih hm' hn' hrest
    exact ⟨by omega, hxy⟩

/-- A number goes by its low digits where there is no room for more. -/
theorem littleEndian_mod (count n : Nat) :
    littleEndian count (n % 256 ^ count) = littleEndian count n := by
  induction count generalizing n with
  | zero => rfl
  | succ count ih =>
    have hpow : 256 ^ (count + 1) = 256 * 256 ^ count := Nat.mul_comm _ _
    have hbyte : UInt8.ofNat (n % 256 ^ (count + 1)) = UInt8.ofNat n := by
      apply UInt8.toNat_inj.mp
      rw [UInt8.toNat_ofNat', UInt8.toNat_ofNat', hpow]
      exact Nat.mod_mul_right_mod n 256 (256 ^ count)
    rw [littleEndian, littleEndian, hbyte, hpow, Nat.mod_mul_right_div_self, ih]

/-- The bytes after the first ones are those of what is left of the number. -/
theorem littleEndian_add (count more n : Nat) :
    littleEndian (count + more) n =
      littleEndian count n ++ littleEndian more (n / 256 ^ count) := by
  induction count generalizing n with
  | zero => rw [Nat.zero_add, Nat.pow_zero, Nat.div_one, littleEndian, List.nil_append]
  | succ count ih =>
    have hdiv : n / 256 / 256 ^ count = n / 256 ^ (count + 1) := by
      rw [Nat.div_div_eq_div_mul, Nat.pow_succ, Nat.mul_comm]
    rw [Nat.succ_add, littleEndian, littleEndian, ih, hdiv, List.cons_append]

/-- Four bytes of a word, the least significant first, are the word. -/
theorem ofBytes_littleEndian (word : UInt32) :
    ∃ a b c d, littleEndian 4 word.toNat = [a, b, c, d] ∧ ofBytes a b c d = word := by
  refine ⟨_, _, _, _, rfl, ?_⟩
  apply UInt32.toNat_inj.mp
  have := word.toNat_lt
  simp only [ofBytes, UInt8.toNat_ofNat', UInt32.toNat_ofNat']
  omega

/-- The bytes of the word of four bytes are those bytes. -/
theorem littleEndian_ofBytes (a b c d : UInt8) :
    littleEndian 4 (ofBytes a b c d).toNat = [a, b, c, d] := by
  have ha := a.toNat_lt
  have hb := b.toNat_lt
  have hc := c.toNat_lt
  have hd := d.toNat_lt
  have value : (ofBytes a b c d).toNat =
      a.toNat + 256 * (b.toNat + 256 * (c.toNat + 256 * d.toNat)) := by
    rw [ofBytes, UInt32.toNat_ofNat']
    omega
  have byte {n : Nat} {x : UInt8} (h : n % 256 = x.toNat) : UInt8.ofNat n = x := by
    apply UInt8.toNat_inj.mp
    rw [UInt8.toNat_ofNat', h]
  rw [value]
  simp only [littleEndian, List.cons.injEq, and_true]
  exact ⟨byte (by omega), byte (by omega), byte (by omega), byte (by omega)⟩

/-- Words are read back from their bytes. -/
theorem fromBytes?_toBytes (words : List UInt32) : fromBytes? (toBytes words) = some words := by
  induction words with
  | nil => rfl
  | cons word words ih =>
    obtain ⟨a, b, c, d, bytes, value⟩ := ofBytes_littleEndian word
    simp only [toBytes, List.flatMap_cons] at ih ⊢
    rw [bytes]
    simp [fromBytes?, ih, value]

/-- Different words have different bytes. -/
theorem toBytes_inj {words words' : List UInt32} (h : toBytes words = toBytes words') :
    words = words' := by
  have hread := congrArg fromBytes? h
  rw [fromBytes?_toBytes, fromBytes?_toBytes] at hread
  exact Option.some.inj hread

/-- Bytes that are read as words are the bytes of those words. -/
theorem toBytes_of_fromBytes? {bytes : List UInt8} {words : List UInt32}
    (h : fromBytes? bytes = some words) : toBytes words = bytes := by
  fun_induction fromBytes? bytes generalizing words with
  | case1 => simp_all [toBytes]
  | case2 a b c d rest ih =>
    obtain ⟨tail, read, rfl⟩ := Option.map_eq_some_iff.mp h
    have := ih read
    simp only [toBytes, List.flatMap_cons] at this ⊢
    rw [this, littleEndian_ofBytes]
    rfl
  | case3 => exact absurd h (by simp)

/-- Bytes are words exactly if their number is a multiple of four. -/
theorem fromBytes?_isSome_iff (bytes : List UInt8) :
    (fromBytes? bytes).isSome ↔ bytes.length % 4 = 0 := by
  fun_induction fromBytes? bytes with
  | case1 => simp
  | case2 a b c d rest ih =>
    rw [Option.isSome_map, ih]
    simp only [List.length_cons]
    omega
  | case3 bytes notNil notFour =>
    simp only [Option.isSome_none, Bool.false_eq_true, false_iff]
    match bytes with
    | [] => exact absurd rfl notNil
    | [_] | [_, _] | [_, _, _] => simp
    | a :: b :: c :: d :: rest => exact absurd rfl (notFour a b c d rest)

end ScanChain.Word
