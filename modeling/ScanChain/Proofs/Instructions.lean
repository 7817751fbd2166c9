/-
# ScanChain.Proofs.Instructions — instructions and their words

An instruction word is a number whose digits are the fields: each field stands above all that are in
the word before it (`Filled.above`), so that putting the fields together is a sum (`toNat_wordOver`)
and taking one out is a division and a remainder (`toNat_shiftRight_and`). What makes encoding and
decoding undo each other is then one fact of arithmetic (`wordOver_eq_iff`): the sum is the word
exactly if every field is its slice.
-/
import ScanChain.Control.Operation

namespace ScanChain.Control

/-! ## Numbers side by side in a word -/

/-- The set bits of a word are all below a place, where they stand for a number. -/
structure Filled (word : UInt32) (number place : Nat) : Prop where
  toNat_eq : word.toNat = number
  below : number < 2 ^ place

section Words

variable {low high word amount mask : UInt32} {number place width : Nat}

/-- A number of `width` bits goes above all that is in a word. -/
theorem Filled.above (h : Filled low number place) (amount : UInt32)
    (hamount : amount.toNat = place) (hhigh : high.toNat < 2 ^ width)
    (hroom : place < 32 ∧ place + width ≤ 32) :
    Filled (low ||| high <<< amount) (number + high.toNat * 2 ^ place) (place + width) := by
  obtain ⟨rfl, hbelow⟩ := h
  have hshifted : high.toNat * 2 ^ place < 2 ^ 32 := by
    calc high.toNat * 2 ^ place < 2 ^ width * 2 ^ place :=
          (Nat.mul_lt_mul_right (Nat.two_pow_pos place)).mpr hhigh
      _ = 2 ^ (place + width) := by rw [← Nat.pow_add, Nat.add_comm]
      _ ≤ 2 ^ 32 := Nat.pow_le_pow_right (by decide) hroom.2
  refine ⟨?_, ?_⟩
  · rw [UInt32.toNat_or, UInt32.toNat_shiftLeft, hamount, Nat.mod_eq_of_lt hroom.1,
      Nat.shiftLeft_eq, Nat.mod_eq_of_lt hshifted, Nat.or_comm, ← Nat.shiftLeft_eq,
      ← Nat.shiftLeft_add_eq_or_of_lt hbelow, Nat.shiftLeft_eq, Nat.add_comm]
  · calc low.toNat + high.toNat * 2 ^ place < 2 ^ place * (high.toNat + 1) := by
          rw [Nat.mul_succ, Nat.mul_comm, Nat.add_comm]
          exact Nat.add_lt_add_left hbelow _
      _ ≤ 2 ^ place * 2 ^ width := Nat.mul_le_mul_left _ hhigh
      _ = 2 ^ (place + width) := (Nat.pow_add ..).symm

/-- A shifted word behind a mask is a slice of the word. -/
theorem toNat_shiftRight_and (hamount : amount.toNat = place) (hplace : place < 32)
    (hmask : mask.toNat = 2 ^ width - 1) :
    (word >>> amount &&& mask).toNat = word.toNat / 2 ^ place % 2 ^ width := by
  rw [UInt32.toNat_and, UInt32.toNat_shiftRight, hamount, hmask, Nat.mod_eq_of_lt hplace,
    Nat.and_two_pow_sub_one_eq_mod, Nat.shiftRight_eq_div_pow]

/-- A slice of at most eight bits as a byte. -/
theorem toNat_toUInt8_shiftRight_and (hamount : amount.toNat = place) (hplace : place < 32)
    (hmask : mask.toNat = 2 ^ width - 1) (hwidth : width ≤ 8) :
    (word >>> amount &&& mask).toUInt8.toNat = word.toNat / 2 ^ place % 2 ^ width := by
  rw [UInt32.toNat_toUInt8, toNat_shiftRight_and hamount hplace hmask]
  apply Nat.mod_eq_of_lt
  calc word.toNat / 2 ^ place % 2 ^ width < 2 ^ width := Nat.mod_lt _ (Nat.two_pow_pos _)
    _ ≤ 2 ^ 8 := Nat.pow_le_pow_right (by decide) hwidth

/-- A slice of one bit as a flag. -/
theorem toNat_shiftRight_and_one (hamount : amount.toNat = place) (hplace : place < 32) :
    (decide (word >>> amount &&& 1 ≠ 0)).toNat = word.toNat / 2 ^ place % 2 ^ 1 := by
  have hbit : (word >>> amount &&& 1).toNat = word.toNat / 2 ^ place % 2 ^ 1 :=
    toNat_shiftRight_and hamount hplace rfl
  rw [← hbit]
  by_cases hzero : word >>> amount &&& 1 = 0
  · rw [hzero]
    rfl
  · have hne : (word >>> amount &&& 1).toNat ≠ 0 := fun h => hzero (UInt32.toNat_inj.mp h)
    rw [decide_eq_true hzero, Bool.toNat_true]
    omega

theorem toNat_toUInt32 (flag : Bool) : flag.toUInt32.toNat = flag.toNat := by
  cases flag <;> rfl

theorem flag_inj {flag flag' : Bool} (h : flag.toNat = flag'.toNat) : flag = flag' := by
  cases flag <;> cases flag' <;> simp_all

end Words

namespace Instruction

/-- Each number of an instruction fits its place in a word. -/
structure Fits (i : Instruction) : Prop where
  custom : i.custom ≤ 3
  rd : i.rd ≤ 31
  rs1 : i.rs1 ≤ 31
  rs2 : i.rs2 ≤ 31
  funct7 : i.funct7 ≤ 127

/-- The fields of an instruction are those of a word, above its low seven bits. -/
structure FieldsOf (word : UInt32) (i : Instruction) : Prop where
  rd : i.rd.toNat = word.toNat / 2 ^ 7 % 2 ^ 5
  xs2 : i.xs2.toNat = word.toNat / 2 ^ 12 % 2 ^ 1
  xs1 : i.xs1.toNat = word.toNat / 2 ^ 13 % 2 ^ 1
  xd : i.xd.toNat = word.toNat / 2 ^ 14 % 2 ^ 1
  rs1 : i.rs1.toNat = word.toNat / 2 ^ 15 % 2 ^ 5
  rs2 : i.rs2.toNat = word.toNat / 2 ^ 20 % 2 ^ 5
  funct7 : i.funct7.toNat = word.toNat / 2 ^ 25 % 2 ^ 7

/-- The custom major opcodes. -/
def customOpcodes : List Nat := [0x0b, 0x2b, 0x5b, 0x7b]

/-- The fields of an instruction side by side above a major opcode. -/
def wordOver (opcode : UInt32) (i : Instruction) : UInt32 :=
  opcode ||| i.rd.toUInt32 <<< 7 ||| i.xs2.toUInt32 <<< 12 ||| i.xs1.toUInt32 <<< 13 |||
    i.xd.toUInt32 <<< 14 ||| i.rs1.toUInt32 <<< 15 ||| i.rs2.toUInt32 <<< 20 |||
    i.funct7.toUInt32 <<< 25

section Codec

variable {i : Instruction} {word opcode : UInt32}

theorem toNat_wordOver (hopcode : opcode.toNat < 2 ^ 7) (h : i.Fits) :
    (wordOver opcode i).toNat = opcode.toNat + i.rd.toNat * 2 ^ 7 + i.xs2.toNat * 2 ^ 12 +
      i.xs1.toNat * 2 ^ 13 + i.xd.toNat * 2 ^ 14 + i.rs1.toNat * 2 ^ 15 + i.rs2.toNat * 2 ^ 20 +
      i.funct7.toNat * 2 ^ 25 := by
  have hrd : i.rd.toUInt32.toNat < 2 ^ 5 := Nat.lt_succ_of_le h.rd
  have hrs1 : i.rs1.toUInt32.toNat < 2 ^ 5 := Nat.lt_succ_of_le h.rs1
  have hrs2 : i.rs2.toUInt32.toNat < 2 ^ 5 := Nat.lt_succ_of_le h.rs2
  have hfunct7 : i.funct7.toUInt32.toNat < 2 ^ 7 := Nat.lt_succ_of_le h.funct7
  have hflag (flag : Bool) : flag.toUInt32.toNat < 2 ^ 1 := by
    rw [toNat_toUInt32]
    exact flag.toNat_lt
  have hall :=
    (Filled.mk rfl hopcode).above 7 rfl hrd (by decide)
      |>.above 12 rfl (hflag i.xs2) (by decide)
      |>.above 13 rfl (hflag i.xs1) (by decide)
      |>.above 14 rfl (hflag i.xd) (by decide)
      |>.above 15 rfl hrs1 (by decide)
      |>.above 20 rfl hrs2 (by decide)
      |>.above 25 rfl hfunct7 (by decide)
  have hnumber := hall.toNat_eq
  simp only [UInt8.toNat_toUInt32, toNat_toUInt32] at hnumber
  exact hnumber

theorem opcode?_eq_some_iff {custom : UInt8} :
    opcode? custom = some opcode ↔ slot? opcode = some custom := by
  constructor
  · intro h
    unfold opcode? at h
    split at h <;> cases h <;> rfl
  · intro h
    unfold slot? at h
    split at h <;> cases h <;> rfl

/-- The slots with a major opcode are the first four. -/
theorem isSome_opcode? {custom : UInt8} : (opcode? custom).isSome ↔ custom ≤ 3 := by
  constructor
  · intro h
    unfold opcode? at h
    split at h
    · decide
    · decide
    · decide
    · decide
    · cases h
  · intro h
    have hle : custom.toNat ≤ 3 := UInt8.le_iff_toNat_le.mp h
    have hslot : custom.toNat = 0 ∨ custom.toNat = 1 ∨ custom.toNat = 2 ∨ custom.toNat = 3 := by
      omega
    rcases hslot with hslot | hslot | hslot | hslot
    · obtain rfl : custom = 0 := UInt8.toNat_inj.mp hslot
      rfl
    · obtain rfl : custom = 1 := UInt8.toNat_inj.mp hslot
      rfl
    · obtain rfl : custom = 2 := UInt8.toNat_inj.mp hslot
      rfl
    · obtain rfl : custom = 3 := UInt8.toNat_inj.mp hslot
      rfl

/-- The major opcodes with a slot are the four custom ones. -/
theorem isSome_slot? : (slot? opcode).isSome ↔ opcode.toNat ∈ customOpcodes := by
  constructor
  · intro h
    unfold slot? at h
    split at h
    · decide
    · decide
    · decide
    · decide
    · cases h
  · intro h
    simp only [customOpcodes, List.mem_cons, List.not_mem_nil, or_false] at h
    rcases h with h | h | h | h
    · obtain rfl : opcode = 0x0b := UInt32.toNat_inj.mp h
      rfl
    · obtain rfl : opcode = 0x2b := UInt32.toNat_inj.mp h
      rfl
    · obtain rfl : opcode = 0x5b := UInt32.toNat_inj.mp h
      rfl
    · obtain rfl : opcode = 0x7b := UInt32.toNat_inj.mp h
      rfl

theorem toNat_lt_of_slot? {custom : UInt8} (h : slot? opcode = some custom) :
    opcode.toNat < 2 ^ 7 := by
  have hmem := isSome_slot?.mp (Option.isSome_of_eq_some h)
  simp only [customOpcodes, List.mem_cons, List.not_mem_nil, or_false] at hmem
  omega

/-- A word of a custom major opcode is decoded field by field. -/
theorem exists_decode? {custom : UInt8} (hslot : slot? (word &&& 0x7f) = some custom) :
    ∃ i, decode? word = some i ∧ i.custom = custom ∧ i.FieldsOf word := by
  refine ⟨_, by rw [decode?, hslot], rfl, ?_⟩
  exact {
    rd := toNat_toUInt8_shiftRight_and rfl (by decide) rfl (by decide)
    xs2 := toNat_shiftRight_and_one rfl (by decide)
    xs1 := toNat_shiftRight_and_one rfl (by decide)
    xd := toNat_shiftRight_and_one rfl (by decide)
    rs1 := toNat_toUInt8_shiftRight_and rfl (by decide) rfl (by decide)
    rs2 := toNat_toUInt8_shiftRight_and rfl (by decide) rfl (by decide)
    funct7 := toNat_toUInt8_shiftRight_and rfl (by decide) rfl (by decide) }

/-- The slot and the word leave no choice for the fields. -/
theorem FieldsOf.eq {j : Instruction} (h : i.FieldsOf word) (h' : j.FieldsOf word)
    (hcustom : i.custom = j.custom) : i = j := by
  obtain ⟨custom, rd, rs1, rs2, xd, xs1, xs2, funct7⟩ := i
  obtain ⟨custom', rd', rs1', rs2', xd', xs1', xs2', funct7'⟩ := j
  obtain rfl : custom = custom' := hcustom
  obtain rfl : rd = rd' := UInt8.toNat_inj.mp (h.rd.trans h'.rd.symm)
  obtain rfl : rs1 = rs1' := UInt8.toNat_inj.mp (h.rs1.trans h'.rs1.symm)
  obtain rfl : rs2 = rs2' := UInt8.toNat_inj.mp (h.rs2.trans h'.rs2.symm)
  obtain rfl : xd = xd' := flag_inj (h.xd.trans h'.xd.symm)
  obtain rfl : xs1 = xs1' := flag_inj (h.xs1.trans h'.xs1.symm)
  obtain rfl : xs2 = xs2' := flag_inj (h.xs2.trans h'.xs2.symm)
  obtain rfl : funct7 = funct7' := UInt8.toNat_inj.mp (h.funct7.trans h'.funct7.symm)
  rfl

theorem decode?_eq_some_iff :
    decode? word = some i ↔ slot? (word &&& 0x7f) = some i.custom ∧ i.FieldsOf word := by
  constructor
  · intro h
    cases hslot : slot? (word &&& 0x7f) with
    | none =>
      rw [decode?, hslot] at h
      cases h
    | some custom =>
      obtain ⟨j, hdecode, rfl, hfields⟩ := exists_decode? hslot
      obtain rfl : j = i := Option.some.inj (hdecode.symm.trans h)
      exact ⟨rfl, hfields⟩
  · rintro ⟨hslot, hfields⟩
    obtain ⟨j, hdecode, hcustom, hfields'⟩ := exists_decode? hslot
    rw [hdecode, hfields'.eq hfields hcustom]

theorem toNat_and_low (word : UInt32) : (word &&& 0x7f).toNat = word.toNat % 2 ^ 7 := by
  rw [UInt32.toNat_and]
  exact Nat.and_two_pow_sub_one_eq_mod _ 7

/-- The words that are decoded are those with a custom major opcode in their low seven bits. -/
theorem isSome_decode? : (decode? word).isSome ↔ word.toNat % 2 ^ 7 ∈ customOpcodes := by
  rw [← toNat_and_low, ← isSome_slot?, decode?]
  cases slot? (word &&& 0x7f) with
  | none => exact Iff.rfl
  | some custom => exact Iff.rfl

theorem encode?_eq_some_iff :
    i.encode? = some word ↔
      i.Fits ∧ ∃ opcode, opcode? i.custom = some opcode ∧ wordOver opcode i = word := by
  have hcustom : (opcode? i.custom).isSome ↔ i.custom ≤ 3 := isSome_opcode?
  unfold encode?
  cases hopcode : opcode? i.custom with
  | none => simp
  | some opcode =>
    rw [hopcode] at hcustom
    dsimp only
    split
    · rename_i hbad
      refine iff_of_false nofun ?_
      rintro ⟨hfits, -⟩
      rcases hbad with hbad | hbad | hbad | hbad
      · exact UInt8.not_le.mpr hbad hfits.rd
      · exact UInt8.not_le.mpr hbad hfits.rs1
      · exact UInt8.not_le.mpr hbad hfits.rs2
      · exact UInt8.not_le.mpr hbad hfits.funct7
    · rename_i hgood
      simp only [not_or, UInt8.not_lt] at hgood
      obtain ⟨hrd, hrs1, hrs2, hfunct7⟩ := hgood
      have hfits : i.Fits := ⟨hcustom.mp rfl, hrd, hrs1, hrs2, hfunct7⟩
      constructor
      · intro h
        exact ⟨hfits, opcode, rfl, Option.some.inj h⟩
      · rintro ⟨-, opcode', hopcode', rfl⟩
        cases hopcode'
        rfl

/-- The fields of a word over the major opcode of its low seven bits make the word. -/
theorem wordOver_eq_iff (hopcode : opcode.toNat < 2 ^ 7) (h : i.Fits) :
    wordOver opcode i = word ↔ word &&& 0x7f = opcode ∧ i.FieldsOf word := by
  have hword := word.toNat_lt
  have hrd := UInt8.le_iff_toNat_le.mp h.rd
  have hrs1 := UInt8.le_iff_toNat_le.mp h.rs1
  have hrs2 := UInt8.le_iff_toNat_le.mp h.rs2
  have hfunct7 := UInt8.le_iff_toNat_le.mp h.funct7
  simp only [UInt8.reduceToNat] at hrd hrs1 hrs2 hfunct7
  have hxd := i.xd.toNat_lt
  have hxs1 := i.xs1.toNat_lt
  have hxs2 := i.xs2.toNat_lt
  rw [← UInt32.toNat_inj, toNat_wordOver hopcode h, ← UInt32.toNat_inj, toNat_and_low]
  constructor
  · intro hnumber
    exact ⟨by omega, ⟨by omega, by omega, by omega, by omega, by omega, by omega, by omega⟩⟩
  · rintro ⟨hopcode, hrd, hxs2, hxs1, hxd, hrs1, hrs2, hfunct7⟩
    omega

/-- An instruction with the fields of a word fits if its slot has a major opcode. -/
theorem FieldsOf.fits (h : i.FieldsOf word) (hcustom : i.custom ≤ 3) : i.Fits := by
  have hbelow {x : UInt8} {n width : Nat} (bound : UInt8) (hbound : bound.toNat + 1 = 2 ^ width)
      (hx : x.toNat = n % 2 ^ width) : x ≤ bound := by
    rw [UInt8.le_iff_toNat_le, hx]
    have := Nat.mod_lt n (Nat.two_pow_pos width)
    omega
  exact {
    custom := hcustom
    rd := hbelow 31 rfl h.rd
    rs1 := hbelow 31 rfl h.rs1
    rs2 := hbelow 31 rfl h.rs2
    funct7 := hbelow 127 rfl h.funct7 }

/-- Encoding and decoding undo each other. -/
theorem encode?_eq_some_iff_decode? : i.encode? = some word ↔ decode? word = some i := by
  rw [encode?_eq_some_iff, decode?_eq_some_iff]
  constructor
  · rintro ⟨hfits, opcode, hopcode, hword⟩
    have hslot := opcode?_eq_some_iff.mp hopcode
    obtain ⟨hlow, hfields⟩ := (wordOver_eq_iff (toNat_lt_of_slot? hslot) hfits).mp hword
    rw [hlow]
    exact ⟨hslot, hfields⟩
  · rintro ⟨hslot, hfields⟩
    have hopcode := opcode?_eq_some_iff.mpr hslot
    have hfits := hfields.fits (isSome_opcode?.mp (Option.isSome_of_eq_some hopcode))
    exact ⟨hfits, _, hopcode, (wordOver_eq_iff (toNat_lt_of_slot? hslot) hfits).mpr ⟨rfl, hfields⟩⟩

/-- The instructions that are encoded are those that fit. -/
theorem isSome_encode? : i.encode?.isSome ↔ i.Fits := by
  rw [Option.isSome_iff_exists]
  constructor
  · rintro ⟨word, hword⟩
    exact (encode?_eq_some_iff.mp hword).1
  · intro hfits
    obtain ⟨opcode, hopcode⟩ := Option.isSome_iff_exists.mp (isSome_opcode?.mpr hfits.custom)
    exact ⟨_, encode?_eq_some_iff.mpr ⟨hfits, opcode, hopcode, rfl⟩⟩

end Codec
end Instruction

/-! ## The words of operations -/

/-- An instruction is an operation on a slot, with all flags set and no second source. Its first source
is the given one where the operation reads it. -/
structure Instruction.Carries (i : Instruction) (operation : Operation) (custom rd rs1 : UInt8) :
    Prop where
  custom : i.custom = custom
  rd : i.rd = rd
  selects : Operation.ofInstruction? i = some operation
  rs1 : i.rs1 = if operation.operand = .none then 0 else rs1
  rs2 : i.rs2 = 0
  flags : i.xd = true ∧ i.xs1 = true ∧ i.xs2 = true

namespace Operation

variable {operation : Operation} {custom rd rs1 : UInt8}

theorem ofFunct?_eq_some_iff {funct7 : UInt8} :
    ofFunct? funct7 = some operation ↔ funct7 = operation.funct := by
  constructor
  · intro h
    unfold ofFunct? at h
    split at h <;> cases h <;> rfl
  · rintro rfl
    cases operation <;> rfl

/-- The instruction of an operation. -/
def instruction (operation : Operation) (custom rd rs1 : UInt8) : Instruction :=
  .withAllRegisters custom rd (if operation.operand = .none then 0 else rs1) 0 operation.funct

theorem word?_eq (operation : Operation) (custom rd rs1 : UInt8) :
    operation.word? custom rd rs1 = (operation.instruction custom rd rs1).encode? := by
  cases operation <;> rfl

theorem carries_iff {i : Instruction} :
    i.Carries operation custom rd rs1 ↔ i = operation.instruction custom rd rs1 := by
  constructor
  · intro h
    obtain ⟨custom', rd', rs1', rs2', xd', xs1', xs2', funct7'⟩ := i
    obtain ⟨rfl, rfl, hfunct, rfl, rfl, rfl, rfl, rfl⟩ := h
    obtain rfl := ofFunct?_eq_some_iff.mp hfunct
    rfl
  · rintro rfl
    exact ⟨rfl, rfl, ofFunct?_eq_some_iff.mpr rfl, rfl, rfl, rfl, rfl, rfl⟩

theorem fits_instruction :
    (operation.instruction custom rd rs1).Fits ↔
      custom ≤ 3 ∧ rd ≤ 31 ∧ (operation.operand ≠ .none → rs1 ≤ 31) := by
  have hfunct : operation.funct ≤ 127 := by cases operation <;> decide
  have hsource : (if operation.operand = .none then 0 else rs1) ≤ 31 ↔
      (operation.operand ≠ .none → rs1 ≤ 31) := by
    by_cases hnone : operation.operand = .none
    · rw [if_pos hnone]
      exact iff_of_true (by decide) (absurd hnone)
    · rw [if_neg hnone]
      exact (imp_iff_right hnone).symm
  constructor
  · intro h
    exact ⟨h.custom, h.rd, hsource.mp h.rs1⟩
  · rintro ⟨hcustom, hrd, hrs1⟩
    exact ⟨hcustom, hrd, hsource.mpr hrs1, (by decide : (0 : UInt8) ≤ 31), hfunct⟩

/-- The word of an operation is the one that is decoded to it. -/
theorem word?_eq_some_iff {word : UInt32} :
    operation.word? custom rd rs1 = some word ↔
      ∃ i, Instruction.decode? word = some i ∧ i.Carries operation custom rd rs1 := by
  simp only [carries_iff, word?_eq, Instruction.encode?_eq_some_iff_decode?, exists_eq_right]

end Operation

/-- Encoding is defined on the instructions that fit, decoding on the words with a custom major opcode,
and each undoes the other. The word of an operation exists exactly where the slot and the registers it
reads fit, and is the one that is decoded to this operation with its slot and registers. -/
theorem instructions_correspond_to_words :
    (∀ i : Instruction, i.encode?.isSome ↔ i.Fits) ∧
    (∀ word : UInt32, (Instruction.decode? word).isSome ↔
      word.toNat % 2 ^ 7 ∈ Instruction.customOpcodes) ∧
    (∀ (i : Instruction) (word : UInt32),
      i.encode? = some word ↔ Instruction.decode? word = some i) ∧
    ∀ (operation : Operation) (custom rd rs1 : UInt8),
      ((operation.word? custom rd rs1).isSome ↔
        custom ≤ 3 ∧ rd ≤ 31 ∧ (operation.operand ≠ .none → rs1 ≤ 31)) ∧
      ∀ word, operation.word? custom rd rs1 = some word ↔
        ∃ i, Instruction.decode? word = some i ∧ i.Carries operation custom rd rs1 := by
  refine ⟨fun _ => Instruction.isSome_encode?, fun _ => Instruction.isSome_decode?,
    fun _ _ => Instruction.encode?_eq_some_iff_decode?, fun operation custom rd rs1 => ⟨?_, ?_⟩⟩
  · rw [Operation.word?_eq, Instruction.isSome_encode?, Operation.fits_instruction]
  · intro word
    exact Operation.word?_eq_some_iff

example : Operation.echo.word? Operation.defaultSlot 5 Operation.payloadRegister = some 0x572db := by
  decide

end ScanChain.Control
