/-
# ScanChain.Control.Instruction — coprocessor instructions of the custom opcodes

A custom instruction has a slot, a function number, three register numbers and three flags that say
which registers are used. The flags and numbers lie side by side in a 32-bit word; the slot is in the
low seven bits as one of four major opcodes.
-/

namespace ScanChain.Control

/-- A coprocessor instruction. -/
structure Instruction where
  /-- The custom slot. -/
  custom : UInt8
  /-- The destination register. -/
  rd : UInt8
  /-- The first source register. -/
  rs1 : UInt8
  /-- The second source register. -/
  rs2 : UInt8
  /-- The instruction has a result. -/
  xd : Bool
  /-- The first source is sent. -/
  xs1 : Bool
  /-- The second source is sent. -/
  xs2 : Bool
  /-- The function number. -/
  funct7 : UInt8
deriving DecidableEq

namespace Instruction

/-- The major opcode of a slot. -/
def opcode? : UInt8 → Option UInt32
  | 0 => some 0x0b
  | 1 => some 0x2b
  | 2 => some 0x5b
  | 3 => some 0x7b
  | _ => none

/-- The slot of a major opcode. -/
def slot? : UInt32 → Option UInt8
  | 0x0b => some 0
  | 0x2b => some 1
  | 0x5b => some 2
  | 0x7b => some 3
  | _ => none

/-- The instruction that uses all three registers. -/
def withAllRegisters (custom rd rs1 rs2 funct7 : UInt8) : Instruction :=
  ⟨custom, rd, rs1, rs2, true, true, true, funct7⟩

/-- The word of an instruction, if each number fits its place. -/
def encode? (i : Instruction) : Option UInt32 :=
  match opcode? i.custom with
  | none => none
  | some opcode =>
    if 31 < i.rd ∨ 31 < i.rs1 ∨ 31 < i.rs2 ∨ 127 < i.funct7 then none
    else some (opcode ||| i.rd.toUInt32 <<< 7 ||| i.xs2.toUInt32 <<< 12 |||
      i.xs1.toUInt32 <<< 13 ||| i.xd.toUInt32 <<< 14 ||| i.rs1.toUInt32 <<< 15 |||
      i.rs2.toUInt32 <<< 20 ||| i.funct7.toUInt32 <<< 25)

/-- The instruction of a word, if its major opcode is a custom one. -/
def decode? (word : UInt32) : Option Instruction :=
  match slot? (word &&& 0x7f) with
  | none => none
  | some custom => some {
      custom
      rd := (word >>> 7 &&& 0x1f).toUInt8
      rs1 := (word >>> 15 &&& 0x1f).toUInt8
      rs2 := (word >>> 20 &&& 0x1f).toUInt8
      xd := word >>> 14 &&& 1 ≠ 0
      xs1 := word >>> 13 &&& 1 ≠ 0
      xs2 := word >>> 12 &&& 1 ≠ 0
      funct7 := (word >>> 25 &&& 0x7f).toUInt8 }

end Instruction
end ScanChain.Control
