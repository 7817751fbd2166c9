/-
# ScanChain.Control.Operation — what the fault controller can be told

Seven operations drive a chain that has been set up. Each is a custom instruction with its own
function number. Some take a register with a value or an address; the others ignore the register, and
their word has register zero there whatever was asked for.
-/
import ScanChain.Control.Instruction

namespace ScanChain.Control

/-- An operation of the fault controller. -/
inductive Operation where
  /-- Returns its operand. -/
  | echo
  /-- Shifts the image at an address into the chain. -/
  | cycle
  /-- Arms fault injection. -/
  | enable
  /-- Returns the checksum of the chain. -/
  | check
  /-- Sets the seed from memory. -/
  | writeSeed
  /-- Sets the difficulty from memory. -/
  | writeDifficulty
  /-- Sets the duration from memory. -/
  | writeDuration
deriving DecidableEq

/-- What an operation takes from its first source register. -/
inductive Operand where
  | none
  | data
  | address
deriving DecidableEq

/-- The name of a kind of operand. -/
def Operand.name : Operand → String
  | none => "None"
  | data => "Data"
  | address => "Address"

namespace Operation

/-- The operations in the order of their function numbers. -/
def all : List Operation :=
  [echo, cycle, enable, check, writeSeed, writeDifficulty, writeDuration]

/-- The function number. -/
def funct : Operation → UInt8
  | echo => 0
  | cycle => 1
  | enable => 2
  | check => 3
  | writeSeed => 4
  | writeDifficulty => 5
  | writeDuration => 6

/-- The operation with a function number. -/
def ofFunct? : UInt8 → Option Operation
  | 0 => some echo
  | 1 => some cycle
  | 2 => some enable
  | 3 => some check
  | 4 => some writeSeed
  | 5 => some writeDifficulty
  | 6 => some writeDuration
  | _ => none

/-- What the operation takes from its register. -/
def operand : Operation → Operand
  | echo => .data
  | enable | check => .none
  | cycle | writeSeed | writeDifficulty | writeDuration => .address

/-- The register that conventionally holds the operand. -/
def payloadRegister : UInt8 := 10

/-- The slot that the controller is attached to. -/
def defaultSlot : UInt8 := 2

/-- The register that is used where none is named. -/
def defaultSource (operation : Operation) : UInt8 :=
  match operation.operand with
  | .none => 0
  | .data | .address => payloadRegister

/-- The name in assembler macros. -/
def mnemonic : Operation → String
  | echo => "ECHO"
  | cycle => "CYCLE"
  | enable => "ENABLE"
  | check => "CHECK"
  | writeSeed => "WRITE_SEED"
  | writeDifficulty => "WRITE_DIFFICULTY"
  | writeDuration => "WRITE_DURATION"

/-- The operation of an instruction. -/
def ofInstruction? (i : Instruction) : Option Operation := ofFunct? i.funct7

/-- The word of an operation on a slot with a destination and a source register. -/
def word? (operation : Operation) (custom rd rs1 : UInt8) : Option UInt32 :=
  let source := match operation.operand with
    | .none => 0
    | .data | .address => rs1
  (Instruction.withAllRegisters custom rd source 0 operation.funct).encode?

end Operation
end ScanChain.Control
