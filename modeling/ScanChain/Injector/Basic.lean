/-
# ScanChain.Injector.Basic — fault models and the fields they declare

An injector sits on one register and has fields of its own in the scan chain, in a fixed order from
the most significant end. Each field says what fills it: nothing, or one parameter of the policy. A
field of width zero is not there. Only the register width has to be given; each other width has a
default that a description may override.
-/
import ScanChain.NameTable
import ScanChain.Policy.Basic

namespace ScanChain

/-- What fills a field. -/
inductive Binding where
  /-- Nothing; the field stays zero. -/
  | none
  /-- One if the probability is above zero. -/
  | enableOnProbability
  /-- One if the cycle count is not zero. -/
  | enableOnCycle
  /-- The seed. -/
  | seed
  /-- The next random mask. -/
  | randomMask
  /-- The probability as a threshold of the field's width. -/
  | difficulty
  /-- The stuck-at mask. -/
  | mask
  /-- The stuck-at value. -/
  | stuckAtValue
  /-- The cycle count. -/
  | cycle
  /-- The cycle of injection. -/
  | cycleInjectAt
deriving DecidableEq

namespace Binding

/-- The name of a binding in listings. -/
def name : Binding → String
  | none => "None"
  | enableOnProbability => "EnableOnProbability"
  | enableOnCycle => "EnableOnCycle"
  | seed => "Seed"
  | randomMask => "RandomMask"
  | difficulty => "Difficulty"
  | mask => "Mask"
  | stuckAtValue => "StuckAtValue"
  | cycle => "Cycle"
  | cycleInjectAt => "CycleInjectAt"

/-- The parameter that a binding is about. -/
def parameter? : Binding → Option Policy.Parameter
  | none => Option.none
  | enableOnProbability | randomMask | difficulty => some .probability
  | enableOnCycle | cycle => some .cycle
  | seed => some .seed
  | mask => some .mask
  | stuckAtValue => some .stuckAtValue
  | cycleInjectAt => some .cycleInjectAt

end Binding

/-- A field that an injector declares. -/
structure Field where
  name : String
  width : UInt32
  binding : Binding
deriving DecidableEq

/-- The fault model on a register of a width. -/
inductive Injector where
  /-- No fault: the register is shifted through. -/
  | passThrough (width : UInt32)
  /-- Random flips from a shift register in hardware. -/
  | lfsr (width enable seed mask difficulty : UInt32)
  /-- Bits forced to a value. -/
  | stuckAt (width mask value : UInt32)
  /-- A fault at a given cycle. -/
  | cycle (width enable cycleCount injectAt : UInt32)
deriving DecidableEq

namespace Injector

/-- The width of the register. -/
def width : Injector → UInt32
  | passThrough width => width
  | lfsr width .. => width
  | stuckAt width .. => width
  | cycle width .. => width

/-- The name of the fault model. -/
def tag : Injector → String
  | passThrough .. => "pass-through"
  | lfsr .. => "lfsr"
  | stuckAt .. => "stuck-at"
  | cycle .. => "cycle"

/-- The names of all fault models. -/
def tags : List String := ["pass-through", "lfsr", "stuck-at", "cycle"]

/-- The fields with those of width zero, the most significant first. -/
def declared : Injector → List Field
  | passThrough width => [⟨"data", width, .none⟩]
  | lfsr _ enable seed mask difficulty =>
    [⟨"enable", enable, .enableOnProbability⟩, ⟨"seed", seed, .seed⟩, ⟨"mask", mask, .randomMask⟩,
      ⟨"difficulty", difficulty, .difficulty⟩]
  | stuckAt _ mask value => [⟨"mask", mask, .mask⟩, ⟨"value", value, .stuckAtValue⟩]
  | cycle _ enable cycleCount injectAt =>
    [⟨"enable", enable, .enableOnCycle⟩, ⟨"cycle_count", cycleCount, .cycle⟩,
      ⟨"inject_at", injectAt, .cycleInjectAt⟩]

/-- The fields, the most significant first. -/
def fields (injector : Injector) : List Field := injector.declared.filter (·.width ≠ 0)

/-- The sum of the field widths. -/
def fieldsWidth (injector : Injector) : Nat :=
  (injector.fields.map (·.width.toNat)).sum

/-- The fault model of a name with the default widths for a register. -/
def ofTag? (tag : String) (width : UInt32) : Option Injector :=
  match tag with
  | "pass-through" => some (passThrough width)
  | "lfsr" => some (lfsr width 1 32 width 0)
  | "stuck-at" => some (stuckAt width width width)
  | "cycle" => some (cycle width 1 32 32)
  | _ => none

/-- The injector with one width overridden. The field of a pass-through is the register itself and has
no width of its own. -/
def override? (injector : Injector) (field : String) (value : UInt32) : Option Injector :=
  match injector, field with
  | lfsr w _ s m d, "enable" => some (lfsr w value s m d)
  | lfsr w e _ m d, "seed" => some (lfsr w e value m d)
  | lfsr w e s _ d, "mask" => some (lfsr w e s value d)
  | lfsr w e s m _, "difficulty" => some (lfsr w e s m value)
  | stuckAt w _ v, "mask" => some (stuckAt w value v)
  | stuckAt w m _, "value" => some (stuckAt w m value)
  | cycle w _ c i, "enable" => some (cycle w value c i)
  | cycle w e _ i, "cycle_count" => some (cycle w e value i)
  | cycle w e c _, "inject_at" => some (cycle w e c value)
  | _, _ => none

/-- The fault model and its fields in one line. -/
def display (injector : Injector) : String :=
  let field (f : Field) : String := f.name ++ ":" ++ toString f.width.toNat
  let list := match injector.fields with
    | [] => ""
    | fields => " [" ++ ", ".intercalate (fields.map field) ++ "]"
  injector.tag ++ "(" ++ toString injector.width.toNat ++ ")" ++ list

end Injector
end ScanChain
