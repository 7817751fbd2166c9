/-
# ScanChain.Policy.Json — policies in data files

A policy file is a record of the six parameters; what is left out is as in the inert policy. Bit
strings are hexadecimal text, so reading one back rounds its width up to whole digits.
-/
import ScanChain.BitString.Hex
import ScanChain.Json.Reader
import ScanChain.Json.Value
import ScanChain.Policy.Basic

namespace ScanChain

namespace BitString

/-- A bit string in a data file. -/
def toJson (b : BitString) : Json.Value := .text b.toHex

/-- Reads a bit string in a data file. -/
def reader : Json.Reader HexError BitString := do
  match ofFileText (← Json.Reader.text) with
  | .ok b => pure b
  | .error e => throw (.content e)

end BitString

namespace Policy

/-- The policy as a record. -/
def toJson (policy : Policy) : Json.Value := .object [
  (Parameter.mask.name, policy.mask.toJson),
  (Parameter.stuckAtValue.name, policy.stuckAtValue.toJson),
  (Parameter.probability.name, .real policy.probability),
  (Parameter.seed.name, .count policy.seed.toNat),
  (Parameter.cycle.name, .count policy.cycle.toNat),
  (Parameter.cycleInjectAt.name, .count policy.cycleInjectAt.toNat)]

/-- The parameters in the order of the record; each may be left out. -/
def shape : Json.Reader.Shape where
  members := ["mask", "stuck_at_value", "probability", "seed", "cycle", "cycle_inject_at"]
  mayOmit _ _ := true

/-- A 64-bit parameter. -/
def word64 : Json.Reader BitString.HexError UInt64 := UInt64.ofNat <$> Json.Reader.natural

/-- Reads the parameter of a name into a policy. -/
def readParameter (name : String) (policy : Policy) : Json.Reader BitString.HexError Policy := do
  match name with
  | "mask" => return { policy with mask := ← BitString.reader }
  | "stuck_at_value" => return { policy with stuckAtValue := ← BitString.reader }
  | "probability" => return { policy with probability := ← Json.Reader.binary64 }
  | "seed" => return { policy with seed := ← word64 }
  | "cycle" => return { policy with cycle := ← word64 }
  | "cycle_inject_at" => return { policy with cycleInjectAt := ← word64 }
  | _ => Json.Reader.malformed

/-- Reads a policy. -/
def ofJson (source : String) : Except (Json.Fault BitString.HexError) Policy :=
  Json.Reader.run (Json.Reader.record shape readParameter inert) source

end Policy
end ScanChain
