/-
# ScanChain.Policy.Basic — the parameters of one injection run

A policy holds everything that the fields of a chain can be filled from: the bits that are forced and
the value they are forced to, the probability and the seed of random flips, and the cycles at which a
timed fault fires. The policy that sets nothing is all zero. Only the probability can be wrong in
itself; whether a value fits is a question of the field that takes it.
-/
import ScanChain.Binary64.Text
import ScanChain.BitString.Basic
import ScanChain.Text.Quoted

namespace ScanChain

/-- The parameters of one injection run. -/
structure Policy where
  /-- The bits that are stuck. -/
  mask : BitString
  /-- The value that stuck bits are forced to. -/
  stuckAtValue : BitString
  /-- The probability of a flip, for each bit. -/
  probability : Binary64
  /-- The seed of the random masks and of seed registers. -/
  seed : UInt64
  /-- The number of cycles that a timed fault waits; zero turns it off. -/
  cycle : UInt64
  /-- The cycle at which a timed fault fires. -/
  cycleInjectAt : UInt64
deriving DecidableEq

namespace Policy

/-- The policy that sets nothing. -/
def inert : Policy := ⟨⟨[]⟩, ⟨[]⟩, .zero, 0, 0, 0⟩

instance : Inhabited Policy := ⟨inert⟩

/-- The parameters by name. -/
inductive Parameter where
  | mask
  | stuckAtValue
  | probability
  | seed
  | cycle
  | cycleInjectAt
deriving DecidableEq

/-- The name of a parameter in files and messages. -/
def Parameter.name : Parameter → String
  | mask => "mask"
  | stuckAtValue => "stuck_at_value"
  | probability => "probability"
  | seed => "seed"
  | cycle => "cycle"
  | cycleInjectAt => "cycle_inject_at"

/-- Why a policy cannot be applied. -/
inductive Error where
  /-- The probability is not in `[0, 1]`. -/
  | probabilityOutOfRange (probability : Binary64)
  /-- A bit string has more significant bits than the field has bits. -/
  | valueTooWide (segment field : String) (parameter : Parameter) (valueWidth fieldWidth : Nat)
  /-- A number needs more bits than the field has. -/
  | valueOutOfRange (segment field : String) (parameter : Parameter) (value fieldWidth : Nat)
deriving DecidableEq

/-- The refusal in words. -/
def Error.message : Error → String
  | probabilityOutOfRange p => "probability " ++ p.plainText ++ " outside [0, 1]"
  | valueTooWide segment field parameter valueWidth fieldWidth =>
    "segment " ++ Text.quoted segment ++ " field " ++ Text.quoted field ++ ": " ++
      parameter.name ++ " needs " ++ toString valueWidth ++ " bits but the field is " ++
      toString fieldWidth ++ " bits wide"
  | valueOutOfRange segment field parameter value fieldWidth =>
    "segment " ++ Text.quoted segment ++ " field " ++ Text.quoted field ++ ": " ++
      parameter.name ++ " = " ++ toString value ++ " does not fit in " ++
      toString fieldWidth ++ " bits"

/-- Refuses a policy that no chain can take. -/
def validate (policy : Policy) : Except Error Unit :=
  if policy.probability.isProbability then .ok ()
  else .error (.probabilityOutOfRange policy.probability)

end Policy
end ScanChain
