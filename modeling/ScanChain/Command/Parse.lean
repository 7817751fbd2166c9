/-
# ScanChain.Command.Parse — command lines

A command line names one command and gives its arguments. Every value is read as what it stands for
before anything is run, so a command that runs has only its files left to go wrong. A command line
that cannot be used gives no command.

The reading of options stands for the package `clap`, which is no part of this library. A theorem about
every command line with `parse? line = some command` takes for granted that the package makes the same
commands of the same lines; what it prints about a line that cannot be used is left out.
-/
import ScanChain.BitString.Hex
import ScanChain.Chain.Header
import ScanChain.Command.Options
import ScanChain.Control.Operation

namespace ScanChain

/-- Which chains a command is about. -/
structure ChainOptions where
  /-- The file with the descriptor. -/
  descriptor : String
  /-- The chain; without one the command is about all of them. -/
  chain : Option String
  header : HeaderKind
  /-- Images have a checksum word. -/
  checksum : Bool
deriving DecidableEq

/-- A policy file and what replaces its parameters. -/
structure PolicyOptions where
  policy : Option String
  mask : Option BitString
  stuckAtValue : Option BitString
  probability : Option Binary64
  seed : Option UInt64
  cycle : Option UInt64
  cycleInjectAt : Option UInt64
deriving DecidableEq

/-- What a compilation writes, and where. -/
structure OutputOptions where
  directory : String
  /-- Write a listing. -/
  listing : Bool
  /-- Write the listing as a definition of this name. -/
  definition : Option String
  /-- Write a report. -/
  report : Bool
  /-- Compile twice. -/
  verify : Bool
deriving DecidableEq

/-- A command with its arguments. -/
inductive Command where
  | version
  | compile (chain : ChainOptions) (policy : PolicyOptions) (output : OutputOptions)
  | decode (chain : ChainOptions) (image : String)
  | layout (chain : ChainOptions)
  | diff (first second : String)
  | encode (operation : Control.Operation) (rd : UInt8) (rs1 : Option UInt8) (custom : UInt8)
  | pattern (ones size : UInt32)
deriving DecidableEq

namespace Command

/-! ## Values -/

/-- A whole number from 0 to `limit`, with a sign that leaves it there; of the signs `-` is allowed only
if `minusZero` is, and then only before zero. -/
def number? (minusZero : Bool) (limit : Nat) (text : String) : Option Nat :=
  let (negative, digits) := Binary64.splitSign text.toList
  let value := Binary64.valueOfDigits digits
  if digits.isEmpty || !digits.all Char.isDigit || limit < value then none
  else if negative && !(minusZero && value == 0) then none
  else some value

/-- A number in eight bits. -/
def word8? (text : String) : Option UInt8 := (number? true 255 text).map UInt8.ofNat

/-- A number in 32 bits. -/
def word32? (text : String) : Option UInt32 := (number? true (2 ^ 32 - 1) text).map UInt32.ofNat

/-- A number in 64 bits. -/
def word64? (text : String) : Option UInt64 := (number? false (2 ^ 64 - 1) text).map UInt64.ofNat

/-- A path, which has at least one character. -/
def path? (text : String) : Option String := if text.isEmpty then none else some text

/-- A bit string in hexadecimal. -/
def hex? (text : String) : Option BitString := (BitString.ofHex text).toOption

/-- An operation by the name it has on the command line. -/
def operation? : String → Option Control.Operation
  | "echo" => some .echo
  | "cycle" => some .cycle
  | "enable" => some .enable
  | "check" => some .check
  | "write-seed" => some .writeSeed
  | "write-difficulty" => some .writeDifficulty
  | "write-duration" => some .writeDuration
  | _ => none

/-! ## Commands -/

/-- The flag that every command takes. -/
def verbose : Switch := .flag "verbose" (some 'v')

/-- The switches of a command that is about chains. -/
def chainSwitches : List Switch :=
  [verbose, .option "chain" none, .option "header" none, .flag "checksum" none]

/-- The switches of a command that takes a policy. -/
def policySwitches : List Switch :=
  ["policy", "mask", "stuck-at", "probability", "seed", "cycle", "cycle-inject"].map fun name =>
    .option name none

/-- The switches of a command that writes files. -/
def outputSwitches : List Switch :=
  [.option "output-dir" (some 'o'), .flag "asm" none, .option "macro" none, .flag "report" none,
    .flag "verify" none]

/-- The chains that the arguments are about. -/
def chainOptions? (given : Given) : Option ChainOptions := do
  let [descriptor] := given.plain | none
  return {
    descriptor := ← path? descriptor
    chain := ← given.value? "chain" some
    header := (← given.value? "header" HeaderKind.ofName?).getD .fingerprint
    checksum := given.has "checksum" }

/-- The policy that the arguments give. -/
def policyOptions? (given : Given) : Option PolicyOptions := do
  return {
    policy := ← given.value? "policy" path?
    mask := ← given.value? "mask" hex?
    stuckAtValue := ← given.value? "stuck-at" hex?
    probability := ← given.value? "probability" Binary64.ofString?
    seed := ← given.value? "seed" word64?
    cycle := ← given.value? "cycle" word64?
    cycleInjectAt := ← given.value? "cycle-inject" word64? }

/-- The output that the arguments ask for. -/
def outputOptions? (given : Given) : Option OutputOptions := do
  return {
    directory := ← ← given.value? "output-dir" path?
    listing := given.has "asm"
    definition := ← given.value? "macro" some
    report := given.has "report"
    verify := given.has "verify" }

/-- The command of a name with arguments. -/
def ofArguments? (name : String) (arguments : List String) : Option Command := do
  let sorted (switches : List Switch) : Option Given := sortOut switches none arguments .none
  match name with
  | "compile" =>
    let given ← sorted (chainSwitches ++ policySwitches ++ outputSwitches)
    return .compile (← chainOptions? given) (← policyOptions? given) (← outputOptions? given)
  | "decode" =>
    let given ← sorted (chainSwitches ++ [.option "image" (some 'i')])
    return .decode (← chainOptions? given) (← ← given.value? "image" path?)
  | "layout" =>
    let given ← sorted chainSwitches
    return .layout (← chainOptions? given)
  | "diff" =>
    let given ← sorted [verbose]
    let [first, second] := given.plain | none
    return .diff (← path? first) (← path? second)
  | "encode" =>
    let given ← sorted [verbose, .option "rd" none, .option "rs1" none, .option "custom" none]
    let [operation] := given.plain | none
    return .encode (← operation? operation) ((← given.value? "rd" word8?).getD 0)
      (← given.value? "rs1" word8?)
      ((← given.value? "custom" word8?).getD Control.Operation.defaultSlot)
  | "pattern" =>
    let given ← sorted [verbose, .option "ones" none, .option "size" none]
    let [] := given.plain | none
    return .pattern (← ← given.value? "ones" word32?) (← ← given.value? "size" word32?)
  | _ => none

/-- What a cluster of one-letter flags before the command asks for: to go on, with the flag for more
messages given or not, or to show the version, if it is usable at all. -/
def leadingFlags? : Bool → List Char → Option (Option Bool)
  | verbose, [] => some (some verbose)
  | verbose, 'v' :: rest => if verbose then none else leadingFlags? true rest
  | _, 'V' :: _ => some none
  | _, _ => none

/-- The command of a command line whose first arguments may be flags; `verbose` if that flag has been
given. -/
def ofLine? (verbose : Bool) : List String → Option Command
  | [] => none
  | argument :: rest =>
    let flags (letters : List Char) : Option Command :=
      match leadingFlags? verbose letters with
      | none => none
      | some none => some .version
      | some (some verbose) => ofLine? verbose rest
    if argument = "--verbose" then flags ['v']
    else if argument = "--version" then flags ['V']
    else match argument.toList with
      | '-' :: '-' :: _ => none
      | '-' :: letter :: letters => flags (letter :: letters)
      | _ => ofArguments? argument rest

/-- The command of a command line. -/
def parse? (line : List String) : Option Command := ofLine? false line

end Command
end ScanChain
