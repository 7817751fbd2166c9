/-
# ScanChain.Command.Options — flags, options and plain arguments

Arguments are read from left to right. A flag stands alone; an option takes the next argument, or what
follows `=`, or for a one-letter option the rest of the argument. One-letter flags may share a dash.
An argument that starts with a dash is never taken as a value, a single dash apart, and after `--` all
arguments are plain. Whatever is unknown, repeated, or lacks its value makes the whole list unusable.
-/

namespace ScanChain.Command

/-- A flag or an option that a command knows. -/
structure Switch where
  long : String
  short : Option Char
  takesValue : Bool

/-- A flag. -/
def Switch.flag (long : String) (short : Option Char) : Switch := ⟨long, short, false⟩

/-- An option with a value. -/
def Switch.option (long : String) (short : Option Char) : Switch := ⟨long, short, true⟩

/-- The arguments that were given, sorted out. -/
structure Given where
  /-- Options with their values. -/
  values : List (String × String)
  flags : List String
  /-- Plain arguments in order. -/
  plain : List String

namespace Given

/-- No arguments. -/
def none : Given := ⟨[], [], []⟩

/-- With one more flag, unless it was given before. -/
def addFlag (given : Given) (name : String) : Option Given :=
  if name ∈ given.flags then .none else some { given with flags := name :: given.flags }

/-- With one more option, unless it was given before. -/
def addValue (given : Given) (name value : String) : Option Given :=
  if given.values.any (·.1 = name) then .none
  else some { given with values := (name, value) :: given.values }

/-- With one more plain argument. -/
def addPlain (given : Given) (argument : String) : Given :=
  { given with plain := given.plain ++ [argument] }

/-- The flag was given. -/
def has (given : Given) (name : String) : Bool := given.flags.contains name

/-- The value of an option, read as what it stands for; the outer case is a value that cannot be. -/
def value? {α : Type} (given : Given) (name : String) (read : String → Option α) :
    Option (Option α) :=
  match given.values.find? (·.1 = name) with
  | .none => some .none
  | some (_, text) => (read text).map some

end Given

/-- The text before the first `=` and, if there is one, the text after it. -/
def splitAtEquals (text : List Char) : List Char × Option (List Char) :=
  match text.dropWhile (· ≠ '=') with
  | [] => (text, none)
  | _ :: value => (text.takeWhile (· ≠ '='), some value)

/-- Takes one-letter switches that share a dash. The name of an option that still lacks its value is
returned too. -/
def takeShort (switches : List Switch) : List Char → Given → Option (Given × Option String)
  | [], given => some (given, none)
  | letter :: rest, given =>
    match switches.find? (·.short = some letter) with
    | none => none
    | some switch =>
      if !switch.takesValue then
        match given.addFlag switch.long with
        | none => none
        | some given => takeShort switches rest given
      else match rest with
        | [] => some (given, some switch.long)
        | '=' :: value => (given.addValue switch.long (String.ofList value)).map (·, none)
        | value => (given.addValue switch.long (String.ofList value)).map (·, none)

/-- Takes a switch by its long name. -/
def takeLong (switches : List Switch) (text : List Char) (given : Given) :
    Option (Given × Option String) :=
  let (name, value) := splitAtEquals text
  match switches.find? (·.long = String.ofList name) with
  | none => none
  | some switch =>
    match switch.takesValue, value with
    | false, none => (given.addFlag switch.long).map (·, none)
    | false, some _ => none
    | true, some value => (given.addValue switch.long (String.ofList value)).map (·, none)
    | true, none => some (given, some switch.long)

/-- Sorts arguments out; `pending` is an option that waits for its value. -/
def sortOut (switches : List Switch) (pending : Option String) :
    List String → Given → Option Given
  | [], given => if pending.isSome then none else some given
  | argument :: rest, given =>
    let next (taken : Option (Given × Option String)) : Option Given :=
      if pending.isSome then none
      else match taken with
        | none => none
        | some (given, pending) => sortOut switches pending rest given
    match argument.toList with
    | ['-', '-'] =>
      if pending.isSome then none else some (rest.foldl Given.addPlain given)
    | '-' :: '-' :: text => next (takeLong switches text given)
    | '-' :: letter :: letters => next (takeShort switches (letter :: letters) given)
    | _ =>
      match pending with
      | some name =>
        match given.addValue name argument with
        | none => none
        | some given => sortOut switches none rest given
      | none => sortOut switches none rest (given.addPlain argument)

end ScanChain.Command
