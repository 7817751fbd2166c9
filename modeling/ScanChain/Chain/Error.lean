/-
# ScanChain.Chain.Error — what is wrong with a chain

A chain is refused with its first fault. The cause keeps the names and numbers that the message
shows.
-/
import ScanChain.Injector.Basic

namespace ScanChain

/-- Why a list of segments, or its description, is no chain. -/
inductive ChainError where
  | emptyChain (chain : String)
  | unknownChain (chain : String)
  | duplicatePosition (position : Nat) (first second : String)
  | positionGap (segment : String) (expected found : Nat)
  | duplicateName (segment : String)
  | zeroWidth (segment : String)
  | missingWidth (segment : String)
  | fieldsExceedWidth (segment kind : String) (fieldsWidth bitWidth : Nat)
  | unknownInjectorKind (segment kind : String)
  | unknownField (segment kind field : String)
deriving DecidableEq

/-- The fault in words. -/
def ChainError.message : ChainError → String
  | emptyChain chain => "chain " ++ Text.quoted chain ++ " has no segments"
  | unknownChain chain => "chain " ++ Text.quoted chain ++ " not found in descriptor"
  | duplicatePosition position first second =>
    "segments " ++ Text.quoted first ++ " and " ++ Text.quoted second ++
      " both claim chain position " ++ toString position
  | positionGap segment expected found =>
    "chain positions not contiguous: segment " ++ Text.quoted segment ++ " at position " ++
      toString found ++ ", expected " ++ toString expected
  | duplicateName segment => "segment name " ++ Text.quoted segment ++ " appears more than once"
  | zeroWidth segment => "segment " ++ Text.quoted segment ++ " has zero width"
  | missingWidth segment => "segment " ++ Text.quoted segment ++ ": injector width not given"
  | fieldsExceedWidth segment kind fieldsWidth bitWidth =>
    "segment " ++ Text.quoted segment ++ ": " ++ kind ++ " fields need " ++ toString fieldsWidth ++
      " bits but the segment is " ++ toString bitWidth ++ " bits wide"
  | unknownInjectorKind segment kind =>
    "segment " ++ Text.quoted segment ++ ": unknown injector kind " ++ Text.quoted kind ++
      " (expected one of " ++ ", ".intercalate Injector.tags ++ ")"
  | unknownField segment kind field =>
    "segment " ++ Text.quoted segment ++ ": " ++ kind ++ " injector has no field " ++
      Text.quoted field

/-- The injector that a segment describes by the name of a fault model and widths: `width` for the
register, and overrides for fields. The first fault in the order of the names counts. -/
def Injector.ofWidths (segment tag : String) (widths : NameTable UInt32) :
    Except ChainError Injector :=
  match widths.find? "width" with
  | none => .error (.missingWidth segment)
  | some width =>
    match Injector.ofTag? tag width with
    | none => .error (.unknownInjectorKind segment tag)
    | some start =>
      widths.entries.foldlM (fun injector (name, value) =>
        if name = "width" then .ok injector
        else match injector.override? name value with
          | some injector => .ok injector
          | none => .error (.unknownField segment tag name)) start

end ScanChain
