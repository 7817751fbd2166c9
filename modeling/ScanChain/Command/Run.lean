/-
# ScanChain.Command.Run — what commands do

A command reads its files, computes, prints and writes, in that order as far as it can: everything is
compiled before the first file is written. What has been printed and written when a step fails stays,
and a file that cannot be filled stays as far as it was filled. The result of a command line is an exit
code and two texts.
-/
import ScanChain.Command.Parse
import ScanChain.Compilation.Json
import ScanChain.Control.Pattern
import ScanChain.Descriptor.Json
import ScanChain.Files.Store
import ScanChain.Image.Listing
import ScanChain.Policy.Json

namespace ScanChain

/-- Why an image file cannot be read. -/
inductive ImageFileError where
  | file (cause : FileError)
  | misaligned (length : Nat)
deriving DecidableEq

/-- The failure in words. -/
def ImageFileError.message : ImageFileError → String
  | file cause => "IO error: " ++ cause.message
  | misaligned length =>
    "image is " ++ toString length ++ " bytes, not a whole number of 32-bit words"

/-- Why a file of an image cannot be written. -/
inductive OutputFileError where
  | file (cause : FileError)
  /-- A report that has been made and cannot be written to the end. -/
  | json (cause : FileError)
deriving DecidableEq

/-- The failure in words. -/
def OutputFileError.message : OutputFileError → String
  | file cause => "IO error: " ++ cause.message
  | json cause => "JSON error: " ++ cause.message

/-- Why a descriptor file cannot be read. -/
inductive DescriptorFileError where
  | file (cause : FileError)
  | json
deriving DecidableEq

/-- The failure in words. -/
def DescriptorFileError.message : DescriptorFileError → String
  | file cause => "IO error: " ++ cause.message
  | json => "JSON error: not a descriptor"

/-- Why a command fails. -/
inductive CommandError where
  | compile (cause : CompileError)
  | chain (cause : ChainError)
  | descriptor (cause : DescriptorFileError)
  | policy (cause : Policy.Error)
  | image (cause : ImageFileError)
  | output (cause : OutputFileError)
  | decode (cause : PackError)
  | file (cause : FileError)
  /-- A policy file that is no text. -/
  | notText
  /-- A policy file that is no policy. -/
  | policyJson (cause : Json.Fault BitString.HexError)
  | severalChains (names : List String)
  | imagesDiffer (first second : String)
  | cannotEncode (operation : Control.Operation) (custom rd rs1 : UInt8)
  | patternTooShort (ones size : UInt32)
deriving DecidableEq

/-- The failure in words. -/
def CommandError.message : CommandError → String
  | compile cause => "Compile error: " ++ cause.message
  | chain cause => "Topology error: " ++ cause.message
  | descriptor cause => "Descriptor error: " ++ cause.message
  | policy cause => "Policy error: " ++ cause.message
  | image cause => "Image error: " ++ cause.message
  | output cause => "Image error: " ++ cause.message
  | decode cause => "Decode error: " ++ cause.message
  | file cause => "I/O error: " ++ cause.message
  | notText => "I/O error: stream did not contain valid UTF-8"
  | policyJson .malformed => "JSON error: not a policy"
  | policyJson (.content cause) => "JSON error: " ++ cause.message
  | severalChains names =>
    "descriptor has " ++ toString names.length ++ " chains (" ++ ", ".intercalate names ++
      "); pick one with --chain"
  | imagesDiffer first second => first ++ " and " ++ second ++ " differ"
  | cannotEncode operation custom rd rs1 =>
    "cannot encode " ++ operation.mnemonic ++ " with custom " ++ toString custom.toNat ++
      ", rd x" ++ toString rd.toNat ++ ", rs1 x" ++ toString rs1.toNat
  | patternTooShort ones size =>
    toString ones.toNat ++ " set bits do not fit a " ++ toString size.toNat ++ "-bit pattern"

/-- What a command line comes to. -/
structure Outcome where
  exitCode : UInt32
  /-- What was printed. -/
  output : String
  /-- The failure, if there was one. -/
  failure : Option CommandError
deriving DecidableEq

/-- A file that is to be written. -/
structure OutputFile where
  path : String
  bytes : List UInt8
  /-- The failure if the file is made but cannot be filled. -/
  refusal : FileError → OutputFileError

namespace Command

/-- A command that runs: it prints as it goes, and what is printed stays when it fails. -/
abbrev Run (m : Type → Type) := ExceptT CommandError (StateT String m)

variable {m : Type → Type} [Monad m]

/-- Prints a text. -/
def print (text : String) : Run m Unit := modify (· ++ text)

/-- Prints a line. -/
def printLine (line : String) : Run m Unit := print (line ++ "\n")

/-- Takes a result whose failure is one of the command's. -/
def orFail {ε α : Type} (wrap : ε → CommandError) (result : Except ε α) : Run m α :=
  match result with
  | .ok a => pure a
  | .error e => throw (wrap e)

variable [FileStore m]

/-! ## Files -/

/-- The descriptor in a file. What opens but cannot be read is no descriptor. -/
def readDescriptor (path : String) : Run m Descriptor := do
  let handle ← orFail (fun e => .descriptor (.file e)) (← (FileStore.openFile path : m _))
  let bytes ← orFail (fun _ => .descriptor .json) (← (FileStore.contents handle : m _))
  orFail (fun _ => .descriptor .json) (Descriptor.ofBytes bytes)

/-- The policy in a file. -/
def readPolicy (path : String) : Run m Policy := do
  let bytes ← orFail .file (← (FileStore.read path : m _))
  match Text.ofUtf8? bytes with
  | none => throw .notText
  | some text => orFail .policyJson (Policy.ofJson text)

/-- The words in an image file. -/
def readWords (path : String) : Run m (List UInt32) := do
  let bytes ← orFail (fun e => .image (.file e)) (← (FileStore.read path : m _))
  match Word.fromBytes? bytes with
  | some words => pure words
  | none => throw (.image (.misaligned bytes.length))

/-- Makes a file that belongs to an image, and fills it. -/
def writeImageFile (file : OutputFile) : Run m Unit := do
  let handle ← orFail (fun e => .output (.file e)) (← (FileStore.create file.path : m _))
  orFail (fun e => .output (file.refusal e)) (← (FileStore.append handle file.bytes : m _))

/-! ## Options -/

/-- The policy of the options: that of the file, or the inert one, with its parameters replaced by the
ones that are given. -/
def loadPolicy (options : PolicyOptions) : Run m Policy := do
  let base ← match options.policy with
    | some path => readPolicy path
    | none => pure .inert
  let policy : Policy := {
    mask := options.mask.getD base.mask
    stuckAtValue := options.stuckAtValue.getD base.stuckAtValue
    probability := options.probability.getD base.probability
    seed := options.seed.getD base.seed
    cycle := options.cycle.getD base.cycle
    cycleInjectAt := options.cycleInjectAt.getD base.cycleInjectAt }
  orFail .policy policy.validate
  pure policy

/-- The configuration of the options. -/
def config (options : ChainOptions) (verify : Bool) : Config :=
  ⟨options.header, options.checksum, verify⟩

/-- The one chain that a command is about: the one named, or the only one there is. -/
def singleChain (descriptor : Descriptor) (chain : Option String) : Run m String := do
  match chain, descriptor.names with
  | some name, _ => pure name
  | none, [name] => pure name
  | none, names => throw (.severalChains names)

/-! ## Commands -/

/-- The files of a compiled chain in the order in which they are written: the image, the listing, the
report. -/
def outputFiles (output : OutputOptions) (compiled : Compiled) : List OutputFile :=
  let path (ending : String) : String :=
    FileStore.join output.directory (compiled.chain ++ ending)
  let listing : String := match output.definition with
    | some name => compiled.image.definition name
    | none => compiled.image.directives
  ⟨path ".bin", Word.toBytes compiled.image.words, .file⟩ ::
    ((if output.listing || output.definition.isSome then
        [⟨path ".S", Text.utf8 listing, .file⟩] else []) ++
      if output.report then [⟨path ".json", Text.utf8 compiled.report.pretty, .json⟩] else [])

/-- The line that is printed when the files of a chain are written. -/
def summary (compiled : Compiled) : String :=
  let checksum := match compiled.image.checksum with
    | some word => ", checksum " ++ Text.hexWord word
    | none => ""
  compiled.chain ++ ": " ++ toString compiled.image.wordCount ++ " words (" ++
    toString compiled.image.payloadBits ++ " payload bits), header " ++
    Text.hexWord compiled.image.header ++ checksum

/-- Writes the files of a compiled chain and prints a line about it. -/
def writeCompiled (output : OutputOptions) (compiled : Compiled) : Run m Unit := do
  (outputFiles output compiled).forM writeImageFile
  printLine (summary compiled)

/-- Compiles chains and writes their images. -/
def runCompile (chain : ChainOptions) (policy : PolicyOptions) (output : OutputOptions) :
    Run m Unit := do
  let descriptor ← readDescriptor chain.descriptor
  let policy ← loadPolicy policy
  let compiled ← orFail .compile
    ((config chain output.verify).compileSelected descriptor chain.chain policy)
  orFail .file (← (FileStore.ensureDirectories output.directory : m _))
  compiled.forM (writeCompiled output)

/-- Prints the values of an image. -/
def runDecode (options : ChainOptions) (image : String) : Run m Unit := do
  let descriptor ← readDescriptor options.descriptor
  let name ← singleChain descriptor options.chain
  let chain ← orFail .chain (descriptor.chain name)
  let layout := (config options false).layout chain
  let words ← readWords image
  let resolved ← orFail .decode (layout.unpackWords words options.checksum)
  printLine ("chain " ++ name ++ " (" ++ toString words.length ++ " words, header " ++
    Text.hexWord (words.headD 0) ++ ")")
  resolved.forM fun segment => do
    printLine ("  [" ++ toString segment.position ++ "] " ++ segment.name)
    segment.fields.forM fun field =>
      printLine ("      " ++ Text.padRight 12 field.name ++ " " ++ field.value.display)

/-- A line of a layout: a stretch of a segment with its width and offset. -/
def stretch (name : String) (width offset : Nat) : String :=
  "      " ++ Text.padRight 12 name ++ " width " ++ Text.padLeft 3 (toString width) ++
    "  offset " ++ Text.padLeft 3 (toString offset)

/-- Prints the layout of a chain. -/
def printLayout (layout : ChainLayout) : Run m Unit := do
  printLine ("chain " ++ layout.chain.name ++ ": " ++ toString layout.segments.length ++
    " segments, " ++ toString layout.payloadBits ++ " bits, " ++ layout.kind.name ++ " header " ++
    Text.hexWord layout.header)
  layout.segments.forM fun segment => do
    printLine ("  [" ++ toString segment.position ++ "] " ++ segment.name ++ " (" ++
      toString segment.bitWidth.toNat ++ " bits) " ++ segment.injector.display)
    segment.fields.forM fun field =>
      printLine (stretch field.name field.width.toNat field.offset ++ "  " ++ field.binding.name)
    if 0 < segment.padding then printLine (stretch "(padding)" segment.padding 0)

/-- Prints the layouts of chains. -/
def runLayout (options : ChainOptions) : Run m Unit := do
  let descriptor ← readDescriptor options.descriptor
  let chains ← orFail .chain <| match options.chain with
    | some name => (descriptor.chain name).map ([·])
    | none => descriptor.allChains
  chains.forM fun chain => printLayout ((config options false).layout chain)

/-- Compares two image files; they have to be equal. -/
def runDiff (first second : String) : Run m Unit := do
  let firstWords ← readWords first
  let secondWords ← readWords second
  let result := compareWords firstWords secondWords
  print result.text
  let all := divergences firstWords secondWords
  if 1 < all.length then
    printLine ("\n" ++ toString all.length ++ " words differ in total:")
    all.forM fun d =>
      printLine ("  word " ++ Text.padLeft 5 (toString d.index) ++ ": " ++ wordOrEnd d.first ++
        " vs " ++ wordOrEnd d.second)
  if !result.identical then throw (.imagesDiffer first second)

omit [FileStore m] in
/-- Prints the word of an operation with a note of what it says. -/
def runEncode (operation : Control.Operation) (rd : UInt8) (rs1 : Option UInt8) (custom : UInt8) :
    Run m Unit := do
  let rs1 := rs1.getD operation.defaultSource
  match operation.word? custom rd rs1 with
  | none => throw (.cannotEncode operation custom rd rs1)
  | some word =>
    printLine (Image.directive word ++ "  # " ++ operation.mnemonic ++ " rd=x" ++
      toString rd.toNat ++ " rs1=x" ++ toString rs1.toNat)

omit [FileStore m] in
/-- Prints a self-test pattern. -/
def runPattern (ones size : UInt32) : Run m Unit := do
  match Control.pattern? ones size with
  | none => throw (.patternTooShort ones size)
  | some words => words.forM fun word => printLine (Image.directive word)

/-- Runs a command. -/
def run : Command → Run m Unit
  | version => printLine "chiffre 0.1.0"
  | compile chain policy output => runCompile chain policy output
  | decode chain image => runDecode chain image
  | layout chain => runLayout chain
  | diff first second => runDiff first second
  | encode operation rd rs1 custom => runEncode operation rd rs1 custom
  | pattern ones size => runPattern ones size

/-- Runs a command line. One that cannot be used prints nothing and has the exit code 2, a command that
fails has 1. -/
def runLine (line : List String) : m Outcome := do
  match parse? line with
  | none => pure ⟨2, "", none⟩
  | some command =>
    let (result, output) ← (command.run : Run m Unit).run.run ""
    match result with
    | .ok () => pure ⟨0, output, none⟩
    | .error e => pure ⟨1, output, some e⟩

end Command

/-- What a failed command line says. -/
def Outcome.failureText (outcome : Outcome) : Option String :=
  outcome.failure.map fun e => "Error: " ++ e.message ++ "\n"

end ScanChain
