/-
# ScanChain.Main — the program

The command line runs on the machine's own files. What the system refuses is reported in the words of
`FileError` where it has a word for it.
-/
import ScanChain.Command.Run

namespace ScanChain.Machine

/-- The refusal behind a failed operation of the machine. -/
def fileError : IO.Error → FileError
  | .noFileOrDirectory .. => .notFound
  | .alreadyExists .. => .alreadyExists
  | .inappropriateType _ 20 _ => .notADirectory
  | .inappropriateType _ 21 _ => .isADirectory
  | e => .other (toString e)

/-- The result of an operation of the machine. -/
def attempt {α : Type} (action : IO α) : IO (Except FileError α) := do
  match ← action.toBaseIO with
  | .ok a => pure (.ok a)
  | .error e => pure (.error (fileError e))

instance : FileStore IO where
  Handle := IO.FS.Handle
  openFile path := attempt (IO.FS.Handle.mk path .read)
  contents handle := attempt do return (← handle.readBinToEnd).toList
  create path := attempt (IO.FS.Handle.mk path .write)
  append handle bytes := attempt do
    handle.write ⟨bytes.toArray⟩
    handle.flush
  makeDirectory path := attempt (IO.FS.createDir path)
  isDirectory path := do
    match ← attempt (IO.FS.createDir (path ++ "/.")) with
    | .error .alreadyExists => pure true
    | _ => pure false

end ScanChain.Machine

/-- Runs the command line on the machine's files. -/
def main (arguments : List String) : IO UInt32 := do
  let outcome ← ScanChain.Command.runLine arguments
  IO.print outcome.output
  match outcome.failureText with
  | some text => IO.eprint text
  | none => if outcome.exitCode = 2 then IO.eprintln "error: unusable command line" else pure ()
  return outcome.exitCode
