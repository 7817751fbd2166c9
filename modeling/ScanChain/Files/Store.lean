/-
# ScanChain.Files.Store — the file operations that commands use

Commands read and write whole files and make directories. Both are done in two steps, each of which can
fail: a file is opened and then read, and a file is made, or emptied, and then filled, so that it can be
left with a part of what it was to hold. Any monad that has these operations runs the commands: a file
tree as a value (`ScanChain.Files.Tree`), a disk whose operations fail (`ScanChain.Files.Disk`), or the
machine itself. Making a directory with all that it stands in is built from making one: where the parent
is missing it is made first, and a directory that is there already is no fault.
-/
import ScanChain.Files.Error

namespace ScanChain

/-- File operations by path, and by the handle of what has been opened. -/
class FileStore (m : Type → Type) where
  /-- What is open. -/
  Handle : Type
  /-- Opens what a path leads to, for reading. -/
  openFile : String → m (Except FileError Handle)
  /-- The bytes of an open file. -/
  contents : Handle → m (Except FileError (List UInt8))
  /-- Makes an empty file, or empties the file that is there, and opens it for writing. -/
  create : String → m (Except FileError Handle)
  /-- Writes at the end of an open file. If that fails, the first of the bytes can be written all the
  same. -/
  append : Handle → List UInt8 → m (Except FileError Unit)
  /-- Makes one directory in a directory that exists. -/
  makeDirectory : String → m (Except FileError Unit)
  /-- The path leads to a directory. -/
  isDirectory : String → m Bool

namespace FileStore

/-- The parts of a path with one more character before it. -/
def splitOff (c : Char) (parts : List (List Char)) : List (List Char) :=
  if c = '/' then [] :: parts
  else match parts with
    | [] => [[c]]
    | part :: parts => (c :: part) :: parts

/-- The components of a path: what stands between its slashes. -/
def components (path : String) : List String :=
  (path.toList.foldr splitOff [[]]).map String.ofList

/-- The path starts at the root. -/
def isAbsolute (path : String) : Bool := path.toList.head? = some '/'

/-- A path taken from a directory; an absolute path stands for itself. -/
def join (directory path : String) : String :=
  if isAbsolute path then path
  else if directory.isEmpty || directory.toList.getLast? = some '/' then directory ++ path
  else directory ++ "/" ++ path

/-- The components that lead to a parent: no empty ones, and `.` only at the front of a relative path. -/
def properComponents (path : String) : List String :=
  match components path with
  | "." :: rest => "." :: rest.filter fun part => part ≠ "" && part ≠ "."
  | parts => parts.filter fun part => part ≠ "" && part ≠ "."

/-- The directories that a path stands in, the nearest first, up to the root or the empty path. -/
def parents (path : String) : List String :=
  let parts := properComponents path
  let root := if isAbsolute path then "/" else ""
  (List.range parts.length).reverse.map fun count => root ++ "/".intercalate (parts.take count)

variable {m : Type → Type} [Monad m] [FileStore m]

/-- The bytes of the file that a path leads to. -/
def read (path : String) : m (Except FileError (List UInt8)) := do
  match ← openFile path with
  | .ok handle => contents handle
  | .error e => pure (.error e)

/-- Makes one directory; one that is there already is no fault. -/
def ensureDirectory (path : String) : m (Except FileError Unit) := do
  match ← makeDirectory path with
  | .ok () => pure (.ok ())
  | .error e => if ← isDirectory path then pure (.ok ()) else pure (.error e)

/-- Makes a directory, after those it stands in if they are missing; the empty path is there. -/
def ensureWith (path : String) : List String → m (Except FileError Unit)
  | [] => if path.isEmpty then pure (.ok ()) else ensureDirectory path
  | parent :: further => do
    if path.isEmpty then return .ok ()
    match ← makeDirectory path with
    | .ok () => return .ok ()
    | .error .notFound =>
      match ← ensureWith parent further with
      | .error e => return .error e
      | .ok () => ensureDirectory path
    | .error e => if ← isDirectory path then return .ok () else return .error e

/-- Makes a directory and all that it stands in. -/
def ensureDirectories (path : String) : m (Except FileError Unit) :=
  ensureWith path (parents path)

end FileStore
end ScanChain
