/-
# ScanChain.Files.Tree — a file tree as a value

A tree says what stands under each path from the root, and which directory relative paths start from.
A path is followed one component at a time: every component but the last has to lead to a directory,
`.` stays, `..` goes up, and empty components count for nothing except at the end, where they ask for
a directory.

A tree holds directories and files with their bytes and nothing else: it has neither links nor
permissions, so a file is the same file exactly where its place is the same path from the root. Commands
that run on a state with a tree in it (`Volume`) leave such a state. The state decides which operations
meet a fault of their own, as a full disk or a missing permission would be one; the tree alone has none.
-/
import ScanChain.Files.Store
import ScanChain.Text.Utf8

namespace ScanChain

/-- What stands under a path. -/
inductive FileTree.Node where
  | directory
  | file (bytes : List UInt8)
deriving DecidableEq

/-- A file tree with a working directory. -/
structure FileTree where
  /-- What stands under each path from the root; the root itself is a directory. -/
  nodes : List (List String × FileTree.Node)
  /-- The working directory. -/
  home : List String
deriving DecidableEq

namespace FileTree

/-- What stands under a path from the root. -/
def node? (tree : FileTree) (path : List String) : Option Node :=
  if path = [] then some .directory else (tree.nodes.find? (·.1 = path)).map (·.2)

/-- The tree with something put under a path from the root. -/
def put (tree : FileTree) (path : List String) (node : Node) : FileTree :=
  { tree with nodes := tree.nodes.filter (·.1 ≠ path) ++ [(path, node)] }

/-- Where a path leads. -/
inductive Target where
  | directory (path : List String)
  /-- A file; `slash` if the path asks for a directory. -/
  | file (path : List String) (bytes : List UInt8) (slash : Bool)
  /-- Nothing, in a directory that exists; `slash` if the path asks for a directory. -/
  | missing (path : List String) (slash : Bool)

/-- Follows components from a directory. -/
def follow (tree : FileTree) : List String → List String → Except FileError Target
  | here, [] => .ok (.directory here)
  | here, part :: rest =>
    if part = "" ∨ part = "." then follow tree here rest
    else if part = ".." then follow tree here.dropLast rest
    else if 255 < part.utf8ByteSize then .error .nameTooLong
    else
      let path := here ++ [part]
      match tree.node? path with
      | some .directory => follow tree path rest
      | some (.file bytes) =>
        if rest.all (· = "") then .ok (.file path bytes (rest ≠ [])) else .error .notADirectory
      | none =>
        if rest.all (· = "") then .ok (.missing path (rest ≠ [])) else .error .notFound

/-- Where a written path leads. -/
def target (tree : FileTree) (path : String) : Except FileError Target :=
  if path.toList.contains '\x00' then .error .nulInName
  else if path = "" then .error .notFound
  else if 4095 < path.utf8ByteSize then .error .nameTooLong
  else follow tree (if FileStore.isAbsolute path then [] else tree.home) (FileStore.components path)

/-- What is open: a directory, or the file at a place. -/
inductive Handle where
  | directory
  | file (place : List String)
deriving DecidableEq

/-- Opens what is there. -/
def openFile (tree : FileTree) (path : String) : Except FileError Handle :=
  match tree.target path with
  | .error e => .error e
  | .ok (.directory _) => .ok .directory
  | .ok (.file place _ slash) => if slash then .error .notADirectory else .ok (.file place)
  | .ok (.missing _ _) => .error .notFound

/-- The bytes of what is open. -/
def contents (tree : FileTree) : Handle → Except FileError (List UInt8)
  | .directory => .error .isADirectory
  | .file place =>
    match tree.node? place with
    | some (.file bytes) => .ok bytes
    | _ => .error .notFound

/-- The tree with an empty file where the path leads, and the open file. -/
def create (tree : FileTree) (path : String) : Except FileError (Handle × FileTree) :=
  match tree.target path with
  | .error e => .error e
  | .ok (.directory _) => .error .isADirectory
  | .ok (.file place _ slash) | .ok (.missing place slash) =>
    if slash then .error .isADirectory else .ok (.file place, tree.put place (.file []))

/-- The tree with bytes added to what is open. -/
def append (tree : FileTree) (handle : Handle) (bytes : List UInt8) : Except FileError FileTree :=
  match handle with
  | .directory => .error .isADirectory
  | .file place =>
    match tree.node? place with
    | some (.file before) => .ok (tree.put place (.file (before ++ bytes)))
    | _ => .error .notFound

/-- The bytes of a file. -/
def read (tree : FileTree) (path : String) : Except FileError (List UInt8) :=
  tree.openFile path >>= tree.contents

/-- The tree with the bytes of a file replaced, or with a new file. -/
def write (tree : FileTree) (path : String) (bytes : List UInt8) : Except FileError FileTree := do
  let (handle, made) ← tree.create path
  made.append handle bytes

/-- The tree with a new directory. -/
def makeDirectory (tree : FileTree) (path : String) : Except FileError FileTree :=
  match tree.target path with
  | .error e => .error e
  | .ok (.directory _) | .ok (.file _ _ _) => .error .alreadyExists
  | .ok (.missing path _) => .ok (tree.put path .directory)

/-- The path leads to a directory. -/
def isDirectory (tree : FileTree) (path : String) : Bool :=
  match tree.target path with
  | .ok (.directory _) => true
  | _ => false

end FileTree

/-! ## Trees as stores -/

/-- Why an operation fails that the tree itself would allow. -/
structure Fault where
  cause : FileError
  /-- How many bytes can still be written. -/
  room : Nat
deriving DecidableEq

/-- A state with a file tree in it, which decides whether the next operation meets a fault. -/
class Volume (σ : Type) where
  tree : σ → FileTree
  setTree : σ → FileTree → σ
  /-- The fault that the next operation meets, and the state after it. -/
  fault? : σ → Option Fault × σ
  tree_setTree : ∀ state after, tree (setTree state after) = after
  tree_fault? : ∀ state, tree (fault? state).2 = tree state

namespace Volume

variable {σ α : Type} [Volume σ]

/-- What an operation finds out about the tree. -/
def look (operation : FileTree → Except FileError α) : StateM σ (Except FileError α) :=
  return operation (tree (← get))

/-- Replaces the tree if an operation gives a new one. -/
def change (operation : FileTree → Except FileError (α × FileTree)) :
    StateM σ (Except FileError α) := do
  match operation (tree (← get)) with
  | .ok (a, after) =>
    modify (setTree · after)
    pure (.ok a)
  | .error e => pure (.error e)

/-- An operation that a fault stops before it has begun. -/
def unlessFault (operation : StateM σ (Except FileError α)) : StateM σ (Except FileError α) := do
  match ← modifyGet fault? with
  | some fault => pure (.error fault.cause)
  | none => operation

/-- Adds bytes to what is open. A fault that leaves no room for all of them stops this where the room
ends. -/
def append (handle : FileTree.Handle) (bytes : List UInt8) : StateM σ (Except FileError Unit) := do
  let add (bytes : List UInt8) : StateM σ (Except FileError Unit) :=
    change fun tree => (tree.append handle bytes).map ((), ·)
  match ← modifyGet fault? with
  | none => add bytes
  | some fault =>
    if bytes.length ≤ fault.room then add bytes
    else do
      let _ ← add (bytes.take fault.room)
      pure (.error fault.cause)

instance : FileStore (StateM σ) where
  Handle := FileTree.Handle
  openFile path := unlessFault (look (·.openFile path))
  contents handle := unlessFault (look (·.contents handle))
  create path := unlessFault (change (·.create path))
  append := append
  makeDirectory path := unlessFault (change fun tree => (tree.makeDirectory path).map ((), ·))
  isDirectory path := return match ← unlessFault (look fun tree => .ok (tree.isDirectory path)) with
    | .ok found => found
    | .error _ => false

/-- A tree by itself has no faults. -/
@[default_instance]
instance : Volume FileTree where
  tree := id
  setTree _ after := after
  fault? tree := (none, tree)
  tree_setTree _ _ := rfl
  tree_fault? _ := rfl

end Volume
end ScanChain
