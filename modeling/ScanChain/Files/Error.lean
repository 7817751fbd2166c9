/-
# ScanChain.Files.Error — what a file system refuses

The refusals that opening, reading, writing and making directories can meet, with the texts and
numbers that the operating system gives them.
-/

namespace ScanChain

/-- Why a file operation failed. -/
inductive FileError where
  | notFound
  | alreadyExists
  | notADirectory
  | isADirectory
  | nameTooLong
  /-- A path with the character NUL in it. -/
  | nulInName
  /-- A refusal of another kind, in the words of the system. -/
  | other (message : String)
deriving DecidableEq

/-- The refusal in words. -/
def FileError.message : FileError → String
  | notFound => "No such file or directory (os error 2)"
  | alreadyExists => "File exists (os error 17)"
  | notADirectory => "Not a directory (os error 20)"
  | isADirectory => "Is a directory (os error 21)"
  | nameTooLong => "File name too long (os error 36)"
  | nulInName => "file name contained an unexpected NUL byte"
  | other message => message

end ScanChain
