/-
# ScanChain.Json.Source — JSON texts from files

A file is bytes, and bytes need not be UTF-8. A string may hold bytes of no character where it is passed
over, just as it may there name half of a surrogate pair; a string that is read may hold neither, and
outside of strings neither is JSON. So the text of a file has halves of surrogate pairs for each such
byte, in a form that no neighbouring escape can complete.
-/
import ScanChain.Text.Utf8

namespace ScanChain.Json

/-- Two escapes for the second half of a surrogate pair. If an escape for a first half stands before
them, the first of the two completes it, and the other is still half of a pair (`Token.join?_halves`). -/
def halves : List Char :=
  ['\x5c', 'u', 'd', 'c', '0', '0', '\x5c', 'u', 'd', 'c', '0', '0']

/-- Writes halves of surrogate pairs for what is no character. After a backslash, where no escape starts
with such a byte, it writes NUL, which starts no escape either. -/
def mend : List (Option Char) → List Char
  | [] => []
  | some '\x5c' :: none :: rest => '\x5c' :: '\x00' :: mend rest
  | some '\x5c' :: some c :: rest => '\x5c' :: c :: mend rest
  | none :: rest => halves ++ mend rest
  | some c :: rest => c :: mend rest

/-- The JSON text in the bytes of a file. -/
def sourceOfBytes (bytes : List UInt8) : String :=
  match Text.ofUtf8? bytes with
  | some text => text
  | none => String.ofList (mend (Text.chars bytes))

end ScanChain.Json
