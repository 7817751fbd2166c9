/-
# ScanChain.Image.Listing — images as assembler text

An image is listed as one `.word` directive to a line, or as one preprocessor definition whose lines
are joined by backslashes.
-/
import ScanChain.Image.Basic
import ScanChain.Text.Digits

namespace ScanChain.Image

/-- The directive of a word. -/
def directive (word : UInt32) : String := ".word " ++ Text.hexWord word

/-- One directive to a line. -/
def directives (image : Image) : String :=
  String.join (image.words.map fun word => directive word ++ "\n")

/-- The lines of a definition after the first; every line but the last goes on. -/
def definitionLines : List UInt32 → String
  | [] => ""
  | [word] => "  " ++ directive word ++ ";\n"
  | word :: words => "  " ++ directive word ++ ";\\\n" ++ definitionLines words

/-- One preprocessor definition with a directive for each word. -/
def definition (name : String) (image : Image) : String :=
  "#define " ++ name ++ " \\\n" ++ definitionLines image.words

end ScanChain.Image
