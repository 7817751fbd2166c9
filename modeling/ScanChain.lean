import ScanChain.Arithmetic
import ScanChain.Binary64.Basic
import ScanChain.Binary64.Rounding
import ScanChain.Binary64.Shortest
import ScanChain.Binary64.Text
import ScanChain.BitString.Basic
import ScanChain.BitString.Hex
import ScanChain.BitString.Lemmas
import ScanChain.ChaCha20
import ScanChain.Chain.Basic
import ScanChain.Chain.Error
import ScanChain.Chain.Header
import ScanChain.Chain.Layout
import ScanChain.Command.Options
import ScanChain.Command.Parse
import ScanChain.Command.Run
import ScanChain.Comparison.Basic
import ScanChain.Comparison.Json
import ScanChain.Compilation.Basic
import ScanChain.Compilation.Json
import ScanChain.Control.Instruction
import ScanChain.Control.Operation
import ScanChain.Control.Pattern
import ScanChain.Descriptor.Basic
import ScanChain.Descriptor.Json
import ScanChain.Files.Disk
import ScanChain.Files.Error
import ScanChain.Files.Store
import ScanChain.Files.Tree
import ScanChain.Image.Basic
import ScanChain.Image.Listing
import ScanChain.Injector.Basic
import ScanChain.Json.Numeral
import ScanChain.Json.Reader
import ScanChain.Json.Source
import ScanChain.Json.Token
import ScanChain.Json.Value
import ScanChain.Main
import ScanChain.MaskStream
import ScanChain.Misr
import ScanChain.NameTable
import ScanChain.Policy.Basic
import ScanChain.Policy.Json
import ScanChain.Proofs.Acceptance
import ScanChain.Proofs.Compiling
import ScanChain.Proofs.Cursor
import ScanChain.Proofs.Filling
import ScanChain.Proofs.Frame
import ScanChain.Proofs.Outcome
import ScanChain.Proofs.Packing
import ScanChain.Proofs.Rational
import ScanChain.Proofs.Reading
import ScanChain.Proofs.Resolving
import ScanChain.Proofs.RoundTrip
import ScanChain.Proofs.Stream
import ScanChain.Proofs.Tiling
import ScanChain.Resolution
import ScanChain.Segment.Placement
import ScanChain.Sha256
import ScanChain.Text.Blank
import ScanChain.Text.CharClass
import ScanChain.Text.Digits
import ScanChain.Text.Quoted
import ScanChain.Text.Utf8
import ScanChain.Threshold
import ScanChain.Word
import ScanChain.Word.Lemmas
import ScanChain.Proofs.Fingerprint
import ScanChain.Proofs.Signature
import ScanChain.Proofs.Draws
import ScanChain.Proofs.Influence
import ScanChain.Proofs.Blame
import ScanChain.Proofs.Selection
import ScanChain.Proofs.Arrangement
import ScanChain.Proofs.FileTree
import ScanChain.Proofs.Volume
import ScanChain.Proofs.Running
import ScanChain.Proofs.Writing
import ScanChain.Proofs.Period
import ScanChain.Proofs.Lexing
import ScanChain.Proofs.Readers
import ScanChain.Proofs.HexText
import ScanChain.Proofs.DescriptorText
import ScanChain.Proofs.PolicyText
import ScanChain.Proofs.Paths
import ScanChain.Proofs.DecodeLine
import ScanChain.Proofs.Keeping
import ScanChain.Proofs.Threshold
import ScanChain.Proofs.Requests
import ScanChain.Proofs.Overrides
import ScanChain.Proofs.Fitting
import ScanChain.Proofs.Divergences
import ScanChain.Proofs.Instructions
import ScanChain.Proofs.Pattern
import ScanChain.Proofs.WidthAndNumber
import ScanChain.Proofs.HexGrammar
import ScanChain.Proofs.Rounding
import ScanChain.Proofs.Difficulty
import ScanChain.Proofs.Listing
import ScanChain.Proofs.Annotation
import ScanChain.Proofs.Inert
