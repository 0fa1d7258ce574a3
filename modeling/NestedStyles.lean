import NestedStyles.Block
import NestedStyles.Block.Entry
import NestedStyles.Block.Nesting
import NestedStyles.Color
import NestedStyles.Command
import NestedStyles.Command.Arguments
import NestedStyles.Command.Disk
import NestedStyles.Command.Report
import NestedStyles.Compilation
import NestedStyles.Diagnostic
import NestedStyles.Document
import NestedStyles.Fault
import NestedStyles.Main
import NestedStyles.Number.Double
import NestedStyles.Number.Layout
import NestedStyles.Number.Numeral
import NestedStyles.Number.Shortest
import NestedStyles.Parsed
import NestedStyles.Selector
import NestedStyles.Stream
import NestedStyles.Stylesheet
import NestedStyles.Text.Blank
import NestedStyles.Text.DecimalDigit
import NestedStyles.Text.LowerCase
import NestedStyles.Text.Printable
import NestedStyles.Text.Quoted
import NestedStyles.Token
import NestedStyles.Token.Lexeme
import NestedStyles.Value
import NestedStyles.Proofs.Preliminaries
import NestedStyles.Proofs.Block.Descent
import NestedStyles.Proofs.Token.Partition
import NestedStyles.Proofs.Token.Lexed
import NestedStyles.Proofs.Value.Joined
import NestedStyles.Proofs.Grammar
import NestedStyles.Proofs.Grammar.Reading
import NestedStyles.Proofs.Token.Seam
import NestedStyles.Proofs.Relocation
import NestedStyles.Proofs.Locality
import NestedStyles.Proofs.Document.Composition
import NestedStyles.Proofs.Compilation.Content
import NestedStyles.Proofs.Compilation.Outcome
import NestedStyles.Proofs.Token.Contents
import NestedStyles.Proofs.Token.Printed
import NestedStyles.Proofs.Token.Layout
import NestedStyles.Proofs.Block.Growth
import NestedStyles.Proofs.Grammar.Commas
import NestedStyles.Proofs.Grammar.FunctionLiteral
import NestedStyles.Proofs.Number.Rounding
import NestedStyles.Proofs.Overflow
import NestedStyles.Proofs.Stream.Session
import NestedStyles.Proofs.Block.Preorder
import NestedStyles.Proofs.Grammar.Unnesting
import NestedStyles.Proofs.Command.Agreement
import NestedStyles.Proofs.Diagnostic.Places
import NestedStyles.Proofs.Block.Lineage
import NestedStyles.Proofs.Block.Address
import NestedStyles.Proofs.Command.Inspection
import NestedStyles.Proofs.Value.Extent
import NestedStyles.Proofs.Value.Spacing
import NestedStyles.Proofs.Diagnostic.Wording
import NestedStyles.Proofs.Color.Call
import NestedStyles.Proofs.Value.Emptiness
import NestedStyles.Proofs.Document.Declarations
import NestedStyles.Proofs.Token.Enclosure
import NestedStyles.Proofs.Truncation
import NestedStyles.Proofs.Document.Unclosed
import NestedStyles.Proofs.Diagnostic.Count
import NestedStyles.Proofs.Token.LineEnds
import NestedStyles.Proofs.Token.Delimited
import NestedStyles.Proofs.Selector.Association
import NestedStyles.Proofs.Number.Literal
import NestedStyles.Proofs.Number.Layout
import NestedStyles.Proofs.Number.Nearest
import NestedStyles.Proofs.Color.Channel
import NestedStyles.Proofs.Number.ReadBack
import NestedStyles.Proofs.Number.Normalization
