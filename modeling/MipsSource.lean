import MipsSource.Text.Quoted
import MipsSource.Text.Lowercase
import MipsSource.Text.LineBreak
import MipsSource.Text.TabStops
import MipsSource.Text.DecimalDigit
import MipsSource.Text.Blank
import MipsSource.Fault
import MipsSource.Numeral.Read
import MipsSource.Numeral.Bits
import MipsSource.Binary64.Shortest
import MipsSource.Parser.Basic
import MipsSource.Text.Escape
import MipsSource.Lexeme.Kind
import MipsSource.Register.Resolve
import MipsSource.Program.Parser
import MipsSource.Program.Listing
import MipsSource.Value.Describe
import MipsSource.Expression
import MipsSource.CommandLine.Run
import MipsSource.Main
import MipsSource.Proofs.Place
import MipsSource.Proofs.Ensures
import MipsSource.Proofs.Lexemes
import MipsSource.Proofs.WellFormed
import MipsSource.Proofs.Moves
import MipsSource.Proofs.Blanks
import MipsSource.Proofs.ItemSpec
import MipsSource.Proofs.ProgramLoop
import MipsSource.Proofs.SourceMap
import MipsSource.Proofs.Coupled
import MipsSource.Proofs.LineLocal
import MipsSource.Proofs.Concatenation
import MipsSource.Proofs.BitRanges
import MipsSource.Proofs.NumeralValues
import MipsSource.Proofs.Numerals
import MipsSource.Proofs.Spelling
import MipsSource.Proofs.SpelledOperands
import MipsSource.Proofs.SpelledLines
import MipsSource.Proofs.SpelledDirectives
import MipsSource.Proofs.OperandText
import MipsSource.Proofs.ItemText
import MipsSource.Proofs.RoundTrip
import MipsSource.Proofs.Settled
import MipsSource.Proofs.Composed
import MipsSource.Proofs.ShortRuns
import MipsSource.Proofs.Blames
import MipsSource.Proofs.Offences
import MipsSource.Proofs.DirectiveFaults
import MipsSource.Proofs.Seam
import MipsSource.Proofs.LexemeEnds
import MipsSource.Proofs.Truncates
import MipsSource.Proofs.TruncatedItems
import MipsSource.Proofs.Frontier
import MipsSource.Proofs.CoupledItems
import MipsSource.Proofs.Zones
import MipsSource.Proofs.TrailingComment
import MipsSource.Proofs.Squeeze
import MipsSource.Proofs.Spacing
import MipsSource.Proofs.TabWidth
import MipsSource.Proofs.Progress
import MipsSource.Proofs.CommandOptions
import MipsSource.Proofs.Outputs
import MipsSource.Proofs.RegisterNames
import MipsSource.Proofs.RegisterOutcomes
import MipsSource.Proofs.Literals
import MipsSource.Proofs.OperandOrder
import MipsSource.Proofs.ShortestDigits
import MipsSource.Proofs.FloatText
import MipsSource.Proofs.RenderedText
import MipsSource.Proofs.ListingText
import MipsSource.Proofs.Locating
import MipsSource.Proofs.LongestList
import MipsSource.Proofs.Listable
