import Typesetter.Main
import Typesetter.Proofs.Arithmetic
import Typesetter.Proofs.Rendering
import Typesetter.Proofs.Segments
import Typesetter.Proofs.Pagination
import Typesetter.Proofs.Copies
import Typesetter.Proofs.Words
import Typesetter.Proofs.ShownText
import Typesetter.Proofs.LinePositions
import Typesetter.Proofs.SourceGrammar
import Typesetter.Proofs.FirstFault
import Typesetter.Proofs.ValidConfig
import Typesetter.Proofs.LineHeights
import Typesetter.Proofs.BottomMargin
import Typesetter.Proofs.ConsecutiveRuns
import Typesetter.Proofs.StringSyntax
import Typesetter.Proofs.TextStrings
import Typesetter.Proofs.Tokens
import Typesetter.Proofs.Numerals
import Typesetter.Proofs.Values
import Typesetter.Proofs.Objects
import Typesetter.Proofs.ReadBack
import Typesetter.Proofs.Numbering
import Typesetter.Proofs.ObjectGraph
import Typesetter.Proofs.CrossReference
import Typesetter.Proofs.Navigation
import Typesetter.Proofs.StreamData
import Typesetter.Proofs.AllOrNothing
import Typesetter.Proofs.Appending
import Typesetter.Proofs.WordGaps
import Typesetter.Proofs.FiniteNumbers
import Typesetter.Proofs.TextWidths
import Typesetter.Proofs.Operands
import Typesetter.Proofs.FiniteOperands
import Typesetter.Proofs.Justification
import Typesetter.Proofs.NoBlankPages
import Typesetter.Proofs.WordSpacing
import Typesetter.Proofs.Descent
import Typesetter.Proofs.CodeTable
import Typesetter.Proofs.Registers
import Typesetter.Proofs.JsonNumbers
import Typesetter.Proofs.JsonStrings
import Typesetter.Proofs.JsonText
import Typesetter.Proofs.NumberRange
import Typesetter.Proofs.ConfigEntries
import Typesetter.Proofs.ConfigReading
import Typesetter.Proofs.ConfigForms
import Typesetter.Proofs.BlankLines
