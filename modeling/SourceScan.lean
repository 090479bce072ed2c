import SourceScan.History
import SourceScan.Main
import SourceScan.Message.Labels
import SourceScan.Proofs.Caret
import SourceScan.Proofs.Concatenation
import SourceScan.Proofs.Conversation
import SourceScan.Proofs.Discipline
import SourceScan.Proofs.Documents
import SourceScan.Proofs.Dumps
import SourceScan.Proofs.Literals
import SourceScan.Proofs.LowByte
import SourceScan.Proofs.NumericEscapes
import SourceScan.Proofs.Numerals
import SourceScan.Proofs.Offsets
import SourceScan.Proofs.Outcome
import SourceScan.Proofs.Overflow
import SourceScan.Proofs.Respacing
import SourceScan.Proofs.SmallNumerals
import SourceScan.Proofs.Spellings
import SourceScan.Proofs.Writing
import SourceScan.Proofs.Emission
import SourceScan.Proofs.Arity
import SourceScan.Proofs.Warnings
import SourceScan.Proofs.ShownLines
import SourceScan.Proofs.Underlines
import SourceScan.Proofs.Places
import SourceScan.Proofs.Color
import SourceScan.Proofs.TabStops
import SourceScan.Proofs.Safety
import SourceScan.Proofs.Sentences
import SourceScan.Proofs.Listing
import SourceScan.Proofs.Labels
import SourceScan.Proofs.BlankLines
