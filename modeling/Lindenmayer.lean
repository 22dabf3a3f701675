import Lindenmayer.Balance
import Lindenmayer.Binary64.Arithmetic
import Lindenmayer.Binary64.Text
import Lindenmayer.CommandLine.Run
import Lindenmayer.Document.Canonical
import Lindenmayer.Document.Parse
import Lindenmayer.Main
import Lindenmayer.Outline
import Lindenmayer.Proofs.Accumulation
import Lindenmayer.Proofs.Balance.Tolerance
import Lindenmayer.Proofs.BlankLine.Parsing
import Lindenmayer.Proofs.Canonical
import Lindenmayer.Proofs.CommandLine.Strictness
import Lindenmayer.Proofs.Completion.Parsing
import Lindenmayer.Proofs.Extension.Lasting
import Lindenmayer.Proofs.Faults.Messages
import Lindenmayer.Proofs.Faults.Stages
import Lindenmayer.Proofs.Faults.Telling
import Lindenmayer.Proofs.Grammar.Extent
import Lindenmayer.Proofs.Grammar.Trailing
import Lindenmayer.Proofs.Insertion.Parsing
import Lindenmayer.Proofs.Loops
import Lindenmayer.Proofs.Margins
import Lindenmayer.Proofs.Reading.Counting
import Lindenmayer.Proofs.Reading.Endings
import Lindenmayer.Proofs.Reading.Rows
import Lindenmayer.Proofs.Sessions
import Lindenmayer.Proofs.Streams
import Lindenmayer.Stream
