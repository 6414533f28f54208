import Gosub.Assembly.Printer
import Gosub.Debugger.Completion
import Gosub.Main
import Gosub.Proofs.Effects
import Gosub.Proofs.Results
import Gosub.Proofs.Accesses
import Gosub.Proofs.Steps
import Gosub.Proofs.Walk
import Gosub.Proofs.ControlFlow
import Gosub.Proofs.Calls
import Gosub.Proofs.Budgets
import Gosub.Proofs.Assembling
import Gosub.Proofs.Faults
import Gosub.Proofs.Padding
import Gosub.Proofs.Table
import Gosub.Proofs.Grammar
import Gosub.Proofs.Parsing
import Gosub.Proofs.Decoding
import Gosub.Proofs.Tape
import Gosub.Proofs.Disassembly
import Gosub.Proofs.Parts
import Gosub.Proofs.Compacting
import Gosub.Proofs.Policies
import Gosub.Proofs.Extent
import Gosub.Proofs.Locality
import Gosub.Proofs.Limits
import Gosub.Proofs.Places
import Gosub.Proofs.Printing
import Gosub.Proofs.Targets
import Gosub.Proofs.Driving
import Gosub.Proofs.Sessions
import Gosub.Proofs.Ledger
import Gosub.Proofs.Termination
import Gosub.Proofs.Failures
import Gosub.Proofs.Causes
import Gosub.Proofs.Scan
import Gosub.Proofs.HighWater
import Gosub.Proofs.Parsing.Lines
import Gosub.Proofs.Problems
import Gosub.Proofs.Parsing.Offsets
import Gosub.Proofs.Spans
import Gosub.Proofs.Misreadings
import Gosub.Proofs.HexText
import Gosub.Proofs.Literals
import Gosub.Proofs.Widths
import Gosub.Proofs.Listings
import Gosub.Proofs.Labelled
import Gosub.Proofs.Commands
import Gosub.Proofs.Completing
import Gosub.Proofs.Candidates
import Gosub.Proofs.Paging
import Gosub.Proofs.Alternatives
