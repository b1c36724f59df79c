import Peg.Main
import Peg.Parser.Function
import Peg.Proofs.Composed
import Peg.Proofs.Escaped
import Peg.Proofs.NestedList.RoundTrip
import Peg.Proofs.Positions
import Peg.Proofs.Progress
import Peg.Proofs.Provenance
import Peg.Proofs.Remapping
import Peg.Proofs.Shift
import Peg.Proofs.Spans
import Peg.Proofs.Termination
import Peg.Proofs.Unfolding
import Peg.Proofs.Bytes
import Peg.Proofs.Copies
import Peg.Proofs.RightRecursion
import Peg.Proofs.Changes
import Peg.Proofs.Factoring
import Peg.Proofs.Starts
import Peg.Proofs.Parentheses
import Peg.Proofs.Stability
import Peg.Proofs.Unfailing
