import Stepwise.Command.Execute
import Stepwise.Lowering.Basic
import Stepwise.Lowering.Listing
import Stepwise.Main
import Stepwise.Program.Encode
import Stepwise.Proofs.Activity
import Stepwise.Proofs.Bounds
import Stepwise.Proofs.Caching
import Stepwise.Proofs.Classification
import Stepwise.Proofs.Contraction
import Stepwise.Proofs.Counting
import Stepwise.Proofs.Decimal
import Stepwise.Proofs.Decoding
import Stepwise.Proofs.Evaluator
import Stepwise.Proofs.Inventory
import Stepwise.Proofs.Marking
import Stepwise.Proofs.Paths
import Stepwise.Proofs.Pieces
import Stepwise.Proofs.Places
import Stepwise.Proofs.Programs
import Stepwise.Proofs.RoundTrip
import Stepwise.Proofs.Running
import Stepwise.Proofs.Runs
import Stepwise.Proofs.Scope
import Stepwise.Proofs.Spans
import Stepwise.Proofs.Substitution
import Stepwise.Proofs.Termination
import Stepwise.Session.Basic
import Stepwise.Session.Dialogue
import Stepwise.Syntax.Predicate
import Stepwise.Syntax.Update
import Stepwise.Proofs.Acceptance
import Stepwise.Proofs.Diagnosis
import Stepwise.Proofs.Effects
import Stepwise.Proofs.Reporting
import Stepwise.Proofs.Grouping
import Stepwise.Proofs.Histories
import Stepwise.Proofs.Sharing
import Stepwise.Proofs.Spelling
