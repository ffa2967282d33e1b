import Recourse.Problems
import Recourse.Training
import Recourse.Report.Journal
import Recourse.Multistage.Risk
import Recourse.Multistage.Refinement
import Recourse.Stage.Text
import Recourse.Stage.CutTable
import Recourse.Exchange.CutFiles
import Recourse.Exchange.ModelFiles
import Recourse.Fault.Message
import Recourse.Datum.Json
import Recourse.Linear.Simplex
import Recourse.Statistics.Student
import Recourse.Risk.Outcome
import Recourse.Proofs.Cut.Exactness
import Recourse.Proofs.Cut.Idempotence
import Recourse.Proofs.Cut.Ledger
import Recourse.Proofs.Cut.Pruning
import Recourse.Proofs.Risk.Envelope
import Recourse.Proofs.Risk.Validity
import Recourse.Proofs.Crew
import Recourse.Proofs.Dispatch
import Recourse.Proofs.MonotoneBounds
import Recourse.Proofs.Sampling
import Recourse.Proofs.Exhaustive
import Recourse.Proofs.Exchange.Naming
import Recourse.Proofs.Exchange.RoundTrip
import Recourse.Proofs.Inertness
import Recourse.Proofs.Markov.Reachability
import Recourse.Proofs.Mirror.Study
import Recourse.Proofs.Multistage.Creation
import Recourse.Proofs.Multistage.Dimensions
import Recourse.Proofs.Multistage.Draws
import Recourse.Proofs.Multistage.Impossible
import Recourse.Proofs.Multistage.Label
import Recourse.Proofs.Multistage.Tightness
import Recourse.Proofs.Partition
import Recourse.Proofs.PolicyBound
import Recourse.Proofs.Records
import Recourse.Proofs.Reevaluation
import Recourse.Proofs.Stage.Epigraph
import Recourse.Proofs.Stage.Upkeep
import Recourse.Proofs.Stage.Refusal
import Recourse.Proofs.Stage.Scenarios
import Recourse.Proofs.Stopping
