import Linkage.Constraint.Outline
import Linkage.Main
import Linkage.Proofs.Divisors
import Linkage.Proofs.History
import Linkage.Proofs.Memory
import Linkage.Proofs.Neighbours
import Linkage.Proofs.Network
import Linkage.Proofs.Satisfaction
import Linkage.Sorting.Permutation
import Linkage.System.Report
import Linkage.System.Settings
import Linkage.Tracing
import Linkage.Proofs.Reach
import Linkage.Proofs.Following
import Linkage.Proofs.Starting
import Linkage.Proofs.Translation
import Linkage.Proofs.Insertion
import Linkage.Proofs.Sweeping
import Linkage.Proofs.Printing
import Linkage.Proofs.Sharing
import Linkage.Proofs.Traces
import Linkage.Proofs.Stretching
import Linkage.Proofs.Deviation
import Linkage.Proofs.Swinging
import Linkage.Proofs.Freezing
import Linkage.Proofs.Posing
import Linkage.Proofs.Reversal
import Linkage.Proofs.Sectors
import Linkage.Proofs.Refusals
import Linkage.Proofs.Recollection
import Linkage.Proofs.Freedom
import Linkage.Proofs.Interpolation
import Linkage.Proofs.Closing
import Linkage.Proofs.Counting
import Linkage.Proofs.Storing
import Linkage.Proofs.Instrumenting
import Linkage.Proofs.Brevity
import Linkage.Proofs.Reports
