import Remix.Audio.Tone
import Remix.Main
import Remix.Proofs.Counting
import Remix.Proofs.Naming
import Remix.Proofs.Evaluation
import Remix.Proofs.Readers
import Remix.Proofs.Liveness
import Remix.Proofs.PendingReads
import Remix.Proofs.Refinement
import Remix.Proofs.Renumbering
import Remix.Proofs.Runs
import Remix.Proofs.Scoping
import Remix.Proofs.WorkingSet
import Remix.Proofs.Release
import Remix.Proofs.TemporarySink
import Remix.Proofs.Grammar
import Remix.Proofs.CanonicalForm
import Remix.Proofs.Pruning
import Remix.Proofs.Reordering
import Remix.Proofs.Checks
import Remix.Proofs.Provenance
import Remix.Proofs.Breakdown
import Remix.Proofs.Shapes
import Remix.Proofs.Roots
import Remix.Proofs.RequiredStems
import Remix.Proofs.Formatting
import Remix.Proofs.Appending
import Remix.Proofs.Conflicts
import Remix.Proofs.Places
import Remix.Proofs.Excerpts
import Remix.Proofs.TokenPlaces
import Remix.Proofs.Concatenation
import Remix.Proofs.Viability
import Remix.Proofs.Renaming
import Remix.Proofs.Precedence
import Remix.Proofs.Trees
import Remix.Proofs.Writing
import Remix.Proofs.SinglePrecision
import Remix.Proofs.Quantizing
import Remix.Proofs.Headers
import Remix.Proofs.Rereading
import Remix.Proofs.Reexporting
import Remix.Proofs.ExactValues
import Remix.Proofs.Fidelity
import Remix.Proofs.Supplies
import Remix.Proofs.Holdings
import Remix.Proofs.Peaks
import Remix.Proofs.Walks
import Remix.Proofs.FirstFiles
import Remix.Proofs.Summing
import Remix.Proofs.Spelling
import Remix.Proofs.Rotations
import Remix.Proofs.Interleaving
import Remix.Proofs.Construction
