import Backtrack.Script.Session
import Backtrack.Settings
import Backtrack.Proofs.Abort
import Backtrack.Proofs.Correspondence
import Backtrack.Proofs.TrialOrder
import Backtrack.Proofs.Trials
import Backtrack.Proofs.Visits
import Backtrack.Proofs.Bracketing
import Backtrack.Proofs.FailureLog
import Backtrack.Proofs.IteratedBind
import Backtrack.Proofs.ScriptCorrespondence
import Backtrack.Proofs.Custody
import Backtrack.Proofs.Guards
import Backtrack.Proofs.Disposal
import Backtrack.Proofs.Likeness
import Backtrack.Proofs.MonadLaws
import Backtrack.Proofs.Equivalence
import Backtrack.Proofs.Congruence
import Backtrack.Proofs.Soundness
import Backtrack.Proofs.Wrapping
import Backtrack.Proofs.Debugging
import Backtrack.Proofs.Collecting
import Backtrack.Proofs.Folding
import Backtrack.Proofs.Commitment
import Backtrack.Proofs.Chains
import Backtrack.Proofs.FlagReading
import Backtrack.Proofs.Outline
import Backtrack.Proofs.StateLaws
import Backtrack.Proofs.ApplicativeLaws
import Backtrack.Proofs.ChainSteps
import Backtrack.Proofs.Literals
import Backtrack.Proofs.AuditTrail
import Backtrack.Proofs.CompactText
import Backtrack.Proofs.ExceptionBoundary
import Backtrack.Proofs.UserState
import Backtrack.Proofs.Preorder
import Backtrack.Proofs.ResultEmbedding
import Backtrack.Proofs.StrayValues
import Backtrack.Proofs.LoopInvariant
import Backtrack.Proofs.Abbreviation
