import Backtrack.Program.Machine

namespace Backtrack

variable {κ τ ω : Type} {lacking : Bool}

namespace Alternative

/-- Runs from a pair whose flag is taken for its truth, to the result and the final pair. -/
def runPair (host : Host κ τ ω lacking) (fuel : Nat) (a : Alternative κ) (initial : Value κ) :
    Exec κ ω (Value κ × Value κ × Value κ) := do
  let (user, aborted) ← Exec.demand initial.unpackPair
  let (result, final) ← a.program.run host fuel (.pair user (.bool aborted.isTrue))
  let (finalUser, finalAborted) ← Exec.demand final.unpackPair
  match result with
  | .ok _ | .err _ => pure (result, finalUser, finalAborted)
  | other => Exec.fail (.producedNonResult other.typeName)

/-- Runs from a user state, with the flag clear, to an outcome. -/
def run (host : Host κ τ ω lacking) (fuel : Nat) (a : Alternative κ) (user : Value κ) :
    Exec κ ω (Value κ) := do
  let (result, finalUser, aborted) ← a.runPair host fuel (.pair user (.bool false))
  if host.debug then
    let shownResult ← host.shortRepr result
    let shownUser ← host.shortRepr finalUser
    Exec.note (.runFinished shownResult shownUser (← Exec.demand (host.logged aborted)))
  pure (.outcome result finalUser aborted)

end Alternative

end Backtrack
