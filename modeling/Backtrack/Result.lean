import Backtrack.Program.Frame

namespace Backtrack

variable {κ τ ω : Type}

def Host.callValue (host : Host κ τ ω) (f : Value κ) (args : List (Value κ)) :
    Exec κ ω (Value κ) :=
  match f with
  | .callable f => host.invoke f args
  | other => Exec.fail (.notCallable other.typeName)

namespace Value

def isResult : Value κ → Bool
  | ok _ | err _ => true
  | _ => false

def isOk : Value κ → Bool
  | ok _ => true
  | _ => false

def isErr : Value κ → Bool
  | err _ => true
  | _ => false

def successOrNull : Value κ → Value κ
  | ok value => value
  | _ => null

def failureOrNull : Value κ → Value κ
  | err error => error
  | _ => null

def unwrap : Value κ → Except (Fault κ) (Value κ)
  | ok value => .ok value
  | other => do .error (failureFault (← other.error?))

def unwrapErr : Value κ → Except (Fault κ) (Value κ)
  | err error => .ok error
  | _ => .error .unwrappedSuccess

def mapSuccess (host : Host κ τ ω) (result f : Value κ) : Exec κ ω (Value κ) :=
  match result with
  | ok value => ok <$> host.callValue f [value]
  | other => pure other

def mapFailure (host : Host κ τ ω) (result f : Value κ) : Exec κ ω (Value κ) :=
  match result with
  | err error => do
      match ← host.callValue f [error] with
      | tree value children => pure (err (tree value children))
      | _ => Exec.fail .mappedErrorNotTree
  | other => pure other

def unwrapOr (result substitute : Value κ) : Value κ :=
  match result with
  | ok value => value
  | _ => substitute

def unwrapOrElse (host : Host κ τ ω) (result f : Value κ) : Exec κ ω (Value κ) :=
  match result with
  | ok value => pure value
  | other => do
      let error ← Exec.demand other.error?
      host.callValue f [error]

def chain (host : Host κ τ ω) (result f : Value κ) : Exec κ ω (Value κ) :=
  match result with
  | ok value => do
      let next ← host.callValue f [value]
      if next.isResult then pure next else Exec.fail .chainedNonResult
  | other => pure other

end Value

end Backtrack
