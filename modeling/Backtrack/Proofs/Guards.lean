import Backtrack.Proofs.Handling
import Backtrack.Script.Session

/-! Coroutines and the handlers that they owe. A coroutine owes the handlers of the bodies that it has
entered and not left. It executes each as it leaves the body, whichever way it does. The exception that
closes it passes them from the inside. -/

namespace Backtrack.Script

variable {τ α β : Type}

inductive Guarding where
  /-- a body with this handler is entered -/
  | entered (handler : List Stmt)
  /-- the body is left, and the handler is begun -/
  | left (handler : List Stmt)

/-- The handlers that are owed, from the inside, before and after what a log says. The body that was
entered last is left first. -/
inductive Guards : List (List Stmt) → List Guarding → List (List Stmt) → Prop where
  | nothing {owed} : Guards owed [] owed
  | entered {handler owed log last} :
      Guards (handler :: owed) log last → Guards owed (.entered handler :: log) last
  | left {handler owed log last} :
      Guards owed log last → Guards (handler :: owed) (.left handler :: log) last

namespace Guards

variable {owed middle last below : List (List Stmt)} {first second log : List Guarding}

theorem append (hGuards : Guards owed first middle) (hOnward : Guards middle second last) :
    Guards owed (first ++ second) last := by
  induction hGuards with
  | nothing => exact hOnward
  | entered _ ih => exact .entered (ih hOnward)
  | left _ ih => exact .left (ih hOnward)

theorem above (hGuards : Guards owed log last) (below : List (List Stmt)) :
    Guards (owed ++ below) log (last ++ below) := by
  induction hGuards with
  | nothing => exact .nothing
  | entered _ ih => exact .entered ih
  | left _ ih => exact .left ih

end Guards

namespace Run

variable {x : Run α} {k : Except (Raised Code) α → Run β} {world final : World Session}

end Run

def owedHandlers : List Pending → List (List Stmt)
  | [] => []
  | .ensure handler :: rest => handler :: owedHandlers rest
  | _ :: rest => owedHandlers rest

namespace Coroutine

def owed (c : Coroutine) : List (List Stmt) := owedHandlers c.pending

def Turn.owed : Turn → List (List Stmt)
  | go _ pending _ => owedHandlers pending
  | stop step => step.left.flatMap Coroutine.owed

def Ends (result : EStateM.Result (Halt Code) (World Session) (Step Code Coroutine))
    (final : World Session) : Prop :=
  (∃ value, result = .ok (.returned value) final) ∨ ∃ exception, result = .error (.raised exception) final

variable {host : Host Code τ Session} {fuel : Nat} {scope : Scope}
  {pending rest : List Pending} {signal : Signal} {world after final : World Session} {result : Turn}

def Turn.above (below : List Pending) : Turn → Turn
  | go scope pending signal => go scope (pending ++ below) signal
  | stop (.yielded value c) => stop (.yielded value { c with pending := c.pending ++ below })
  | stop (.returned value) => stop (.returned value)

section Above

variable {head : Pending} {below : List Pending}

end Above

end Coroutine

open Coroutine

end Backtrack.Script
