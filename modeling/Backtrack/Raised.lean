import Backtrack.Value.Text

namespace Backtrack

inductive Raised (κ : Type) where
  | thrown (exceptionClass : ExceptionClass) (args : List (Value κ))
  | fault (cause : Fault κ)

namespace Raised

variable {κ : Type}

def exceptionClass : Raised κ → ExceptionClass
  | thrown c _ => c
  | fault cause => cause.exceptionClass

/-- The message of an exception. A single argument shows as its text, but in literal form for a missing
key; several show as the tuple of them. -/
def message : Raised κ → Except (Fault κ) String
  | thrown _ [] => .ok ""
  | thrown c [argument] => if c = .key then .ok argument.repr else argument.text
  | thrown _ args => .ok (Value.tuple args).repr
  | fault cause => .ok cause.message

/-- The message, or the name of the class where the message is empty. -/
def failureText (raised : Raised κ) : Except (Fault κ) String := do
  let message ← raised.message
  .ok (if message.isEmpty then raised.exceptionClass.text else message)

/-- The exception that leaves a generator in which this one was raised. A generator cannot raise what
would mean the end of it. -/
def sealed : Raised κ → Raised κ
  | thrown .stopIteration _ => thrown .runtime [.str "generator raised StopIteration"]
  | other => other

@[simp] theorem sealed_fault (cause : Fault κ) : (fault cause : Raised κ).sealed = fault cause := rfl

theorem sealed_of_ne {raised : Raised κ} (hOther : raised.exceptionClass ≠ .stopIteration) :
    raised.sealed = raised := by
  cases raised with
  | fault cause => rfl
  | thrown c args =>
      cases c with
      | stopIteration => exact absurd rfl hOther
      | _ => rfl

theorem sealed_exceptionClass_ne (raised : Raised κ) :
    raised.sealed.exceptionClass ≠ .stopIteration := by
  cases raised with
  | fault cause => cases cause <;> nofun
  | thrown c args => cases c <;> nofun

@[simp] theorem sealed_sealed (raised : Raised κ) : raised.sealed.sealed = raised.sealed :=
  sealed_of_ne raised.sealed_exceptionClass_ne

end Raised

/-- What asking for the literal form of a value comes to: it is had, or, where values may lack one, an
exception is raised. -/
inductive Literal (κ : Type) : Bool → Type where
  | had {lacking : Bool} : Literal κ lacking
  | raises (exception : Raised κ) : Literal κ true

end Backtrack
