import Backtrack.Raised

/-! Execution. A computation acts on a world, which holds whatever the host keeps, the journal of the
library's own notes, and the next mark to give out; it gives a value or halts. What it did to the world
before it halted stays. -/

namespace Backtrack

inductive Note where
  /-- a machine ended a program after taking up so many -/
  | programFinished (steps : Nat)
  /-- a failure came with the abort flag set -/
  | alternationSkipped (failure : String)
  /-- a failure led to the right operand of an alternation -/
  | backtracked (failure : String)
  | runFinished (result state aborted : String)
  deriving DecidableEq, Repr

def Note.text : Note → String
  | programFinished steps => "state program finished after " ++ toString steps ++ " steps"
  | alternationSkipped failure => "abort set, skipping right alternative: " ++ failure
  | backtracked failure => "backtracking after " ++ failure
  | runFinished result state aborted =>
      "alternative run finished: result=" ++ result ++ " state=" ++ state ++ " aborted=" ++ aborted

structure World (ω : Type) where
  host : ω
  journal : Array Note
  /-- above every mark that was given out -/
  nextMark : Nat

/-- Why a computation ends without a value: an exception, or the end of the fuel it was given. -/
inductive Halt (κ : Type) where
  | raised (exception : Raised κ)
  | exhausted

abbrev Exec (κ ω : Type) : Type → Type := EStateM (Halt κ) (World ω)

def Halt.sealed {κ : Type} : Halt κ → Halt κ
  | .raised exception => .raised exception.sealed
  | .exhausted => .exhausted

namespace Exec

variable {κ ω α : Type}

def raise (exception : Raised κ) : Exec κ ω α :=
  throw (.raised exception)

def fail (cause : Fault κ) : Exec κ ω α :=
  raise (.fault cause)

/-- A part of a value, or the fault of asking for it. -/
def demand : Except (Fault κ) α → Exec κ ω α
  | .ok value => pure value
  | .error cause => fail cause

/-- The computation within a generator, which exceptions leave sealed. -/
def sealed (computation : Exec κ ω α) : Exec κ ω α :=
  EStateM.adaptExcept Halt.sealed computation

def note (entry : Note) : Exec κ ω Unit :=
  modify fun world => { world with journal := world.journal.push entry }

/-- Gives out a value, under a new mark if it is of a kind that is known by marks and has none. -/
def giveOut (value : Value κ) : Exec κ ω (Value κ) :=
  modifyGet fun world =>
    (value.marked world.nextMark, { world with nextMark := world.nextMark + 1 })

@[simp] theorem demand_ok (value : α) : (demand (.ok value) : Exec κ ω α) = pure value := rfl

@[simp] theorem demand_error (cause : Fault κ) :
    (demand (.error cause) : Exec κ ω α) = fail cause := rfl

end Exec

def Literal.shown {κ ω : Type} {lacking : Bool} : Literal κ lacking → String → Exec κ ω String
  | .had, text => pure text
  | .raises exception, _ => Exec.raise exception

/-- A coroutine that is resumed with a value yields a value and stands ready for the next, or returns. -/
inductive Step (κ τ : Type) where
  | yielded (value : Value κ) (rest : τ)
  | returned (value : Value κ)

/-- Host code that is started gives a coroutine, or a value at once if it is an ordinary function. -/
inductive Started (κ τ : Type) where
  | coroutine (task : τ)
  | value (value : Value κ)

/-- What the library asks of the code `κ` of its host. A suspended coroutine is a `τ`, and `ω` is what the
host keeps between calls. -/
structure Host (κ τ ω : Type) (lacking : Bool := false) where
  /-- whether alternations and runs are noted in the journal -/
  debug : Bool
  call : κ → List (Value κ) → Exec κ ω (Value κ)
  start : κ → List (Value κ) → Exec κ ω (Started κ τ)
  /-- the factory of a program: its coroutine has not begun -/
  spawn : κ → List (Value κ) → Exec κ ω τ
  resume : τ → Value κ → Exec κ ω (Step κ τ)
  close : τ → Exec κ ω Unit
  /-- whether a failure, a result or a user state can be shown in a note -/
  literal : Value κ → Literal κ lacking := fun _ => .had
  /-- what the logger shows of an argument that is no text -/
  logged : Value κ → Except (Fault κ) String := Value.text

end Backtrack
