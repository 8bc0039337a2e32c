import Backtrack.Value.Basic

/-! An alternative is a program over the pair of the user state and the abort flag; it produces a
success or a failure. Sequencing stops at the first failure and keeps only that one. Alternation runs
its right operand, from the state in which the left one began, when the left one fails with the flag
clear. Building an alternative runs nothing. -/

namespace Backtrack

structure Alternative (κ : Type) where
  program : Program κ

namespace Alternative

variable {κ : Type}

def toValue (a : Alternative κ) : Value κ := .alternative none a.program

def ofResult (result : Value κ) : Alternative κ := ⟨.pure result⟩

def inject (value : Value κ) : Alternative κ := ofResult (.ok value)

/-- Fails with a leaf; alternation may still try another branch. -/
def error (failure : Value κ) : Alternative κ :=
  ⟨.generator none (.map (.pure failure) .recordFailure)⟩

/-- Sets the abort flag, then fails with a leaf. -/
def abort (failure : Value κ) : Alternative κ := ⟨.generator none (.abort failure)⟩

/-- Evaluates the thunk when it runs, and fails with the text of an exception of one of the classes. -/
def attempt (thunk : Callable κ) (classes : List ExceptionClass) : Alternative κ :=
  ⟨.generator none (.map .get (.attempt thunk classes))⟩

def get : Alternative κ := ⟨.generator none (.map .get .readUser)⟩

def modifyBy (f : Mapper κ) : Alternative κ :=
  ⟨.generator none (.map (.modify (.updateUser f)) .succeedEmpty)⟩

def modify (f : Callable κ) : Alternative κ := modifyBy (.call f)

def put (user : Value κ) : Alternative κ := modifyBy (.constant user)

def bind (computation : Alternative κ) (f : Callable κ) : Alternative κ :=
  ⟨.generator none (.bind computation.program (.call f))⟩

def fmap (f : Callable κ) (computation : Alternative κ) : Alternative κ :=
  ⟨.generator none (.bind computation.program (.injectAfter f))⟩

def apply (f computation : Alternative κ) : Alternative κ :=
  ⟨.generator none (.bind f.program (.mapOver computation.program))⟩

def sequence (computations : List (Alternative κ)) : Alternative κ :=
  ⟨.generator none (.sequence (computations.map program))⟩

def traverse (items : List (Value κ)) (f : Callable κ) : Alternative κ :=
  ⟨.generator none (.traverse items f)⟩

def altOr (first second : Alternative κ) : Alternative κ :=
  ⟨.generator none (.altOr first.program second.program)⟩

/-- The chain `((a | b) | c) | …`. -/
def choice (first : Alternative κ) (others : List (Alternative κ)) : Alternative κ :=
  others.foldl altOr first

def altOrRightAssoc (first : Alternative κ) : List (Alternative κ) → Alternative κ
  | [] => first
  | second :: others => first.altOr (altOrRightAssoc second others)

def ofCall (f : DoFunction κ) (args : List (Value κ)) : Alternative κ :=
  ⟨.generator none (.body f args)⟩

end Alternative

end Backtrack
