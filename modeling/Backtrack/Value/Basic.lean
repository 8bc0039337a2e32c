import Backtrack.ExceptionClass

/-! Values and the programs they may hold. A program describes a computation over a state and does
nothing until a machine runs it. Code that belongs to the host is opaque here: it is one of the codes
`κ`, and only the host knows what it does.

Callables, alternatives and programs that do not show what they do have no parts to compare them by.
Each is known by a mark, which it gets when it is first given out. -/

namespace Backtrack

abbrev Mark := Option Nat

/-- A function whose calls yield alternatives in do-notation. -/
structure DoFunction (κ : Type) where
  mark : Mark
  name : Option String
  parameters : List String
  code : κ

/-- A type of immutable mappings, which is not the library's own: its name, and the literal form that it
gives to the literal forms of keys and values. -/
structure MappingType where
  name : String
  literal : List (String × String) → String

mutual
inductive Value (κ : Type) : Type
  | null
  | bool (b : Bool)
  | int (n : Int)
  | str (text : String)
  | list (items : List (Value κ))
  | tuple (items : List (Value κ))
  | dict (type : MappingType) (entries : List (Value κ × Value κ))
  | ok (value : Value κ)
  | err (error : Value κ)
  | tree (value : Value κ) (children : List (Value κ))
  | outcome (result state aborted : Value κ)
  | program (p : Program κ)
  | alternative (mark : Mark) (p : Program κ)
  | callable (f : Callable κ)

inductive Callable (κ : Type) : Type
  | code (mark : Mark) (k : κ)
  | doFunction (f : DoFunction κ)
  | method (f : DoFunction κ) (receiver : Value κ)

/-- The last two stand for programs of no kind the machine knows. -/
inductive Program (κ : Type) : Type
  | pure (value : Value κ)
  | get
  | put (state : Value κ)
  | modify (f : Mapper κ)
  | generator (mark : Mark) (r : Recipe κ)
  | foreign (mark : Mark)
  | foreignEffect (mark : Mark)

/-- A function of one argument that a running program applies. -/
inductive Mapper (κ : Type) : Type
  /-- a function given by the caller -/
  | call (f : Callable κ)
  /-- the constant function -/
  | constant (value : Value κ)
  /-- fails with a leaf that records the argument -/
  | recordFailure
  /-- succeeds with nothing -/
  | succeedEmpty
  /-- succeeds with the user state of a state pair -/
  | readUser
  /-- evaluates a thunk and records exceptions of the given classes -/
  | attempt (thunk : Callable κ) (classes : List ExceptionClass)
  /-- sets the abort flag of a state pair -/
  | raiseFlag
  /-- changes the user state of a state pair -/
  | updateUser (f : Mapper κ)
  /-- the alternative that succeeds with a function's value at the argument -/
  | injectAfter (f : Callable κ)
  /-- maps the argument, a function, over a computation -/
  | mapOver (computation : Program κ)

/-- What a generator-backed program does, once begun. -/
inductive Recipe (κ : Type) : Type
  | map (p : Program κ) (f : Mapper κ)
  | flatMap (p : Program κ) (f : Callable κ)
  | bind (p : Program κ) (f : Mapper κ)
  | sequence (ps : List (Program κ))
  | traverse (items : List (Value κ)) (f : Callable κ)
  | altOr (first second : Program κ)
  | abort (failure : Value κ)
  | body (f : DoFunction κ) (args : List (Value κ))
  | task (code : κ) (args : List (Value κ))
end

namespace Program

variable {κ : Type}

def typeName : Program κ → String
  | .pure _ => "PureEffect"
  | .get => "StateGetEffect"
  | .put _ => "StatePutEffect"
  | .modify _ => "StateModifyEffect"
  | .generator _ _ => "GeneratorState"
  | .foreign _ => "AlienProgram"
  | .foreignEffect _ => "AlienEffect"

/-- The program under a mark, unless it has one or is known by its parts. -/
def marked (mark : Nat) : Program κ → Program κ
  | .generator none r => .generator (some mark) r
  | .foreign none => .foreign (some mark)
  | .foreignEffect none => .foreignEffect (some mark)
  | other => other

end Program

/-- The callable under a mark, unless it has one. A method is known by its function and receiver. -/
def Callable.marked {κ : Type} (mark : Nat) : Callable κ → Callable κ
  | .code none k => .code (some mark) k
  | .doFunction ⟨none, name, parameters, k⟩ => .doFunction ⟨some mark, name, parameters, k⟩
  | other => other

namespace Value

variable {κ : Type}

instance : Inhabited (Value κ) := ⟨null⟩

/-- The name of a value's type, as error texts give it. -/
def typeName : Value κ → String
  | null => "NoneType"
  | bool _ => "bool"
  | int _ => "int"
  | str _ => "str"
  | list _ => "list"
  | tuple _ => "tuple"
  | dict type _ => type.name
  | ok _ => "Ok"
  | err _ => "Err"
  | tree _ _ => "ErrorTree"
  | outcome _ _ _ => "RunResult"
  | program p => p.typeName
  | alternative _ _ => "Alternative"
  | callable (.code _ _) => "function"
  | callable (.doFunction _) => "DoFunction"
  | callable (.method _ _) => "method"

/-- The name of the type in which the parts of a value are looked up: a bound method has the parts of its
function. -/
def ownerName : Value κ → String
  | callable (.method f _) => typeName (callable (.doFunction f))
  | value => value.typeName

/-- The value under a mark, if it is of a kind that is known by marks and has none. -/
def marked (mark : Nat) : Value κ → Value κ
  | program p => program (p.marked mark)
  | alternative none p => alternative (some mark) (p.marked mark)
  | callable f => callable (f.marked mark)
  | other => other

/-- What a condition takes a value for: empty values, zero and failures count as false. -/
def isTrue : Value κ → Bool
  | null => false
  | bool b => b
  | int n => n != 0
  | str text => !text.isEmpty
  | list items | tuple items => !items.isEmpty
  | dict _ entries => !entries.isEmpty
  | err _ => false
  | _ => true

def leaf (failure : Value κ) : Value κ := tree failure []

/-- A failure with a single record. -/
def failWith (failure : Value κ) : Value κ := err (leaf failure)

def pair (first second : Value κ) : Value κ := tuple [first, second]

end Value

end Backtrack
