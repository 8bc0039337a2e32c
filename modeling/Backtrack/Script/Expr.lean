import Backtrack.Script.Operation
import Backtrack.Value.Basic

namespace Backtrack.Script

mutual
inductive Expr where
  | null
  | bool (b : Bool)
  | int (n : Int)
  | str (text : String)
  | variable (name : String)
  | conditional (condition whenTrue whenFalse : Expr)
  | letIn (name : String) (bound body : Expr)
  | function (parameters : List String) (body : Expr)
  /-- a function in do-notation, with a coroutine or an expression for its body -/
  | doFunction (name : Option String) (parameters : List String) (body : Body)
  /-- a function whose calls give programs that run the statements -/
  | programFunction (name : Option String) (parameters : List String) (body : List Stmt)
  | generator (body : List Stmt)
  | operation (op : Operation) (args : List Expr)

inductive Stmt where
  | yield (target : Option String) (value : Expr)
  | assign (name : String) (value : Expr)
  | evaluate (value : Expr)
  | leave (value : Expr)
  | conditional (condition : Expr) (whenTrue whenFalse : List Stmt)
  | loop (condition : Expr) (body : List Stmt)
  | forEach (name : String) (items : Expr) (body : List Stmt)
  /-- the handler runs however the body is left -/
  | ensure (body handler : List Stmt)
  /-- the handler runs when the body raises an exception of one of the classes -/
  | guarded (body : List Stmt) (classes : List ExceptionClass) (handler : List Stmt)

inductive Body where
  | expression (body : Expr)
  | statements (body : List Stmt)
end

/-- A body with the variables that were in scope where it was made, and the name that it goes by. -/
inductive Code where
  | mk (name : String) (parameters : List String) (body : Body)
      (scope : List (String × Value Code))

abbrev Scope := List (String × Value Code)

namespace Scope

/-- A name that is bound keeps its place. -/
def assign (name : String) (value : Value Code) : Scope → Scope
  | [] => [(name, value)]
  | (bound, old) :: rest =>
      if bound = name then (name, value) :: rest else (bound, old) :: assign name value rest

/-- The variables of a call: the arguments stand before what the code closed over, and of the parameters
of one name the last one stands first. -/
def enter (parameters : List String) (args : List (Value Code)) (closed : Scope) : Scope :=
  (parameters.zip args).reverse ++ closed

end Scope

/-- What a script keeps between steps, and what it logged during one. -/
structure Session where
  globals : Scope
  trace : Array (Value Code)

end Backtrack.Script
