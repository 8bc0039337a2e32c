import Backtrack.Script.Eval

/-! Coroutines that execute statements. A coroutine keeps what it has yet to do on a list, the innermost
first. It is left by the end of its statements, by a return or by an exception; each way out passes the
guards on the list from the inside. To be closed is to have an exception raised at the yield. -/

namespace Backtrack.Script

variable {τ : Type}

inductive Signal where
  | next
  | raising (exception : Raised Code)
  | returning (value : Value Code)

inductive Pending where
  | block (body : List Stmt)
  | loop (condition : Expr) (body : List Stmt)
  | forEach (name : String) (items : List (Value Code)) (body : List Stmt)
  /-- the handler of a body that is being executed -/
  | ensure (handler : List Stmt)
  /-- the handler of some exceptions of a body that is being executed -/
  | guarded (classes : List ExceptionClass) (handler : List Stmt)
  /-- goes on as the body did, once its handler has ended -/
  | onward (signal : Signal)

/-- A coroutine that is suspended, or has not begun. The value that resumes it goes to the target. -/
structure Coroutine where
  scope : Scope
  pending : List Pending
  target : Option String

namespace Coroutine

def ofStatements (scope : Scope) (body : List Stmt) : Coroutine :=
  ⟨scope, [.block body], none⟩

inductive Turn where
  | go (scope : Scope) (pending : List Pending) (signal : Signal)
  | stop (step : Step Code Coroutine)

def withValue (host : Host Code τ Session) (fuel : Nat) (scope : Scope) (rest : List Pending)
    (e : Expr) (continuation : Value Code → Turn) : Run Turn := do
  match ← Run.caught (e.eval host fuel scope) with
  | .ok value => pure (continuation value)
  | .error exception => pure (.go scope rest (.raising exception))

def execute (host : Host Code τ Session) (fuel : Nat) (scope : Scope) (rest : List Pending) :
    Stmt → Run Turn
  | .yield target e =>
      withValue host fuel scope rest e fun value => .stop (.yielded value ⟨scope, rest, target⟩)
  | .assign name e =>
      withValue host fuel scope rest e fun value => .go (scope.assign name value) rest .next
  | .evaluate e => withValue host fuel scope rest e fun _ => .go scope rest .next
  | .leave e => withValue host fuel scope rest e fun value => .go scope rest (.returning value)
  | .conditional condition whenTrue whenFalse =>
      withValue host fuel scope rest condition fun value =>
        .go scope (.block (if value.isTrue then whenTrue else whenFalse) :: rest) .next
  | .loop condition body => pure (.go scope (.loop condition body :: rest) .next)
  | .forEach name items body => do
      match ← Run.caught (items.eval host fuel scope >>= itemsOf) with
      | .ok items => pure (.go scope (.forEach name items body :: rest) .next)
      | .error exception => pure (.go scope rest (.raising exception))
  | .ensure body handler => pure (.go scope (.block body :: .ensure handler :: rest) .next)
  | .guarded body classes handler =>
      pure (.go scope (.block body :: .guarded classes handler :: rest) .next)

def turn (host : Host Code τ Session) (fuel : Nat) (scope : Scope) :
    List Pending → Signal → Run Turn
  | [], .next => pure (.stop (.returned .null))
  | [], .returning value => pure (.stop (.returned value))
  | [], .raising exception => Exec.raise exception
  | .ensure handler :: rest, signal =>
      pure (.go scope (.block handler :: .onward signal :: rest) .next)
  | .onward signal :: rest, .next => pure (.go scope rest signal)
  | .block [] :: rest, .next => pure (.go scope rest .next)
  | .block (first :: others) :: rest, .next =>
      execute host fuel scope (.block others :: rest) first
  | .loop condition body :: rest, .next =>
      withValue host fuel scope rest condition fun value =>
        if value.isTrue then .go scope (.block body :: .loop condition body :: rest) .next
        else .go scope rest .next
  | .forEach _ [] _ :: rest, .next => pure (.go scope rest .next)
  | .forEach name (item :: items) body :: rest, .next =>
      pure (.go (scope.assign name item) (.block body :: .forEach name items body :: rest) .next)
  | .guarded classes handler :: rest, .raising exception =>
      if classes.any exception.exceptionClass.isA then
        pure (.go scope (.block handler :: rest) .next)
      else pure (.go scope rest (.raising exception))
  | _ :: rest, signal => pure (.go scope rest signal)

/-- Executes until the next yield or the end. -/
def advance (host : Host Code τ Session) :
    Nat → Scope → List Pending → Signal → Run (Step Code Coroutine)
  | 0, _, _, _ => throw .exhausted
  | fuel + 1, scope, pending, signal => do
      match ← turn host fuel scope pending signal with
      | .go scope pending signal => advance host fuel scope pending signal
      | .stop step => pure step

def resume (host : Host Code τ Session) (fuel : Nat) (c : Coroutine) (sent : Value Code) :
    Run (Step Code Coroutine) :=
  let scope :=
    match c.target with
    | some name => c.scope.assign name sent
    | none => c.scope
  advance host fuel scope c.pending .next

/-- The exception that is raised at the yield of a coroutine that is closed. -/
def closing : Raised Code := .thrown .generatorExit []

/-- A coroutine that is closed must end, be it by the exception that closes it. -/
def close (host : Host Code τ Session) (fuel : Nat) (c : Coroutine) : Run Unit := do
  match ← Run.caught (advance host fuel c.scope c.pending (.raising closing)) with
  | .ok (.returned _) => pure ()
  | .ok (.yielded _ _) =>
      Exec.raise (.thrown .runtime [.str "generator ignored GeneratorExit"])
  | .error exception =>
      if exception.exceptionClass.isA .generatorExit then pure () else Exec.raise exception

end Coroutine

end Backtrack.Script
