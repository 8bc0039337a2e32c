import Backtrack.Script.Coroutine

namespace Backtrack.Script

/-- The scope of a call, when the arguments are as many as the parameters. -/
def Code.scopeFor : Code → List (Value Code) → Run Scope
  | .mk name parameters _ closed, args =>
      if parameters.length = args.length then pure (Scope.enter parameters args closed)
      else Run.misuse (.arity name parameters.length args.length)

/-- Starts a body: an expression has its value at once, and statements wait in a coroutine. -/
def Code.start {τ : Type} (host : Host Code τ Session) (fuel : Nat) (code : Code)
    (args : List (Value Code)) : Run (Started Code Coroutine) := do
  let scope ← code.scopeFor args
  match code with
  | .mk _ _ (.expression body) _ => Started.value <$> body.eval host fuel scope
  | .mk _ _ (.statements body) _ => pure (.coroutine (Coroutine.ofStatements scope body))

/-- The coroutine of a program: its body begins when it is resumed. -/
def Code.spawn (code : Code) (args : List (Value Code)) : Run Coroutine := do
  let scope ← code.scopeFor args
  match code with
  | .mk _ _ (.expression body) _ => pure (Coroutine.ofStatements scope [.leave body])
  | .mk _ _ (.statements body) _ => pure (Coroutine.ofStatements scope body)

/-- Calls a function: an expression is evaluated, and statements make a program. -/
def Code.call {τ : Type} (host : Host Code τ Session) (fuel : Nat) (code : Code)
    (args : List (Value Code)) : Run (Value Code) := do
  match code with
  | .mk _ _ (.expression body) _ =>
      let scope ← code.scopeFor args
      body.eval host fuel scope
  | .mk _ _ (.statements _) _ => Exec.giveOut (.program (.generator none (.task code args)))

/-- The host whose calls may nest so deep, and whose loops may turn so often. -/
def host (debug : Bool) : Nat → Host Code Coroutine Session
  | 0 =>
      { debug := debug
        call := fun _ _ => throw .exhausted
        start := fun _ _ => throw .exhausted
        spawn := fun _ _ => throw .exhausted
        resume := fun _ _ => throw .exhausted
        close := fun _ => throw .exhausted }
  | fuel + 1 =>
      { debug := debug
        call := fun code args => code.call (host debug fuel) fuel args
        start := fun code args => code.start (host debug fuel) fuel args
        spawn := Code.spawn
        resume := fun c sent => c.resume (host debug fuel) fuel sent
        close := fun c => c.close (host debug fuel) fuel }

structure Command where
  name : Option String
  expr : Expr

inductive Outcome where
  | value (value : Value Code)
  | raised (exceptionClass : ExceptionClass) (message : String)
  | exhausted

structure Answer where
  outcome : Outcome
  trace : List (Value Code)
  notes : List Note

/-- More than any script of a reasonable length uses. -/
def sessionFuel : Nat := 1000000000

def Outcome.ofHalt : Halt Code → Outcome
  | .raised exception =>
      match exception.message with
      | .ok message => raised exception.exceptionClass message
      | .error cause => raised cause.exceptionClass cause.message
  | .exhausted => exhausted

def Answer.ofEnd (outcome : Outcome) (final : World Session) : Answer :=
  ⟨outcome, final.host.trace.toList, final.journal.toList⟩

def stepWorld (globals : Scope) (nextMark : Nat) : World Session :=
  ⟨⟨globals, #[]⟩, #[], nextMark⟩

/-- Executes one step: its answer, and the world in which the next one begins. -/
def Command.execute (debug : Bool) (command : Command) (world : World Session) :
    Answer × World Session :=
  match command.expr.eval (host debug sessionFuel) sessionFuel [] world with
  | .ok value final =>
      let globals :=
        match command.name with
        | some name => final.host.globals.assign name value
        | none => final.host.globals
      (Answer.ofEnd (.value value) final, stepWorld globals final.nextMark)
  | .error halt final =>
      (Answer.ofEnd (Outcome.ofHalt halt) final, stepWorld final.host.globals final.nextMark)

def executeFrom (debug : Bool) (world : World Session) : List Command → List Answer
  | [] => []
  | command :: rest =>
      let (answer, next) := command.execute debug world
      answer :: executeFrom debug next rest

/-- The answers of the steps of a script, in order. Nothing is defined at its start. -/
def executeAll (debug : Bool) (commands : List Command) : List Answer :=
  executeFrom debug (stepWorld [] 0) commands

end Backtrack.Script
