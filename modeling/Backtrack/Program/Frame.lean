import Backtrack.Alternative.Basic
import Backtrack.Exec

/-! Generators. A frame is a generator that has not begun, or one that is suspended at a yield and says
what it does with the value sent back to it. -/

namespace Backtrack

variable {κ τ ω : Type} {lacking : Bool}

def Frame.noteLimit : Int := 80

namespace Host

/-- Calls a callable. A function in do-notation gives out its alternative at once. -/
def invoke (host : Host κ τ ω lacking) : Callable κ → List (Value κ) → Exec κ ω (Value κ)
  | .code _ k, args => host.call k args
  | .doFunction f, args => Exec.giveOut (Alternative.ofCall f args).toValue
  | .method f receiver, args => Exec.giveOut (Alternative.ofCall f (receiver :: args)).toValue

/-- The success of the computation, or the failure that records an exception of one of the classes. -/
def guarded (computation : Exec κ ω (Value κ)) (classes : List ExceptionClass) :
    Exec κ ω (Value κ) :=
  tryCatch (Value.ok <$> computation) fun
    | .raised exception =>
        if classes.any exception.exceptionClass.isA then
          (fun text => Value.failWith (.str text)) <$> Exec.demand exception.failureText
        else Exec.raise exception
    | .exhausted => throw .exhausted

def applyMapper (host : Host κ τ ω lacking) : Mapper κ → Value κ → Exec κ ω (Value κ)
  | .call f, value => host.invoke f [value]
  | .constant result, _ => pure result
  | .recordFailure, value => pure (Value.failWith value)
  | .succeedEmpty, _ => pure (.ok .null)
  | .readUser, pair => Value.ok <$> Exec.demand (pair.item 0)
  | .attempt thunk classes, _ => guarded (host.invoke thunk []) classes
  | .raiseFlag, pair => do
      let user ← Exec.demand (pair.item 0)
      pure (.pair user (.bool true))
  | .updateUser f, pair => do
      let user ← Exec.demand (pair.item 0)
      let updated ← host.applyMapper f user
      let flag ← Exec.demand (pair.item 1)
      pure (.pair updated flag)
  | .injectAfter f, value => do
      let result ← host.invoke f [value]
      pure (Alternative.inject result).toValue
  | .mapOver computation, f =>
      match f with
      | .callable f => pure (Alternative.fmap f ⟨computation⟩).toValue
      | _ => Exec.fail (.expectedCallable .mapper)

def shortRepr (host : Host κ τ ω lacking) (value : Value κ) : Exec κ ω String :=
  (host.literal value).shown (value.shortRepr Frame.noteLimit)

end Host

inductive Frame (κ τ : Type) where
  | fresh (r : Recipe κ)
  | task (t : τ)
  | mapped (f : Mapper κ)
  | flatMapped (f : Callable κ)
  | bound (f : Mapper κ)
  /-- returns what it is sent -/
  | relay
  | sequenced (rest : List (Program κ)) (collected : List (Value κ))
  | traversed (rest : List (Value κ)) (f : Callable κ) (collected : List (Value κ))
  | altSnapshot (first second : Program κ)
  | altLeft (second : Program κ) (snapshot : Value κ)
  | altFlag (second : Program κ) (snapshot left : Value κ)
  | altRestored (second : Program κ) (left : Value κ)
  | altRight (left : Value κ)
  | aborting (failure : Value κ)
  | body (name : Option String) (t : τ)

namespace Frame

def yieldProgram (p : Program κ) (rest : Frame κ τ) : Exec κ ω (Step κ (Frame κ τ)) :=
  pure (.yielded (.program p) rest)

def finish (value : Value κ) : Exec κ ω (Step κ (Frame κ τ)) :=
  pure (.returned value)

/-- The generator ends with a failure; any other result gives its value to the continuation. -/
def onSuccess (result : Value κ) (continuation : Value κ → Exec κ ω (Step κ (Frame κ τ))) :
    Exec κ ω (Step κ (Frame κ τ)) :=
  match result with
  | .err error => finish (.err error)
  | other => Exec.demand other.value? >>= continuation

def yieldAlternative (role : OperandRole) (rest : Frame κ τ) :
    Value κ → Exec κ ω (Step κ (Frame κ τ))
  | .alternative _ p => yieldProgram p rest
  | other => Exec.fail (.expectedAlternative role other.typeName)

def sequenceNext (collected : List (Value κ)) :
    List (Program κ) → Exec κ ω (Step κ (Frame κ τ))
  | [] => finish (.ok (.list collected.reverse))
  | p :: rest => yieldProgram p (.sequenced rest collected)

def traverseNext (host : Host κ τ ω lacking) (f : Callable κ) (collected : List (Value κ)) :
    List (Value κ) → Exec κ ω (Step κ (Frame κ τ))
  | [] => finish (.ok (.list collected.reverse))
  | item :: rest =>
      (host.invoke f [item]).sealed >>=
        yieldAlternative .traverseResult (.traversed rest f collected)

/-- What a body in do-notation did: a value it returned is a success, an alternative it yielded is run.
Anything else that it yielded closes it. -/
def bodyNext (host : Host κ τ ω lacking) (name : Option String) :
    Step κ τ → Exec κ ω (Step κ (Frame κ τ))
  | .returned value => finish (.ok value)
  | .yielded (.alternative _ p) t => yieldProgram p (.body name t)
  | .yielded other t => do
      (host.close t).sealed
      Exec.fail (.yieldedNonAlternative name other.typeName)

/-- A body in do-notation is sent the value of a success and is closed by anything else. -/
def bodySend (host : Host κ τ ω lacking) (name : Option String) (t : τ) (result : Value κ) :
    Exec κ ω (Step κ (Frame κ τ)) :=
  match result with
  | .err error => do
      (host.close t).sealed
      finish (.err error)
  | other =>
      match other.value? with
      | .ok value => (host.resume t value).sealed >>= bodyNext host name
      | .error cause => do
          (host.close t).sealed
          Exec.fail cause

def taskNext : Step κ τ → Step κ (Frame κ τ)
  | .yielded value t => .yielded value (.task t)
  | .returned value => .returned value

def noteFailure (host : Host κ τ ω lacking) (entry : String → Note) (left : Value κ) :
    Exec κ ω Unit :=
  if host.debug then do
    let error ← Exec.demand left.error?
    Exec.note (entry (← (host.shortRepr error).sealed))
  else pure ()

def joinFailures (left right : Value κ) : Except (Fault κ) (Value κ) := do
  match ← left.error? with
  | .tree value children =>
      let joined ← (Value.tree value children).withChild (← right.error?)
      .ok (.err joined)
  | other => .error (other.lacks "with_child")

/-- A generator begins: it runs up to its first yield, or to its end. The factory of a task is called
before, and its exceptions leave no generator. -/
def begin (host : Host κ τ ω lacking) : Recipe κ → Exec κ ω (Step κ (Frame κ τ))
  | .map p f => yieldProgram p (.mapped f)
  | .flatMap p f => yieldProgram p (.flatMapped f)
  | .bind p f => yieldProgram p (.bound f)
  | .sequence ps => sequenceNext [] ps
  | .traverse items f => traverseNext host f [] items
  | .altOr first second => yieldProgram .get (.altSnapshot first second)
  | .abort failure => yieldProgram (.modify .raiseFlag) (.aborting failure)
  | .body f args => do
      match ← (host.start f.code args).sealed with
      | .value value => finish (.ok value)
      | .coroutine t => (host.resume t .null).sealed >>= bodyNext host f.name
  | .task code args => do
      let t ← host.spawn code args
      taskNext <$> (host.resume t .null).sealed

/-- A generator is sent a value and runs up to its next yield, or to its end. -/
def resume (host : Host κ τ ω lacking) : Frame κ τ → Value κ → Exec κ ω (Step κ (Frame κ τ))
  | .fresh r, sent =>
      match sent with
      | .null => begin host r
      | _ => Exec.fail .prematureSend
  | .task t, sent => taskNext <$> (host.resume t sent).sealed
  | .mapped f, sent => (host.applyMapper f sent).sealed >>= finish
  | .flatMapped f, sent => do
      match ← (host.invoke f [sent]).sealed with
      | .program p => yieldProgram p .relay
      | other => Exec.fail (.expectedBinderProgram other.typeName)
  | .bound f, sent =>
      onSuccess sent fun value =>
        (host.applyMapper f value).sealed >>= yieldAlternative .binderResult .relay
  | .relay, sent => finish sent
  | .sequenced rest collected, sent =>
      onSuccess sent fun value => sequenceNext (value :: collected) rest
  | .traversed rest f collected, sent =>
      onSuccess sent fun value => traverseNext host f (value :: collected) rest
  | .altSnapshot first second, sent => yieldProgram first (.altLeft second sent)
  | .altLeft second snapshot, left =>
      match left with
      | .ok value => finish (.ok value)
      | other => yieldProgram .get (.altFlag second snapshot other)
  | .altFlag second snapshot left, state => do
      let (_, aborted) ← Exec.demand state.unpackPair
      if aborted.isTrue then
        noteFailure host .alternationSkipped left
        finish left
      else
        noteFailure host .backtracked left
        yieldProgram (.put snapshot) (.altRestored second left)
  | .altRestored second left, _ => yieldProgram second (.altRight left)
  | .altRight left, right =>
      match right with
      | .ok value => finish (.ok value)
      | other => Exec.demand (joinFailures left other) >>= finish
  | .aborting failure, _ => finish (Value.failWith failure)
  | .body name t, sent => bodySend host name t sent

/-- A generator that is given up runs its host's coroutine to the end of its handlers. -/
def close (host : Host κ τ ω lacking) : Frame κ τ → Exec κ ω Unit
  | .task t | .body _ t => (host.close t).sealed
  | _ => pure ()

end Frame

end Backtrack
