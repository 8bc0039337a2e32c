import Backtrack.Proofs.Trials
import Backtrack.Script.Session

namespace Backtrack

/-- Corresponding worlds whose hosts hold the same, and which still correspond when they come to hold
another thing. -/
structure World.SharesHost {ω : Type} (R : World ω → World ω → Prop) : Prop extends
    World.Corresponding R where
  shared : ∀ first second, R first second → first.host = second.host
  replaced : ∀ first second, R first second → ∀ held,
    R { first with host := held } { second with host := held }

theorem World.alike_sharesHost {ω : Type} : World.SharesHost (World.Alike (ω := ω)) where
  toCorresponding := World.alike_corresponding
  shared _ _ hAlike := hAlike.1
  replaced _ _ hAlike _ := ⟨rfl, hAlike.2⟩

namespace Script

open Exec

variable {τ : Type} {R : World Session → World Session → Prop} {host other : Host Code τ Session}

/-- Calls and runs come to the same with either host. -/
structure Interchangeable (R : World Session → World Session → Prop)
    (host other : Host Code τ Session) : Prop where
  invoke : ∀ f args, Corresponds R (host.invoke f args) (other.invoke f args)
  run : ∀ a fuel user, Corresponds R (Alternative.run host fuel a user)
    (Alternative.run other fuel a user)
  runPair : ∀ a fuel initial, Corresponds R (Alternative.runPair host fuel a initial)
    (Alternative.runPair other fuel a initial)
  runProgram : ∀ p fuel state, Corresponds R (Program.run host fuel p state)
    (Program.run other fuel p state)

theorem Interchangeable.of_corresponds (hStable : World.Corresponding R)
    (hSame : host.Corresponds R other) : Interchangeable R host other where
  invoke f args := Host.invoke_corresponds hStable hSame.call f args
  run a fuel user := Alternative.run_corresponds hStable hSame a fuel user
  runPair a fuel initial := Alternative.runPair_corresponds hStable hSame a fuel initial
  runProgram p fuel state := Program.run_corresponds hStable hSame p fuel state

@[simp] theorem demand_map_corresponds {α β : Type} (f : α → β) (part : Except (Fault Code) α) :
    Corresponds R (f <$> demand part : Run β) (f <$> demand part) :=
  (corresponds_demand part).map f

@[simp] theorem Run.misuse_corresponds {α : Type} (cause : Misuse) :
    Corresponds R (Run.misuse cause : Run α) (Run.misuse cause) :=
  corresponds_raise _

theorem Run.caught_corresponds {α : Type} {x y : Run α} (hSame : Corresponds R x y) :
    Corresponds R (Run.caught x) (Run.caught y) := by
  refine (hSame.map Except.ok).tryCatch fun halt => ?_
  cases halt with
  | raised exception => exact corresponds_pure _
  | exhausted => exact corresponds_throw _

theorem itemsOf_corresponds (value : Value Code) : Corresponds R (itemsOf value) (itemsOf value) := by
  unfold itemsOf
  split <;> simp

@[simp] theorem sumOf_corresponds (a b : Value Code) : Corresponds R (sumOf a b) (sumOf a b) := by
  unfold sumOf
  split <;> simp

@[simp] theorem arithmetic_corresponds (f : Int → Int → Int) (a b : Value Code) :
    Corresponds R (arithmetic f a b) (arithmetic f a b) := by
  unfold arithmetic
  split <;> simp

@[simp] theorem division_corresponds (f : Int → Int → Int) (a b : Value Code) :
    Corresponds R (division f a b) (division f a b) := by
  unfold division
  split
  · split <;> simp
  · simp

@[simp] theorem lengthOf_corresponds (value : Value Code) :
    Corresponds R (lengthOf value) (lengthOf value) := by
  unfold lengthOf
  split <;> simp

@[simp] theorem itemAt_corresponds (value position : Value Code) :
    Corresponds R (itemAt value position) (itemAt value position) := by
  unfold itemAt
  split
  · refine (itemsOf_corresponds value).bind fun items => ?_
    split
    · simp
    · split <;> simp
  · simp

@[simp] theorem dropFirst_corresponds (value count : Value Code) :
    Corresponds R (dropFirst value count) (dropFirst value count) := by
  unfold dropFirst
  split <;> simp

theorem entryOf_corresponds (value : Value Code) : Corresponds R (entryOf value) (entryOf value) := by
  refine (itemsOf_corresponds value).bind fun items => ?_
  split <;> simp

theorem classNamed_corresponds (name : Value Code) :
    Corresponds R (classNamed name) (classNamed name) := by
  unfold classNamed
  split
  · split <;> simp
  · simp

theorem classesNamed_corresponds (names : Value Code) :
    Corresponds R (classesNamed names) (classesNamed names) := by
  unfold classesNamed
  split
  · exact corresponds_mapM classNamed_corresponds _
  · exact corresponds_mapM classNamed_corresponds _
  · exact (classNamed_corresponds _).bind fun c => corresponds_pure _

@[simp] theorem built_corresponds (a : Except (Fault Code) (Alternative Code)) :
    Corresponds R (built a) (built a) :=
  (corresponds_demand a).map _

@[simp] theorem programOf_corresponds (p : Except (Fault Code) (Program Code)) :
    Corresponds R (programOf p) (programOf p) :=
  (corresponds_demand p).map _

theorem runnable_corresponds (value : Value Code) :
    Corresponds R (runnable value) (runnable value) := by
  unfold runnable
  split <;> simp

@[simp] theorem shortened_corresponds (value limit : Value Code) :
    Corresponds R (shortened value limit) (shortened value limit) := by
  unfold shortened
  split <;> simp

@[simp] theorem received_corresponds (f receiver : Value Code) :
    Corresponds R (received f receiver) (received f receiver) := by
  unfold received
  split
  · split <;> simp
  · split <;> simp
  · simp

@[simp] theorem signatureOf_corresponds (f : Value Code) :
    Corresponds R (signatureOf f) (signatureOf f) := by
  unfold signatureOf
  split <;> simp

@[simp] theorem absent_corresponds (object : Value Code) (m : Member) :
    Corresponds R (absent object m) (absent object m) :=
  corresponds_fail _

theorem treeMember_tree_corresponds (value : Value Code) (children : List (Value Code))
    (stray : Value Code → Fault Code) :
    Corresponds R (treeMember.tree value children stray) (treeMember.tree value children stray) :=
  corresponds_demand _

theorem treeMember_corresponds (value : Value Code) (children : List (Value Code)) (m : Member)
    (args : List (Value Code)) :
    Corresponds R (treeMember value children m args) (treeMember value children m args) := by
  unfold treeMember
  split
  case h_6 | h_7 | h_8 | h_9 | h_10 | h_11 =>
    exact (treeMember_tree_corresponds value children _).bind fun tree => corresponds_pure _
  all_goals simp

theorem programMember_corresponds (p : Program Code) (m : Member) (args : List (Value Code)) :
    Corresponds R (programMember p m args) (programMember p m args) := by
  unfold programMember
  split
  case h_6 => split <;> simp
  all_goals simp

theorem outcomeMember_corresponds (result state aborted : Value Code) (m : Member)
    (args : List (Value Code)) :
    Corresponds R (outcomeMember result state aborted m args)
      (outcomeMember result state aborted m args) := by
  unfold outcomeMember
  split
  all_goals simp

theorem Code.scopeFor_corresponds (code : Code) (args : List (Value Code)) :
    Corresponds R (code.scopeFor args) (code.scopeFor args) := by
  unfold Code.scopeFor
  split
  split <;> simp

section Operations

variable (hSame : Interchangeable R host other)

include hSame

theorem callValue_corresponds (f : Value Code) (args : List (Value Code)) :
    Corresponds R (host.callValue f args) (other.callValue f args) := by
  unfold Host.callValue
  split
  · exact hSame.invoke _ args
  · simp

theorem mapSuccess_corresponds (result f : Value Code) :
    Corresponds R (result.mapSuccess host f) (result.mapSuccess other f) := by
  unfold Value.mapSuccess
  split
  · exact (callValue_corresponds hSame f _).map _
  · simp

theorem mapFailure_corresponds (result f : Value Code) :
    Corresponds R (result.mapFailure host f) (result.mapFailure other f) := by
  unfold Value.mapFailure
  split
  · refine (callValue_corresponds hSame f _).bind fun mapped => ?_
    split <;> simp
  · simp

theorem unwrapOrElse_corresponds (result f : Value Code) :
    Corresponds R (result.unwrapOrElse host f) (result.unwrapOrElse other f) := by
  unfold Value.unwrapOrElse
  split
  · simp
  · exact (corresponds_demand _).bind fun error => callValue_corresponds hSame f _

theorem chain_corresponds (result f : Value Code) :
    Corresponds R (result.chain host f) (result.chain other f) := by
  unfold Value.chain
  split
  · refine (callValue_corresponds hSame f _).bind fun next => ?_
    split <;> simp
  · simp

theorem runFrom_corresponds (fuel : Nat) (a user : Value Code) :
    Corresponds R (runFrom host fuel a user) (runFrom other fuel a user) :=
  (runnable_corresponds a).bind fun found => hSame.run found fuel user

theorem runFromPair_corresponds (fuel : Nat) (a initial : Value Code) :
    Corresponds R (runFromPair host fuel a initial) (runFromPair other fuel a initial) := by
  refine (runnable_corresponds a).bind fun found => ?_
  exact (hSame.runPair found fuel initial).bind fun ended => corresponds_pure _

theorem runFromState_corresponds (fuel : Nat) (p state : Value Code) :
    Corresponds R (runFromState host fuel p state) (runFromState other fuel p state) := by
  unfold runFromState
  split
  · exact (hSame.runProgram _ fuel state).bind fun ended => corresponds_pure _
  · simp

theorem Primitive.perform_corresponds (hSessions : World.SharesHost R) (p : Primitive)
    (args : List (Value Code)) :
    Corresponds R (p.perform host args) (p.perform other args) := by
  unfold Primitive.perform
  split
  case h_3 => exact (corresponds_mapM entryOf_corresponds args).bind fun found => corresponds_pure _
  case h_18 written => split <;> simp
  case h_20 entries key => split <;> simp
  case h_22 value =>
    -- what is logged is added to traces that are the same
    refine Corresponds.bind (fun first second hRelated => .ok ?_) fun _ => corresponds_pure value
    have hAdded := hSessions.replaced first second hRelated
      { first.host with trace := first.host.trace.push value }
    have hShared := hSessions.shared first second hRelated
    dsimp only
    rw [← hShared]
    exact hAdded
  case h_25 items first f =>
    exact (itemsOf_corresponds items).bind fun found =>
      corresponds_foldlM (fun collected item => callValue_corresponds hSame f _) found first
  case h_26 items f =>
    refine (itemsOf_corresponds items).bind fun found => ?_
    exact (corresponds_mapM (fun item => callValue_corresponds hSame f _) found).bind
      fun results => corresponds_pure _
  case h_27 f args => exact callValue_corresponds hSame f args
  case h_28 name args => split <;> simp
  all_goals simp

theorem Combinator.perform_corresponds (fuel : Nat) (c : Combinator) (args : List (Value Code)) :
    Corresponds R (c.perform host fuel args) (c.perform other fuel args) := by
  unfold Combinator.perform
  split
  case h_18 | h_19 =>
    exact (corresponds_demand _).bind fun operands => built_corresponds _
  case h_23 => exact (classesNamed_corresponds _).bind fun classes => built_corresponds _
  case h_27 a user => exact runFrom_corresponds hSame fuel a user
  case h_28 a initial => exact runFromPair_corresponds hSame fuel a initial
  case h_29 p state => exact runFromState_corresponds hSame fuel p state
  all_goals simp

theorem resultMember_corresponds (object : Value Code) (m : Member) (args : List (Value Code)) :
    Corresponds R (resultMember host object m args) (resultMember other object m args) := by
  unfold resultMember
  split
  case h_7 f => exact mapSuccess_corresponds hSame object f
  case h_8 f => exact mapFailure_corresponds hSame object f
  case h_10 f => exact unwrapOrElse_corresponds hSame object f
  case h_11 f => exact chain_corresponds hSame object f
  all_goals simp

theorem alternativeMember_corresponds (fuel : Nat) (p : Program Code) (m : Member)
    (args : List (Value Code)) :
    Corresponds R (alternativeMember host fuel p m args)
      (alternativeMember other fuel p m args) := by
  unfold alternativeMember
  split
  case h_7 user => exact runFrom_corresponds hSame fuel _ user
  all_goals simp

theorem Member.perform_corresponds (fuel : Nat) (m : Member) (args : List (Value Code)) :
    Corresponds R (m.perform host fuel args) (m.perform other fuel args) := by
  unfold Member.perform
  split
  · exact resultMember_corresponds hSame _ m _
  · exact resultMember_corresponds hSame _ m _
  · exact treeMember_corresponds _ _ m _
  · exact programMember_corresponds _ m _
  · exact alternativeMember_corresponds hSame fuel _ m _
  · exact outcomeMember_corresponds _ _ _ m _
  · simp
  · simp

end Operations

theorem lookUp_corresponds (hSessions : World.SharesHost R) (scope : Scope) (name : String) :
    Corresponds R (lookUp scope name) (lookUp scope name) := by
  unfold lookUp
  split
  · simp
  · intro first second hRelated
    have hReads (world : World Session) : (get : Run (World Session)) world = .ok world world := rfl
    rw [bind_of_ok (hReads first), bind_of_ok (hReads second), hSessions.shared first second hRelated]
    cases second.host.globals.lookup name with
    | some value => exact .ok hRelated
    | none => exact .error hRelated

theorem Operation.perform_corresponds (hSessions : World.SharesHost R)
    (hSame : Interchangeable R host other) (fuel : Nat) (op : Operation) (args : List (Value Code)) :
    Corresponds R (op.perform host fuel args) (op.perform other fuel args) := by
  cases op with
  | primitive p => exact Primitive.perform_corresponds hSame hSessions p args
  | combinator c => exact Combinator.perform_corresponds hSame fuel c args
  | member m => exact Member.perform_corresponds hSame fuel m args

mutual
theorem Expr.eval_corresponds (hSessions : World.SharesHost R)
    (hSame : Interchangeable R host other) (fuel : Nat) (scope : Scope) (e : Expr) :
    Corresponds R (e.eval host fuel scope) (e.eval other fuel scope) := by
  have hStable := hSessions.toCorresponding
  match e with
  | .null | .bool _ | .int _ | .str _ =>
      unfold Expr.eval
      exact corresponds_pure _
  | .variable name =>
      unfold Expr.eval
      exact lookUp_corresponds hSessions scope name
  | .conditional condition whenTrue whenFalse =>
      unfold Expr.eval
      refine (Expr.eval_corresponds hSessions hSame fuel scope condition).bind fun value => ?_
      split
      · exact Expr.eval_corresponds hSessions hSame fuel scope whenTrue
      · exact Expr.eval_corresponds hSessions hSame fuel scope whenFalse
  | .letIn name bound body =>
      unfold Expr.eval
      exact (Expr.eval_corresponds hSessions hSame fuel scope bound).bind fun value =>
        Expr.eval_corresponds hSessions hSame fuel _ body
  | .function _ _ | .doFunction _ _ _ | .programFunction _ _ _ | .generator _ =>
      unfold Expr.eval
      exact corresponds_giveOut hStable _
  | .operation op args =>
      unfold Expr.eval
      refine (Expr.evalAll_corresponds hSessions hSame fuel scope args).bind fun values => ?_
      exact (Operation.perform_corresponds hSessions hSame fuel op values).bind
        (corresponds_giveOut hStable)

theorem Expr.evalAll_corresponds (hSessions : World.SharesHost R)
    (hSame : Interchangeable R host other) (fuel : Nat) (scope : Scope) (es : List Expr) :
    Corresponds R (Expr.evalAll host fuel scope es) (Expr.evalAll other fuel scope es) := by
  match es with
  | [] =>
      unfold Expr.evalAll
      exact corresponds_pure _
  | e :: rest =>
      unfold Expr.evalAll
      refine (Expr.eval_corresponds hSessions hSame fuel scope e).bind fun value => ?_
      exact (Expr.evalAll_corresponds hSessions hSame fuel scope rest).bind fun values => corresponds_pure _
end

section Evaluation

variable (hSessions : World.SharesHost R) (hSame : Interchangeable R host other) (fuel : Nat)

include hSessions hSame

namespace Coroutine

theorem withValue_corresponds (scope : Scope) (rest : List Pending) (e : Expr)
    (continuation : Value Code → Turn) :
    Corresponds R (withValue host fuel scope rest e continuation)
      (withValue other fuel scope rest e continuation) := by
  refine (Run.caught_corresponds (Expr.eval_corresponds hSessions hSame fuel scope e)).bind
    fun outcome => ?_
  cases outcome with
  | ok value => exact corresponds_pure _
  | error exception => exact corresponds_pure _

theorem execute_corresponds (scope : Scope) (rest : List Pending) (statement : Stmt) :
    Corresponds R (execute host fuel scope rest statement)
      (execute other fuel scope rest statement) := by
  cases statement with
  | yield | assign | evaluate | leave | conditional =>
      exact withValue_corresponds hSessions hSame fuel scope rest _ _
  | forEach name items body =>
      have hFound := (Expr.eval_corresponds hSessions hSame fuel scope items).bind
        itemsOf_corresponds
      refine (Run.caught_corresponds hFound).bind fun outcome => ?_
      cases outcome with
      | ok items => exact corresponds_pure _
      | error exception => exact corresponds_pure _
  | loop | ensure | guarded => exact corresponds_pure _

theorem turn_corresponds (scope : Scope) (pending : List Pending) (signal : Signal) :
    Corresponds R (turn host fuel scope pending signal) (turn other fuel scope pending signal) := by
  unfold turn
  split
  case h_7 first others rest => exact execute_corresponds hSessions hSame fuel scope _ first
  case h_8 condition body rest => exact withValue_corresponds hSessions hSame fuel scope rest condition _
  case h_11 => split <;> simp
  all_goals simp

theorem advance_corresponds (scope : Scope) (pending : List Pending) (signal : Signal) :
    Corresponds R (advance host fuel scope pending signal)
      (advance other fuel scope pending signal) := by
  induction fuel generalizing scope pending signal with
  | zero => exact corresponds_throw _
  | succ fuel ih =>
      refine (turn_corresponds hSessions hSame fuel scope pending signal).bind fun turned => ?_
      cases turned with
      | go scope pending signal => exact ih scope pending signal
      | stop step => exact corresponds_pure step

theorem close_corresponds (c : Coroutine) :
    Corresponds R (c.close host fuel) (c.close other fuel) := by
  refine (Run.caught_corresponds
    (advance_corresponds hSessions hSame fuel c.scope c.pending (.raising closing))).bind
    fun outcome => ?_
  cases outcome with
  | ok step =>
      cases step with
      | returned => exact corresponds_pure ()
      | yielded => exact corresponds_raise _
  | error exception =>
      dsimp only
      split
      · exact corresponds_pure ()
      · exact corresponds_raise exception

end Coroutine

theorem Code.start_corresponds (code : Code) (args : List (Value Code)) :
    Corresponds R (code.start host fuel args) (code.start other fuel args) := by
  obtain ⟨name, parameters, body, closed⟩ := code
  refine (Code.scopeFor_corresponds _ args).bind fun scope => ?_
  cases body with
  | expression body => exact (Expr.eval_corresponds hSessions hSame fuel scope body).map _
  | statements body => exact corresponds_pure _

theorem Code.call_corresponds (code : Code) (args : List (Value Code)) :
    Corresponds R (code.call host fuel args) (code.call other fuel args) := by
  obtain ⟨name, parameters, body, closed⟩ := code
  cases body with
  | expression body =>
      exact (Code.scopeFor_corresponds _ args).bind fun scope =>
        Expr.eval_corresponds hSessions hSame fuel scope body
  | statements body => exact corresponds_giveOut hSessions.toCorresponding _

end Evaluation

theorem Code.spawn_corresponds (code : Code) (args : List (Value Code)) :
    Corresponds R (code.spawn args) (code.spawn args) := by
  obtain ⟨name, parameters, body, closed⟩ := code
  refine (Code.scopeFor_corresponds _ args).bind fun scope => ?_
  cases body with
  | expression body => exact corresponds_pure _
  | statements body => exact corresponds_pure _

theorem host_corresponds (hSessions : World.SharesHost R) (debug : Bool) (depth : Nat) :
    (Script.host debug depth).Corresponds R (Script.host debug depth) := by
  induction depth with
  | zero =>
      exact {
        debug := rfl
        call := fun _ _ => corresponds_throw _
        start := fun _ _ => corresponds_throw _
        spawn := fun _ _ => corresponds_throw _
        resume := fun _ _ => corresponds_throw _
        close := fun _ => corresponds_throw _
        literal := fun _ _ => rfl
        logged := fun _ _ => rfl }
  | succ depth ih =>
      have hSame := Interchangeable.of_corresponds hSessions.toCorresponding ih
      exact {
        debug := rfl
        call := Code.call_corresponds hSessions hSame depth
        start := Code.start_corresponds hSessions hSame depth
        spawn := Code.spawn_corresponds
        resume := fun c sent => Coroutine.advance_corresponds hSessions hSame depth _ _ _
        close := Coroutine.close_corresponds hSessions hSame depth
        literal := fun _ _ => rfl
        logged := fun _ _ => rfl }

/-- Scripts do not read the journal. -/
theorem host_ignoresJournal (debug : Bool) (depth : Nat) :
    (Script.host debug depth).IgnoresJournal :=
  fun _ => host_corresponds World.alike_sharesHost debug depth

end Script

end Backtrack
