import Backtrack.Proofs.Likeness
import Backtrack.Proofs.PublicRun
import Backtrack.Proofs.Visits
import Backtrack.Proofs.Yields
import Backtrack.Result

/-! Wrapped programs. An alternative wraps a program which the library's operations built, or one that was
written by hand. If those written by hand produce results, all that wait for results are sent some. -/

namespace Backtrack

variable {κ τ ω : Type} {root : Prop} {lacking : Bool}

def Exec.Gives {α : Type} (x : Exec κ ω α) (P : α → Prop) : Prop :=
  ∀ world a final, x world = .ok a final → P a

namespace Exec.Gives

variable {α β : Type} {P : α → Prop}

theorem pure {a : α} (hHas : P a) : (pure a : Exec κ ω α).Gives P := by
  intro world b final hEnded
  cases hEnded
  exact hHas

theorem fail (cause : Fault κ) : (fail cause : Exec κ ω α).Gives P := nofun

theorem bind (x : Exec κ ω β) {f : β → Exec κ ω α} (hGives : ∀ b, (f b).Gives P) :
    (x >>= f).Gives P := by
  intro world a final hEnded
  obtain ⟨b, next, _, hRest⟩ := Exec.bind_eq_ok.mp hEnded
  exact hGives b next a final hRest

theorem bind_of {x : Exec κ ω β} {f : β → Exec κ ω α} {Q : β → Prop} (hHas : x.Gives Q)
    (hGives : ∀ b, Q b → (f b).Gives P) : (x >>= f).Gives P := by
  intro world a final hEnded
  obtain ⟨b, next, hFirst, hRest⟩ := Exec.bind_eq_ok.mp hEnded
  exact hGives b (hHas world b next hFirst) next a final hRest

theorem map (x : Exec κ ω β) {f : β → α} (hHas : ∀ b, P (f b)) : (f <$> x).Gives P := by
  rw [map_eq_pure_bind]
  exact bind x fun b => pure (hHas b)

theorem sealed {x : Exec κ ω α} (hGives : x.Gives P) : x.sealed.Gives P :=
  fun world a final hEnded => hGives world a final (Exec.sealed_eq_ok.mp hEnded)

theorem demand {part : Except (Fault κ) α} (hHas : ∀ a, part = .ok a → P a) :
    (demand part : Exec κ ω α).Gives P :=
  fun _ a _ hEnded => hHas a (Exec.demand_eq_ok.mp hEnded).1

end Exec.Gives

/-- What an operation of the library makes of its operands. -/
inductive Recipe.Built : Recipe κ → Prop where
  | primitive {f : Mapper κ} {effect : Program κ} : f.Finishes effect → Built (.map effect f)
  | abort (failure : Value κ) : Built (.abort failure)
  | bind (p : Program κ) (f : Mapper κ) : Built (.bind p f)
  | sequence (ps : List (Program κ)) : Built (.sequence ps)
  | traverse (items : List (Value κ)) (f : Callable κ) : Built (.traverse items f)
  | altOr (first second : Program κ) : Built (.altOr first second)
  | body (f : DoFunction κ) (args : List (Value κ)) : Built (.body f args)

inductive Program.Built : Program κ → Prop where
  | result {value : Value κ} : value.isResult = true → Built (.pure value)
  | generator {mark : Mark} {r : Recipe κ} : r.Built → Built (.generator mark r)

namespace Frame

/-- What is taken up above the stack is the program of an alternative. Above an empty stack that is as the
run was begun. -/
def Awaited (root : Prop) : List (Frame κ τ) → Prop
  | [] => root
  | .relay :: below => Awaited root below
  | .bound _ :: _ | .sequenced _ _ :: _ | .traversed _ _ _ :: _ | .altLeft _ _ :: _
  | .altRight _ :: _ | .body _ _ :: _ => True
  | _ :: _ => False

theorem Awaited.imp {other : Prop} (hWeaker : root → other) {stack : List (Frame κ τ)}
    (hAwaited : Awaited root stack) : Awaited other stack := by
  induction stack with
  | nil => exact hWeaker hAwaited
  | cons frame below ih =>
      cases frame with
      | relay => exact ih hAwaited
      | bound | sequenced | traversed | altLeft | altRight | body => trivial
      | _ => cases hAwaited

inductive Holds : Frame κ τ → Prop where
  | bound (f : Mapper κ) : Holds (.bound f)
  | relay : Holds .relay
  | sequenced (rest : List (Program κ)) (collected : List (Value κ)) : Holds (.sequenced rest collected)
  | traversed (rest : List (Value κ)) (f : Callable κ) (collected : List (Value κ)) :
      Holds (.traversed rest f collected)
  | altLeft (second : Program κ) (snapshot : Value κ) : Holds (.altLeft second snapshot)
  | altRight (left : Value κ) : Holds (.altRight left)
  | body (name : Option String) (t : τ) : Holds (.body name t)

inductive AsksFor : Frame κ τ → Program κ → Prop where
  | primitive {f : Mapper κ} {effect : Program κ} : f.Finishes effect → AsksFor (.mapped f) effect
  | abort (failure : Value κ) : AsksFor (.aborting failure) (.modify .raiseFlag)
  | snapshot (first second : Program κ) : AsksFor (.altSnapshot first second) .get
  | reread (second : Program κ) (snapshot failure : Value κ) :
      AsksFor (.altFlag second snapshot (.err failure)) .get
  | restore (second : Program κ) (snapshot left : Value κ) :
      AsksFor (.altRestored second left) (.put snapshot)

inductive Fed : Frame κ τ → Value κ → Prop where
  | fresh {r : Recipe κ} : r.Built → Fed (.fresh r) .null
  | holding {frame : Frame κ τ} {result : Value κ} : frame.Holds → result.isResult = true →
      Fed frame result
  | asked {frame : Frame κ τ} {effect : Program κ} (answer : Value κ) : frame.AsksFor effect →
      Fed frame answer

theorem Holds.awaited {frame : Frame κ τ} (hHolds : frame.Holds) {stack : List (Frame κ τ)}
    (hAwaited : Awaited root stack) : Awaited root (frame :: stack) := by
  cases hHolds with
  | relay => exact hAwaited
  | _ => trivial

end Frame

inductive Step.Typed : Step κ (Frame κ τ) → Prop where
  | result {value : Value κ} : value.isResult = true → Typed (.returned value)
  | asks {q : Program κ} {rest : Frame κ τ} : rest.AsksFor q →
      Typed (.yielded (.program q) rest)
  | operand {q : Program κ} {rest : Frame κ τ} : rest.Holds →
      Typed (.yielded (.program q) rest)

namespace Frame

theorem yieldAlternative_typed (role : OperandRole) {rest : Frame κ τ} (hHolds : rest.Holds)
    (value : Value κ) :
    (yieldAlternative role rest value : Exec κ ω _).Gives (Step.Typed) := by
  cases value with
  | alternative mark p => exact .pure (.operand hHolds)
  | _ => exact .fail _

theorem sequenceNext_typed (collected : List (Value κ)) (ps : List (Program κ)) :
    (sequenceNext collected ps : Exec κ ω (Step κ (Frame κ τ))).Gives (Step.Typed) := by
  cases ps with
  | nil => exact .pure (.result rfl)
  | cons p rest => exact .pure (.operand (.sequenced rest collected))

theorem joinFailures_isResult {left right joined : Value κ}
    (hJoins : joinFailures left right = .ok joined) : joined.isResult = true := by
  unfold joinFailures at hJoins
  simp only [bind, Except.bind] at hJoins
  split at hJoins
  · cases hJoins
  split at hJoins
  · split at hJoins
    · cases hJoins
    split at hJoins
    · cases hJoins
    · cases hJoins
      rfl
  · cases hJoins

section Resume

variable (host : Host κ τ ω lacking)

theorem traverseNext_typed (f : Callable κ) (collected items : List (Value κ)) :
    (traverseNext host f collected items).Gives (Step.Typed) := by
  cases items with
  | nil => exact .pure (.result rfl)
  | cons item rest => exact .bind _ (yieldAlternative_typed _ (.traversed rest f collected))

theorem bodyNext_typed (name : Option String) (next : Step κ τ) :
    (bodyNext host name next).Gives (Step.Typed) := by
  cases next with
  | returned value => exact .pure (.result rfl)
  | yielded value rest =>
      cases value with
      | alternative mark p => exact .pure (.operand (.body name rest))
      | _ => exact .bind _ fun _ => .fail _

theorem begin_typed {r : Recipe κ} (hBuilt : r.Built) :
    (begin host r).Gives (Step.Typed) := by
  cases hBuilt with
  | primitive hFinishes => exact .pure (.asks (.primitive hFinishes))
  | abort failure => exact .pure (.asks (.abort failure))
  | bind p f => exact .pure (.operand (.bound f))
  | sequence ps => exact sequenceNext_typed [] ps
  | traverse items f => exact traverseNext_typed host f [] items
  | altOr first second => exact .pure (.asks (.snapshot first second))
  | body f args =>
      refine .bind _ fun started => ?_
      cases started with
      | value value => exact .pure (.result rfl)
      | coroutine t => exact .bind _ (bodyNext_typed host f.name)

theorem resume_holding_typed {frame : Frame κ τ} {result : Value κ} (hHolds : frame.Holds)
    (hResult : result.isResult = true) :
    (frame.resume host result).Gives (Step.Typed) := by
  cases result with
  | ok value =>
      cases hHolds with
      | bound f =>
          exact .bind _ fun value => .bind _ (yieldAlternative_typed _ .relay)
      | relay | altLeft | altRight => exact .pure (.result rfl)
      | sequenced rest collected => exact .bind _ fun value => sequenceNext_typed _ rest
      | traversed rest f collected => exact .bind _ fun value => traverseNext_typed host f _ rest
      | body name t => exact .bind _ (bodyNext_typed host name)
  | err failure =>
      cases hHolds with
      | bound | relay | sequenced | traversed => exact .pure (.result rfl)
      | altLeft second snapshot => exact .pure (.asks (.reread second snapshot failure))
      | altRight left =>
          refine .bind_of (.demand fun joined => joinFailures_isResult) fun joined hResult => ?_
          exact .pure (.result hResult)
      | body name t => exact .bind _ fun _ => .pure (.result rfl)
  | _ => cases hResult

theorem finishes_isResult {f : Mapper κ} {effect : Program κ} (hFinishes : f.Finishes effect)
    (answer : Value κ) : (host.applyMapper f answer).Gives (·.isResult = true) := by
  cases hFinishes with
  | error | modify => exact .pure rfl
  | attempt thunk classes =>
      exact fun _ _ _ hEnded => (guarded_isPrimitive hEnded).isResult.isResult
  | get => exact .map _ fun _ => rfl

theorem resume_asked_typed {frame : Frame κ τ} {effect : Program κ} {answer : Value κ}
    (hAsks : frame.AsksFor effect) :
    (frame.resume host answer).Gives (Step.Typed) := by
  cases hAsks with
  | primitive hFinishes =>
      refine .bind_of (finishes_isResult host hFinishes answer).sealed fun result hResult => ?_
      exact .pure (.result hResult)
  | abort failure => exact .pure (.result rfl)
  | snapshot first second => exact .pure (.operand (.altLeft second answer))
  | reread second snapshot failure =>
      refine .bind _ fun ⟨user, aborted⟩ => ?_
      dsimp only
      split
      · exact .bind _ fun _ => .pure (.result rfl)
      · exact .bind _ fun _ => .pure (.asks (.restore second snapshot _))
  | restore second snapshot left => exact .pure (.operand (.altRight left))

theorem Fed.resume_typed {frame : Frame κ τ} {sent : Value κ} (hFed : frame.Fed sent) :
    (frame.resume host sent).Gives (Step.Typed) := by
  cases hFed with
  | fresh hBuilt => exact begin_typed host hBuilt
  | holding hHolds hResult => exact resume_holding_typed host hHolds hResult
  | asked answer hAsks => exact resume_asked_typed host hAsks

end Resume

end Frame

/-- A program that is taken up where a result is awaited, and that no operation of the library built,
produces a result. -/
def Machine.WrapsResult (root : Prop) (host : Host κ τ ω lacking) (m : Machine κ τ) (now : World ω) : Prop :=
  ∀ q, m.mode = .take q → Frame.Awaited root m.stack → ¬ q.Built →
    ∀ value state cost final,
      Evaluates host (.program q) m.state now (.returned value state cost) final →
        value.isResult = true

def Program.WrapsResults (root : Prop) (host : Host κ τ ω lacking) (p : Program κ) (initial : Value κ)
    (world : World ω) : Prop :=
  ∀ count m now, Machine.Reaches host count (Machine.start p initial) world m now →
    m.WrapsResult root host now

theorem Program.WrapsResults.imp {other : Prop} (hStronger : other → root) {host : Host κ τ ω lacking}
    {p : Program κ} {initial : Value κ} {world : World ω}
    (hWraps : p.WrapsResults root host initial world) : p.WrapsResults other host initial world :=
  fun count m now hReaches q hTaken hAwaited => hWraps count m now hReaches q hTaken (hAwaited.imp hStronger)

section Wraps

open Machine

variable {host : Host κ τ ω lacking} {p q : Program κ} {initial state value after : Value κ}
  {activity : Activity κ τ} {world now final : World ω} {stack : List (Frame κ τ)}
  {steps count cost : Nat}

def Activity.Typed : Activity κ τ → Prop
  | .program _ => True
  | .generator frame sent => frame.Fed sent

theorem Program.WrapsResults.isResult (hWraps : p.WrapsResults root host initial world)
    (hReaches : Reaches host count (start p initial) world (activity.load state stack steps) now)
    (hAwaited : Frame.Awaited root stack) (hTyped : activity.Typed)
    (hEvaluates : Evaluates host activity state now (.returned value after cost) final) :
    value.isResult = true := by
  generalize hEnded : Ending.returned value after cost = ending at hEvaluates
  -- A program that was written by hand is covered as a whole, whatever it yields.
  induction hEvaluates generalizing value after cost stack steps count with
  | @pure produced =>
      cases hEnded
      by_cases hResult : produced.isResult = true
      · exact hResult
      · exact hWraps _ _ _ hReaches _ rfl hAwaited (fun (.result hGiven) => hResult hGiven) _ _ _ _ .pure
  | get =>
      cases hEnded
      exact hWraps _ _ _ hReaches _ rfl hAwaited nofun _ _ _ _ .get
  | put =>
      cases hEnded
      exact hWraps _ _ _ hReaches _ rfl hAwaited nofun _ _ _ _ .put
  | modify hApplied =>
      cases hEnded
      exact hWraps _ _ _ hReaches _ rfl hAwaited nofun _ _ _ _ (.modify hApplied)
  | @generator mark r _ _ ending _ hBegan ih =>
      cases ending with
      | returned result last spent =>
          cases hEnded
          by_cases hBuilt : r.Built
          · exact ih (hReaches.trans (.step rfl (.here _ _))) hAwaited (.fresh hBuilt) rfl
          · exact hWraps _ _ _ hReaches _ rfl hAwaited (fun (.generator hGiven) => hBuilt hGiven) _ _ _ _
              (.generator hBegan)
      | raised | replaced => cases hEnded
  | returned hResumed =>
      cases hEnded
      cases hTyped.resume_typed host _ _ _ hResumed with
      | result hResult => exact hResult
  | @yielded _ rest _ _ _ _ _ _ _ _ spent ending _ hResumed hEvaluates hContinues ihProgram ihRest =>
      cases ending with
      | returned result last more =>
          cases hEnded
          have hTaken := hReaches.trans (.step (step_of_yielded hResumed) (.here _ _))
          obtain ⟨_, hToValue⟩ := reaches_of_evaluates hEvaluates (rest :: stack) steps
          have hResumes := hTaken.trans hToValue
          cases hTyped.resume_typed host _ _ _ hResumed with
          | asks hAsks => exact ihRest hResumes hAwaited (.asked _ hAsks) rfl
          | operand hHolds =>
              have hResult := ihProgram hTaken (hHolds.awaited hAwaited) trivial rfl
              exact ihRest hResumes hAwaited (.holding hHolds hResult) rfl
      | raised | replaced => cases hEnded
  | _ => cases hEnded

theorem Program.WrapsResults.isResult_of_take (hWraps : p.WrapsResults root host initial world)
    (hReaches : Reaches host count (start p initial) world ⟨.take q, state, stack, steps⟩ now)
    (hAwaited : Frame.Awaited root stack)
    (hEvaluates : Evaluates host (.program q) state now (.returned value after cost) final) :
    value.isResult = true := by
  have hLoaded : Reaches host count (start p initial) world
      ((Activity.program q).load state stack steps) now := hReaches
  exact hWraps.isResult hLoaded hAwaited trivial hEvaluates

end Wraps

def Frame.KeepsFailure : Frame κ τ → Prop
  | .altFlag _ _ left => left.isErr = true
  | _ => True

def Step.KeepsFailure : Step κ (Frame κ τ) → Prop
  | .yielded _ rest => rest.KeepsFailure
  | .returned _ => True

namespace Frame

variable (host : Host κ τ ω lacking)

def SentResult : Frame κ τ → Value κ → Prop
  | .altLeft _ _, sent => sent.isResult = true
  | _, _ => True

theorem resume_keepsFailure {frame : Frame κ τ} {sent : Value κ}
    (hSentResult : frame.SentResult sent) :
    (frame.resume host sent).Gives Step.KeepsFailure := by
  intro world step final hResumed
  cases step with
  | returned value => trivial
  | yielded value rest =>
      cases yields_of_resume hResumed with
      | altLeft second snapshot sent hFails =>
          cases sent with
          | ok success => exact absurd rfl (hFails success)
          | err failure => rfl
          | _ => cases hSentResult
      | _ => trivial

end Frame

def Activity.SentResult : Activity κ τ → Prop
  | .program _ => True
  | .generator frame sent => frame.SentResult sent

section Kept

open Machine

variable {host : Host κ τ ω lacking} {p q : Program κ} {initial state seen : Value κ}
  {activity : Activity κ τ} {world now final : World ω} {frame : Frame κ τ}
  {stack waiting : List (Frame κ τ)} {steps count : Nat} {m : Machine κ τ}

theorem Program.WrapsResults.visits_keepsFailure (hWraps : p.WrapsResults root host initial world)
    (hReaches : Reaches host count (start p initial) world (activity.load state stack steps) now)
    (hSentResult : activity.SentResult)
    (hVisits : Visits host q seen final activity state now waiting)
    (hTop : waiting.head? = some frame) : frame.KeepsFailure := by
  induction hVisits generalizing stack steps count with
  | here => cases hTop
  | generator _ ih => exact ih (hReaches.trans (.step rfl (.here _ _))) trivial hTop
  | @inside _ rest _ _ _ _ _ waiting hResumed _ ih =>
      cases waiting with
      | nil =>
          cases hTop
          exact Frame.resume_keepsFailure host hSentResult _ _ _ hResumed
      | cons above others =>
          exact ih (hReaches.trans (.step (step_of_yielded hResumed) (.here _ _))) trivial hTop
  | @later _ rest _ _ _ _ _ _ _ _ _ _ hResumed hEvaluates _ ih =>
      have hTaken := hReaches.trans (.step (step_of_yielded hResumed) (.here _ _))
      obtain ⟨_, hToValue⟩ := reaches_of_evaluates hEvaluates (rest :: stack) steps
      refine ih (hTaken.trans hToValue) ?_ hTop
      cases rest with
      | altLeft second snapshot => exact hWraps.isResult_of_take hTaken trivial hEvaluates
      | _ => trivial

theorem Program.WrapsResults.stack_keepsFailure (hWraps : p.WrapsResults root host initial world)
    (hReaches : Reaches host count (start p initial) world m now) :
    ∀ frame ∈ m.stack, frame.KeepsFailure := by
  refine hReaches.invariant (fun m _ => ∀ frame ∈ m.stack, frame.KeepsFailure)
    (fun count next after last final hReaches hStepped hKeeps => ?_)
    (List.forall_mem_nil _)
  have hOnward := hReaches.trans (.step hStepped (.here _ _))
  obtain ⟨mode, state, stack, steps⟩ := last
  refine forall_stack_of_step hKeeps hStepped (fun _ _ _ => trivial) ?_
  intro sent top below q rest _ _ hTaken hLeft _
  cases hTaken
  cases hLeft
  have hVisits := exists_reaches_take_iff.mp ⟨_, _, hOnward⟩
  have hLoaded : Reaches host 0 (start p initial) world
      ((Activity.program p).load initial [] 0) world := .here _ _
  exact hWraps.visits_keepsFailure hLoaded trivial hVisits rfl

end Kept

end Backtrack
