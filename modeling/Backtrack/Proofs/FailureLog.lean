import Backtrack.Proofs.Failing
import Backtrack.Proofs.TrialOrder

/-! What a tree of failures records. The failures of the primitive alternatives of a run form a log. The
failure on its way out and the ones that alternations keep for their trees are always some of that log,
in its order and each at most once, and the one on its way was the last to be logged. -/

namespace Backtrack

variable {κ τ ω : Type} {flag : Bool}

/-- The values that a tree of failures records, in trial order. -/
def Value.recorded (failure : Value κ) : List (Value κ) :=
  match failure.toTree with
  | .ok recording => recording.values
  | .error _ => []

@[simp] theorem Value.recorded_ofTree (tree : ErrorTree (Value κ)) :
    (ofTree tree).recorded = tree.values := by
  simp [recorded]

namespace Frame

/-- The failures of the primitive alternative that a generator is, when it returns. -/
def logs : Frame κ τ → Value κ → List (Value κ)
  | mapped _, .err failure => failure.recorded
  | aborting reason, _ => [reason]
  | _, _ => []

/-- The failure of a left operand that a generator keeps for its tree. -/
def kept : Frame κ τ → List (Value κ)
  | altRestored _ (.err left) => [left]
  | altRight (.err left) => [left]
  | _ => []

/-- The failure that is on its way out when a generator is sent a value. An effect may well answer with a
failure, which is no failure of the run. -/
def carried : Frame κ τ → Value κ → List (Value κ)
  | mapped _, _ | aborting _, _ | altSnapshot _ _, _ | altRestored _ _, _ => []
  | altFlag _ _ (.err left), _ => [left]
  | _, .err failure => [failure]
  | _, _ => []

def asks : Frame κ τ → List (Value κ)
  | altFlag _ _ (.err left) => [left]
  | _ => []

/-- The failures that the generators of a stack keep, those of the outermost first. -/
def keptBy : List (Frame κ τ) → List (Value κ)
  | [] => []
  | frame :: below => keptBy below ++ frame.kept

end Frame

namespace Step

def logs (frame : Frame κ τ) : Step κ (Frame κ τ) → List (Value κ)
  | returned value => frame.logs value
  | yielded _ _ => []

def kept : Step κ (Frame κ τ) → List (Value κ)
  | returned _ => []
  | yielded _ rest => rest.kept

def carried : Step κ (Frame κ τ) → List (Value κ)
  | returned (.err failure) => [failure]
  | returned _ => []
  | yielded _ rest => rest.asks

end Step

namespace Machine

/-- The failures of primitive alternatives in a step to the next machine: what `error` and `abort` fail
with, the text of a failing attempt, the record of a failure that is lifted. -/
def logs (m next : Machine κ τ) : List (Value κ) :=
  match m.mode, m.stack, next.mode with
  | .take (.pure (.err _)), .mapped .recordFailure :: _, _ => []
  | .take (.pure (.err failure)), _, _ => failure.recorded
  | .deliver _, frame :: _, .deliver value => frame.logs value
  | _, _, _ => []

/-- The failures of the primitive alternatives of a run, in the order in which they happen. -/
def log (host : Host κ τ ω) : Nat → Machine κ τ → World ω → List (Value κ)
  | 0, _, _ => []
  | fuel + 1, m, world =>
      match m.step host world with
      | .ok (.inl next) after => m.logs next ++ log host fuel next after
      | _ => []

def carried (m : Machine κ τ) : List (Value κ) :=
  match m.mode, m.stack with
  | .deliver value, frame :: _ => frame.carried value
  | .deliver (.err failure), [] => [failure]
  | .take _, frame :: _ => frame.asks
  | _, _ => []

end Machine

/-- The failures lifted in the run hold trees all of whose descendants are trees. -/
def Program.LiftsTrees (host : Host κ τ ω) (p : Program κ) (state : Value κ) (world : World ω) :
    Prop :=
  ∀ count m final failure, Machine.Reaches host count (Machine.start p state) world m final →
    m.mode = .take (.pure (.err failure)) →
    (∀ below, m.stack ≠ .mapped .recordFailure :: below) → ∃ tree, failure = .ofTree tree

/-- How the failures that are kept, and the one on its way, change while others are logged. -/
inductive Passes : List (Value κ) → List (Value κ) → List (Value κ) → List (Value κ) →
    List (Value κ) → Prop where
  | onward (kept carried) : Passes kept carried [] kept carried
  | failed (kept) (tree : ErrorTree (Value κ)) :
      Passes kept [] tree.values kept [.ofTree tree]
  | dropped (kept left) : Passes (kept ++ left) [] [] kept []
  | retained (kept left) : Passes kept [left] [] (kept ++ [left]) []
  | joined (kept value children right) :
      Passes (kept ++ [.tree value children]) [right] [] kept [.tree value (children ++ [right])]

/-- The failures are trees that record some of the log, in its order, and the one on its way ends with
the last of it. -/
def Accounts (kept carried log : List (Value κ)) : Prop :=
  ∃ trees own, kept = Value.ofTrees trees ∧ carried = Value.ofTrees own ∧
    List.Sublist ((trees ++ own).flatMap ErrorTree.values) log ∧
    ∀ tree ∈ own, tree.values.getLast? = log.getLast?

theorem Passes.under {kept carried fresh held sent : List (Value κ)}
    (hPasses : Passes kept carried fresh held sent) (outer : List (Value κ)) :
    Passes (outer ++ kept) carried fresh (outer ++ held) sent := by
  cases hPasses with
  | onward => exact .onward (outer ++ kept) carried
  | failed _ tree => exact .failed (outer ++ kept) tree
  | dropped kept left =>
      rw [← List.append_assoc]
      exact .dropped (outer ++ held) left
  | retained kept left =>
      rw [← List.append_assoc]
      exact .retained (outer ++ kept) left
  | joined kept value children right =>
      rw [← List.append_assoc]
      exact .joined (outer ++ held) value children right

theorem Value.ofTrees_eq_append {trees : List (ErrorTree (Value κ))} {first second : List (Value κ)}
    (hSame : first ++ second = ofTrees trees) :
    ∃ former latter, trees = former ++ latter ∧ first = ofTrees former ∧
      second = ofTrees latter := by
  induction first generalizing trees with
  | nil => exact ⟨[], trees, rfl, rfl, hSame⟩
  | cons head rest ih =>
      cases trees with
      | nil => cases hSame
      | cons tree others =>
          obtain ⟨rfl, hRest⟩ := List.cons_eq_cons.mp hSame
          obtain ⟨former, latter, rfl, rfl, rfl⟩ := ih hRest
          exact ⟨tree :: former, latter, rfl, rfl, rfl⟩

theorem Value.ofTrees_eq_singleton {trees : List (ErrorTree (Value κ))} {value : Value κ}
    (hSame : [value] = ofTrees trees) : ∃ tree, trees = [tree] ∧ value = ofTree tree := by
  cases trees with
  | nil => cases hSame
  | cons tree others =>
      cases others with
      | nil =>
          cases hSame
          exact ⟨tree, rfl, rfl⟩
      | cons second others => cases hSame

theorem Accounts.passes {kept carried log fresh held sent : List (Value κ)}
    (hAccounts : Accounts kept carried log) (hPasses : Passes kept carried fresh held sent) :
    Accounts held sent (log ++ fresh) := by
  obtain ⟨trees, own, hKeptTrees, hCarriedTrees, hOrdered, hLast⟩ := hAccounts
  cases hPasses with
  | onward =>
      rw [List.append_nil]
      exact ⟨trees, own, hKeptTrees, hCarriedTrees, hOrdered, hLast⟩
  | failed _ tree =>
      cases own with
      | cons => cases hCarriedTrees
      | nil =>
          refine ⟨trees, [tree], hKeptTrees, rfl, ?_, ?_⟩
          · simpa using hOrdered
          · simp [List.getLast?_append, List.getLast?_eq_some_getLast tree.values_ne_nil]
  | dropped kept left =>
      obtain ⟨former, latter, rfl, rfl, _⟩ := Value.ofTrees_eq_append hKeptTrees
      refine ⟨former, [], rfl, rfl, ?_, nofun⟩
      simp only [List.flatMap_append, List.append_assoc, List.append_nil] at hOrdered ⊢
      exact (List.sublist_append_left _ _).trans hOrdered
  | retained kept left =>
      obtain ⟨tree, rfl, rfl⟩ := Value.ofTrees_eq_singleton hCarriedTrees
      refine ⟨trees ++ [tree], [], ?_, rfl, ?_, nofun⟩
      · rw [hKeptTrees, Value.ofTrees_append]
        rfl
      · simpa using hOrdered
  | joined kept value children right =>
      obtain ⟨tree, rfl, rfl⟩ := Value.ofTrees_eq_singleton hCarriedTrees
      obtain ⟨former, latter, rfl, rfl, hSingle⟩ := Value.ofTrees_eq_append hKeptTrees
      obtain ⟨left, rfl, hSame⟩ := Value.ofTrees_eq_singleton hSingle
      obtain ⟨root, branches⟩ := left
      obtain ⟨rfl, rfl⟩ := Value.tree.inj hSame
      refine ⟨former, [(ErrorTree.node value branches).withChild tree], rfl, ?_, ?_, ?_⟩
      · simp [Value.ofTrees, Value.ofTree_withChild]
      · simpa [-ErrorTree.values_node] using hOrdered
      · have hEnds := hLast tree (by simp)
        simp [-ErrorTree.values_node, List.getLast?_append, ← hEnds,
          List.getLast?_eq_some_getLast tree.values_ne_nil]

namespace Frame

variable {host : Host κ τ ω} {frame : Frame κ τ} {user sent value : Value κ}
  {step : Step κ (Frame κ τ)} {world final : World ω}

/-- Neither is a failure kept by the step, nor is one on its way after it. -/
inductive Idles : Step κ (Frame κ τ) → Prop where
  | succeeded (value : Value κ) : Idles (.returned (.ok value))
  | yielded {value : Value κ} {rest : Frame κ τ} :
      rest.kept = [] → rest.asks = [] → Idles (.yielded value rest)

theorem Idles.passes (hIdles : Idles step) (hQuiet : frame.carried sent = [])
    (hPlain : ∀ value, step = .returned (.ok value) → frame.logs (.ok value) = []) :
    Passes frame.kept (frame.carried sent) (step.logs frame) step.kept step.carried := by
  rw [hQuiet]
  cases hIdles with
  | succeeded value =>
      show Passes frame.kept [] (frame.logs (.ok value)) [] []
      rw [hPlain value rfl]
      exact .dropped [] frame.kept
  | @yielded value rest hUnkept hUnasked =>
      show Passes frame.kept [] [] rest.kept rest.asks
      rw [hUnkept, hUnasked]
      exact .dropped [] frame.kept

theorem sequenceNext_idles {collected : List (Value κ)} {ps : List (Program κ)}
    (hResumed : sequenceNext collected ps world = .ok step final) : Idles step := by
  cases ps with
  | nil =>
      cases hResumed
      exact .succeeded _
  | cons p rest =>
      cases hResumed
      exact .yielded rfl rfl

theorem yieldAlternative_idles {role : OperandRole} {rest : Frame κ τ} (hUnkept : rest.kept = [])
    (hUnasked : rest.asks = [])
    (hResumed : yieldAlternative role rest value world = .ok step final) : Idles step := by
  cases value with
  | alternative mark p =>
      cases hResumed
      exact .yielded hUnkept hUnasked
  | _ => cases hResumed

theorem traverseNext_idles {f : Callable κ} {collected items : List (Value κ)}
    (hResumed : traverseNext host f collected items world = .ok step final) : Idles step := by
  cases items with
  | nil =>
      cases hResumed
      exact .succeeded _
  | cons item rest =>
      obtain ⟨produced, _, _, hYielded⟩ := Exec.bind_eq_ok.mp hResumed
      exact yieldAlternative_idles rfl rfl hYielded

theorem bodyNext_idles {name : Option String} {next : Step κ τ}
    (hResumed : bodyNext host name next world = .ok step final) : Idles step := by
  cases next with
  | returned value =>
      cases hResumed
      exact .succeeded value
  | yielded value rest =>
      cases value with
      | alternative mark p =>
          cases hResumed
          exact .yielded rfl rfl
      | _ =>
          obtain ⟨_, _, _, hFailed⟩ := Exec.bind_eq_ok.mp hResumed
          cases hFailed

theorem begin_idles {r : Recipe κ} (hPublic : r.Public)
    (hResumed : begin host r world = .ok step final) : Idles step := by
  cases hPublic with
  | primitive hFinishes =>
      cases hResumed
      exact .yielded rfl rfl
  | abort failure =>
      cases hResumed
      exact .yielded rfl rfl
  | bind hPublic hContinues =>
      cases hResumed
      exact .yielded rfl rfl
  | sequence hAllPublic => exact sequenceNext_idles hResumed
  | traverse items f => exact traverseNext_idles hResumed
  | altOr hFirstPublic hSecondPublic =>
      cases hResumed
      exact .yielded rfl rfl
  | body f args =>
      obtain ⟨started, _, _, hContinued⟩ := Exec.bind_eq_ok.mp hResumed
      cases started with
      | value value =>
          cases hContinued
          exact .succeeded value
      | coroutine t =>
          obtain ⟨next, _, _, hProceeded⟩ := Exec.bind_eq_ok.mp hContinued
          exact bodyNext_idles hProceeded

theorem Waits.idles_on_success (hWaits : frame.Waits flag)
    (hResumed : frame.resume host (.ok value) world = .ok step final) : Idles step := by
  cases hWaits with
  | bound hContinues =>
      obtain ⟨_, _, _, hApplied⟩ := Exec.bind_eq_ok.mp hResumed
      obtain ⟨_, _, _, hYielded⟩ := Exec.bind_eq_ok.mp hApplied
      exact yieldAlternative_idles rfl rfl hYielded
  | sequenced collected hAllPublic => exact sequenceNext_idles hResumed
  | traversed rest f collected => exact traverseNext_idles hResumed
  | body name t =>
      obtain ⟨next, _, _, hProceeded⟩ := Exec.bind_eq_ok.mp hResumed
      exact bodyNext_idles hProceeded
  | relay | altLeft | altRight =>
      cases hResumed
      exact .succeeded value

theorem Waits.passes_failure (hWaits : frame.Waits flag) {failure : Value κ}
    (hResult : (Value.err failure).IsResult)
    (hResumed : frame.resume host (.err failure) world = .ok step final) :
    Passes frame.kept [failure] (step.logs frame) step.kept step.carried := by
  cases hWaits with
  | altRight value children hClear =>
      cases hResult
      cases hResumed
      exact .joined [] value children _
  | body name t =>
      obtain ⟨_, _, _, hFinished⟩ := Exec.bind_eq_ok.mp hResumed
      cases hFinished
      exact .onward [] [failure]
  | bound | relay | sequenced | traversed | altLeft =>
      cases hResumed
      exact .onward [] [failure]

theorem Waits.quiet_on_success (hWaits : frame.Waits flag) : frame.carried (.ok value) = [] := by
  cases hWaits <;> rfl

theorem Waits.logs_eq_nil (hWaits : frame.Waits flag) : frame.logs value = [] := by
  cases hWaits <;> rfl

theorem Waits.passes (hWaits : frame.Waits flag) (hResult : sent.IsResult)
    (hResumed : frame.resume host sent world = .ok step final) :
    Passes frame.kept (frame.carried sent) (step.logs frame) step.kept step.carried := by
  cases hResult with
  | success value =>
      exact (hWaits.idles_on_success hResumed).passes hWaits.quiet_on_success
        fun _ _ => hWaits.logs_eq_nil
  | failure value children =>
      have hCarries : frame.carried (.err (.tree value children)) = [.tree value children] := by
        cases hWaits <;> rfl
      rw [hCarries]
      exact hWaits.passes_failure (.failure value children) hResumed

theorem Asks.passes {effect : Program κ} (hAsks : frame.Asks flag effect)
    (hLasting : effect ≠ .modify .raiseFlag)
    (hAnswered : effect = .get → sent = .pair user (.bool flag))
    (hResumed : frame.resume host sent world = .ok step final) :
    Passes frame.kept (frame.carried sent) (step.logs frame) step.kept step.carried := by
  cases hAsks with
  | primitive hFinishes =>
      obtain ⟨result, hPrimitive, rfl⟩ := resume_mapped_isPrimitive hFinishes hAnswered hResumed
      cases hPrimitive with
      | success value => exact .onward [] []
      | failure reason =>
          have hFailed := Passes.failed [] (ErrorTree.leaf reason)
          rw [← Value.recorded_ofTree, Value.ofTree_leaf] at hFailed
          exact hFailed
  | abort failure => exact absurd rfl hLasting
  | snapshot hFirstPublic hSecondPublic =>
      cases hResumed
      exact .onward [] []
  | reread kept value children hPublic =>
      rw [hAnswered rfl] at hResumed
      cases flag with
      | true =>
          rw [resume_altFlag_set] at hResumed
          cases hResumed
          exact .onward [] [.tree value children]
      | false =>
          rw [resume_altFlag_clear] at hResumed
          cases hResumed
          exact .retained [] (.tree value children)
  | restore kept value children hPublic hClear =>
      cases hResumed
      exact .onward [.tree value children] []

theorem Ready.passes (hReady : frame.Ready flag user sent)
    (hResumed : frame.resume host sent world = .ok step final) :
    Passes frame.kept (frame.carried sent) (step.logs frame) step.kept step.carried := by
  cases hReady with
  | fresh hPublic => exact (begin_idles hPublic hResumed).passes rfl fun _ _ => rfl
  | waiting hWaits hResult => exact hWaits.passes hResult hResumed
  | asked hAsks hLasting hAnswered => exact hAsks.passes hLasting hAnswered hResumed

end Frame

namespace Machine

variable {host : Host κ τ ω} {m next : Machine κ τ} {user sent final : Value κ}
  {frame : Frame κ τ} {below : List (Frame κ τ)} {world after : World ω}

/-- The step keeps the account of the failures. -/
def PassesTo (m next : Machine κ τ) : Prop :=
  Passes (Frame.keptBy m.stack) m.carried (m.logs next) (Frame.keptBy next.stack) next.carried

theorem carried_of_returned (hWaits : ∀ frame ∈ below, frame.Waits flag) (value state : Value κ)
    (steps : Nat) :
    (⟨.deliver value, state, below, steps⟩ : Machine κ τ).carried =
      (Step.returned value : Step κ (Frame κ τ)).carried := by
  cases below with
  | nil => cases value <;> rfl
  | cons frame rest =>
      cases (List.forall_mem_cons.mp hWaits).1 <;> cases value <;> rfl

theorem passesTo_of_resume {state : Value κ} {steps : Nat}
    (hWaits : ∀ frame ∈ below, frame.Waits flag)
    (hPasses : ∀ step, frame.resume host sent world = .ok step after →
      Passes frame.kept (frame.carried sent) (step.logs frame) step.kept step.carried)
    (hStepped : (⟨.deliver sent, state, frame :: below, steps⟩ : Machine κ τ).step host world =
      .ok (.inl next) after) :
    (⟨.deliver sent, state, frame :: below, steps⟩ : Machine κ τ).PassesTo next := by
  rcases step_deliver_cases hStepped with ⟨value, hResumed, ⟨⟩⟩ | ⟨q, rest, hResumed, ⟨⟩⟩
  · have hAccount := (hPasses _ hResumed).under (Frame.keptBy below)
    rw [← carried_of_returned hWaits value state steps, Step.kept, List.append_nil] at hAccount
    exact hAccount
  · exact (hPasses _ hResumed).under (Frame.keptBy below)

theorem passesTo_of_asks {effect : Program κ} {steps : Nat} (hAsks : frame.Asks flag effect)
    (hStepped : (⟨.take effect, .pair user (.bool flag), frame :: below, steps⟩ :
      Machine κ τ).step host world = .ok (.inl next) after) :
    (⟨.take effect, .pair user (.bool flag), frame :: below, steps⟩ :
      Machine κ τ).PassesTo next := by
  cases hAsks with
  | primitive hFinishes =>
      cases hFinishes with
      | error failure =>
          cases hStepped
          cases failure <;> exact .onward _ []
      | attempt thunk classes | get =>
          cases hStepped
          exact .onward _ []
      | modify f =>
          obtain ⟨_, _, ⟨⟩⟩ := step_modify_cases hStepped
          exact .onward _ []
  | abort failure | snapshot | restore =>
      cases hStepped
      exact .onward _ []
  | reread kept value children hPublic =>
      cases hStepped
      exact .onward _ [.tree value children]

theorem carried_of_take (hWaits : ∀ frame ∈ below, frame.Waits flag) (q : Program κ)
    (state : Value κ) (steps : Nat) :
    (⟨.take q, state, below, steps⟩ : Machine κ τ).carried = [] := by
  cases below with
  | nil => rfl
  | cons frame rest => cases (List.forall_mem_cons.mp hWaits).1 <;> rfl

theorem passesTo_of_public {q : Program κ} {steps : Nat} (hPublic : q.Public)
    (hWaits : ∀ frame ∈ below, frame.Waits flag)
    (hLifts : ∀ failure, q = .pure (.err failure) → ∃ tree, failure = .ofTree tree)
    (hStepped : (⟨.take q, .pair user (.bool flag), below, steps⟩ : Machine κ τ).step host world =
      .ok (.inl next) after) :
    (⟨.take q, .pair user (.bool flag), below, steps⟩ : Machine κ τ).PassesTo next := by
  unfold PassesTo
  rw [carried_of_take hWaits]
  cases hPublic with
  | generator hRecipePublic =>
      cases hStepped
      show Passes (Frame.keptBy below) [] [] (Frame.keptBy below ++ []) []
      rw [List.append_nil]
      exact .onward _ []
  | result hResult =>
      cases hStepped
      rw [carried_of_returned hWaits]
      cases hResult with
      | success value => exact .onward _ []
      | failure value children =>
          obtain ⟨tree, hSame⟩ := hLifts _ rfl
          have hLogged : (⟨.take (.pure (.err (.tree value children))), .pair user (.bool flag),
              below, steps⟩ : Machine κ τ).logs ⟨.deliver (.err (.tree value children)),
                .pair user (.bool flag), below, steps + 1⟩ = tree.values := by
            rw [← Value.recorded_ofTree, ← hSame]
            cases below with
            | nil => rfl
            | cons frame rest => cases (List.forall_mem_cons.mp hWaits).1 <;> rfl
          rw [hLogged, hSame]
          exact .failed _ tree

def LiftsTree (m : Machine κ τ) : Prop :=
  ∀ failure, m.mode = .take (.pure (.err failure)) →
    (∀ below, m.stack ≠ .mapped .recordFailure :: below) → ∃ tree, failure = .ofTree tree

theorem Live.passesTo (hLive : m.Live flag) (hLifts : m.LiftsTree)
    (hStepped : m.step host world = .ok (.inl next) after) : m.PassesTo next := by
  cases hLive with
  | @taking q stack user steps hPublic hWaits =>
      refine passesTo_of_public hPublic hWaits (fun failure hSame => ?_) hStepped
      refine hLifts failure (congrArg Mode.take hSame) fun below hTop => ?_
      obtain rfl : stack = .mapped .recordFailure :: below := hTop
      cases (List.forall_mem_cons.mp hWaits).1
  | asking user steps hAsks hWaits => exact passesTo_of_asks hAsks hStepped
  | sending steps hReady hWaits =>
      exact passesTo_of_resume hWaits (fun step hResumed => hReady.passes hResumed) hStepped
  | done user steps hResult => cases hStepped

theorem Failing.passesTo (hFailing : m.Failing flag user final)
    (hStepped : m.step host world = .ok (.inl next) after) : m.PassesTo next := by
  cases hFailing with
  | @unwinding failure stack steps hResult hWaits hEnds =>
      cases stack with
      | nil => cases hStepped
      | cons frame below =>
          obtain ⟨hFrameWaits, hBelowWait⟩ := List.forall_mem_cons.mp hWaits
          exact passesTo_of_resume hBelowWait (fun step => hFrameWaits.passes hResult) hStepped
  | asking steps hResult hWaits hEnds =>
      cases hStepped
      exact .onward _ [_]
  | told steps hResult hWaits hEnds =>
      refine passesTo_of_resume hWaits (fun step hResumed => ?_) hStepped
      rw [Frame.resume_altFlag_set] at hResumed
      cases hResumed
      exact .onward [] [_]
  | @aborting reason below steps hWaits hEnds =>
      refine passesTo_of_resume hWaits (fun step hResumed => ?_) hStepped
      cases hResumed
      have hFailed := Passes.failed [] (ErrorTree.leaf reason)
      rw [Value.ofTree_leaf, ErrorTree.values_leaf] at hFailed
      exact hFailed

/-- Along a run the failures that are kept, and the one on its way, are accounted for by the log. -/
theorem accounts_of_drive {p : Program κ} {count fuel : Nat} {start : World ω} {finished : Finished κ}
    {log : List (Value κ)} (hRuns : p.RunsPublicly host (.pair user (.bool flag)) start)
    (hLifts : p.LiftsTrees host (.pair user (.bool flag)) start)
    (hReaches : Reaches host count (Machine.start p (.pair user (.bool flag))) start m world)
    (hAccounts : Accounts (Frame.keptBy m.stack) m.carried log)
    (hDriven : m.drive host fuel world = .ok finished after) :
    Accounts [] (Step.returned finished.value : Step κ (Frame κ τ)).carried
      (log ++ m.log host fuel world) := by
  induction fuel generalizing m world count log with
  | zero => cases hDriven
  | succ fuel ih =>
      unfold Machine.log
      rcases drive_succ_cases hDriven with ⟨next, middle, hStepped, hRest⟩ | hEnded
      · have hPasses : m.PassesTo next := by
          rcases hRuns.live_or_failing hReaches with hLive | ⟨_, _, hFailing⟩
          · exact hLive.passesTo (fun failure => hLifts count m world failure hReaches) hStepped
          · exact hFailing.passesTo hStepped
        have hOnward := ih (hReaches.trans (.step hStepped (.here _ _))) (hAccounts.passes hPasses) hRest
        simpa [hStepped] using hOnward
      · obtain ⟨rfl, _⟩ := step_finish_cases hEnded
        have hWaits : ∀ frame ∈ ([] : List (Frame κ τ)), frame.Waits flag := List.forall_mem_nil _
        rw [carried_of_returned hWaits] at hAccounts
        simpa [hEnded, Frame.keptBy] using hAccounts

end Machine

namespace Alternative

variable {host : Host κ τ ω} {a : Alternative κ} {user : Value κ} {world : World ω}

/-- The tree with which a public run fails records failures of its primitive alternatives, in the order
in which they happened and each at most once, up to the last one. -/
theorem failure_records_log (hRuns : a.program.RunsPublicly host (.pair user (.bool flag)) world)
    (hLifts : a.program.LiftsTrees host (.pair user (.bool flag)) world) {fuel : Nat}
    {failure state : Value κ} {after : World ω}
    (hFailed : a.program.run host fuel (.pair user (.bool flag)) world =
      .ok (.err failure, state) after) :
    ∃ tree, failure = .ofTree tree ∧
      tree.values.Sublist
        ((Machine.start a.program (.pair user (.bool flag))).log host fuel world) ∧
      tree.values.getLast? =
        ((Machine.start a.program (.pair user (.bool flag))).log host fuel world).getLast? := by
  obtain ⟨finished, middle, hDriven, hNoted⟩ := Exec.bind_eq_ok.mp hFailed
  obtain ⟨_, _, _, hReturned⟩ := Exec.bind_eq_ok.mp hNoted
  have hBegins : Accounts
      (Frame.keptBy (Machine.start a.program (.pair user (.bool flag)) : Machine κ τ).stack)
      (Machine.start a.program (.pair user (.bool flag)) : Machine κ τ).carried [] :=
    ⟨[], [], rfl, rfl, .slnil, nofun⟩
  have hAccounts := Machine.accounts_of_drive hRuns hLifts (.here _ _) hBegins hDriven
  obtain ⟨value, left, steps⟩ := finished
  cases hReturned
  obtain ⟨trees, own, hNone, hSame, hOrdered, hLast⟩ := hAccounts
  obtain ⟨tree, rfl, rfl⟩ := Value.ofTrees_eq_singleton hSame
  obtain rfl : trees = [] := by
    cases trees with
    | nil => rfl
    | cons => cases hNone
  exact ⟨tree, rfl, by simpa using hOrdered, hLast tree (by simp)⟩

def superseded : Alternative Empty :=
  sequence [altOr (error (.str "a")) (inject .null),
    ofResult (.err (.ofTree (.node (.str "b") [.leaf (.str "c")])))]

theorem superseded_public : superseded.Public := by
  refine .sequence (List.forall_mem_cons.mpr ⟨?_, List.forall_mem_singleton.mpr ?_⟩)
  · exact .altOr (.error (.str "a")) (.inject .null)
  · exact .ofResult (.failure (.str "b") _)

theorem superseded_liftsTrees :
    superseded.program.LiftsTrees Host.codeless (.pair (.int 0) (.bool false)) ⟨(), #[], 0⟩ := by
  intro count m final failure hReaches hTaken hUnmapped
  have hAlong : Machine.Along Host.codeless
      (fun m _ => ∀ failure, m.mode = .take (.pure (.err failure)) → ∃ tree, failure = .ofTree tree) 30
      (Machine.start superseded.program (.pair (.int 0) (.bool false))) ⟨(), #[], 0⟩ := by
    repeat' apply And.intro
    all_goals first | trivial | (intro failure hTaken; cases hTaken)
    exact ⟨_, rfl⟩
  exact hAlong.of_reaches hReaches failure hTaken

/-- The superseded failure is logged and not recorded. -/
theorem failure_records_log_over_success :
    ∃ tree final, superseded.program.run Host.codeless 21 (.pair (.int 0) (.bool false))
        ⟨(), #[], 0⟩ = .ok (.err (.ofTree tree), .pair (.int 0) (.bool false)) final ∧
      tree.values.Sublist [.str "a", .str "b", .str "c"] ∧
      tree.values.getLast? = some (.str "c") := by
  have hOffersPublic : ∀ q, Host.codeless.Offers q → q.Public := by
    intro q hOffers
    cases hOffers with
    | @call k => exact k.elim
    | @resume t => exact t.elim
  have hRuns := superseded_public.program_public.runsPublicly hOffersPublic (.int 0) false
    ⟨(), #[], 0⟩
  have hFailed : superseded.program.run Host.codeless 21 (.pair (.int 0) (.bool false))
      ⟨(), #[], 0⟩ = .ok (.err (.ofTree (.node (.str "b") [.leaf (.str "c")])),
        .pair (.int 0) (.bool false)) ⟨(), #[.programFinished 9], 0⟩ :=
    rfl
  have hRecorded : (Machine.start superseded.program (.pair (.int 0) (.bool false))).log
      Host.codeless 21 ⟨(), #[], 0⟩ = (Value.ofTree (.leaf (.str "a"))).recorded ++
        ((Value.ofTree (.node (.str "b") [.leaf (.str "c")])).recorded ++ []) := rfl
  have hLogged : (Machine.start superseded.program (.pair (.int 0) (.bool false))).log
      Host.codeless 21 ⟨(), #[], 0⟩ = [.str "a", .str "b", .str "c"] := by
    rw [hRecorded]
    simp
  obtain ⟨tree, hSame, hOrdered, hLast⟩ := failure_records_log hRuns superseded_liftsTrees hFailed
  rw [hLogged] at hOrdered hLast
  rw [hSame] at hFailed
  exact ⟨tree, _, hFailed, hOrdered, hLast⟩

end Alternative

end Backtrack
