import Backtrack.Proofs.Abort
import Backtrack.Proofs.Likeness
import Backtrack.Proofs.Yields
import Mathlib.Data.List.Forall2

/-! Where the abort flag is read. Only an alternation whose left operand has failed looks at it. So a public
run in which no left operand fails goes on in step with the run from the same user state with the flag set:
what the two keep differs in the flag alone, and nothing that they do depends on it. -/

namespace Backtrack

variable {κ τ ω : Type}

inductive Frame.LeftFailed : Frame κ τ → Prop where
  | looks (second : Program κ) (snapshot left : Value κ) : LeftFailed (.altFlag second snapshot left)
  | restores (second : Program κ) (left : Value κ) : LeftFailed (.altRestored second left)
  | retries (left : Value κ) : LeftFailed (.altRight left)

/-- A left operand of an alternation has just failed. -/
inductive Machine.FailsLeft : Machine κ τ → Prop where
  | mk (failure : Value κ) (second : Program κ) (snapshot state : Value κ) (below : List (Frame κ τ))
      (steps : Nat) : FailsLeft ⟨.deliver (.err failure), state, .altLeft second snapshot :: below, steps⟩

/-- In no place of the run does a left operand of an alternation fail. -/
def Program.LeftsSucceed (host : Host κ τ ω) (p : Program κ) (state : Value κ) (world : World ω) :
    Prop :=
  ∀ count m final, Machine.Reaches host count (Machine.start p state) world m final → ¬ m.FailsLeft

namespace Machine

variable {host : Host κ τ ω} {m next last : Machine κ τ} {user final sent : Value κ} {flag : Bool}
  {top : Frame κ τ} {below : List (Frame κ τ)} {world after : World ω} {count : Nat}

theorem isResult_of_live_or_failing {second : Program κ} {snapshot : Value κ}
    (hPlaced : m.Live flag ∨ ∃ user final, m.Failing flag user final) (hDelivers : m.mode = .deliver sent)
    (hAwaits : m.stack = .altLeft second snapshot :: below) : sent.IsResult := by
  rcases hPlaced with hLive | ⟨_, _, hFailing⟩
  · cases hLive with
    | taking | asking => cases hDelivers
    | done => cases hAwaits
    | sending steps hReady hWaits =>
        cases hDelivers
        cases hAwaits
        cases hReady with
        | waiting _ hResult => exact hResult
        | asked hAsks => cases hAsks
  · cases hFailing with
    | unwinding steps hResult hWaits hEnds =>
        cases hDelivers
        exact hResult
    | asking => cases hDelivers
    | told | aborting => cases hAwaits

theorem not_leftFailed_of_step (hPlaced : m.Live flag ∨ ∃ user final, m.Failing flag user final)
    (hSucceeds : ¬ m.FailsLeft) (hNone : ∀ frame ∈ m.stack, ¬ frame.LeftFailed)
    (hStepped : m.step host world = .ok (.inl next) after) :
    ∀ frame ∈ next.stack, ¬ frame.LeftFailed := by
  refine forall_stack_of_step hNone hStepped (fun mark r _ => nofun) ?_
  intro sent top below q rest hDelivers hTopmost _ _ hYields hLeftFailed
  have hTopNot : ¬ top.LeftFailed := hNone top (hTopmost ▸ List.mem_cons_self)
  cases hYields with
  | altFlag => exact hTopNot (.looks _ _ _)
  | altRestored => exact hTopNot (.restores _ _)
  | altLeft second snapshot left hFails =>
      obtain ⟨mode, state, stack, steps⟩ := m
      cases hDelivers
      cases hTopmost
      cases isResult_of_live_or_failing hPlaced rfl rfl with
      | success value => exact hFails value rfl
      | failure value children => exact hSucceeds (.mk _ second snapshot state below steps)
  | _ => cases hLeftFailed

end Machine

namespace Program

variable {host : Host κ τ ω} {p : Program κ} {m : Machine κ τ} {user : Value κ} {flag : Bool}
  {world after : World ω} {count : Nat}

theorem LeftsSucceed.not_leftFailed (hSucceed : p.LeftsSucceed host (.pair user (.bool flag)) world)
    (hRuns : p.RunsPublicly host (.pair user (.bool flag)) world)
    (hReaches : Machine.Reaches host count (Machine.start p (.pair user (.bool flag))) world m after) :
    ∀ frame ∈ m.stack, ¬ frame.LeftFailed := by
  refine hReaches.invariant (fun m _ => ∀ frame ∈ m.stack, ¬ frame.LeftFailed) ?_
    (List.forall_mem_nil _)
  intro count next middle last final hReached hStepped hNone
  exact Machine.not_leftFailed_of_step (hRuns.live_or_failing hReached) (hSucceed _ _ _ hReached) hNone
    hStepped

end Program

inductive Frame.SameButFlag : Frame κ τ → Frame κ τ → Prop where
  | same (frame : Frame κ τ) : SameButFlag frame frame
  | altLeft (second : Program κ) (user : Value κ) :
      SameButFlag (.altLeft second (.pair user (.bool false))) (.altLeft second (.pair user (.bool true)))

inductive Step.SameButFlag : Step κ (Frame κ τ) → Step κ (Frame κ τ) → Prop where
  | returned (value : Value κ) : SameButFlag (.returned value) (.returned value)
  | yielded (value : Value κ) {rest other : Frame κ τ} :
      rest.SameButFlag other → SameButFlag (.yielded value rest) (.yielded value other)

inductive Finished.SameButFlag : Finished κ → Finished κ → Prop where
  | mk (value user : Value κ) (flag : Bool) (steps : Nat) :
      SameButFlag ⟨value, .pair user (.bool flag), steps⟩ ⟨value, .pair user (.bool true), steps⟩

/-- The machines are at the same place, the second one with the flag set. A generator that asked for the
state is sent it with its flag. -/
inductive Machine.InStep : Machine κ τ → Machine κ τ → Prop where
  | mk {stack others : List (Frame κ τ)} (mode : Mode κ) (user : Value κ) (flag : Bool) (steps : Nat) :
      List.Forall₂ Frame.SameButFlag stack others →
      InStep ⟨mode, .pair user (.bool flag), stack, steps⟩ ⟨mode, .pair user (.bool true), others, steps⟩
  | told {frame : Frame κ τ} {below others : List (Frame κ τ)} (user : Value κ) (steps : Nat) :
      frame.Asks false .get → List.Forall₂ Frame.SameButFlag below others →
      InStep ⟨.deliver (.pair user (.bool false)), .pair user (.bool false), frame :: below, steps⟩
        ⟨.deliver (.pair user (.bool true)), .pair user (.bool true), frame :: others, steps⟩

/-- What a step leads to: two machines in step, or two ends that are alike. -/
inductive Machine.GoOn : Machine κ τ ⊕ Finished κ → Machine κ τ ⊕ Finished κ → Prop where
  | inStep {m other : Machine κ τ} : m.InStep other → GoOn (.inl m) (.inl other)
  | finished {ended other : Finished κ} : ended.SameButFlag other → GoOn (.inr ended) (.inr other)

namespace Frame

variable {host : Host κ τ ω} {frame other : Frame κ τ} {user sent : Value κ} {world : World ω}

theorem SameButFlag.close_eq (hSame : frame.SameButFlag other) (host : Host κ τ ω) :
    frame.close host = other.close host := by
  cases hSame <;> rfl

theorem matchesBy_of_eq {result answer : EStateM.Result (Halt κ) (World ω) (Step κ (Frame κ τ))}
    (hSame : result = answer) : Exec.MatchesBy Step.SameButFlag Eq result answer := by
  subst hSame
  cases result with
  | error halt final => exact .error rfl
  | ok step final =>
      cases step with
      | returned value => exact .ok (.returned value) rfl
      | yielded value rest => exact .ok (.yielded value (.same rest)) rfl

theorem SameButFlag.resume_matches (hSame : frame.SameButFlag other)
    (hSucceeds : ∀ second snapshot, frame = .altLeft second snapshot → ∃ value, sent = .ok value) :
    Exec.MatchesBy Step.SameButFlag Eq (frame.resume host sent world)
      (other.resume host sent world) := by
  cases hSame with
  | same => exact matchesBy_of_eq rfl
  | altLeft second user =>
      obtain ⟨value, rfl⟩ := hSucceeds _ _ rfl
      exact .ok (.returned (.ok value)) rfl

theorem Asks.resume_matches (hAsks : frame.Asks false .get) (hBefore : ¬ frame.LeftFailed) :
    Exec.MatchesBy Step.SameButFlag Eq
      (frame.resume host (.pair user (.bool false)) world)
      (frame.resume host (.pair user (.bool true)) world) := by
  cases hAsks with
  | primitive hFinishes =>
      cases hFinishes with
      | attempt thunk classes => exact matchesBy_of_eq rfl
      | get => exact .ok (.returned (.ok user)) rfl
  | snapshot hFirstPublic hSecondPublic => exact .ok (.yielded _ (.altLeft _ user)) rfl
  | reread kept value children hPublic => exact absurd (.looks _ _ _) hBefore

end Frame

namespace Machine

variable {host : Host κ τ ω} {m other : Machine κ τ} {user sent given : Value κ} {flag : Bool}
  {world : World ω} {top frame : Frame κ τ} {below others : List (Frame κ τ)} {steps : Nat}

theorem deliver_matches
    (hResumes : Exec.MatchesBy Step.SameButFlag Eq (top.resume host sent world)
      (frame.resume host given world))
    (hSame : List.Forall₂ Frame.SameButFlag below others) :
    Exec.MatchesBy GoOn Eq
      ((⟨.deliver sent, .pair user (.bool flag), top :: below, steps⟩ : Machine κ τ).step host world)
      ((⟨.deliver given, .pair user (.bool true), frame :: others, steps⟩ : Machine κ τ).step host
        world) := by
  generalize hResumed : top.resume host sent world = result at hResumes
  generalize hAnswered : frame.resume host given world = answer at hResumes
  cases hResumes with
  | error hSameWorld =>
      cases hSameWorld
      rw [step_of_resume_error hResumed, step_of_resume_error hAnswered]
      exact .error rfl
  | @ok _ _ next _ hHeld hSameWorld =>
      cases hSameWorld
      cases hHeld with
      | returned value =>
          rw [step_of_returned hResumed, step_of_returned hAnswered]
          exact .ok (.inStep (.mk _ user flag steps hSame)) rfl
      | @yielded value rest left hSameRest =>
          by_cases hProgram : ∃ p, value = .program p
          · obtain ⟨p, rfl⟩ := hProgram
            rw [step_of_yielded hResumed, step_of_yielded hAnswered]
            exact .ok (.inStep (.mk _ user flag steps (.cons hSameRest hSame))) rfl
          · have hStray : ∀ p, value ≠ .program p := fun p hFound => hProgram ⟨p, hFound⟩
            cases hClosed : rest.close host next with
            | ok _ after =>
                rw [step_of_stray_closed hResumed hStray hClosed,
                  step_of_stray_closed hAnswered hStray (hSameRest.close_eq host ▸ hClosed)]
                exact .error rfl
            | error halt after =>
                rw [step_of_stray_halted hResumed hStray hClosed,
                  step_of_stray_halted hAnswered hStray (hSameRest.close_eq host ▸ hClosed)]
                exact .error rfl

theorem step_updateUser_matches (f : Mapper κ) (hSame : List.Forall₂ Frame.SameButFlag below others) :
    Exec.MatchesBy GoOn Eq
      ((⟨.take (.modify (.updateUser f)), .pair user (.bool false), below, steps⟩ :
        Machine κ τ).step host world)
      ((⟨.take (.modify (.updateUser f)), .pair user (.bool true), others, steps⟩ :
        Machine κ τ).step host world) := by
  cases hApplied : host.applyMapper f user world with
  | ok updated after =>
      have hUpdates : ∀ flag, host.applyMapper (.updateUser f) (.pair user (.bool flag)) world =
          .ok (.pair updated (.bool flag)) after := fun flag => Exec.bind_of_ok hApplied
      rw [step_modify_of_ok (hUpdates false), step_modify_of_ok (hUpdates true)]
      exact .ok (.inStep (.mk _ updated false _ hSame)) rfl
  | error halt after =>
      have hFails : ∀ flag, host.applyMapper (.updateUser f) (.pair user (.bool flag)) world =
          .error halt after := fun flag => (Exec.bind_of_ok rfl).trans (Exec.bind_of_error hApplied)
      rw [step_modify_of_error (hFails false), step_modify_of_error (hFails true)]
      exact .error rfl

theorem step_matches_of_asks {effect : Program κ} (hAsks : top.Asks false effect)
    (hBefore : ¬ top.LeftFailed) (hSame : List.Forall₂ Frame.SameButFlag below others) :
    Exec.MatchesBy GoOn Eq
      ((⟨.take effect, .pair user (.bool false), top :: below, steps⟩ : Machine κ τ).step host world)
      ((⟨.take effect, .pair user (.bool true), top :: others, steps⟩ : Machine κ τ).step host
        world) := by
  have hKept : List.Forall₂ Frame.SameButFlag (top :: below) (top :: others) := .cons (.same top) hSame
  cases hAsks with
  | primitive hFinishes =>
      cases hFinishes with
      | error failure => exact .ok (.inStep (.mk _ user false _ hKept)) rfl
      | attempt thunk classes =>
          exact .ok (.inStep (.told user _ (.primitive (.attempt thunk classes)) hSame)) rfl
      | get => exact .ok (.inStep (.told user _ (.primitive .get) hSame)) rfl
      | modify f => exact step_updateUser_matches f hKept
  | abort failure => exact .ok (.inStep (.mk _ user true _ hKept)) rfl
  | snapshot hFirstPublic hSecondPublic =>
      exact .ok (.inStep (.told user _ (.snapshot hFirstPublic hSecondPublic) hSame)) rfl
  | reread kept value children hPublic => exact absurd (.looks _ _ _) hBefore
  | restore kept value children hPublic hClear => exact absurd (.restores _ _) hBefore

/-- A step of a public run keeps it in step with the run from the other flag, unless a left operand fails
there or has failed. -/
theorem InStep.step_matches (hInStep : m.InStep other)
    (hPlaced : m.Live false ∨ ∃ user final, m.Failing false user final) (hSucceeds : ¬ m.FailsLeft)
    (hNone : ∀ frame ∈ m.stack, ¬ frame.LeftFailed) :
    Exec.MatchesBy GoOn Eq (m.step host world) (other.step host world) := by
  cases hInStep with
  | told user steps hAsks hSame =>
      exact deliver_matches (hAsks.resume_matches (hNone _ List.mem_cons_self)) hSame
  | @mk stack others mode user flag steps hSame =>
      cases mode with
      | deliver sent =>
          cases hSame with
          | nil => exact .ok (.finished (.mk sent user flag steps)) rfl
          | cons hSameTop hSame =>
              refine deliver_matches (hSameTop.resume_matches ?_) hSame
              rintro second snapshot rfl
              cases isResult_of_live_or_failing hPlaced rfl rfl with
              | success value => exact ⟨value, rfl⟩
              | failure value children => exact absurd (.mk _ second snapshot _ _ steps) hSucceeds
      | take q =>
          rcases hPlaced with hLive | ⟨_, _, hFailing⟩
          · cases hLive with
            | taking _ _ hPublic hWaits =>
                cases hPublic with
                | result hResult => exact .ok (.inStep (.mk _ user false _ hSame)) rfl
                | @generator mark r hRecipePublic =>
                    exact .ok (.inStep (.mk _ user false _ (.cons (.same (.fresh r)) hSame))) rfl
            | asking _ _ hAsks hWaits =>
                cases hSame with
                | cons hSameTop hSame =>
                    cases hSameTop with
                    | same => exact step_matches_of_asks hAsks (hNone _ List.mem_cons_self) hSame
                    | altLeft => cases hAsks
          · obtain ⟨_, second, snapshot, left, below, hLooks⟩ := hFailing.take_cases rfl
            exact absurd (.looks second snapshot left) (hNone _ (hLooks ▸ List.mem_cons_self))

theorem InStep.unwind_eq (hInStep : m.InStep other) (exception : Raised κ) :
    unwind host m.suspended exception = unwind host other.suspended exception := by
  have hCloses : ∀ {frames left : List (Frame κ τ)}, List.Forall₂ Frame.SameButFlag frames left →
      closeAll host frames = closeAll host left := by
    intro frames left hSame
    induction hSame with
    | nil => rfl
    | cons hSameTop _ ih => simp only [closeAll, hSameTop.close_eq host, ih]
  unfold unwind
  rw [hCloses]
  cases hInStep with
  | told _ _ _ hSame => exact hSame
  | mk mode _ _ _ hSame =>
      cases mode with
      | take q => exact hSame
      | deliver sent =>
          cases hSame with
          | nil => exact .nil
          | cons _ hSame => exact hSame

end Machine

namespace Program

variable {host : Host κ τ ω} {p : Program κ} {user : Value κ} {world : World ω}

theorem LeftsSucceed.drive_matches (hSucceed : p.LeftsSucceed host (.pair user (.bool false)) world)
    (hRuns : p.RunsPublicly host (.pair user (.bool false)) world) (fuel : Nat) {count : Nat}
    {m other : Machine κ τ} {now : World ω}
    (hReaches : Machine.Reaches host count (Machine.start p (.pair user (.bool false))) world m now)
    (hInStep : m.InStep other) :
    Exec.MatchesBy Finished.SameButFlag Eq (m.drive host fuel now) (other.drive host fuel now) := by
  induction fuel generalizing count m other now with
  | zero => exact .error rfl
  | succ fuel ih =>
      have hGoesOn : Exec.MatchesBy Machine.GoOn Eq (m.step host now) (other.step host now) :=
        hInStep.step_matches (hRuns.live_or_failing hReaches) (hSucceed _ _ _ hReaches)
          (hSucceed.not_leftFailed hRuns hReaches)
      generalize hStepped : m.step host now = result at hGoesOn
      generalize hAnswered : other.step host now = answer at hGoesOn
      cases hGoesOn with
      | ok hHeld hSameWorld =>
          cases hSameWorld
          cases hHeld with
          | inStep hTogether =>
              rw [Machine.drive_of_step hStepped, Machine.drive_of_step hAnswered]
              exact ih (hReaches.trans (.step hStepped (.here _ _))) hTogether
          | finished hAlike =>
              rw [Machine.drive_of_finish hStepped, Machine.drive_of_finish hAnswered]
              exact .ok hAlike rfl
      | @error halt _ _ hSameWorld =>
          cases hSameWorld
          cases halt with
          | raised exception =>
              rw [Machine.drive_of_raise hStepped, Machine.drive_of_raise hAnswered,
                hInStep.unwind_eq exception]
              cases hClosed : Machine.closeAll host other.suspended _ with
              | ok _ final =>
                  rw [Machine.unwind_of_ok hClosed]
                  exact .error rfl
              | error halt final =>
                  rw [Machine.unwind_of_error hClosed]
                  exact .error rfl
          | exhausted =>
              rw [Machine.drive_of_exhausted hStepped, Machine.drive_of_exhausted hAnswered]
              exact .error rfl

end Program

mutual
/-- The library's operations build the program, and alternation is not among them. -/
inductive Program.AlternationFree : Program κ → Prop
  | pure (value : Value κ) : Program.AlternationFree (.pure value)
  | get : Program.AlternationFree .get
  | modify (f : Mapper κ) : Program.AlternationFree (.modify f)
  | generator {mark : Mark} {r : Recipe κ} :
      Recipe.AlternationFree r → Program.AlternationFree (.generator mark r)

inductive Recipe.AlternationFree : Recipe κ → Prop
  | map {p : Program κ} (f : Mapper κ) : Program.AlternationFree p → Recipe.AlternationFree (.map p f)
  | abort (failure : Value κ) : Recipe.AlternationFree (.abort failure)
  | bind {p : Program κ} (f : Mapper κ) : Program.AlternationFree p → Recipe.AlternationFree (.bind p f)
  | sequence {ps : List (Program κ)} :
      (∀ p ∈ ps, Program.AlternationFree p) → Recipe.AlternationFree (.sequence ps)
  | traverse (items : List (Value κ)) (f : Callable κ) : Recipe.AlternationFree (.traverse items f)
  | body (f : DoFunction κ) (args : List (Value κ)) : Recipe.AlternationFree (.body f args)
end

/-- Neither the program nor any that the host's code chooses in its run contains an alternation. -/
structure Program.RunsWithoutAlternation (host : Host κ τ ω) (p : Program κ) (state : Value κ)
    (world : World ω) : Prop where
  alternationFree : p.AlternationFree
  chooses : ∀ count m final, Machine.Reaches host count (Machine.start p state) world m final →
    ∀ q frame below, m.mode = .take q → m.stack = frame :: below → frame.FromHost → q.AlternationFree

/-- What is left of the generator contains no alternation, host code aside. -/
inductive Frame.AlternationFree : Frame κ τ → Prop where
  | fresh {r : Recipe κ} : r.AlternationFree → AlternationFree (.fresh r)
  | mapped (f : Mapper κ) : AlternationFree (.mapped f)
  | bound (f : Mapper κ) : AlternationFree (.bound f)
  | sequenced {rest : List (Program κ)} (collected : List (Value κ)) :
      (∀ p ∈ rest, p.AlternationFree) → AlternationFree (.sequenced rest collected)
  | aborting (failure : Value κ) : AlternationFree (.aborting failure)
  | fromHost {frame : Frame κ τ} : frame.FromHost → AlternationFree frame

namespace Frame.AlternationFree

variable {frame rest : Frame κ τ} {sent value : Value κ}

theorem not_altLeft {second : Program κ} {snapshot : Value κ} :
    ¬ (.altLeft second snapshot : Frame κ τ).AlternationFree := by
  intro hAlternationFree
  cases hAlternationFree with
  | fromHost hFromHost => cases hFromHost

theorem of_yields (hAlternationFree : frame.AlternationFree) (hYields : frame.Yields sent value rest) :
    rest.AlternationFree ∧
      (rest.FromHost ∨ ∃ q, value = .program q ∧ q.AlternationFree) := by
  cases hAlternationFree with
  | fresh hRecipeFree =>
      cases hRecipeFree with
      | map f hEffectFree =>
          cases hYields
          exact ⟨.mapped f, .inr ⟨_, rfl, hEffectFree⟩⟩
      | abort failure =>
          cases hYields
          exact ⟨.aborting failure, .inr ⟨_, rfl, .modify .raiseFlag⟩⟩
      | bind f hComputationFree =>
          cases hYields
          exact ⟨.bound f, .inr ⟨_, rfl, hComputationFree⟩⟩
      | sequence hAllFree =>
          cases hYields with
          | sequence p rest =>
              obtain ⟨hPFree, hRestFree⟩ := List.forall_mem_cons.mp hAllFree
              exact ⟨.sequenced [] hRestFree, .inr ⟨p, rfl, hPFree⟩⟩
      | traverse items f =>
          cases hYields
          exact ⟨.fromHost (.traversed _ _ _), .inl (.traversed _ _ _)⟩
      | body f args =>
          cases hYields
          exact ⟨.fromHost (.body _ _), .inl (.body _ _)⟩
  | mapped f => cases hYields
  | aborting failure => cases hYields
  | bound f =>
      cases hYields
      exact ⟨.fromHost .relay, .inl .relay⟩
  | sequenced collected hAllFree =>
      cases hYields with
      | sequenced p rest collected sent result =>
          obtain ⟨hPFree, hRestFree⟩ := List.forall_mem_cons.mp hAllFree
          exact ⟨.sequenced _ hRestFree, .inr ⟨p, rfl, hPFree⟩⟩
  | fromHost hFromHost =>
      cases hFromHost with
      | relay => cases hYields
      | traversed items f collected =>
          cases hYields
          exact ⟨.fromHost (.traversed _ _ _), .inl (.traversed _ _ _)⟩
      | body name t =>
          cases hYields
          exact ⟨.fromHost (.body _ _), .inl (.body _ _)⟩

end Frame.AlternationFree

namespace Machine

/-- Neither the program that is about to be taken up nor any generator on the stack contains an
alternation. -/
structure AlternationFree (m : Machine κ τ) : Prop where
  takes : ∀ q, m.mode = .take q → q.AlternationFree
  keeps : ∀ frame ∈ m.stack, frame.AlternationFree

theorem AlternationFree.of_step {host : Host κ τ ω} {m next : Machine κ τ} {world after : World ω}
    (hAlternationFree : m.AlternationFree) (hStepped : m.step host world = .ok (.inl next) after)
    (hChooses : ∀ q frame below, next.mode = .take q → next.stack = frame :: below → frame.FromHost →
      q.AlternationFree) : next.AlternationFree := by
  constructor
  · intro q hTaken
    obtain ⟨sent, top, below, rest, _, hTopmost, hLeft, hYields⟩ := yields_of_step hStepped hTaken
    have hTopFree : top.AlternationFree := hAlternationFree.keeps top (hTopmost ▸ List.mem_cons_self)
    rcases (hTopFree.of_yields hYields).2 with hFromHost | ⟨_, ⟨⟩, hFree⟩
    · exact hChooses q rest below hTaken hLeft hFromHost
    · exact hFree
  · refine forall_stack_of_step hAlternationFree.keeps hStepped ?_ ?_
    · intro mark r hTaken
      cases hAlternationFree.takes _ hTaken with
      | generator hRecipeFree => exact .fresh hRecipeFree
    · intro sent top below q rest _ hTopmost _ _ hYields
      have hTopFree : top.AlternationFree := hAlternationFree.keeps top (hTopmost ▸ List.mem_cons_self)
      exact (hTopFree.of_yields hYields).1

end Machine

theorem Program.RunsWithoutAlternation.leftsSucceed {host : Host κ τ ω} {p : Program κ}
    {state : Value κ} {world : World ω} (hRuns : p.RunsWithoutAlternation host state world) :
    p.LeftsSucceed host state world := by
  intro count m final hReaches hFailsLeft
  have hStart : (Machine.start p state : Machine κ τ).AlternationFree := by
    refine ⟨fun q hTaken => ?_, List.forall_mem_nil _⟩
    cases hTaken
    exact hRuns.alternationFree
  have hFree : m.AlternationFree := by
    refine hReaches.invariant (fun m _ => m.AlternationFree) ?_ hStart
    intro count next middle last after hReached hStepped hHolds
    exact hHolds.of_step hStepped (hRuns.chooses _ _ _ (hReached.trans (.step hStepped (.here _ _))))
  cases hFailsLeft with
  | mk => exact Frame.AlternationFree.not_altLeft (hFree.keeps _ List.mem_cons_self)

namespace Alternative

variable {host : Host κ τ ω} {a : Alternative κ} {user : Value κ} {world : World ω}

/-- Whether the flag is clear or set to begin with, the alternative takes the same steps to the same result
and user state, or to the same exception, and leaves the same world. The flag that was set is set at the
end. -/
def IgnoresFlag (host : Host κ τ ω) (a : Alternative κ) (user : Value κ) (world : World ω) : Prop :=
  ∀ fuel,
    Exec.MatchesBy Finished.SameButFlag Eq
      ((Machine.start a.program (.pair user (.bool false))).drive host fuel world)
      ((Machine.start a.program (.pair user (.bool true))).drive host fuel world) ∧
    Exec.MatchesBy
      (fun ended other => (∃ flag, ended.2.2 = .bool flag) ∧ other = (ended.1, ended.2.1, .bool true))
      Eq (a.runPair host fuel (.pair user (.bool false)) world)
      (a.runPair host fuel (.pair user (.bool true)) world)

theorem ignoresFlag_of_leftsSucceed
    (hRuns : a.program.RunsPublicly host (.pair user (.bool false)) world)
    (hSucceed : a.program.LeftsSucceed host (.pair user (.bool false)) world) :
    a.IgnoresFlag host user world := by
  intro fuel
  have hDrives : Exec.MatchesBy Finished.SameButFlag Eq
      ((Machine.start a.program (.pair user (.bool false))).drive host fuel world)
      ((Machine.start a.program (.pair user (.bool true))).drive host fuel world) :=
    hSucceed.drive_matches hRuns fuel (.here _ _) (.mk _ user false 0 .nil)
  have hRan : Exec.MatchesBy
      (fun ended other => ∃ last flag, ended.2 = .pair last (.bool flag) ∧
        other = (ended.1, .pair last (.bool true))) Eq
      (a.program.run host fuel (.pair user (.bool false)) world)
      (a.program.run host fuel (.pair user (.bool true)) world) := by
    refine hDrives.bind fun ended other first second hAlike hSameWorld => ?_
    cases hSameWorld
    cases hAlike with
    | mk value last flag steps => exact .ok ⟨last, flag, rfl, rfl⟩ rfl
  have hUnpacked : ∀ flag, (Exec.demand (Value.pair user (.bool flag)).unpackPair :
      Exec κ ω (Value κ × Value κ)) world = .ok (user, .bool flag) world := fun _ => rfl
  refine ⟨hDrives, ?_⟩
  unfold runPair
  rw [Exec.bind_of_ok (hUnpacked false), Exec.bind_of_ok (hUnpacked true)]
  refine hRan.bind fun ended other first second hAlike hSameWorld => ?_
  cases hSameWorld
  obtain ⟨value, state⟩ := ended
  obtain ⟨last, flag, rfl, rfl⟩ := hAlike
  cases value with
  | ok success | err failure => exact .ok ⟨⟨flag, rfl⟩, rfl⟩ rfl
  | _ => exact .error rfl

/-- The abort flag is consulted only at a failed left operand. A public run from a user state in which no
left operand of an alternation fails is, but for the flag, the run from that state with the flag set; and
where there are no alternations, no left operand fails. -/
theorem flag_read_at_failed_left
    (hRuns : a.program.RunsPublicly host (.pair user (.bool false)) world) :
    (a.program.LeftsSucceed host (.pair user (.bool false)) world → a.IgnoresFlag host user world) ∧
    (a.program.RunsWithoutAlternation host (.pair user (.bool false)) world →
      a.IgnoresFlag host user world) :=
  ⟨ignoresFlag_of_leftsSucceed hRuns, fun hWithout => ignoresFlag_of_leftsSucceed hRuns hWithout.leftsSucceed⟩

def stoppedLater : Alternative Unit :=
  sequence [altOr (put (.int 7)) (error (.str "other")), ofCall ⟨none, none, [], ()⟩ []]

theorem stoppedLater_leftsSucceed :
    stoppedLater.program.LeftsSucceed Host.aborter (.pair (.int 5) (.bool false)) ⟨0, #[], 0⟩ := by
  intro count m final hReaches
  have hAlong : Machine.Along Host.aborter (fun m _ => ¬ m.FailsLeft) 30
      (Machine.start stoppedLater.program (.pair (.int 5) (.bool false))) ⟨0, #[], 0⟩ := by
    repeat' apply And.intro
    all_goals first | trivial | nofun
  exact hAlong.of_reaches hReaches

def stoppedAtOnce : Alternative Unit := ofCall ⟨none, none, [], ()⟩ []

theorem stoppedAtOnce_runsWithoutAlternation :
    stoppedAtOnce.program.RunsWithoutAlternation Host.aborter (.pair (.int 5) (.bool false))
      ⟨0, #[], 0⟩ := by
  refine ⟨.generator (.body _ _), ?_⟩
  intro count m final hReaches
  have hAlong : Machine.Along Host.aborter
      (fun m _ => ∀ q frame below, m.mode = .take q → m.stack = frame :: below → frame.FromHost →
        q.AlternationFree) 30
      (Machine.start stoppedAtOnce.program (.pair (.int 5) (.bool false))) ⟨0, #[], 0⟩ := by
    repeat' apply And.intro
    all_goals first | trivial | (intro q frame below hTaken hTopmost hFromHost; cases hTaken)
    -- the body itself, what it yields, and the effect that this asks for
    · cases hTopmost
    · exact .generator (.abort _)
    · cases hTopmost
      cases hFromHost
  exact hAlong.of_reaches hReaches

/-- One alternative succeeds with a left operand before it aborts, the other one knows no alternation. -/
theorem flag_read_at_failed_left_of_stopped :
    stoppedLater.IgnoresFlag Host.aborter (.int 5) ⟨0, #[], 0⟩ ∧
      stoppedAtOnce.IgnoresFlag Host.aborter (.int 5) ⟨0, #[], 0⟩ ∧
      ∃ final, stoppedLater.runPair Host.aborter 30 (.pair (.int 5) (.bool false)) ⟨0, #[], 0⟩ =
        .ok (.err (.leaf (.str "stop")), .int 7, .bool true) final := by
  have hBody : stoppedAtOnce.Public := .ofCall _ []
  have hBoth : stoppedLater.Public :=
    .sequence (List.forall_mem_cons.mpr ⟨.altOr (.put _) (.error _), List.forall_mem_singleton.mpr hBody⟩)
  have hRuns : ∀ {a : Alternative Unit}, a.Public →
      a.program.RunsPublicly Host.aborter (.pair (.int 5) (.bool false)) ⟨0, #[], 0⟩ :=
    fun hPublic => hPublic.program_public.runsPublicly (fun _ => Host.aborter_offers) _ _ _
  exact ⟨(flag_read_at_failed_left (hRuns hBoth)).1 stoppedLater_leftsSucceed,
    (flag_read_at_failed_left (hRuns hBody)).2 stoppedAtOnce_runsWithoutAlternation, _, rfl⟩

end Alternative

end Backtrack
