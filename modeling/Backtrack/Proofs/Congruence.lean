import Backtrack.Proofs.Equivalence

namespace Backtrack

variable {κ τ ω : Type} {R : World ω → World ω → Prop} {host : Host κ τ ω}

/-- Two generators that wait for the result of a program, resp. of one equal to it, and go on alike. -/
inductive Frame.Awaits (R : World ω → World ω → Prop) (host : Host κ τ ω) (p : Program κ) :
    Frame κ τ → Frame κ τ → Prop where
  | bound {f g : Mapper κ} :
      (∀ value, p.Produces host (.ok value) → ∀ first second, R first second →
        Exec.MatchesBy (Value.Exchanges (Alternative.Equal R host)) R
          (host.applyMapper f value first) (host.applyMapper g value second)) →
      Awaits R host p (.bound f) (.bound g)
  | relay : Awaits R host p .relay .relay
  | sequenced {rest others : List (Alternative κ)} (collected : List (Value κ)) :
      List.Forall₂ (Alternative.Equal R host) rest others →
      Awaits R host p (.sequenced (rest.map (·.program)) collected)
        (.sequenced (others.map (·.program)) collected)
  | traversed {f g : Callable κ} (rest collected : List (Value κ)) :
      host.BindsAlike R (Alternative.Equal R host) f g →
      Awaits R host p (.traversed rest f collected) (.traversed rest g collected)
  | body {B : τ → τ → Prop} {t u : τ} (name : Option String) :
      host.RunsBodiesAlike R (Alternative.Equal R host) B → B t u →
      Awaits R host p (.body name t) (.body name u)

/-- Two generators do alike: they return the same result, or yield equal alternatives and wait. -/
inductive Step.Alike (R : World ω → World ω → Prop) (host : Host κ τ ω) :
    Step κ (Frame κ τ) → Step κ (Frame κ τ) → Prop where
  | returned {value : Value κ} : value.IsResult → Alike R host (.returned value) (.returned value)
  | yielded {p q : Program κ} {rest other : Frame κ τ} :
      Alternative.Equal R host ⟨p⟩ ⟨q⟩ → rest.Awaits R host p other →
      Alike R host (.yielded (.program p) rest) (.yielded (.program q) other)

namespace Frame

variable {p : Program κ} {frame other : Frame κ τ} {f g : Callable κ} {value sent : Value κ}
  {first second : World ω}

theorem yieldAlternative_alike {role : OperandRole} {produced given : Value κ}
    (hExchanges : produced.Exchanges (Alternative.Equal R host) given)
    (hAwaits : ∀ q, frame.Awaits R host q other) (hRelated : R first second) :
    Exec.MatchesBy (Step.Alike R host) R (yieldAlternative role frame produced first)
      (yieldAlternative role other given second) := by
  cases hExchanges with
  | alternatives hEqual => exact .ok (.yielded hEqual (hAwaits _)) hRelated
  | others hStray hOtherStray hSame =>
      rw [yieldAlternative_of_stray hStray, yieldAlternative_of_stray hOtherStray, hSame]
      exact .error hRelated

theorem sequenceNext_alike {rest others : List (Alternative κ)} (collected : List (Value κ))
    (hEqual : List.Forall₂ (Alternative.Equal R host) rest others) (hRelated : R first second) :
    Exec.MatchesBy (Step.Alike R host) R
      ((sequenceNext collected (rest.map (·.program)) : Exec κ ω (Step κ (Frame κ τ))) first)
      (sequenceNext collected (others.map (·.program)) second) := by
  cases hEqual with
  | nil => exact .ok (.returned (.success _)) hRelated
  | cons hHead hTail => exact .ok (.yielded hHead (.sequenced collected hTail)) hRelated

theorem traverseNext_alike (hBinds : host.BindsAlike R (Alternative.Equal R host) f g)
    (collected items : List (Value κ)) (hRelated : R first second) :
    Exec.MatchesBy (Step.Alike R host) R (traverseNext host f collected items first)
      (traverseNext host g collected items second) := by
  cases items with
  | nil => exact .ok (.returned (.success _)) hRelated
  | cons item rest =>
      exact (hBinds item first second hRelated).sealed.bind fun _ _ _ _ hExchanges hOnward =>
        yieldAlternative_alike hExchanges (fun _ => .traversed rest collected hBinds) hOnward

theorem bodyNext_alike {B : τ → τ → Prop} {step answer : Step κ τ} (name : Option String)
    (hBodies : host.RunsBodiesAlike R (Alternative.Equal R host) B)
    (hExchanges : step.Exchanges (Alternative.Equal R host) B answer) (hRelated : R first second) :
    Exec.MatchesBy (Step.Alike R host) R (bodyNext host name step first)
      (bodyNext host name answer second) := by
  cases hExchanges with
  | returned => exact .ok (.returned (.success _)) hRelated
  | yielded hValues hRest =>
      cases hValues with
      | alternatives hEqual => exact .ok (.yielded hEqual (.body name hBodies hRest)) hRelated
      | others hStray hOtherStray hSame =>
          rw [bodyNext_of_stray hStray, bodyNext_of_stray hOtherStray, hSame]
          exact (hBodies.close _ _ hRest first second hRelated).sealed.bind fun _ _ _ _ _ hOnward =>
            .error hOnward

theorem Awaits.resume_alike (hAwaits : frame.Awaits R host p other) (hProduces : p.Produces host sent)
    (hResult : sent.IsResult) (hRelated : R first second) :
    Exec.MatchesBy (Step.Alike R host) R (frame.resume host sent first)
      (other.resume host sent second) := by
  cases hAwaits with
  | relay => exact .ok (.returned hResult) hRelated
  | bound hAlike =>
      cases hResult with
      | success value =>
          exact (hAlike value hProduces first second hRelated).sealed.bind fun _ _ _ _ hExchanges hOnward =>
            yieldAlternative_alike hExchanges (fun _ => .relay) hOnward
      | failure value children => exact .ok (.returned (.failure value children)) hRelated
  | sequenced collected hEqual =>
      cases hResult with
      | success value => exact sequenceNext_alike (value :: collected) hEqual hRelated
      | failure value children => exact .ok (.returned (.failure value children)) hRelated
  | traversed rest collected hBinds =>
      cases hResult with
      | success value => exact traverseNext_alike hBinds (value :: collected) rest hRelated
      | failure value children => exact .ok (.returned (.failure value children)) hRelated
  | body name hBodies hBoth =>
      cases hResult with
      | success value =>
          exact (hBodies.resume _ _ hBoth value first second hRelated).sealed.bind
            fun _ _ _ _ hExchanges hOnward => bodyNext_alike name hBodies hExchanges hOnward
      | failure value children =>
          exact (hBodies.close _ _ hBoth first second hRelated).sealed.bind fun _ _ _ _ _ hOnward =>
            .ok (.returned (.failure value children)) hOnward

theorem Awaits.close_alike (hAwaits : frame.Awaits R host p other) (hRelated : R first second) :
    Exec.MatchesBy (· = ·) R (frame.close host first) (other.close host second) := by
  cases hAwaits with
  | body name hBodies hBoth => exact (hBodies.close _ _ hBoth first second hRelated).sealed
  | _ => exact .ok rfl hRelated

end Frame

/-- Where one generator yields a program, the other yields one whose evaluation ends in the same manner, and
waits like it. -/
theorem Frame.yielded_met {frame rest other : Frame κ τ} {sent given user : Value κ} {flag : Bool}
    {p : Program κ} {first second start middle : World ω} {ending : Ending κ}
    (hMatched : Exec.MatchesBy (Step.Alike R host) R (frame.resume host sent first)
      (other.resume host given second))
    (hResumed : frame.resume host sent first = .ok (.yielded (.program p) rest) start)
    (hEvaluates : Evaluates host (.program p) (.pair user (.bool flag)) start ending middle) :
    ∃ q left begun, other.resume host given second = .ok (.yielded (.program q) left) begun ∧
      rest.Awaits R host p left ∧ ending.Settled ∧
      ending.MetBy R host middle (.program q) (.pair user (.bool flag)) begun := by
  rw [hResumed] at hMatched
  obtain ⟨step, begun, hAnswered, hAlike, hRelated⟩ := hMatched.of_ok
  cases hAlike with
  | yielded hEqual hAwaits =>
      exact ⟨_, _, begun, hAnswered, hAwaits, hEqual.behaved.settled hEvaluates,
        hEqual.into user flag _ _ _ _ hRelated hEvaluates⟩

namespace Evaluates

variable {frame other : Frame κ τ} {sent given user : Value κ} {flag : Bool}
  {first second final : World ω} {ending : Ending κ}

theorem settled_metBy
    (hEvaluates : Evaluates host (.generator frame sent) (.pair user (.bool flag)) first ending final)
    (hMatched : Exec.MatchesBy (Step.Alike R host) R (frame.resume host sent first)
      (other.resume host given second)) :
    ending.Settled ∧
      ending.MetBy R host final (.generator other given) (.pair user (.bool flag)) second := by
  generalize hGenerator : Activity.generator frame sent = activity at hEvaluates
  generalize hInitial : Value.pair user (.bool flag) = state at hEvaluates
  -- What is left of the generators once their programs have ended does alike as well.
  induction hEvaluates generalizing frame other sent given user flag second with
  | pure | get | put | modify | modifyRaised | foreign | foreignEffect | generator => cases hGenerator
  | returned hResumed =>
      cases hGenerator
      subst hInitial
      rw [hResumed] at hMatched
      obtain ⟨step, last, hAnswered, hAlike, hRelated⟩ := hMatched.of_ok
      cases hAlike with
      | returned hResult => exact ⟨⟨hResult, .mk user flag⟩, _, last, .returned hAnswered, rfl, hRelated⟩
  | resumeRaised hFailed =>
      cases hGenerator
      rw [hFailed] at hMatched
      obtain ⟨last, hAnswered, hRelated⟩ := hMatched.of_error
      exact ⟨trivial, _, last, .resumeRaised hAnswered, rfl, hRelated⟩
  | yielded hResumed hEvaluates hContinues _ ih =>
      cases hGenerator
      subst hInitial
      obtain ⟨q, left, begun, hAnswered, hAwaits, ⟨hResult, ⟨leftUser, leftFlag⟩⟩, inner, next, hRuns, hSame,
        hOnward⟩ := Frame.yielded_met hMatched hResumed hEvaluates
      obtain ⟨cost, rfl⟩ := Ending.returned_of_manner hSame
      have hResumes := hAwaits.resume_alike ⟨user, flag, _, _, _, _, hEvaluates⟩ hResult hOnward
      obtain ⟨hSettled, ending, last, hRest, hAlike, hKept⟩ := ih hResumes rfl rfl
      refine ⟨hSettled.after _, _, last, .yielded hAnswered hRuns hRest, ?_, hKept⟩
      rw [Ending.manner_after, Ending.manner_after, hAlike]
  | yieldedRaised hResumed hEvaluates hClosed _ =>
      cases hGenerator
      subst hInitial
      obtain ⟨q, left, begun, hAnswered, hAwaits, _, inner, next, hRuns, hSame, hOnward⟩ :=
        Frame.yielded_met hMatched hResumed hEvaluates
      obtain rfl := Ending.raised_of_manner hSame
      have hCloses := hAwaits.close_alike hOnward
      rw [hClosed] at hCloses
      obtain ⟨_, last, hOtherClosed, _, hKept⟩ := hCloses.of_ok
      exact ⟨trivial, _, last, .yieldedRaised hAnswered hRuns hOtherClosed, rfl, hKept⟩
  | yieldedReplacing hResumed hEvaluates hFailed _ =>
      cases hGenerator
      subst hInitial
      obtain ⟨q, left, begun, hAnswered, hAwaits, _, inner, next, hRuns, hSame, hOnward⟩ :=
        Frame.yielded_met hMatched hResumed hEvaluates
      obtain rfl := Ending.raised_of_manner hSame
      have hCloses := hAwaits.close_alike hOnward
      rw [hFailed] at hCloses
      obtain ⟨last, hOtherFailed, hKept⟩ := hCloses.of_error
      exact ⟨trivial, _, last, .yieldedReplacing hAnswered hRuns hOtherFailed, rfl, hKept⟩
  | yieldedReplaced hResumed hEvaluates _ =>
      cases hGenerator
      subst hInitial
      obtain ⟨q, left, begun, hAnswered, _, _, inner, next, hRuns, hSame, hOnward⟩ :=
        Frame.yielded_met hMatched hResumed hEvaluates
      obtain rfl := Ending.replaced_of_manner hSame
      exact ⟨trivial, _, next, .yieldedReplaced hAnswered hRuns, rfl, hOnward⟩
  | stray hResumed hStray | strayRaised hResumed hStray =>
      cases hGenerator
      rw [hResumed] at hMatched
      obtain ⟨step, _, _, hAlike, _⟩ := hMatched.of_ok
      cases hAlike with
      | yielded => exact absurd rfl (hStray _)

end Evaluates

namespace Alternative

def BeginAlike (R : World ω → World ω → Prop) (host : Host κ τ ω) (r s : Recipe κ) : Prop :=
  ∀ first second, R first second →
    Exec.MatchesBy (Step.Alike R host) R (Frame.begin host r first) (Frame.begin host s second)

variable {r s : Recipe κ} {a b c d : Alternative κ} {f g : Callable κ}

theorem simulated_of_begin {mark other : Mark} (hBegin : BeginAlike R host r s) :
    Program.Simulated R host (.generator mark r) (.generator other s) := by
  intro user flag first second ending final hRelated hEvaluates
  obtain ⟨inner, hBegun, rfl⟩ := Evaluates.generator_iff.mp hEvaluates
  have hAlike : Exec.MatchesBy (Step.Alike R host) R ((Frame.fresh r).resume host .null first)
      ((Frame.fresh s).resume host .null second) := hBegin first second hRelated
  obtain ⟨_, answer, last, hAnswers, hSame, hKept⟩ := hBegun.settled_metBy hAlike
  exact ⟨_, last, .generator hAnswers, by simpa using hSame, hKept⟩

theorem wellBehaved_of_begin (hObserving : World.Observing R) {mark : Mark}
    (hBegin : BeginAlike R host r s) : WellBehaved host ⟨.generator mark r⟩ := by
  intro user flag world value state steps final hRuns
  obtain ⟨_, hEvaluates, hEnded⟩ := Program.runs_iff_exists_evaluates.mp hRuns
  obtain ⟨inner, hBegun, rfl⟩ := Evaluates.generator_iff.mp hEvaluates
  have hAlike : Exec.MatchesBy (Step.Alike R host) R ((Frame.fresh r).resume host .null world)
      ((Frame.fresh s).resume host .null world) := hBegin world world (hObserving.refl world)
  obtain ⟨hSettled, _⟩ := hBegun.settled_metBy hAlike
  cases inner with
  | returned => cases hEnded; exact hSettled
  | raised | replaced => cases hEnded

theorem Equal.of_begin (hObserving : World.Observing R) (hBegin : BeginAlike R host r s)
    (hBack : BeginAlike (flip R) host s r) :
    Equal R host ⟨.generator none r⟩ ⟨.generator none s⟩ where
  behaved := wellBehaved_of_begin hObserving hBegin
  otherBehaved := wellBehaved_of_begin hObserving.symm hBack
  into := simulated_of_begin hBegin
  back := simulated_of_begin hBack

theorem bind_begin (hEqual : Equal R host a b) (hBinds : host.BindsAlike R (Equal R host) f g) :
    BeginAlike R host (.bind a.program (.call f)) (.bind b.program (.call g)) :=
  fun _ _ hRelated => .ok (.yielded hEqual (.bound fun value _ => hBinds value)) hRelated

theorem bind_equal (hObserving : World.Observing R) (hEqual : Equal R host a b)
    (hBinds : host.BindsAlike R (Equal R host) f g) : Equal R host (bind a f) (bind b g) :=
  .of_begin hObserving (bind_begin hEqual hBinds)
    (bind_begin hEqual.symm (hBinds.symm.imp fun _ _ hBoth => hBoth.symm))

theorem inject_equal (R : World ω → World ω → Prop) (host : Host κ τ ω) (value : Value κ) :
    Equal R host (inject value) (inject value) where
  behaved := inject_wellBehaved host value
  otherBehaved := inject_wellBehaved host value
  into user flag first second ending final hRelated hEvaluates := by
    obtain ⟨rfl, rfl⟩ := Evaluates.pure_iff.mp hEvaluates
    exact ⟨_, second, .pure, rfl, hRelated⟩
  back user flag first second ending final hRelated hEvaluates := by
    obtain ⟨rfl, rfl⟩ := Evaluates.pure_iff.mp hEvaluates
    exact ⟨_, second, .pure, rfl, hRelated⟩

theorem fmap_begin (hEqual : Equal R host a b) (hMaps : host.MapsAlike R f g) :
    BeginAlike R host (.bind a.program (.injectAfter f)) (.bind b.program (.injectAfter g)) := by
  refine fun _ _ hRelated => .ok (.yielded hEqual (.bound fun value _ first second hBoth => ?_)) hRelated
  refine (hMaps value first second hBoth).bind fun result _ _ _ hSame hOnward => ?_
  subst hSame
  exact .ok (.alternatives (inject_equal R host result)) hOnward

theorem fmap_equal (hObserving : World.Observing R) (hEqual : Equal R host a b)
    (hMaps : host.MapsAlike R f g) : Equal R host (fmap f a) (fmap g b) :=
  .of_begin hObserving (fmap_begin hEqual hMaps) (fmap_begin hEqual.symm hMaps.symm)

theorem GivesMaps.of_equal (hObserving : World.Observing R) (hEqual : Equal R host a b)
    (hGives : a.GivesMaps R host) : b.GivesMaps (flip R) host := by
  rintro f ⟨user, flag, world, state, cost, final, hEvaluates⟩
  obtain ⟨other, last, hRuns, hSame, _⟩ :=
    hEqual.back user flag world world _ final (hObserving.refl world) hEvaluates
  obtain ⟨spent, rfl⟩ := Ending.returned_of_manner hSame
  exact (hGives f ⟨user, flag, world, _, spent, last, hRuns⟩).symm

theorem apply_begin (hObserving : World.Observing R) (hFunctions : Equal R host a b)
    (hEqual : Equal R host c d) (hGives : a.GivesMaps R host) :
    BeginAlike R host (.bind a.program (.mapOver c.program)) (.bind b.program (.mapOver d.program)) := by
  refine fun _ _ hRelated =>
    .ok (.yielded hFunctions (.bound fun value hProduces first second hBoth => ?_)) hRelated
  cases value with
  | callable f =>
      exact .ok (.alternatives (fmap_equal hObserving hEqual (hGives f hProduces))) hBoth
  | _ => exact .error hBoth

theorem apply_equal (hObserving : World.Observing R) (hFunctions : Equal R host a b)
    (hEqual : Equal R host c d) (hGives : a.GivesMaps R host) :
    Equal R host (apply a c) (apply b d) :=
  .of_begin hObserving (apply_begin hObserving hFunctions hEqual hGives)
    (apply_begin hObserving.symm hFunctions.symm hEqual.symm (hGives.of_equal hObserving hFunctions))

theorem sequence_equal (hObserving : World.Observing R) {as bs : List (Alternative κ)}
    (hEqual : List.Forall₂ (Equal R host) as bs) : Equal R host (sequence as) (sequence bs) :=
  .of_begin hObserving (fun _ _ hRelated => Frame.sequenceNext_alike [] hEqual hRelated)
    fun _ _ hRelated => Frame.sequenceNext_alike []
      (hEqual.flip.imp fun _ _ hBoth => hBoth.symm) hRelated

theorem traverse_equal (hObserving : World.Observing R) (items : List (Value κ))
    (hBinds : host.BindsAlike R (Equal R host) f g) :
    Equal R host (traverse items f) (traverse items g) :=
  .of_begin hObserving (fun _ _ hRelated => Frame.traverseNext_alike hBinds [] items hRelated)
    fun _ _ hRelated => Frame.traverseNext_alike
      (hBinds.symm.imp fun _ _ hBoth => hBoth.symm) [] items hRelated

theorem body_begin {f g : DoFunction κ} {args others : List (Value κ)} {B : τ → τ → Prop}
    (hName : f.name = g.name)
    (hStarted : ∀ first second, R first second → Exec.MatchesBy (Started.Exchanges B) R
      (host.start f.code args first) (host.start g.code others second))
    (hBodies : host.RunsBodiesAlike R (Equal R host) B) :
    BeginAlike R host (.body f args) (.body g others) := by
  intro first second hRelated
  refine (hStarted first second hRelated).sealed.bind fun _ _ _ _ hExchanges hOnward => ?_
  cases hExchanges with
  | value => exact .ok (.returned (.success _)) hOnward
  | coroutine hBoth =>
      refine (hBodies.resume _ _ hBoth .null _ _ hOnward).sealed.bind fun _ _ _ _ hSteps hResumed => ?_
      rw [hName]
      exact Frame.bodyNext_alike g.name hBodies hSteps hResumed

theorem ofCall_equal (hObserving : World.Observing R) {f g : DoFunction κ} {args others : List (Value κ)}
    {B : τ → τ → Prop} (hName : f.name = g.name)
    (hStarted : ∀ first second, R first second → Exec.MatchesBy (Started.Exchanges B) R
      (host.start f.code args first) (host.start g.code others second))
    (hBodies : host.RunsBodiesAlike R (Equal R host) B) :
    Equal R host (ofCall f args) (ofCall g others) := by
  refine .of_begin hObserving (body_begin hName hStarted hBodies) ?_
  refine body_begin (B := flip B) hName.symm (fun first second hRelated => ?_)
    (hBodies.symm.imp fun _ _ hBoth => hBoth.symm)
  refine (hStarted second first hRelated).symm.imp fun _ _ hExchanges => ?_
  cases hExchanges with
  | value => exact .value
  | coroutine hBoth => exact .coroutine hBoth

theorem noting_related (hObserving : World.Observing R) (entry : String → Note) (failure : Value κ)
    {first second : World ω} (hRelated : R first second) :
    R (host.noting entry failure first) (host.noting entry failure second) := by
  unfold Host.noting
  split
  · exact hObserving.noted first second hRelated _
  · exact hRelated

theorem manner_joinedTo {ending other : Ending κ} (hSame : other.manner = ending.manner)
    (value : Value κ) (children : List (Value κ)) :
    (other.joinedTo value children).manner = (ending.joinedTo value children).manner := by
  cases ending with
  | returned result state cost =>
      obtain ⟨spent, rfl⟩ := Ending.returned_of_manner hSame
      cases result <;> rfl
  | raised exception =>
      obtain rfl := Ending.raised_of_manner hSame
      rfl
  | replaced exception =>
      obtain rfl := Ending.replaced_of_manner hSame
      rfl

/-- The second operand is run from the same pair, and its failure joined to the same one. -/
theorem altLeft_clear_met (hObserving : World.Observing R) (hEqual : Equal R host b d)
    {user leftUser value : Value κ} {flag : Bool} {children : List (Value κ)} {next last final : World ω}
    {ending : Ending κ} (hRelated : R next last)
    (hEvaluates : Evaluates host
      (.generator (.altLeft b.program (.pair user (.bool flag))) (.err (.tree value children)))
      (.pair leftUser (.bool false)) next ending final) :
    ending.MetBy R host final
      (.generator (.altLeft d.program (.pair user (.bool flag))) (.err (.tree value children)))
      (.pair leftUser (.bool false)) last := by
  obtain ⟨right, done, _, hRuns, hRest, rfl⟩ := Evaluates.altLeft_clear_iff.mp hEvaluates
  obtain ⟨rfl, rfl⟩ := (follows_altRight_iff (hEqual.behaved.settled hRuns)).mp hRest
  obtain ⟨answer, ended, hAnswers, hAlike, hKept⟩ :=
    hEqual.into user flag _ _ _ _ (noting_related hObserving _ _ hRelated) hRuns
  have hJoins : Follows host (.altRight (.err (.tree value children))) answer ended
      (answer.joinedTo value children) ended :=
    (follows_altRight_iff (hEqual.otherBehaved.settled hAnswers)).mpr ⟨rfl, rfl⟩
  refine ⟨_, ended, Evaluates.altLeft_clear_iff.mpr ⟨answer, ended, _, hAnswers, hJoins, rfl⟩, ?_, hKept⟩
  rw [Ending.manner_after, Ending.manner_after, manner_joinedTo hAlike]

theorem altLeft_met (hObserving : World.Observing R) (hEqual : Equal R host b d) {user : Value κ}
    {flag : Bool} {left other inner : Ending κ} {next last final : World ω} (hSettled : left.Settled)
    (hSame : other.manner = left.manner) (hRelated : R next last)
    (hFollows : Follows host (.altLeft b.program (.pair user (.bool flag))) left next inner final) :
    ∃ answer ended, Follows host (.altLeft d.program (.pair user (.bool flag))) other last answer
      ended ∧ answer.manner = inner.manner ∧ R final ended := by
  cases left with
  | raised exception =>
      obtain rfl := Ending.raised_of_manner hSame
      obtain ⟨rfl, rfl⟩ := (Follows.raised_iff fun _ => rfl).mp hFollows
      exact ⟨_, last, .raised rfl, rfl, hRelated⟩
  | replaced exception =>
      obtain rfl := Ending.replaced_of_manner hSame
      obtain ⟨rfl, rfl⟩ := Follows.replaced_iff.mp hFollows
      exact ⟨_, last, .replaced, rfl, hRelated⟩
  | returned result state cost =>
      obtain ⟨spent, rfl⟩ := Ending.returned_of_manner hSame
      obtain ⟨_, hContinues, rfl⟩ := Follows.returned_iff.mp hFollows
      obtain ⟨hResult, ⟨leftUser, set⟩⟩ := hSettled
      cases hResult with
      | success value =>
          obtain ⟨rfl, rfl⟩ := Evaluates.altLeft_ok_iff.mp hContinues
          exact ⟨_, last, .returned (.returned rfl), rfl, hRelated⟩
      | failure value children =>
          cases set with
          | true =>
              obtain ⟨rfl, rfl⟩ := Evaluates.altLeft_set_iff.mp hContinues
              exact ⟨_, _, .returned (Evaluates.altLeft_set_iff.mpr ⟨rfl, rfl⟩), rfl,
                noting_related hObserving _ _ hRelated⟩
          | false =>
              obtain ⟨answer, ended, hAnswers, hAlike, hKept⟩ :=
                altLeft_clear_met hObserving hEqual hRelated hContinues
              refine ⟨_, ended, .returned hAnswers, ?_, hKept⟩
              rw [Ending.manner_after, Ending.manner_after, hAlike]

theorem altOr_simulated (hObserving : World.Observing R) (hFirsts : Equal R host a c)
    (hSeconds : Equal R host b d) :
    Program.Simulated R host (altOr a b).program (altOr c d).program := by
  intro user flag start world ending final hRelated hEvaluates
  obtain ⟨left, next, inner, hRuns, hFollows, rfl⟩ := Evaluates.altOr_iff.mp hEvaluates
  obtain ⟨other, last, hAnswers, hSame, hKept⟩ := hFirsts.into user flag _ _ _ _ hRelated hRuns
  obtain ⟨answer, ended, hOnward, hAlike, hMet⟩ :=
    altLeft_met hObserving hSeconds (hFirsts.behaved.settled hRuns) hSame hKept hFollows
  exact ⟨_, ended, Evaluates.altOr_iff.mpr ⟨other, last, answer, hAnswers, hOnward, rfl⟩,
    by simpa using hAlike, hMet⟩

theorem WellBehaved.altOr (hFirst : a.WellBehaved host) (hSecond : b.WellBehaved host) :
    (altOr a b).WellBehaved host := by
  intro user flag world value state steps final hRuns
  obtain ⟨left, next, hRan, hResolves⟩ := (altOr_runs_iff hFirst hSecond).mp hRuns
  generalize hEnded : Outcome.returned value state steps = outcome at hResolves
  cases hResolves with
  | succeeded | aborted =>
      cases hEnded
      exact hFirst _ _ _ _ _ _ _ hRan
  | raised => cases hEnded
  | @retried root _ children _ _ _ right hRightRan =>
      cases right with
      | raised => cases hEnded
      | returned result state cost =>
          obtain ⟨hResult, hPair⟩ := hSecond _ _ _ _ _ _ _ hRightRan
          cases hResult with
          | success success =>
              cases hEnded
              exact ⟨.success success, hPair⟩
          | failure root' grandchildren =>
              cases hEnded
              exact ⟨.failure root _, hPair⟩

theorem altOr_equal (hObserving : World.Observing R) (hFirsts : Equal R host a c)
    (hSeconds : Equal R host b d) : Equal R host (altOr a b) (altOr c d) where
  behaved := hFirsts.behaved.altOr hSeconds.behaved
  otherBehaved := hFirsts.otherBehaved.altOr hSeconds.otherBehaved
  into := altOr_simulated hObserving hFirsts hSeconds
  back := altOr_simulated hObserving.symm hFirsts.symm hSeconds.symm

theorem choice_equal (hObserving : World.Observing R) {as bs : List (Alternative κ)}
    (hFirst : Equal R host a b) (hOthers : List.Forall₂ (Equal R host) as bs) :
    Equal R host (choice a as) (choice b bs) := by
  induction hOthers generalizing a b with
  | nil => exact hFirst
  | cons hSecond _ ih => exact ih (altOr_equal hObserving hFirst hSecond)

theorem altOrRightAssoc_equal (hObserving : World.Observing R) {as bs : List (Alternative κ)}
    (hFirst : Equal R host a b) (hOthers : List.Forall₂ (Equal R host) as bs) :
    Equal R host (altOrRightAssoc a as) (altOrRightAssoc b bs) := by
  induction hOthers generalizing a b with
  | nil => exact hFirst
  | cons hSecond _ ih => exact altOr_equal hObserving hFirst (ih hSecond)

theorem Layer.equal {M : Alternative κ → Alternative κ → Prop} (hObserving : World.Observing R)
    (hEqual : ∀ c d, M c d → Equal R host c d) (hLayer : Layer R host M a b) : Equal R host a b := by
  cases hLayer with
  | bind hPart hBinds => exact bind_equal hObserving (hEqual _ _ hPart) (hBinds.imp hEqual)
  | fmap hPart hMaps => exact fmap_equal hObserving (hEqual _ _ hPart) hMaps
  | apply hFunctions hGives hPart =>
      exact apply_equal hObserving (hEqual _ _ hFunctions) (hEqual _ _ hPart) hGives
  | sequence hParts => exact sequence_equal hObserving (hParts.imp hEqual)
  | traverse items hBinds => exact traverse_equal hObserving items (hBinds.imp hEqual)
  | altOr hFirst hSecond => exact altOr_equal hObserving (hEqual _ _ hFirst) (hEqual _ _ hSecond)
  | choice hFirst hOthers => exact choice_equal hObserving (hEqual _ _ hFirst) (hOthers.imp hEqual)
  | altOrRightAssoc hFirst hOthers =>
      exact altOrRightAssoc_equal hObserving (hEqual _ _ hFirst) (hOthers.imp hEqual)
  | ofCall hName hStarted hBodies => exact ofCall_equal hObserving hName hStarted (hBodies.imp hEqual)

theorem Exchanged.equal (hObserving : World.Observing R)
    (hExchanged : Exchanged (Equal R host) R host a b) :
    Equal R host a b := by
  induction hExchanged with
  | hole hEqual => exact hEqual
  | layer _ hLayer ih => exact hLayer.equal hObserving ih

theorem Equal.runsLike (hEqual : Equal R host a b) : a.RunsLike R host b := by
  refine fun user flag first second hRelated => ⟨fun outcome final hRuns => ?_,
    fun outcome final hRuns => ?_⟩
  · obtain ⟨ending, hEvaluates, rfl⟩ := Program.runs_iff_exists_evaluates.mp hRuns
    obtain ⟨other, last, hAnswers, hSame, hKept⟩ := hEqual.into user flag _ _ _ _ hRelated hEvaluates
    exact ⟨other.outcome, last, Program.runs_iff_exists_evaluates.mpr ⟨other, hAnswers, rfl⟩,
      Ending.result_eq_of_manner hSame, hKept⟩
  · obtain ⟨ending, hEvaluates, rfl⟩ := Program.runs_iff_exists_evaluates.mp hRuns
    obtain ⟨other, last, hAnswers, hSame, hKept⟩ := hEqual.back user flag _ _ _ _ hRelated hEvaluates
    exact ⟨other.outcome, last, Program.runs_iff_exists_evaluates.mpr ⟨other, hAnswers, rfl⟩,
      Ending.result_eq_of_manner hSame, hKept⟩

end Alternative

/-- Closing a body in do-notation raises no exception. -/
def Host.ClosesCleanly (host : Host κ τ ω) : Prop :=
  ∀ t world exception final, host.close t world ≠ .error (.raised exception) final

namespace Host.ClosesCleanly

variable (hClean : host.ClosesCleanly)

include hClean

theorem frame (frame : Frame κ τ) (world : World ω) (exception : Raised κ) (final : World ω) :
    frame.close host world ≠ .error (.raised exception) final := by
  cases frame with
  | task t | body name t =>
      intro hFailed
      obtain ⟨inner, hClosed, _⟩ := Exec.sealed_eq_raised.mp hFailed
      exact hClean t world inner final hClosed
  | _ => nofun

theorem not_replaced {activity : Activity κ τ} {state : Value κ} {world final : World ω}
    {ending : Ending κ} (hEvaluates : Evaluates host activity state world ending final) :
    ∀ exception, ending ≠ .replaced exception := by
  induction hEvaluates with
  | @generator _ _ _ _ ending _ _ ih | @yielded _ _ _ _ _ _ _ _ _ _ _ ending _ _ _ _ _ ih =>
      cases ending with
      | returned | raised => nofun
      | replaced other => exact absurd rfl (ih other)
  | yieldedReplacing _ _ hFailed => exact absurd hFailed (hClean.frame _ _ _ _)
  | @yieldedReplaced _ _ _ _ _ _ _ exception _ _ _ ih => exact absurd rfl (ih exception)
  | _ => nofun

end Host.ClosesCleanly

namespace Alternative

variable {a b : Alternative κ}

theorem manner_eq_of_result {ending other : Ending κ} (hSame : other.outcome.result = ending.outcome.result)
    (hKept : ∀ exception, ending ≠ .replaced exception)
    (hOtherKept : ∀ exception, other ≠ .replaced exception) : other.manner = ending.manner := by
  cases ending with
  | replaced exception => exact absurd rfl (hKept exception)
  | returned value state cost =>
      cases other with
      | replaced exception => exact absurd rfl (hOtherKept exception)
      | raised => cases hSame
      | returned =>
          cases hSame
          rfl
  | raised exception =>
      cases other with
      | replaced exception => exact absurd rfl (hOtherKept exception)
      | returned => cases hSame
      | raised =>
          cases hSame
          rfl

theorem simulated_of_within (hClean : host.ClosesCleanly)
    (hWithin : ∀ user flag first second, R first second →
      Outcomes.Within R (a.program.Runs host (.pair user (.bool flag)) first)
        (b.program.Runs host (.pair user (.bool flag)) second)) :
    Program.Simulated R host a.program b.program := by
  intro user flag first second ending final hRelated hEvaluates
  obtain ⟨_, last, hRuns, hSame, hKept⟩ := hWithin user flag first second hRelated _ final
    (Program.runs_iff_exists_evaluates.mpr ⟨ending, hEvaluates, rfl⟩)
  obtain ⟨other, hAnswers, rfl⟩ := Program.runs_iff_exists_evaluates.mp hRuns
  exact ⟨other, last, hAnswers, manner_eq_of_result hSame (hClean.not_replaced hEvaluates)
    (hClean.not_replaced hAnswers), hKept⟩

theorem Equal.of_indistinct (hClean : host.ClosesCleanly) (hIndistinct : Indistinct R host a b) :
    Equal R host a b where
  behaved := hIndistinct.behaved
  otherBehaved := hIndistinct.otherBehaved
  into := simulated_of_within hClean fun user flag first second hRelated =>
    (hIndistinct.alike user flag first second hRelated).into
  back := simulated_of_within hClean fun user flag first second hRelated =>
    (hIndistinct.alike user flag second first hRelated).back

theorem Equal.indistinct (hEqual : Equal R host a b) : Indistinct R host a b :=
  ⟨hEqual.behaved, hEqual.otherBehaved, hEqual.runsLike⟩

/-- Equality is a congruence where closing raises no exception: exchanging, in the holes of a context,
alternatives whose runs come to the same gives a whole whose runs come to the same. The finer equality, which
tells an exception that is raised while generators are closed from the others, is one without that condition.
A bind, in particular, runs as its first computation does alone and then, on a success, as the alternative does
alone that the binder gives, unless the call raises what would end a generator. -/
theorem equality_congruent (hObserving : World.Observing R) :
    (host.ClosesCleanly → ∀ a b, Exchanged (Indistinct R host) R host a b → Indistinct R host a b) ∧
    (∀ a b, Exchanged (Equal R host) R host a b → Equal R host a b) ∧
    (∀ a b, Equal R host a b → Indistinct R host a b) ∧
    ∀ a f user flag world outcome final, a.WellBehaved host →
      (∀ value left set steps next, a.program.Runs host (.pair user (.bool flag)) world
        (.returned (.ok value) (.pair left (.bool set)) steps) next → ¬ host.Stops f value next) →
      ((bind a f).program.Runs host (.pair user (.bool flag)) world outcome final ↔
        ∃ first next, a.program.Runs host (.pair user (.bool flag)) world first next ∧
          Proceeds (host.CallsAlone f) first next outcome final) := by
  have hCongruent : ∀ a b, Exchanged (Equal R host) R host a b → Equal R host a b :=
    fun _ _ => Exchanged.equal hObserving
  refine ⟨fun hClean a b hExchanged => ?_, hCongruent, fun _ _ => Equal.indistinct, ?_⟩
  · exact (hCongruent a b (hExchanged.imp fun _ _ => Equal.of_indistinct hClean)).indistinct
  · intro a f user flag world outcome final hBehaved hOther
    have hGives := hBehaved.givesResults user flag world
    refine (Program.bind_runs_iff hGives).trans ?_
    refine exists_congr fun first => exists_congr fun next => and_congr_right fun hRuns => ?_
    apply proceeds_congr
    rintro value left steps rfl _ _
    cases (hGives _ _ _ _ hRuns).2 with
    | mk user flag => exact Host.calls_iff_alone (hOther _ _ _ _ _ hRuns)

end Alternative

def Host.pluggable : Host Bool (Bool × Bool) Unit where
  debug := false
  call plug _ := pure (hole plug).toValue
  start plug _ := pure (.coroutine (plug, false))
  spawn plug _ := pure (plug, false)
  resume
    | (plug, false), _ => pure (.yielded (hole plug).toValue (plug, true))
    | (_, true), value => pure (.returned value)
  close _ := pure ()
where
  hole (plug : Bool) : Alternative Bool :=
    if plug then Alternative.altOr (Alternative.inject (.int 1)) (Alternative.error (.str "e"))
    else Alternative.inject (.int 1)

namespace Alternative

def plugged (plug : Bool) : Alternative Bool :=
  sequence [ofCall ⟨none, none, [], plug⟩ [], traverse [.int 0] (.code none plug)]

theorem hole_runsLike :
    (Host.pluggable.hole true).RunsLike Eq Host.pluggable (Host.pluggable.hole false) := by
  have hInjects := inject_wellBehaved Host.pluggable (.int 1)
  have hFails := error_wellBehaved Host.pluggable (.str "e")
  rintro user flag world _ rfl
  have hOnly : ∀ outcome final, (Host.pluggable.hole true).program.Runs Host.pluggable
      (.pair user (.bool flag)) world outcome final ↔
        outcome = .returned (.ok (.int 1)) (.pair user (.bool flag)) 3 ∧ final = world := by
    intro outcome final
    refine (altOr_runs_iff hInjects hFails).trans ?_
    exact (Outcomes.andThen_of_only (fun _ _ => Program.pure_runs_iff) outcome final).trans
      resolves_succeeded_iff
  exact .of_only hOnly (fun _ _ => Program.pure_runs_iff) rfl rfl

theorem plugged_exchanged (hIndistinct : Indistinct Eq Host.pluggable (Host.pluggable.hole true)
    (Host.pluggable.hole false)) :
    Exchanged (Indistinct Eq Host.pluggable) Eq Host.pluggable (plugged true) (plugged false) := by
  have hPlugs : Value.Exchanges (Indistinct Eq Host.pluggable) (Host.pluggable.hole true).toValue
      (Host.pluggable.hole false).toValue := .alternatives hIndistinct
  have hBody : Layer Eq Host.pluggable (Indistinct Eq Host.pluggable)
      (ofCall ⟨none, none, [], true⟩ []) (ofCall ⟨none, none, [], false⟩ []) := by
    refine .ofCall (B := fun t u => t.1 = true ∧ u.1 = false ∧ t.2 = u.2) rfl ?_ ⟨?_, ?_⟩
    · rintro world _ rfl
      exact .ok (.coroutine ⟨rfl, rfl, rfl⟩) rfl
    · rintro ⟨_, stage⟩ ⟨_, _⟩ ⟨rfl, rfl, rfl⟩ value world _ rfl
      cases stage with
      | false => exact .ok (.yielded hPlugs ⟨rfl, rfl, rfl⟩) rfl
      | true => exact .ok .returned rfl
    · rintro t u _ world _ rfl
      exact .ok rfl rfl
  have hTraversal : Layer Eq Host.pluggable (Indistinct Eq Host.pluggable)
      (traverse [.int 0] (.code none true)) (traverse [.int 0] (.code none false)) := by
    refine .traverse _ ?_
    rintro value world _ rfl
    exact .ok hPlugs rfl
  have hHoles : ∀ c d, Indistinct Eq Host.pluggable c d →
      Exchanged (Indistinct Eq Host.pluggable) Eq Host.pluggable c d := fun _ _ => .hole
  exact .layer (fun _ _ => id)
    (.sequence (.cons (.layer hHoles hBody) (.cons (.layer hHoles hTraversal) .nil)))

/-- Both ways to fill the holes run to the list of what the holes give. -/
theorem equality_congruent_of_plugged :
    Indistinct Eq Host.pluggable (plugged true) (plugged false) ∧
    ∃ steps final, (plugged true).program.Runs Host.pluggable (.pair (.int 5) (.bool false))
      ⟨(), #[], 0⟩ (.returned (.ok (.list [.int 1, .list [.int 1]])) (.pair (.int 5) (.bool false))
        steps) final := by
  obtain ⟨hCongruent, _⟩ := @equality_congruent _ _ _ _ Host.pluggable World.observing_eq
  have hInjects := inject_wellBehaved Host.pluggable (.int 1)
  have hFails := error_wellBehaved Host.pluggable (.str "e")
  have hIndistinct := hCongruent nofun _ _ (plugged_exchanged
    ⟨hInjects.altOr hFails, hInjects, hole_runsLike⟩)
  refine ⟨hIndistinct, ?_⟩
  have hSecond : (plugged false).program.Runs Host.pluggable (.pair (.int 5) (.bool false))
      ⟨(), #[], 0⟩ (.returned (.ok (.list [.int 1, .list [.int 1]])) (.pair (.int 5) (.bool false)) 5)
        ⟨(), #[], 0⟩ := ⟨30, rfl⟩
  obtain ⟨other, last, hRuns, hSame, _⟩ :=
    (hIndistinct.alike (.int 5) false ⟨(), #[], 0⟩ _ rfl).back _ _ hSecond
  cases other with
  | raised => cases hSame
  | returned value state steps =>
      cases hSame
      exact ⟨steps, last, hRuns⟩

end Alternative

/-- What the code of a host does that raises an exception when one of its bodies is closed. -/
inductive Closing where
  | first
  | second
  | inner
  | outer (plug : Bool)

/-- Its bodies, before their yield and at it. -/
inductive Closing.Body where
  | inner
  | outer (plug : Bool)
  | innerYielded
  | outerYielded

namespace Host

/-- A body that fails while it is closed, and a function that raises the same exception at once; another body
runs one of the two, and fails as well when it is closed. -/
def failsClosing : Host Closing Closing.Body Unit where
  debug := false
  call
    | .first, _ => Exec.raise (.thrown .value [.str "first"])
    | _, _ => Exec.raise (.thrown .value [.str "second"])
  start
    | .outer plug, _ => pure (.coroutine (.outer plug))
    | _, _ => pure (.coroutine .inner)
  spawn _ _ := throw .exhausted
  resume
    | .inner, _ => pure (.yielded (Alternative.modify (.code none .first)).toValue .innerYielded)
    | .outer plug, _ => pure (.yielded (hole plug).toValue .outerYielded)
    | _, value => pure (.returned value)
  close
    | .innerYielded => Exec.raise (.thrown .value [.str "second"])
    | .outerYielded => Exec.raise (.thrown .value [.str "third"])
    | _ => pure ()
where
  hole (plug : Bool) : Alternative Closing :=
    if plug then Alternative.ofCall ⟨none, none, [], .inner⟩ []
    else Alternative.attempt (.code none .second) []

end Host

namespace Alternative

def outer (plug : Bool) : Alternative Closing := ofCall ⟨none, none, [], .outer plug⟩ []

theorem failsClosing_hole_runs_iff (plug : Bool) (user : Value Closing) (flag : Bool) (world : World Unit)
    (outcome : Outcome Closing) (final : World Unit) :
    (Host.failsClosing.hole plug).program.Runs Host.failsClosing (.pair user (.bool flag)) world outcome
        final ↔
      outcome = .raised (.thrown .value [.str "second"]) ∧ final = world := by
  have hRuns : (Host.failsClosing.hole plug).program.Runs Host.failsClosing (.pair user (.bool flag))
      world (.raised (.thrown .value [.str "second"])) world := by
    cases plug <;> exact ⟨20, rfl⟩
  constructor
  · exact fun hOthers => hOthers.unique hRuns
  · rintro ⟨rfl, rfl⟩
    exact hRuns

theorem failsClosing_hole_indistinct :
    Indistinct Eq Host.failsClosing (Host.failsClosing.hole true) (Host.failsClosing.hole false) := by
  have hBehaved : ∀ plug, (Host.failsClosing.hole plug).WellBehaved Host.failsClosing := by
    intro plug user flag world value state steps final hRuns
    cases ((failsClosing_hole_runs_iff plug user flag world _ _).mp hRuns).1
  refine ⟨hBehaved true, hBehaved false, ?_⟩
  rintro user flag world _ rfl
  exact .of_only (failsClosing_hole_runs_iff true user flag world)
    (failsClosing_hole_runs_iff false user flag world) rfl rfl

theorem outer_exchanged :
    Exchanged (Indistinct Eq Host.failsClosing) Eq Host.failsClosing (outer true) (outer false) := by
  refine .layer (fun _ _ => .hole) (.ofCall (B := fun t u =>
    t = .outer true ∧ u = .outer false ∨ t = .outerYielded ∧ u = .outerYielded) rfl ?_ ⟨?_, ?_⟩)
  · rintro world _ rfl
    exact .ok (.coroutine (.inl ⟨rfl, rfl⟩)) rfl
  · rintro t u (⟨rfl, rfl⟩ | ⟨rfl, rfl⟩) value world _ rfl
    · exact .ok (.yielded (.alternatives failsClosing_hole_indistinct) (.inr ⟨rfl, rfl⟩)) rfl
    · exact .ok .returned rfl
  · rintro t u (⟨rfl, rfl⟩ | ⟨rfl, rfl⟩) world _ rfl
    · exact .ok rfl rfl
    · exact .error rfl

/-- Exchanged for one another in a body, alternatives with the same runs give wholes that raise different
exceptions: the body is not closed once the closing of another one has failed. -/
theorem equality_not_congruent_of_failsClosing :
    Exchanged (Indistinct Eq Host.failsClosing) Eq Host.failsClosing (outer true) (outer false) ∧
    (outer true).program.Runs Host.failsClosing (.pair (.int 0) (.bool false)) ⟨(), #[], 0⟩
      (.raised (.thrown .value [.str "second"])) ⟨(), #[], 0⟩ ∧
    (outer false).program.Runs Host.failsClosing (.pair (.int 0) (.bool false)) ⟨(), #[], 0⟩
      (.raised (.thrown .value [.str "third"])) ⟨(), #[], 0⟩ ∧
    ¬ Indistinct Eq Host.failsClosing (outer true) (outer false) := by
  have hFirst : (outer true).program.Runs Host.failsClosing (.pair (.int 0) (.bool false)) ⟨(), #[], 0⟩
      (.raised (.thrown .value [.str "second"])) ⟨(), #[], 0⟩ := ⟨30, rfl⟩
  have hSecond : (outer false).program.Runs Host.failsClosing (.pair (.int 0) (.bool false))
      ⟨(), #[], 0⟩ (.raised (.thrown .value [.str "third"])) ⟨(), #[], 0⟩ := ⟨30, rfl⟩
  refine ⟨outer_exchanged, hFirst, hSecond, fun hIndistinct => ?_⟩
  obtain ⟨other, last, hRuns, hSame, _⟩ :=
    (hIndistinct.alike (.int 0) false ⟨(), #[], 0⟩ _ rfl).into _ _ hFirst
  obtain ⟨rfl, _⟩ := hRuns.unique hSecond
  simp [Outcome.result] at hSame

end Alternative

end Backtrack
