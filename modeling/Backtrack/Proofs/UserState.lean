import Backtrack.Proofs.ApplicativeLaws
import Backtrack.Proofs.Bracketing
import Backtrack.Proofs.Congruence

namespace Backtrack

variable {κ τ ω : Type} {host : Host κ τ ω} {R : World ω → World ω → Prop}
  {f g setter joined : Callable κ} {value state user left failure snapshot beside : Value κ}
  {a b : Alternative κ} {world first second next : World ω}

open Outcomes

namespace Program

theorem runs_of_returned {p : Program κ} (hOnly : ∀ ending final,
      Evaluates host (.program p) state world ending final ↔
        ending = .returned value left 1 ∧ final = next) :
    p.Runs host state world = (returning value left next).after 1 := by
  apply eq_of_iff
  intro outcome final
  have hEnds : (∃ ending, Evaluates host (.program p) state world ending final ∧
      ending.outcome = outcome) ↔ outcome = .returned value left 1 ∧ final = next :=
    Ending.exists_ending_iff fun ending => hOnly ending final
  rw [runs_iff_exists_evaluates, after_of_only fun _ _ => returning_iff]
  exact hEnds

theorem get_runs :
    (Program.get : Program κ).Runs host state world = (returning state state world).after 1 :=
  runs_of_returned fun _ _ => Evaluates.get_iff

theorem put_runs :
    (Program.put value).Runs host state world = (returning .null value world).after 1 :=
  runs_of_returned fun _ _ => Evaluates.put_iff

theorem modify_runs {f : Mapper κ} :
    (Program.modify f).Runs host state world =
      after (Exec.Leads (returning .null) (host.applyMapper f state world)) 1 := by
  rw [← Exec.leads_after]
  cases hApplied : host.applyMapper f state world with
  | ok changed next =>
      rw [Exec.leads_ok]
      exact runs_of_returned fun _ _ => Evaluates.modify_iff hApplied
  | error halt next =>
      apply eq_of_iff
      intro outcome final
      rw [runs_iff_exists_evaluates]
      cases halt with
      | raised exception =>
          rw [Exec.leads_raised_iff]
          exact Ending.exists_ending_iff fun _ => Evaluates.modifyRaised_iff hApplied
      | exhausted =>
          refine iff_of_false ?_ Exec.not_leads_exhausted
          rintro ⟨_, hEvaluates, _⟩
          exact Evaluates.not_modify_of_exhausted hApplied hEvaluates

end Program

theorem Exec.leads_pure {α : Type} {S : α → World ω → Outcomes κ ω} {a : α} :
    Leads S ((pure a : Exec κ ω α) world) = S a world :=
  leads_ok

def Value.RunsGiven (host : Host κ τ ω) (state : Value κ) : Value κ → World ω → Outcomes κ ω
  | .alternative _ p, world => p.Runs host state world
  | other, world => raising (.fault (.expectedAlternative .binderResult other.typeName)) world

def Value.RunsAs (host : Host κ τ ω) (a : Alternative κ) (value : Value κ) : Prop :=
  ∃ mark p, value = .alternative mark p ∧ p.Runs host = a.program.Runs host

theorem Value.RunsAs.runsGiven (hRuns : Value.RunsAs host a value) :
    Value.RunsGiven host state value world = a.program.Runs host state world := by
  obtain ⟨mark, p, rfl, hSame⟩ := hRuns
  rw [RunsGiven, hSame]

namespace Frame

theorem bound_comes_ok :
    (bound (.call f) : Frame κ τ).Comes host (.ok value) state world =
      Exec.Leads (Value.RunsGiven host state) ((host.invoke f [value]).sealed world) := by
  apply comes_eq_leads rfl
  intro given next hResumed
  apply eq_of_iff
  intro outcome final
  cases given with
  | alternative mark p => exact comes_of_relaying hResumed
  | _ => exact comes_of_raised hResumed

end Frame

namespace Alternative

theorem get_runs :
    (get : Alternative κ).program.Runs host (.pair user beside) world =
      (returning (.ok user) (.pair user beside) world).after 2 := by
  have hRead : (Frame.mapped .readUser : Frame κ τ).Comes host (.pair user beside) (.pair user beside)
      world = returning (.ok user) (.pair user beside) world :=
    eq_of_iff fun _ _ => Frame.comes_of_returned rfl
  rw [get, Program.generator_runs, Frame.comes_eq_onto rfl fun _ => rfl, Program.get_runs,
    after_andThen_onto, returning_andThen, hRead, after_after]

theorem modifyBy_runs {f : Mapper κ} :
    (modifyBy f).program.Runs host (.pair user beside) world =
      after (Exec.Leads (fun changed => returning (.ok .null) (.pair changed beside))
        (host.applyMapper f user world)) 2 := by
  have hChanges : host.applyMapper (.updateUser f) (.pair user beside) world =
      (host.applyMapper f user >>= fun changed => pure (.pair changed beside)) world := rfl
  have hMapped (state : Value κ) (next : World ω) :
      (Frame.mapped .succeedEmpty : Frame κ τ).Comes host .null state next =
        returning (.ok .null) state next :=
    eq_of_iff fun _ _ => Frame.comes_of_returned rfl
  rw [modifyBy, Program.generator_runs, Frame.comes_eq_onto rfl fun _ => rfl, Program.modify_runs,
    hChanges, Exec.leads_bind, after_andThen_onto, Exec.leads_andThen_onto, after_after]
  simp only [Exec.leads_pure, returning_andThen, hMapped]

theorem modify_runs :
    (modify f).program.Runs host (.pair user beside) world =
      after (Exec.Leads (fun changed => returning (.ok .null) (.pair changed beside))
        (host.invoke f [user] world)) 2 :=
  modifyBy_runs

theorem put_runs :
    (put value).program.Runs host (.pair user beside) world =
      (returning (.ok .null) (.pair value beside) world).after 2 := by
  rw [put, modifyBy_runs]
  exact congrArg (after · 2) Exec.leads_pure

theorem bind_get_runs :
    (bind get f).program.Runs host (.pair user beside) world =
      after (Exec.Leads (Value.RunsGiven host (.pair user beside))
        ((host.invoke f [user]).sealed world)) 3 := by
  rw [bind, Program.bind_runs, get_runs, after_andThen_onto, returning_andThen, Frame.bound_comes_ok,
    after_after]

theorem bind_modify_runs :
    (bind (modify f) g).program.Runs host (.pair user beside) world =
      after (Exec.Leads (fun changed next =>
        Exec.Leads (Value.RunsGiven host (.pair changed beside)) ((host.invoke g [.null]).sealed next))
        (host.invoke f [user] world)) 3 := by
  rw [bind, Program.bind_runs, modify_runs, after_andThen_onto, Exec.leads_andThen_onto, after_after]
  simp only [returning_andThen, Frame.bound_comes_ok]

theorem bind_put_runs :
    (bind (put value) f).program.Runs host (.pair user beside) world =
      after (Exec.Leads (Value.RunsGiven host (.pair value beside))
        ((host.invoke f [.null]).sealed world)) 3 := by
  rw [bind, Program.bind_runs, put_runs, after_andThen_onto, returning_andThen, Frame.bound_comes_ok,
    after_after]

theorem error_runs :
    (error failure).program.Runs host state world =
      (returning (.failWith failure) state world).after 2 := by
  apply eq_of_iff
  intro outcome final
  rw [error, error_runs_iff, after_of_only fun _ _ => returning_iff]
  rfl

end Alternative

namespace Host

def Gives (R : World ω → World ω → Prop) (host : Host κ τ ω) (f : Callable κ) (argument : Value κ)
    (a : Alternative κ) : Prop :=
  ∀ world, ∃ given next, host.invoke f [argument] world = .ok given next ∧
    Value.RunsAs host a given ∧ R next world

def CallsAlike (R : World ω → World ω → Prop) (host : Host κ τ ω) (f : Callable κ)
    (args : List (Value κ)) (g : Callable κ) (others : List (Value κ)) : Prop :=
  ∀ first second, R first second →
    Exec.MatchesBy (Value.RunLike R host) R (host.invoke f args first) (host.invoke g others second)

def ReadsAgain (R : World ω → World ω → Prop) (host : Host κ τ ω) (k reader : Callable κ) : Prop :=
  ∀ value world, ∃ inner given next, host.invoke reader [value] world = .ok given next ∧
    Value.RunsAs host (.bind .get inner) given ∧ R next world ∧
    ∀ again, host.CallsAlike R inner [again] k [value, again]

def WritesResult (R : World ω → World ω → Prop) (host : Host κ τ ω) (f setter : Callable κ) : Prop :=
  ∀ value world, Exec.MatchesBy (fun result given => Value.RunsAs host (.put result) given) R
    (host.invoke f [value] world) (host.invoke setter [value] world)

variable {args others : List (Value κ)}

theorem Gives.leads_eq (hGives : host.Gives R f value a) (state : Value κ) (world : World ω) :
    ∃ next, R next world ∧
      Exec.Leads (Value.RunsGiven host state) ((host.invoke f [value]).sealed world) =
        a.program.Runs host state next := by
  obtain ⟨given, next, hInvoked, hRuns, hRelated⟩ := hGives world
  refine ⟨next, hRelated, ?_⟩
  rw [Exec.sealed_of_ok hInvoked, Exec.leads_ok, hRuns.runsGiven]

theorem CallsAlike.leads_alike (hAlike : host.CallsAlike R f args g others) (user : Value κ)
    (flag : Bool) (hRelated : R first second) :
    Alike R
      (Exec.Leads (Value.RunsGiven host (.pair user (.bool flag)))
        ((host.invoke f args).sealed first))
      (Exec.Leads (Value.RunsGiven host (.pair user (.bool flag)))
        ((host.invoke g others).sealed second)) := by
  apply (hAlike first second hRelated).sealed.leads
  intro _ _ here there hGiven hMet
  cases hGiven with
  | mk hRuns => exact hRuns user flag here there hMet

end Host

theorem Exec.MatchesBy.changes_alike {result answer : EStateM.Result (Halt κ) (World ω) (Value κ)}
    (hMatched : Exec.MatchesBy Eq R result answer) :
    Alike R (Exec.Leads (fun changed => returning (.ok .null) (.pair changed beside)) result)
      (Exec.Leads (fun changed => returning (.ok .null) (.pair changed beside)) answer) := by
  apply hMatched.leads
  rintro changed _ first second rfl hRelated
  exact .returning hRelated

theorem Exec.leads_alike {α : Type} {S T : α → World ω → Outcomes κ ω} (hReflexive : ∀ x, R x x)
    (hOnward : ∀ a next, Alike R (S a next) (T a next))
    (result : EStateM.Result (Halt κ) (World ω) α) : Alike R (Leads S result) (Leads T result) := by
  cases result with
  | ok a next =>
      rw [leads_ok, leads_ok]
      exact hOnward a next
  | error halt next =>
      cases halt with
      | raised exception =>
          exact .of_only (fun _ _ => leads_raised_iff) (fun _ _ => leads_raised_iff) rfl
            (hReflexive next)
      | exhausted =>
          exact .of_never (fun _ _ => not_leads_exhausted) fun _ _ => not_leads_exhausted

namespace Alternative

variable {k reader : Callable κ}

theorem bind_put_put_runsAlike (hGives : host.Gives R f .null (put value)) (user : Value κ) :
    (bind (put user) f).RunsAlike R host (put value) := by
  intro before flag world
  obtain ⟨next, hRelated, hLeads⟩ := hGives.leads_eq (.pair user (.bool flag)) world
  rw [bind_put_runs, hLeads, put_runs, put_runs, after_after]
  exact ((Alike.returning hRelated).after_left _).after_right 2

theorem bind_put_get_runsAlike
    (hGives : host.Gives R f .null (bind get k)) (hCalls : host.CallsAlike R k [user] g [.null]) :
    (bind (put user) f).RunsAlike R host (bind (put user) g) := by
  intro before flag world
  obtain ⟨next, hRelated, hLeads⟩ := hGives.leads_eq (.pair user (.bool flag)) world
  rw [bind_put_runs, hLeads, bind_get_runs, bind_put_runs, after_after]
  exact ((hCalls.leads_alike user flag hRelated).after_left _).after_right 3

theorem bind_get_put_runsAlike (hGives : ∀ user, host.Gives R setter user (put user)) :
    (bind get setter).RunsAlike R host (inject .null) := by
  intro user flag world
  obtain ⟨next, hRelated, hLeads⟩ := (hGives user).leads_eq (.pair user (.bool flag)) world
  rw [bind_get_runs, hLeads, put_runs, inject_runs, after_after]
  exact ((Alike.returning hRelated).after_left _).after_right 1

theorem bind_get_get_runsAlike (hEquivalence : Equivalence R) (hReads : host.ReadsAgain R k reader)
    (hCalls : ∀ value, host.CallsAlike R g [value] k [value, value]) :
    (bind get reader).RunsAlike R host (bind get g) := by
  intro user flag world
  obtain ⟨inner, given, next, hInvoked, hRuns, hRelated, hAgain⟩ := hReads user world
  have hLeft := (hAgain user).leads_alike user flag hRelated
  have hRight := (hCalls user).leads_alike user flag (hEquivalence.refl world)
  rw [bind_get_runs, Exec.sealed_of_ok hInvoked, Exec.leads_ok, hRuns.runsGiven, bind_get_runs,
    bind_get_runs, after_after]
  refine (Alike.after_left ?_ _).after_right 3
  exact hLeft.trans_of (fun hFirst hSecond => hEquivalence.trans hFirst hSecond)
    (hRight.swap hEquivalence.symm)

theorem modify_alike (hWrites : host.WritesResult R f setter) (user : Value κ) (flag : Bool)
    (world : World ω) (hOther : ¬ host.Stops f user world) :
    Alike R ((modify f).program.Runs host (.pair user (.bool flag)) world)
      ((bind get setter).program.Runs host (.pair user (.bool flag)) world) := by
  have hSetter : ¬ host.Stops setter user world := by
    rintro ⟨args, last, hStops⟩
    have hMatched := hWrites user world
    rw [hStops] at hMatched
    obtain ⟨next, hInvoked, _⟩ := hMatched.symm.of_error
    exact hOther ⟨args, next, hInvoked⟩
  rw [modify_runs, bind_get_runs, Host.sealed_invoke_of_not_stops hSetter]
  refine (Alike.after_left ?_ 2).after_right 3
  apply (hWrites user world).leads
  intro result given first second hRuns hRelated
  rw [hRuns.runsGiven, put_runs]
  exact (Alike.returning hRelated).after_right 2

theorem modify_of_stops {args : List (Value κ)} (hWrites : host.WritesResult R f setter)
    (user : Value κ) (flag : Bool)
    (hInvoked : host.invoke f [user] world = .error (.raised (.thrown .stopIteration args)) next) :
    (∀ outcome final, (modify f).program.Runs host (.pair user (.bool flag)) world outcome final ↔
      outcome = .raised (.thrown .stopIteration args) ∧ final = next) ∧
    ∃ last, R next last ∧ ∀ outcome final,
      (bind get setter).program.Runs host (.pair user (.bool flag)) world outcome final ↔
        outcome = .raised (.thrown .runtime [.str "generator raised StopIteration"]) ∧
          final = last := by
  have hMatched := hWrites user world
  rw [hInvoked] at hMatched
  obtain ⟨last, hSetter, hRelated⟩ := hMatched.of_error
  refine ⟨fun outcome final => ?_, last, hRelated, fun outcome final => ?_⟩
  · rw [modify_runs, hInvoked, after_of_only fun _ _ => Exec.leads_raised_iff]
    rfl
  · rw [bind_get_runs, Exec.sealed_of_error hSetter, Halt.sealed,
      after_of_only fun _ _ => Exec.leads_raised_iff]
    rfl

theorem bind_modify_modify_runsAlike (hEquivalence : Equivalence R)
    (hGives : host.Gives R setter .null (modify g)) (hAlike : host.MapsAlike R g g)
    (hComposes : host.ComposesMaps R f g joined) :
    (bind (modify f) setter).RunsAlike R host (modify joined) := by
  intro user flag world
  have hChanged : Alike R
      (Exec.Leads (fun result next =>
        Exec.Leads (Value.RunsGiven host (.pair result (.bool flag)))
          ((host.invoke setter [.null]).sealed next)) (host.invoke f [user] world))
      (Exec.Leads (fun result next =>
        Exec.Leads (fun last => returning (.ok .null) (.pair last (.bool flag)))
          (host.invoke g [result] next)) (host.invoke f [user] world)) := by
    apply Exec.leads_alike hEquivalence.refl
    intro result next
    obtain ⟨later, hRelated, hLeads⟩ := hGives.leads_eq (.pair result (.bool flag)) next
    rw [hLeads, modify_runs]
    exact (hAlike result later next hRelated).changes_alike.after_left 2
  rw [bind_modify_runs, modify_runs]
  refine (Alike.after_left ?_ 3).after_right 2
  refine hChanged.trans_of (fun hFirst hSecond => hEquivalence.trans hFirst hSecond) ?_
  rw [← Exec.leads_bind]
  exact (hComposes user world).changes_alike

theorem altOr_runs :
    (altOr a b).program.Runs host state world =
      after (andThen (a.program.Runs host state world)
        (Onto ((Frame.altLeft b.program state).Comes host))) 2 := by
  have hBegins : (Frame.altSnapshot a.program b.program : Frame κ τ).Comes host state state world =
      andThen (a.program.Runs host state world)
        (Onto ((Frame.altLeft b.program state).Comes host)) :=
    Frame.comes_eq_onto rfl fun _ => rfl
  rw [altOr, Program.generator_runs, Frame.comes_eq_onto rfl fun _ => rfl, Program.get_runs,
    after_andThen_onto, returning_andThen, hBegins, after_after]

theorem altLeft_comes {p : Program κ} :
    (Frame.altLeft p snapshot : Frame κ τ).Comes host (.err failure) (.pair left (.bool false)) world =
      after (andThen (p.Runs host snapshot (host.noting .backtracked failure world))
        (Onto ((Frame.altRight (.err failure)).Comes host))) 2 := by
  have hRestores : (Frame.altFlag p snapshot (.err failure) : Frame κ τ).Comes host
      (.pair left (.bool false)) (.pair left (.bool false)) world =
      after ((Frame.altRestored p (.err failure) : Frame κ τ).Comes host .null snapshot
        (host.noting .backtracked failure world)) 1 := by
    rw [Frame.comes_eq_onto (Frame.resume_altFlag_clear host p snapshot failure left world)
      fun _ => rfl, Program.put_runs, after_andThen_onto, returning_andThen]
  rw [Frame.comes_eq_onto rfl fun _ => rfl, Program.get_runs, after_andThen_onto, returning_andThen,
    hRestores, after_after, Frame.comes_eq_onto rfl fun _ => rfl]

theorem resume_altRight (host : Host κ τ ω) (left right : Value κ) :
    (∃ result, ∀ world : World ω, (Frame.altRight left : Frame κ τ).resume host right world =
        .ok (.returned result) world) ∨
      ∃ exception, ∀ world : World ω, (Frame.altRight left : Frame κ τ).resume host right world =
        .error (.raised exception) world := by
  by_cases hSucceeded : ∃ value, right = .ok value
  · obtain ⟨value, rfl⟩ := hSucceeded
    exact .inl ⟨_, fun _ => rfl⟩
  have hJoins (world : World ω) : (Frame.altRight left : Frame κ τ).resume host right world =
      (Exec.demand (Frame.joinFailures left right) >>= Frame.finish) world := by
    cases right with
    | ok value => exact absurd ⟨value, rfl⟩ hSucceeded
    | _ => rfl
  cases hJoined : Frame.joinFailures left right with
  | ok result =>
      refine .inl ⟨result, fun world => (hJoins world).trans ?_⟩
      rw [hJoined]
      rfl
  | error cause =>
      refine .inr ⟨.fault cause, fun world => (hJoins world).trans ?_⟩
      rw [hJoined]
      rfl

theorem altRight_comes_alike (hRelated : R first second) :
    Alike R ((Frame.altRight left : Frame κ τ).Comes host value state first)
      ((Frame.altRight left : Frame κ τ).Comes host value state second) := by
  obtain ⟨result, hReturns⟩ | ⟨exception, hRaises⟩ := resume_altRight host left value
  · exact .of_only (fun _ _ => Frame.comes_of_returned (hReturns first))
      (fun _ _ => Frame.comes_of_returned (hReturns second)) rfl hRelated
  · exact .of_only (fun _ _ => Frame.comes_of_raised (hRaises first))
      (fun _ _ => Frame.comes_of_raised (hRaises second)) rfl hRelated

theorem altOr_put_error_alike (hObserving : World.Observing R)
    (hGives : host.Gives R f .null (error failure)) (hAlike : b.RunsLike R host b) (written user : Value κ)
    (world : World ω) :
    Alike R ((altOr (bind (put written) f) b).program.Runs host (.pair user (.bool false)) world)
      ((altOr (error failure) b).program.Runs host (.pair user (.bool false)) world) := by
  obtain ⟨next, hRelated, hLeads⟩ := hGives.leads_eq (.pair written (.bool false)) world
  have hNoted : R (host.noting .backtracked (.leaf failure) next)
      (host.noting .backtracked (.leaf failure) world) :=
    noting_related hObserving .backtracked (.leaf failure) hRelated
  rw [altOr_runs, altOr_runs, bind_put_runs, hLeads, error_runs, error_runs, after_after,
    after_andThen_onto, after_andThen_onto, returning_andThen, returning_andThen, Value.failWith,
    altLeft_comes, altLeft_comes]
  have hRestored := (hAlike user false _ _ hNoted).onto
    (S := (Frame.altRight (.err (.leaf failure))).Comes host)
    (T := (Frame.altRight (.err (.leaf failure))).Comes host) fun _ _ _ _ _ _ => altRight_comes_alike
  simp only [after_after]
  exact (hRestored.after_left _).after_right _

/-- The laws of the user state. The functions in them are given by what their calls do. -/
structure UserStateLaws (R : World ω → World ω → Prop) (host : Host κ τ ω) : Prop where
  /-- None of the three looks at what stands beside the user state, or changes it. -/
  flagless : ∀ (user beside : Value κ) (world : World ω),
    (get : Alternative κ).program.Runs host (.pair user beside) world =
      (returning (.ok user) (.pair user beside) world).after 2 ∧
    (∀ written, (put written).program.Runs host (.pair user beside) world =
      (returning (.ok .null) (.pair written beside) world).after 2) ∧
    ∀ f, (modify f).program.Runs host (.pair user beside) world =
      after (Exec.Leads (fun changed => returning (.ok .null) (.pair changed beside))
        (host.invoke f [user] world)) 2
  putPut : ∀ written later f, host.Gives R f .null (put later) →
    (bind (put written) f).RunsAlike R host (put later)
  putGet : ∀ written k f g, host.Gives R f .null (bind get k) →
    host.CallsAlike R k [written] g [.null] →
    (bind (put written) f).RunsAlike R host (bind (put written) g)
  getPut : ∀ setter, (∀ user, host.Gives R setter user (put user)) →
    (bind get setter).RunsAlike R host (inject .null)
  getGet : ∀ k reader g, host.ReadsAgain R k reader →
    (∀ value, host.CallsAlike R g [value] k [value, value]) →
    (bind get reader).RunsAlike R host (bind get g)
  /-- A change is a read and a write, unless its function raises what would end a generator. -/
  modifyGetPut : ∀ f setter, host.WritesResult R f setter →
    ∀ (user : Value κ) flag world, ¬ host.Stops f user world →
    Alike R ((modify f).program.Runs host (.pair user (.bool flag)) world)
      ((bind get setter).program.Runs host (.pair user (.bool flag)) world)
  /-- That exception leaves the change as it is, and the read and write as another one. -/
  stops : ∀ f setter, host.WritesResult R f setter →
    ∀ (user : Value κ) flag world args next,
    host.invoke f [user] world = .error (.raised (.thrown .stopIteration args)) next →
    (∀ outcome final, (modify f).program.Runs host (.pair user (.bool flag)) world outcome final ↔
      outcome = .raised (.thrown .stopIteration args) ∧ final = next) ∧
    ∃ last, R next last ∧ ∀ outcome final,
      (bind get setter).program.Runs host (.pair user (.bool flag)) world outcome final ↔
        outcome = .raised (.thrown .runtime [.str "generator raised StopIteration"]) ∧ final = last
  modifyModify : ∀ f g changer joined, host.Gives R changer .null (modify g) →
    host.MapsAlike R g g → host.ComposesMaps R f g joined →
    (bind (modify f) changer).RunsAlike R host (modify joined)
  /-- An alternation erases what its left operand wrote. -/
  erased : ∀ written failure f b, host.Gives R f .null (error failure) →
    b.RunsLike R host b → ∀ user world,
    Alike R ((altOr (bind (put written) f) b).program.Runs host (.pair user (.bool false)) world)
      ((altOr (error failure) b).program.Runs host (.pair user (.bool false)) world)

/-- The laws hold whatever relation of worlds stands for the same trace. What runs alike gives the same
result, leaves the same pair, raises the same exception and leaves corresponding worlds. -/
theorem user_state_laws (hEquivalence : Equivalence R) (hObserving : World.Observing R)
    (host : Host κ τ ω) : UserStateLaws R host where
  flagless _ _ _ := ⟨get_runs, fun _ => put_runs, fun _ => modify_runs⟩
  putPut written _ _ hGives := bind_put_put_runsAlike hGives written
  putGet _ _ _ _ hGives hCalls := bind_put_get_runsAlike hGives hCalls
  getPut _ hGives := bind_get_put_runsAlike hGives
  getGet _ _ _ hReads hCalls := bind_get_get_runsAlike hEquivalence hReads hCalls
  modifyGetPut _ _ hWrites user flag world := modify_alike hWrites user flag world
  stops _ _ hWrites user flag _ _ _ := modify_of_stops hWrites user flag
  modifyModify _ _ _ _ hGives hAlike hComposes :=
    bind_modify_modify_runsAlike hEquivalence hGives hAlike hComposes
  erased written _ _ _ hGives hAlike := altOr_put_error_alike hObserving hGives hAlike written

/-- A read and a write of what the function gives raise another exception than the change. -/
theorem modify_apart_from_bind_get :
    Host.stopper.WritesResult Eq (.code none ()) (.code none ()) ∧
    (∀ outcome final, (modify (.code none ())).program.Runs Host.stopper (.pair (.int 0) (.bool false))
        ⟨(), #[], 0⟩ outcome final ↔
      outcome = .raised (.thrown .stopIteration []) ∧ final = ⟨(), #[], 0⟩) ∧
    ∀ outcome final, (bind get (.code none ())).program.Runs Host.stopper
        (.pair (.int 0) (.bool false)) ⟨(), #[], 0⟩ outcome final ↔
      outcome = .raised (.thrown .runtime [.str "generator raised StopIteration"]) ∧
        final = ⟨(), #[], 0⟩ := by
  have hWrites : Host.stopper.WritesResult Eq (.code none ()) (.code none ()) :=
    fun _ _ => .error rfl
  have hInvoked : Host.stopper.invoke (.code none ()) [.int 0] ⟨(), #[], 0⟩ =
      .error (.raised (.thrown .stopIteration [])) ⟨(), #[], 0⟩ := rfl
  obtain ⟨hChange, _, rfl, hWrite⟩ := modify_of_stops hWrites (.int 0) false hInvoked
  exact ⟨hWrites, hChange, hWrite⟩

theorem get_runsLike (host : Host κ τ ω) : (get : Alternative κ).RunsLike R host get := by
  intro user flag first second hRelated
  rw [get_runs, get_runs]
  exact ((Alike.returning hRelated).after_left 2).after_right 2

end Alternative

def World.SameHost (first second : World ω) : Prop := first.host = second.host

theorem World.sameHost_equivalence : Equivalence (SameHost (ω := ω)) where
  refl _ := rfl
  symm hSame := Eq.symm hSame
  trans hSame hAgain := Eq.trans hSame hAgain

theorem World.sameHost_observing : World.Observing (SameHost (ω := ω)) where
  refl _ := rfl
  noted _ _ hSame _ := hSame

/-- Functions that build alternatives or call one another. Two log what they are called with: one injects
the list of it, and one wraps it in a list unless it is false. -/
inductive Keeping where
  | set
  | setting (user : Value Keeping)
  | listed
  | listing (value : Value Keeping)
  | reading
  | readingAgain
  | listingAfter (value : Value Keeping)
  | listingTwice
  | wrapped
  | settingWrapped
  | wrapping
  | wrappedTwice
  | failing

namespace Host

def keeper : Host Keeping Empty (List (Value Keeping)) where
  debug := true
  call
    | .set, [value] => build (.put value)
    | .setting user, [_] => build (.put user)
    | .listed, args => list args
    | .listing value, [_] => list [value]
    | .reading, [_] => build (.bind .get (.code none .listed))
    | .readingAgain, [value] => build (.bind .get (.code none (.listingAfter value)))
    | .listingAfter value, [again] => list [value, again]
    | .listingTwice, [value] => list [value, value]
    | .wrapped, [value] => wrap value
    | .settingWrapped, [value] => do build (.put (← wrap value))
    | .wrapping, [_] => build (.modify (.code none .wrapped))
    | .wrappedTwice, [value] => do wrap (← wrap value)
    | .failing, [_] => build (.error (.str "no"))
    | _, _ => pure .null
  start _ _ := pure (.value .null)
  spawn _ _ := throw .exhausted
  resume := nofun
  close := nofun
where
  build (a : Alternative Keeping) : Exec Keeping (List (Value Keeping)) (Value Keeping) :=
    Exec.giveOut a.toValue
  log (value : Value Keeping) : Exec Keeping (List (Value Keeping)) Unit :=
    modify fun world => { world with host := value :: world.host }
  list (args : List (Value Keeping)) : Exec Keeping (List (Value Keeping)) (Value Keeping) := do
    log (.list args)
    build (.inject (.list args))
  wrap (value : Value Keeping) : Exec Keeping (List (Value Keeping)) (Value Keeping) := do
    log value
    if value.isTrue then pure (.list [value]) else Exec.raise (.thrown .value [value])

theorem marked_runsAs (host : Host κ τ ω) (a : Alternative κ) (mark : Nat) :
    Value.RunsAs host a (a.toValue.marked mark) := by
  refine ⟨_, _, rfl, ?_⟩
  funext state world
  exact eq_of_iff fun _ _ => Program.runs_marked_iff

theorem keeper_gives {f : Callable Keeping} {argument : Value Keeping} {a : Alternative Keeping}
    (hBuilds : keeper.invoke f [argument] = keeper.build a) :
    keeper.Gives World.SameHost f argument a := by
  intro world
  rw [hBuilds]
  exact ⟨_, _, rfl, marked_runsAs keeper a _, rfl⟩

theorem keeper_lists {f g : Callable Keeping} {args others listed : List (Value Keeping)}
    (hLists : keeper.invoke f args = keeper.list listed)
    (hOtherLists : keeper.invoke g others = keeper.list listed) :
    keeper.CallsAlike World.SameHost f args g others := by
  intro first second hRelated
  rw [hLists, hOtherLists]
  exact .ok
    (.mk (Alternative.inject_runsLike keeper _) (Alternative.inject_givesResults keeper _)
      (Alternative.inject_givesResults keeper _))
    (congrArg (Value.list listed :: ·) hRelated)

theorem keeper_wraps :
    keeper.MapsAlike World.SameHost (.code none .wrapped) (.code none .wrapped) := by
  intro value first second hRelated
  have hLogged : value :: first.host = value :: second.host := congrArg (value :: ·) hRelated
  show Exec.MatchesBy _ _ (keeper.wrap value first) (keeper.wrap value second)
  unfold keeper.wrap
  cases value.isTrue with
  | true => exact .ok rfl hLogged
  | false => exact .error hLogged

theorem keeper_writes :
    keeper.WritesResult World.SameHost (.code none .wrapped) (.code none .settingWrapped) := by
  intro value world
  show Exec.MatchesBy _ _ (keeper.wrap value world) ((keeper.wrap value >>= _) world)
  unfold keeper.wrap
  cases value.isTrue with
  | true => exact .ok (marked_runsAs keeper _ _) rfl
  | false => exact .error rfl

theorem keeper_wrapsTwice :
    keeper.ComposesMaps World.SameHost (.code none .wrapped) (.code none .wrapped)
      (.code none .wrappedTwice) := by
  intro value world
  show Exec.MatchesBy _ _ ((keeper.wrap value >>= _) world) ((keeper.wrap value >>= _) world)
  unfold keeper.wrap
  cases value.isTrue with
  | true => exact .ok rfl rfl
  | false => exact .error rfl

end Host

namespace Alternative

/-- The laws at work. The change of a false state raises, on either side of its law; and a right operand
reads the state from before the left one wrote. -/
theorem user_state_laws_of_keeper :
    ((bind (put (.int 1)) (.code none (.setting (.int 2)))).RunsAlike World.SameHost Host.keeper
        (put (.int 2)) ∧
      (bind (put (.int 1)) (.code none .reading)).RunsAlike World.SameHost Host.keeper
        (bind (put (.int 1)) (.code none (.listing (.int 1)))) ∧
      (bind get (.code none .set)).RunsAlike World.SameHost Host.keeper (inject .null) ∧
      (bind get (.code none .readingAgain)).RunsAlike World.SameHost Host.keeper
        (bind get (.code none .listingTwice)) ∧
      ∀ world, Alike World.SameHost
        ((modify (.code none .wrapped)).program.Runs Host.keeper (.pair (.int 1) (.bool true)) world)
        ((bind get (.code none .settingWrapped)).program.Runs Host.keeper
          (.pair (.int 1) (.bool true)) world)) ∧
    (∃ final, (bind (modify (.code none .wrapped)) (.code none .wrapping)).program.Runs Host.keeper
      (.pair (.int 0) (.bool true)) ⟨[], #[], 0⟩ (.raised (.thrown .value [.int 0])) final) ∧
    ∃ steps final, (altOr (bind (put (.int 1)) (.code none .failing)) get).program.Runs Host.keeper
      (.pair (.int 5) (.bool false)) ⟨[], #[], 0⟩
      (.returned (.ok (.int 5)) (.pair (.int 5) (.bool false)) steps) final := by
  have hLaws := user_state_laws World.sameHost_equivalence World.sameHost_observing Host.keeper
  refine ⟨⟨?_, ?_, ?_, ?_, ?_⟩, ?_, ?_⟩
  · exact hLaws.putPut _ _ _ (Host.keeper_gives rfl)
  · exact hLaws.putGet _ _ _ _ (Host.keeper_gives rfl) (Host.keeper_lists rfl rfl)
  · exact hLaws.getPut _ fun user => Host.keeper_gives rfl
  · refine hLaws.getGet (.code none .listed) _ _ (fun value world => ?_)
      fun value => Host.keeper_lists rfl rfl
    have hGives : Host.keeper.Gives World.SameHost (.code none .readingAgain) value
        (bind get (.code none (.listingAfter value))) := Host.keeper_gives rfl
    obtain ⟨given, next, hBuilt, hRuns, hRelated⟩ := hGives world
    exact ⟨_, given, next, hBuilt, hRuns, hRelated, fun again => Host.keeper_lists rfl rfl⟩
  · intro world
    refine hLaws.modifyGetPut _ _ Host.keeper_writes _ _ _ ?_
    rintro ⟨args, next, ⟨⟩⟩
  · have hJoined : (modify (.code none .wrappedTwice)).program.Runs Host.keeper
        (.pair (.int 0) (.bool true)) ⟨[], #[], 0⟩ (.raised (.thrown .value [.int 0]))
        ⟨[.int 0], #[], 0⟩ := ⟨20, rfl⟩
    have hUnnested := hLaws.modifyModify _ _ (.code none .wrapping) _ (Host.keeper_gives rfl)
      Host.keeper_wraps Host.keeper_wrapsTwice
    obtain ⟨other, last, hRuns, hSame, _⟩ := (hUnnested (.int 0) true _).back _ _ hJoined
    obtain rfl := Outcome.raised_of_result hSame
    exact ⟨last, hRuns⟩
  · obtain ⟨final, hErased⟩ : ∃ final, (altOr (error (.str "no")) get).program.Runs Host.keeper
        (.pair (.int 5) (.bool false)) ⟨[], #[], 0⟩
        (.returned (.ok (.int 5)) (.pair (.int 5) (.bool false)) 8) final := ⟨_, 20, rfl⟩
    have hWritten := hLaws.erased (.int 1) _ (.code none .failing) get (Host.keeper_gives rfl)
      (get_runsLike Host.keeper)
    obtain ⟨other, last, hRuns, hSame, _⟩ := (hWritten (.int 5) _).back _ _ hErased
    obtain ⟨steps, rfl⟩ := Outcome.returned_of_result hSame
    exact ⟨steps, last, hRuns⟩

end Alternative

end Backtrack
