import Backtrack.Proofs.Likeness
import Backtrack.Proofs.Sequencing

namespace Backtrack

variable {κ τ ω : Type} {R : World ω → World ω → Prop} {host : Host κ τ ω}
  {f g unit composed : Callable κ} {value user : Value κ} {flag : Bool}
  {world first second : World ω}

inductive Value.RunLike (R : World ω → World ω → Prop) (host : Host κ τ ω) :
    Value κ → Value κ → Prop where
  | mk {mark other p q} : Alternative.RunsLike R host ⟨p⟩ ⟨q⟩ →
      Alternative.GivesResults host ⟨p⟩ → Alternative.GivesResults host ⟨q⟩ →
      RunLike R host (.alternative mark p) (.alternative other q)

inductive Value.BoundWith (R : World ω → World ω → Prop) (host : Host κ τ ω) (g : Callable κ) :
    Value κ → Value κ → Prop where
  | mk {mark other inner p q} : Alternative.RunsLike R host ⟨p⟩ ⟨q⟩ →
      Alternative.GivesResults host ⟨p⟩ → Alternative.GivesResults host ⟨q⟩ →
      BoundWith R host g (.alternative mark p) (.alternative other (.generator inner (.bind q (.call g))))

namespace Host

/-- Each call of the function gives an alternative that gives results, or raises an exception, and does
alike in corresponding worlds. -/
def Binds (R : World ω → World ω → Prop) (host : Host κ τ ω) (f : Callable κ) : Prop :=
  ∀ value first second, R first second →
    Exec.MatchesBy (Value.RunLike R host) R (host.invoke f [value] first)
      (host.invoke f [value] second)

def Injects (R : World ω → World ω → Prop) (host : Host κ τ ω) (unit : Callable κ) : Prop :=
  ∀ value first second, R first second → ∃ mark after,
    host.invoke unit [value] first = .ok (.alternative mark (Alternative.inject value).program) after ∧
      R after second

def Composes (R : World ω → World ω → Prop) (host : Host κ τ ω) (f g composed : Callable κ) : Prop :=
  ∀ value first second, R first second →
    Exec.MatchesBy (Value.BoundWith R host g) R (host.invoke f [value] first)
      (host.invoke composed [value] second)

open Outcomes

theorem Binds.calls_alike (hBinds : host.Binds R g) (hRelated : R first second) :
    Alike R (host.Calls g value (.pair user (.bool flag)) first)
      (host.Calls g value (.pair user (.bool flag)) second) := by
  have hMatched := hBinds value first second hRelated
  generalize hCalled : host.invoke g [value] first = result at hMatched
  generalize hAnswered : host.invoke g [value] second = answer at hMatched
  cases hMatched with
  | ok hHeld hKept =>
      cases hHeld with
      | mk hAlike =>
          exact (hAlike user flag _ _ hKept).congr (fun _ _ => Calls.ran_iff hCalled)
            fun _ _ => Calls.ran_iff hAnswered
  | @error halt _ _ hKept =>
      cases halt with
      | raised exception =>
          exact .of_only (fun _ _ => Calls.raised_iff hCalled) (fun _ _ => Calls.raised_iff hAnswered)
            rfl hKept
      | exhausted =>
          exact .of_never (fun _ _ => Calls.not_of_exhausted hCalled)
            fun _ _ => Calls.not_of_exhausted hAnswered

theorem Injects.calls_alike (hInjects : host.Injects R unit) {state : Value κ} {steps : Nat}
    (hRelated : R first second) :
    Alike R (host.Calls unit value state first)
      (fun outcome final => outcome = .returned (.ok value) state steps ∧ final = second) := by
  obtain ⟨mark, after, hInvoked, hKept⟩ := hInjects value first second hRelated
  have hOnly : ∀ outcome final, host.Calls unit value state first outcome final ↔
      outcome = .returned (.ok value) state 1 ∧ final = after := fun outcome final =>
    (Calls.ran_iff hInvoked).trans Program.pure_runs_iff
  exact .of_only hOnly (fun _ _ => Iff.rfl) rfl hKept

end Host

namespace Alternative

open Outcomes

variable {a : Alternative κ} {o other : Outcome κ}

theorem proceeds_alike (hBinds : host.Binds R g) (hSame : other.result = o.result)
    (hProper : ∀ value state steps, o = .returned value state steps →
      value.isResult = true ∧ state.IsStatePair) (hRelated : R first second) :
    Alike R (Proceeds (host.Calls g) o first) (Proceeds (host.Calls g) other second) := by
  have hOtherProper : ∀ value state steps, other = .returned value state steps →
      value.isResult = true := by
    rintro value state steps rfl
    cases o with
    | raised => cases hSame
    | returned =>
        cases hSame
        exact (hProper _ _ _ rfl).1
  have hSequels : Alike R (Sequel (host.Calls g) o first) (Sequel (host.Calls g) other second) :=
    Sequel.alike hSame hProper hRelated fun _ _ _ _ _ => hBinds.calls_alike hRelated
  exact ((hSequels.after_left 1).after_right 1).congr
    (fun _ _ => proceeds_iff_sequel fun value state steps hEnded => (hProper value state steps hEnded).1)
    fun _ _ => proceeds_iff_sequel hOtherProper

theorem calls_andThen_alike (hBinds : host.Binds R g) (hComposes : host.Composes R f g composed)
    (hRelated : R first second) (spent : Nat) :
    Alike R (andThen (after (host.Calls f value (.pair user (.bool flag)) first) spent)
        (Proceeds (host.Calls g)))
      (host.Calls composed value (.pair user (.bool flag)) second) := by
  have hMatched := hComposes value first second hRelated
  generalize hCalled : host.invoke f [value] first = result at hMatched
  generalize hAnswered : host.invoke composed [value] second = answer at hMatched
  cases hMatched with
  | ok hHeld hKept =>
      cases hHeld with
      | @mk mark _ _ p q hAlike hGives hOtherGives =>
          have hRuns := ((hAlike user flag _ _ hKept).congr (fun _ _ => Host.Calls.ran_iff hCalled)
            fun _ _ => Iff.rfl).after_left spent
          refine Alike.congr (hRuns.andThen ?_) (fun _ _ => Iff.rfl) fun outcome final =>
            (Host.Calls.ran_iff hAnswered).trans (Program.bind_runs_iff (hOtherGives user flag _))
          rintro _ next other last ⟨inner, hComes, rfl⟩ _ hSame hOnward
          refine proceeds_alike hBinds hSame (fun value state steps hEnded => ?_) hOnward
          cases inner with
          | raised => cases hEnded
          | returned result left cost =>
              cases hEnded
              exact hGives user flag _ _ _ cost next ((Host.Calls.ran_iff hCalled).mp hComes)
  | @error halt _ _ hKept =>
      cases halt with
      | raised exception =>
          refine .of_only (fun outcome final => ?_) (fun _ _ => Host.Calls.raised_iff hAnswered) rfl
            hKept
          rw [andThen_of_only (after_of_only (fun _ _ => Host.Calls.raised_iff hCalled) spent)]
          exact proceeds_raised_iff
      | exhausted =>
          refine .of_never ?_ fun _ _ => Host.Calls.not_of_exhausted hAnswered
          rintro outcome final ⟨_, _, ⟨inner, hComes, rfl⟩, _⟩
          exact Host.Calls.not_of_exhausted hCalled hComes

theorem proceeds_andThen_alike (hBinds : host.Binds R g) (hComposes : host.Composes R f g composed)
    (hSame : other.result = o.result)
    (hProper : ∀ value state steps, o = .returned value state steps →
      value.isResult = true ∧ state.IsStatePair) (hRelated : R first second) :
    Alike R (andThen (Proceeds (host.Calls f) o first) (Proceeds (host.Calls g)))
      (Proceeds (host.Calls composed) other second) := by
  cases o with
  | raised exception =>
      obtain rfl := Outcome.raised_of_result hSame
      refine .of_only (fun outcome final => ?_) (fun _ _ => proceeds_raised_iff) rfl hRelated
      rw [andThen_of_only fun _ _ => proceeds_raised_iff]
      exact proceeds_raised_iff
  | returned value state steps =>
      obtain ⟨more, rfl⟩ := Outcome.returned_of_result hSame
      obtain ⟨hResult, ⟨user, flag⟩⟩ := hProper _ _ _ rfl
      cases value with
      | err failure =>
          have hOnward : ∀ outcome final,
              andThen (Proceeds (host.Calls f) (.returned (.err failure) (.pair user (.bool flag)) steps)
                first) (Proceeds (host.Calls g)) outcome final ↔
              outcome = .returned (.err failure) (.pair user (.bool flag)) (steps + 1 + 1) ∧
                final = first := by
            intro outcome final
            rw [andThen_of_only fun _ _ => proceeds_failed_iff]
            exact proceeds_failed_iff
          exact .of_only hOnward (fun _ _ => proceeds_failed_iff) rfl hRelated
      | ok value =>
          refine Alike.congr ((calls_andThen_alike hBinds hComposes hRelated (steps + 1)).after_right
            (more + 1)) (fun outcome final => ?_) fun _ _ => proceeds_continued_iff
          exact exists_congr fun _ => exists_congr fun _ =>
            and_congr_left fun _ => proceeds_continued_iff
      | _ => cases hResult

theorem inject_givesResults (host : Host κ τ ω) (value : Value κ) :
    (inject value).GivesResults host :=
  (inject_wellBehaved host value).givesResults

theorem inject_runsLike (host : Host κ τ ω) (value : Value κ) :
    (inject value).RunsLike R host (inject value) :=
  fun _ _ _ _ hRelated =>
    .of_only (fun _ _ => Program.pure_runs_iff) (fun _ _ => Program.pure_runs_iff) rfl hRelated

theorem error_givesResults (host : Host κ τ ω) (failure : Value κ) {mark : Mark} :
    GivesResults host ⟨.generator mark (.map (.pure failure) .recordFailure)⟩ := by
  intro user flag world value state steps final hRuns
  obtain ⟨⟨⟩, rfl⟩ := error_runs_iff.mp hRuns
  exact ⟨rfl, .mk user flag⟩

theorem error_runsLike (host : Host κ τ ω) (failure : Value κ) {mark other : Mark} :
    RunsLike R host ⟨.generator mark (.map (.pure failure) .recordFailure)⟩
      ⟨.generator other (.map (.pure failure) .recordFailure)⟩ :=
  fun _ _ _ _ hRelated => .of_only (fun _ _ => error_runs_iff) (fun _ _ => error_runs_iff) rfl hRelated

theorem bind_inject_runs_iff {outcome : Outcome κ} {final : World ω} :
    (bind (inject value) f).program.Runs host (.pair user (.bool flag)) world outcome final ↔
      after (host.Calls f value (.pair user (.bool flag)) world) 2 outcome final := by
  have hProper := inject_givesResults host value user flag world
  rw [bind, Program.bind_runs_iff hProper, andThen_of_only fun _ _ => Program.pure_runs_iff]
  exact proceeds_continued_iff

theorem bind_unit_runsLike (hGives : a.GivesResults host) (hAlike : a.RunsLike R host a)
    (hInjects : host.Injects R unit) : (bind a unit).RunsLike R host a := by
  intro user flag first second hRelated
  have hRuns := (hAlike user flag first second hRelated).andThen (S := Proceeds (host.Calls unit))
    (T := fun ended next outcome final => outcome = ended ∧ final = next) ?_
  · refine hRuns.congr (fun _ _ => Program.bind_runs_iff (hGives user flag first)) fun o w => ?_
    exact ⟨fun hComes => ⟨o, w, hComes, rfl, rfl⟩, fun ⟨_, _, hComes, rfl, rfl⟩ => hComes⟩
  intro o next other last hComes hFound hSame hOnward
  cases o with
  | raised exception =>
      obtain rfl := Outcome.raised_of_result hSame
      exact .of_only (fun _ _ => proceeds_raised_iff) (fun _ _ => Iff.rfl) rfl hOnward
  | returned value state steps =>
      obtain ⟨more, rfl⟩ := Outcome.returned_of_result hSame
      have hResult := (hGives user flag first _ _ _ _ hComes).1
      cases value with
      | err failure =>
          exact .of_only (fun _ _ => proceeds_failed_iff) (fun _ _ => Iff.rfl) rfl hOnward
      | ok value =>
          exact ((hInjects.calls_alike hOnward).after_left (steps + 1)).congr
            (fun _ _ => proceeds_continued_iff) fun _ _ => Iff.rfl
      | _ => cases hResult

theorem bind_proper (hGives : a.GivesResults host) (hAlike : a.RunsLike R host a)
    (hComposes : host.Composes R f g composed) (hRelated : R first second) :
    Proper ((bind a f).program.Runs host (.pair user (.bool flag)) first) := by
  intro value state steps final hRuns
  obtain ⟨o, next, hComes, hProceeds⟩ := (Program.bind_runs_iff (hGives user flag first)).mp hRuns
  obtain ⟨_, last, _, _, hOnward⟩ := (hAlike user flag first second hRelated).into o next hComes
  generalize hEnded : Outcome.returned value state steps = ending at hProceeds
  cases hProceeds with
  | failed =>
      cases hEnded
      exact hGives user flag first _ _ _ _ hComes
  | raised => cases hEnded
  | @continued given left _ _ _ called hCalls =>
      obtain ⟨_, ⟨leftUser, leftFlag⟩⟩ := hGives user flag first _ _ _ _ hComes
      cases hCalls with
      | stray | raised => cases hEnded
      | ran hInvoked hRan =>
          have hMatched := hComposes given next last hOnward
          rw [Exec.sealed_eq_ok.mp hInvoked] at hMatched
          generalize host.invoke composed [given] last = answer at hMatched
          cases hMatched with
          | ok hHeld hKept =>
              cases hHeld with
              | mk _ hProducedGives =>
                  cases called with
                  | returned =>
                      cases hEnded
                      exact hProducedGives _ _ _ _ _ _ _ hRan
                  | raised => cases hEnded

theorem bind_bind_runsLike (hGives : a.GivesResults host) (hAlike : a.RunsLike R host a)
    (hBinds : host.Binds R g) (hComposes : host.Composes R f g composed) :
    (bind (bind a f) g).RunsLike R host (bind a composed) := by
  intro user flag first second hRelated
  have hRuns := (hAlike user flag first second hRelated).andThen
    (S := fun o next => andThen (Proceeds (host.Calls f) o next) (Proceeds (host.Calls g)))
    (T := Proceeds (host.Calls composed)) fun o next other last hComes _ hSame hOnward =>
      proceeds_andThen_alike hBinds hComposes hSame
        (fun value state steps hEnded => hGives user flag first value state steps next (hEnded ▸ hComes))
        hOnward
  refine hRuns.congr (fun outcome final => ?_) fun _ _ => Program.bind_runs_iff (hGives user flag second)
  rw [← andThen_assoc, bind, Program.bind_runs_iff (bind_proper hGives hAlike hComposes hRelated)]
  exact exists_congr fun _ => exists_congr fun _ =>
    and_congr_left fun _ => Program.bind_runs_iff (hGives user flag first)

/-- The monad laws. What runs alike gives the same result, even if it is a failure, leaves the same state
pair, raises the same exception and leaves corresponding worlds. The first law has an exception: what would
end a generator leaves the bind as another exception than the call. -/
theorem monad_laws (hGives : a.GivesResults host) (hAlike : a.RunsLike R host a)
    (hBinds : host.Binds R g) (hInjects : host.Injects R unit)
    (hComposes : host.Composes R f g composed) :
    (∀ value user flag world outcome final, ¬ host.Stops f value world →
      ((bind (inject value) f).program.Runs host (.pair user (.bool flag)) world outcome final ↔
        ∃ called, host.CallsAlone f value (.pair user (.bool flag)) world called final ∧
          outcome = called.after 2)) ∧
    (∀ value user flag world args next outcome final,
      host.invoke f [value] world = .error (.raised (.thrown .stopIteration args)) next →
      ((bind (inject value) f).program.Runs host (.pair user (.bool flag)) world outcome final ↔
        outcome = .raised (.thrown .runtime [.str "generator raised StopIteration"]) ∧ final = next)) ∧
    (bind a unit).RunsLike R host a ∧
    (bind (bind a f) g).RunsLike R host (bind a composed) := by
  refine ⟨?_, ?_, bind_unit_runsLike hGives hAlike hInjects,
    bind_bind_runsLike hGives hAlike hBinds hComposes⟩
  · intro value user flag world outcome final hOther
    rw [bind_inject_runs_iff]
    exact exists_congr fun _ => and_congr_left fun _ => Host.calls_iff_alone hOther
  · intro value user flag world args next outcome final hInvoked
    rw [bind_inject_runs_iff]
    exact after_of_only (fun _ _ => Host.Stops.calls_iff hInvoked) 2 outcome final

end Alternative

/-- The call raises one exception and the bind another. -/
theorem Alternative.bind_inject_seals_exception :
    (∀ outcome final, Host.stopper.CallsAlone (.code none ()) (.int 1) (.pair (.int 0) (.bool false))
        ⟨(), #[], 0⟩ outcome final ↔
      outcome = .raised (.thrown .stopIteration []) ∧ final = ⟨(), #[], 0⟩) ∧
    ∀ outcome final, (bind (inject (.int 1)) (.code none ())).program.Runs Host.stopper
        (.pair (.int 0) (.bool false)) ⟨(), #[], 0⟩ outcome final ↔
      outcome = .raised (.thrown .runtime [.str "generator raised StopIteration"]) ∧
        final = ⟨(), #[], 0⟩ := by
  have hInvoked : Host.stopper.invoke (.code none ()) [.int 1] ⟨(), #[], 0⟩ =
      .error (.raised (.thrown .stopIteration [])) ⟨(), #[], 0⟩ := rfl
  refine ⟨fun outcome final => Called.raised_iff hInvoked, fun outcome final => ?_⟩
  rw [bind_inject_runs_iff]
  exact Outcomes.after_of_only (fun _ _ => Host.Stops.calls_iff hInvoked) 2 outcome final

inductive Logged where
  | unit
  | checked
  | paired
  | composed

namespace Host

def logger : Host Logged Empty (List (Value Logged)) where
  debug := false
  call
    | .unit, [value] => Exec.giveOut (Alternative.inject value).toValue
    | .checked, [value] => checked value
    | .paired, [value] => do
        modify fun world => { world with host := value :: world.host }
        Exec.giveOut (Alternative.inject (.pair value value)).toValue
    | .composed, [value] => do
        match ← checked value with
        | .alternative _ p => Exec.giveOut (Alternative.bind ⟨p⟩ (.code none .paired)).toValue
        | other => pure other
    | _, _ => pure .null
  start _ _ := pure (.value .null)
  spawn _ _ := throw .exhausted
  resume := nofun
  close := nofun
where
  checked (value : Value Logged) : Exec Logged (List (Value Logged)) (Value Logged) := do
    modify fun world => { world with host := value :: world.host }
    Exec.giveOut (if value.isTrue then Alternative.inject value else Alternative.error value).toValue

def SameLog (first second : World (List (Value Logged))) : Prop := first.host = second.host

theorem logger_injects : logger.Injects SameLog (.code none .unit) :=
  fun _ first _ hRelated => ⟨some first.nextMark, _, rfl, hRelated⟩

theorem logger_binds : logger.Binds SameLog (.code none .paired) :=
  fun value _ _ hRelated => .ok
    (.mk (Alternative.inject_runsLike logger _) (Alternative.inject_givesResults logger _)
      (Alternative.inject_givesResults logger _))
    (congrArg (value :: ·) hRelated)

theorem logger_composes :
    logger.Composes SameLog (.code none .checked) (.code none .paired) (.code none .composed) := by
  intro value first second hRelated
  have hLogged : value :: first.host = value :: second.host := congrArg (value :: ·) hRelated
  show Exec.MatchesBy _ _ (logger.checked value first) ((logger.checked value >>= _) second)
  unfold logger.checked
  cases value.isTrue with
  | true =>
      exact .ok (.mk (Alternative.inject_runsLike logger value)
        (Alternative.inject_givesResults logger value)
        (Alternative.inject_givesResults logger value)) hLogged
  | false =>
      exact .ok (.mk (Alternative.error_runsLike logger value)
        (Alternative.error_givesResults logger value)
        (Alternative.error_givesResults logger value)) hLogged

end Host

namespace Alternative

/-- The failure of the first function is that of the whole, however the binds are nested; and a bind to an
injected value is the call. -/
theorem monad_laws_of_logger :
    (∀ outcome final, (bind (inject (.int 0)) (.code none .checked)).program.Runs Host.logger
        (.pair (.int 5) (.bool false)) ⟨[], #[], 0⟩ outcome final ↔
      ∃ called, Host.logger.CallsAlone (.code none .checked) (.int 0) (.pair (.int 5) (.bool false))
        ⟨[], #[], 0⟩ called final ∧ outcome = called.after 2) ∧
    (bind (bind (inject (.int 0)) (.code none .checked)) (.code none .paired)).RunsLike Host.SameLog
      Host.logger (bind (inject (.int 0)) (.code none .composed)) ∧
    ∃ steps final, (bind (inject (.int 0)) (.code none .composed)).program.Runs Host.logger
        (.pair (.int 5) (.bool false)) ⟨[], #[], 0⟩
        (.returned (.failWith (.int 0)) (.pair (.int 5) (.bool false)) steps) final ∧
      final.host = [.int 0] := by
  obtain ⟨hInjected, _, _, hAssociates⟩ := monad_laws (inject_givesResults Host.logger (.int 0))
    (inject_runsLike Host.logger (.int 0)) Host.logger_binds Host.logger_injects Host.logger_composes
  have hOther : ¬ Host.logger.Stops (.code none .checked) (.int 0) ⟨[], #[], 0⟩ := by
    rintro ⟨args, next, ⟨⟩⟩
  refine ⟨fun outcome final => hInjected _ _ _ _ outcome final hOther, hAssociates, ?_⟩
  have hNested : (bind (bind (inject (.int 0)) (.code none .checked)) (.code none .paired)).program.Runs
      Host.logger (.pair (.int 5) (.bool false)) ⟨[], #[], 0⟩
      (.returned (.failWith (.int 0)) (.pair (.int 5) (.bool false)) 5) ⟨[.int 0], #[], 1⟩ :=
    ⟨20, rfl⟩
  obtain ⟨other, last, hRuns, hSame, hLogged⟩ :=
    (hAssociates (.int 5) false ⟨[], #[], 0⟩ ⟨[], #[], 0⟩ rfl).into _ _ hNested
  cases other with
  | raised => cases hSame
  | returned value state steps =>
      cases hSame
      exact ⟨steps, last, hRuns, hLogged.symm⟩

end Alternative

end Backtrack
