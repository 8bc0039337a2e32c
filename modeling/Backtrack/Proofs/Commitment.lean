import Backtrack.Proofs.Bracketing
import Backtrack.Proofs.Congruence
import Backtrack.Proofs.MonadLaws
import Mathlib.Data.List.Induction

namespace Backtrack

variable {κ τ ω : Type} {host : Host κ τ ω} {R : World ω → World ω → Prop}
  {value state left failure user : Value κ} {children : List (Value κ)} {flag : Bool} {steps : Nat}
  {world next final first second : World ω} {outcome o other : Outcome κ} {f k : Callable κ}
  {a b c d : Alternative κ}

theorem Program.Runs.only {p : Program κ} (hRuns : p.Runs host state world outcome final)
    (o : Outcome κ) (w : World ω) :
    p.Runs host state world o w ↔ o = outcome ∧ w = final := by
  constructor
  · exact fun hAgain => hAgain.unique hRuns
  · rintro ⟨rfl, rfl⟩
    exact hRuns

theorem Outcome.result_joinedTo (hSame : other.result = o.result) :
    (other.joinedTo value children).result = (o.joinedTo value children).result := by
  cases o with
  | raised exception =>
      obtain rfl := Outcome.raised_of_result hSame
      rfl
  | returned result state cost =>
      obtain ⟨more, rfl⟩ := Outcome.returned_of_result hSame
      cases result <;> rfl

namespace Outcomes

variable {P : Outcomes κ ω} {S T : Value κ → Value κ → World ω → Outcomes κ ω}

theorem Alike.trans {Q V : Outcomes κ ω} (hAlike : Alike Eq P Q) (hOnward : Alike Eq Q V) :
    Alike Eq P V :=
  hAlike.trans_of (fun hLeft hRight => hLeft.trans hRight) hOnward

theorem Alike.andThen_congr {S T : Outcome κ → World ω → Outcomes κ ω}
    (hOnward : ∀ o w, P o w → Alike Eq (S o w) (T o w)) : Alike Eq (P.andThen S) (P.andThen T) where
  into outcome final := by
    rintro ⟨o, w, hComes, hContinues⟩
    obtain ⟨other, last, hFound, hRest⟩ := (hOnward o w hComes).into outcome final hContinues
    exact ⟨other, last, ⟨o, w, hComes, hFound⟩, hRest⟩
  back outcome final := by
    rintro ⟨o, w, hComes, hContinues⟩
    obtain ⟨other, last, hFound, hRest⟩ := (hOnward o w hComes).back outcome final hContinues
    exact ⟨other, last, ⟨o, w, hComes, hFound⟩, hRest⟩

theorem Alike.image {Q V U : Outcomes κ ω} {g h : Outcome κ → Outcome κ} (hAlike : Alike R V U)
    (hHolds : ∀ o w, P o w ↔ ∃ r, V r w ∧ o = g r) (hOtherHolds : ∀ o w, Q o w ↔ ∃ r, U r w ∧ o = h r)
    (hSame : ∀ o other, other.result = o.result → (h other).result = (g o).result) : Alike R P Q where
  into outcome final hComes := by
    obtain ⟨r, hFound, rfl⟩ := (hHolds outcome final).mp hComes
    obtain ⟨other, last, hAnswers, hKept, hRelated⟩ := hAlike.into r final hFound
    exact ⟨h other, last, (hOtherHolds _ _).mpr ⟨other, hAnswers, rfl⟩, hSame r other hKept, hRelated⟩
  back outcome final hComes := by
    obtain ⟨r, hFound, rfl⟩ := (hOtherHolds outcome final).mp hComes
    obtain ⟨other, last, hAnswers, hKept, hRelated⟩ := hAlike.back r final hFound
    exact ⟨g other, last, (hHolds _ _).mpr ⟨other, hAnswers, rfl⟩, (hSame other r hKept.symm).symm, hRelated⟩

theorem Sequel.alike_self (hSame : other.result = o.result)
    (hProper : ∀ value state steps, o = .returned value state steps →
      value.isResult = true ∧ state.IsStatePair) :
    Alike Eq (Sequel S o world) (Sequel S other world) :=
  Sequel.alike hSame hProper rfl fun _ _ _ _ _ => .refl _

end Outcomes

theorem Frame.relay_of_bound {given : Value κ} {rest : Frame κ τ}
    (hResumed : (Frame.bound (.call k)).resume host (.ok value) world = .ok (.yielded given rest) next) :
    rest = .relay := by
  have hCalls : ((host.invoke k [value]).sealed >>= Frame.yieldAlternative .binderResult .relay) world =
      .ok (.yielded given rest) next := hResumed
  obtain ⟨produced, _, _, hYields⟩ := Exec.bind_eq_ok.mp hCalls
  cases produced with
  | alternative =>
      cases hYields
      rfl
  | _ => cases hYields

theorem Visits.not_bound {q : Program κ} {seen : Value κ} {now : World ω} {above : List (Frame κ τ)} :
    ¬ Visits host q seen now (.generator (.bound (.call k)) (.ok value)) state world
      (above ++ [.bound (.call k)]) := by
  intro hVisits
  generalize hWhole : above ++ [.bound (.call k)] = waiting at hVisits
  cases hVisits with
  | inside hResumed =>
      obtain rfl := Frame.relay_of_bound hResumed
      obtain ⟨_, ⟨⟩⟩ := List.append_inj' hWhole rfl
  | later hResumed _ hOnward =>
      obtain rfl := Frame.relay_of_bound hResumed
      exact Visits.of_returned rfl hOnward

namespace Alternative

open Outcomes

theorem RunsLike.trans (hAlike : a.RunsLike Eq host b) (hOnward : b.RunsLike Eq host c) :
    a.RunsLike Eq host c := by
  rintro user flag world _ rfl
  exact (hAlike user flag world world rfl).trans (hOnward user flag world world rfl)

theorem resolves_alike (hObserving : World.Observing R) (hSame : other.result = o.result)
    (hResult : ∀ value state steps, o = .returned value state steps →
      value.IsResult ∧ state.IsStatePair)
    (hRelated : R first second)
    (hAlike : ∀ first second, R first second →
      Alike R (b.program.Runs host state first) (d.program.Runs host state second)) :
    Alike R (Resolves host b state o first) (Resolves host d state other second) := by
  cases o with
  | raised exception =>
      obtain rfl := Outcome.raised_of_result hSame
      exact .of_only (fun _ _ => resolves_raised_iff) (fun _ _ => resolves_raised_iff) rfl hRelated
  | returned value last steps =>
      obtain ⟨more, rfl⟩ := Outcome.returned_of_result hSame
      obtain ⟨hGiven, ⟨user, flag⟩⟩ := hResult _ _ _ rfl
      cases hGiven with
      | success value =>
          exact .of_only (fun _ _ => resolves_succeeded_iff) (fun _ _ => resolves_succeeded_iff) rfl
            hRelated
      | failure value children =>
          cases flag with
          | true =>
              exact .of_only (fun _ _ => resolves_aborted_iff) (fun _ _ => resolves_aborted_iff) rfl
                (noting_related hObserving _ _ hRelated)
          | false =>
              have hNoted : R (host.noting .backtracked (.tree value children) first)
                  (host.noting .backtracked (.tree value children) second) :=
                noting_related hObserving _ _ hRelated
              apply (hAlike _ _ hNoted).image (fun _ _ => resolves_retried_iff) fun _ _ =>
                resolves_retried_iff
              intro o other hSame
              simpa using Outcome.result_joinedTo hSame

theorem altOr_runsLike (hObserving : World.Observing R) (hABehaved : a.WellBehaved host)
    (hBBehaved : b.WellBehaved host) (hCBehaved : c.WellBehaved host) (hDBehaved : d.WellBehaved host)
    (hFirsts : a.RunsLike R host c) (hSeconds : b.RunsLike R host d) :
    (altOr a b).RunsLike R host (altOr c d) := by
  intro user flag start world hRelated
  refine Alike.congr ((hFirsts user flag start world hRelated).andThen ?_)
    (fun _ _ => altOr_runs_iff hABehaved hBBehaved) fun _ _ => altOr_runs_iff hCBehaved hDBehaved
  intro o next other last hComes _ hSame hKept
  apply resolves_alike hObserving hSame _ hKept (hSeconds user flag)
  rintro value state steps rfl
  exact hABehaved user flag _ _ _ _ _ hComes

theorem bind_runs_of_only (hGives : a.GivesResults host)
    (hOnly : ∀ o w, a.program.Runs host (.pair user (.bool flag)) world o w ↔ o = other ∧ w = next) :
    (bind a k).program.Runs host (.pair user (.bool flag)) world outcome final ↔
      after (Sequel (host.Calls k) other next) 1 outcome final := by
  rw [bind_runs_iff (hGives user flag world)]
  exact exists_congr fun inner => and_congr_left fun _ => andThen_of_only hOnly inner final

section Bound

variable (hABehaved : a.WellBehaved host) (hBBehaved : b.WellBehaved host)
include hABehaved hBBehaved

theorem altOr_runs_of_success
    (hRuns : a.program.Runs host (.pair user (.bool flag)) world (.returned (.ok value) left steps) next)
    (o : Outcome κ) (w : World ω) :
    (altOr a b).program.Runs host (.pair user (.bool flag)) world o w ↔
      o = .returned (.ok value) left (steps + 2) ∧ w = next := by
  rw [altOr_runs_iff hABehaved hBBehaved]
  exact (andThen_of_only hRuns.only o w).trans resolves_succeeded_iff

theorem altOr_runs_of_failure
    (hRuns : a.program.Runs host (.pair user (.bool flag)) world
      (.returned (.err (.tree value children)) (.pair left (.bool false)) steps) next)
    (o : Outcome κ) (w : World ω) :
    (altOr a b).program.Runs host (.pair user (.bool flag)) world o w ↔
      ∃ right, b.program.Runs host (.pair user (.bool flag))
          (host.noting .backtracked (.tree value children) next) right w ∧
        o = (right.joinedTo value children).after (steps + 4) := by
  rw [altOr_runs_iff hABehaved hBBehaved]
  exact (andThen_of_only hRuns.only o w).trans resolves_retried_iff

theorem bind_altOr_of_success
    (hRuns : a.program.Runs host (.pair user (.bool flag)) world (.returned (.ok value) left steps) next)
    (k : Callable κ) :
    Alike Eq ((bind (altOr a b) k).program.Runs host (.pair user (.bool flag)) world)
      ((bind a k).program.Runs host (.pair user (.bool flag)) world) := by
  have hGoesOn : Alike Eq (Sequel (host.Calls k) (.returned (.ok value) left (steps + 2)) next)
      (Sequel (host.Calls k) (.returned (.ok value) left steps) next) := by
    apply Sequel.alike_self
    · rfl
    · rintro _ _ _ ⟨⟩
      exact ⟨rfl, (hABehaved user flag _ _ _ _ _ hRuns).2⟩
  exact ((hGoesOn.after_left 1).after_right 1).congr
    (fun _ _ => bind_runs_of_only (hABehaved.altOr hBBehaved).givesResults
      (altOr_runs_of_success hABehaved hBBehaved hRuns))
    fun _ _ => bind_runs_of_only hABehaved.givesResults hRuns.only

theorem not_starts_second
    (hRuns : a.program.Runs host (.pair user (.bool flag)) world (.returned (.ok value) left steps) next)
    {count more : Nat} {q : Program κ} {seen : Value κ} {above : List (Frame κ τ)} {now : World ω} :
    ¬ Machine.Reaches host count (Machine.start (bind (altOr a b) k).program (.pair user (.bool flag)))
      world ⟨.take q, seen, above ++ [.altRight failure, .bound (.call k)], more⟩ now := by
  intro hReaches
  have hVisits := Machine.exists_reaches_take_iff.mp ⟨count, more, hReaches⟩
  rw [List.append_cons, bind, Visits.generator_iff] at hVisits
  rcases hVisits.yielded_cases rfl with ⟨_, hInside⟩ | ⟨result, last, cost, after, hEvaluates, hOnward⟩
  · rcases hInside.altOr_cases hABehaved with
      ⟨⟨⟩⟩ | ⟨⟨⟩, _⟩ | ⟨_, ⟨⟩⟩ | ⟨_, ⟨⟩⟩ | ⟨_, _, _, _, _, _, hFailed, _⟩
    obtain ⟨⟨⟩, _⟩ := hRuns.unique (Program.runs_iff_exists_evaluates.mpr ⟨_, hFailed, rfl⟩)
  · have hRan := Program.runs_iff_exists_evaluates.mpr ⟨_, hEvaluates, rfl⟩
    obtain ⟨⟨⟩, rfl⟩ := (altOr_runs_of_success hABehaved hBBehaved hRuns _ _).mp hRan
    exact Visits.not_bound hOnward

theorem bind_altOr_of_failures {spent : Nat} {last : Value κ} {ended : World ω}
    (hRuns : a.program.Runs host (.pair user (.bool flag)) world
      (.returned (.err (.tree value children)) (.pair left (.bool false)) steps) next)
    (hFails : b.program.Runs host (.pair user (.bool flag))
      (host.noting .backtracked (.tree value children) next) (.returned (.err failure) last spent) ended) :
    (bind (altOr a b) k).program.Runs host (.pair user (.bool flag)) world outcome final ↔
      outcome = .returned (.err (.tree value (children ++ [failure]))) last (1 + (steps + 4 + spent)) ∧
        final = ended := by
  have hOnly : ∀ o w, (altOr a b).program.Runs host (.pair user (.bool flag)) world o w ↔
      o = .returned (.err (.tree value (children ++ [failure]))) last (steps + 4 + spent) ∧ w = ended := by
    intro o w
    rw [altOr_runs_of_failure hABehaved hBBehaved hRuns]
    constructor
    · rintro ⟨right, hAgain, rfl⟩
      obtain ⟨rfl, rfl⟩ := hAgain.unique hFails
      exact ⟨rfl, rfl⟩
    · rintro ⟨rfl, rfl⟩
      exact ⟨_, hFails, rfl⟩
  rw [bind_runs_of_only (hABehaved.altOr hBBehaved).givesResults hOnly]
  exact after_sequel_failed_iff

theorem bind_altOr_of_recovery
    (hRuns : a.program.Runs host (.pair user (.bool flag)) world
      (.returned (.err (.tree value children)) (.pair left (.bool false)) steps) next)
    (hRecovers : ∀ failure last spent ended, ¬ b.program.Runs host (.pair user (.bool flag))
      (host.noting .backtracked (.tree value children) next) (.returned (.err failure) last spent) ended)
    (k : Callable κ) :
    Alike Eq ((bind (altOr a b) k).program.Runs host (.pair user (.bool flag)) world)
      ((bind b k).program.Runs host (.pair user (.bool flag))
        (host.noting .backtracked (.tree value children) next)) := by
  have hStands : ∀ right w, b.program.Runs host (.pair user (.bool flag))
      (host.noting .backtracked (.tree value children) next) right w →
      right.joinedTo value children = right := by
    intro right w hComes
    cases right with
    | raised => rfl
    | returned result last cost =>
        cases result with
        | err => exact absurd hComes (hRecovers _ _ _ _)
        | _ => rfl
  have hAltOr_iff : ∀ o w, (altOr a b).program.Runs host (.pair user (.bool flag)) world o w ↔
      after (b.program.Runs host (.pair user (.bool flag))
        (host.noting .backtracked (.tree value children) next)) (steps + 4) o w := by
    intro o w
    rw [altOr_runs_of_failure hABehaved hBBehaved hRuns]
    refine exists_congr fun right => and_congr_right fun hComes => ?_
    rw [hStands right w hComes]
  have hGoesOn : Alike Eq
      (andThen ((altOr a b).program.Runs host (.pair user (.bool flag)) world) (Sequel (host.Calls k)))
      (andThen (b.program.Runs host (.pair user (.bool flag))
        (host.noting .backtracked (.tree value children) next)) (Sequel (host.Calls k))) := by
    refine Alike.andThen (((Alike.refl _).after_left (steps + 4)).congr hAltOr_iff fun _ _ => Iff.rfl) ?_
    rintro o w other _ hComes _ hSame rfl
    apply Sequel.alike_self hSame
    rintro result last spent rfl
    exact (hABehaved.altOr hBBehaved).givesResults user flag _ _ _ _ _ hComes
  exact ((hGoesOn.after_left 1).after_right 1).congr
    (fun _ _ => bind_runs_iff ((hABehaved.altOr hBBehaved).givesResults user flag world))
    fun _ _ => bind_runs_iff (hBBehaved.givesResults user flag _)

end Bound

theorem starts_second
    (hRuns : a.program.Runs host (.pair user (.bool flag)) world
      (.returned (.err (.tree value children)) (.pair left (.bool false)) steps) next)
    (k : Callable κ) :
    ∃ count more, Machine.Reaches host count
      (Machine.start (bind (altOr a b) k).program (.pair user (.bool flag))) world
      ⟨.take b.program, .pair user (.bool flag),
        [.altRight (.err (.tree value children)), .bound (.call k)], more⟩
      (host.noting .backtracked (.tree value children) next) :=
  Machine.exists_reaches_take_iff.mpr
    (.generator (.inside rfl (Visits.altOr_second hRuns.evaluates .here)))

theorem fmap_wellBehaved (hBehaved : a.WellBehaved host) (f : Callable κ) :
    (fmap f a).WellBehaved host := by
  intro user flag world value state steps final hRuns
  obtain ⟨inner, ⟨o, next, hComes, hSequel⟩, hEnded⟩ :=
    (fmap_runs_iff (hBehaved.givesResults user flag world)).mp hRuns
  cases hSequel with
  | failed =>
      cases hEnded
      exact hBehaved user flag _ _ _ _ _ hComes
  | raised => cases hEnded
  | continued hMaps =>
      obtain ⟨_, hPair⟩ := hBehaved user flag _ _ _ _ _ hComes
      cases hMaps with
      | mapped =>
          cases hEnded
          exact ⟨.success _, hPair⟩
      | raised => cases hEnded

theorem sequel_maps_joinedTo_iff :
    Sequel (host.Maps f) (o.joinedTo value children) world outcome final ↔
      ∃ r, Sequel (host.Maps f) o world r final ∧ outcome = r.joinedTo value children := by
  cases o with
  | raised exception =>
      constructor
      · intro hSequel
        obtain ⟨rfl, rfl⟩ := sequel_raised_iff.mp hSequel
        exact ⟨_, .raised, rfl⟩
      · rintro ⟨_, hSequel, rfl⟩
        obtain ⟨rfl, rfl⟩ := sequel_raised_iff.mp hSequel
        exact .raised
  | returned result last cost =>
      cases result with
      | err failure =>
          constructor
          · intro hSequel
            obtain ⟨rfl, rfl⟩ := sequel_failed_iff.mp hSequel
            exact ⟨_, .failed, rfl⟩
          · rintro ⟨_, hSequel, rfl⟩
            obtain ⟨rfl, rfl⟩ := sequel_failed_iff.mp hSequel
            exact .failed
      | ok result =>
          have hStands : ∀ r w, Sequel (host.Maps f) (.returned (.ok result) last cost) world r w →
              r.joinedTo value children = r := by
            intro r w hSequel
            obtain ⟨_, hMaps, rfl⟩ := sequel_continued_iff.mp hSequel
            cases hMaps <;> rfl
          constructor
          · intro hSequel
            exact ⟨outcome, hSequel, (hStands _ _ hSequel).symm⟩
          · rintro ⟨r, hSequel, rfl⟩
            rw [hStands r final hSequel]
            exact hSequel
      | _ =>
          constructor
          · intro hSequel
            cases hSequel
          · rintro ⟨_, hSequel, _⟩
            cases hSequel

theorem resolves_of_maps {spent : Nat} (hMaps : host.Maps f value left world o next) :
    Resolves host b state (o.after spent) next outcome final ↔
      outcome = o.after (spent + 2) ∧ final = next := by
  cases hMaps with
  | @mapped result _ hInvoked =>
      have hCost : spent + 1 + 2 = spent + 2 + 1 := by omega
      rw [Outcome.after, resolves_succeeded_iff, Outcome.after, hCost]
  | raised => exact resolves_raised_iff

theorem resolves_fmap_alike_of_success :
    Alike Eq
      (andThen (Resolves host b state (.returned (.ok value) left steps) world) (Sequel (host.Maps f)))
      (andThen (after (Sequel (host.Maps f) (.returned (.ok value) left steps) world) 1)
        (Resolves host (fmap f b) state)) := by
  refine (Alike.refl (host.Maps f value left world)).image
    (g := fun r => r.after (steps + 2)) (h := fun r => r.after (1 + steps + 2))
    (fun o w => ?_) (fun o w => ?_) fun r other hSame => by simpa using hSame
  · exact (andThen_of_only (fun _ _ => resolves_succeeded_iff) o w).trans sequel_continued_iff
  · constructor
    · rintro ⟨_, between, ⟨_, hSequel, rfl⟩, hResolves⟩
      obtain ⟨r, hMaps, rfl⟩ := sequel_continued_iff.mp hSequel
      rw [Outcome.after_after, resolves_of_maps hMaps] at hResolves
      obtain ⟨rfl, rfl⟩ := hResolves
      exact ⟨r, hMaps, rfl⟩
    · rintro ⟨r, hMaps, rfl⟩
      refine ⟨_, w, ⟨_, sequel_continued_iff.mpr ⟨r, hMaps, rfl⟩, rfl⟩, ?_⟩
      rw [Outcome.after_after, resolves_of_maps hMaps]
      exact ⟨rfl, rfl⟩

theorem resolves_fmap_alike_of_failure (hBBehaved : b.WellBehaved host) {leftUser : Value κ} :
    Alike Eq
      (andThen (Resolves host b (.pair user (.bool flag))
        (.returned (.err (.tree value children)) (.pair leftUser (.bool false)) steps) world)
        (Sequel (host.Maps f)))
      (Resolves host (fmap f b) (.pair user (.bool flag))
        (.returned (.err (.tree value children)) (.pair leftUser (.bool false)) (1 + steps)) world) := by
  refine (Alike.refl (andThen (b.program.Runs host (.pair user (.bool flag))
      (host.noting .backtracked (.tree value children) world)) (Sequel (host.Maps f)))).image
    (g := fun r => (r.joinedTo value children).after (steps + 4))
    (h := fun r => ((r.after 1).joinedTo value children).after (1 + steps + 4))
    (fun o w => ?_) (fun o w => ?_) fun r other hSame => ?_
  · constructor
    · rintro ⟨_, between, hResolves, hSequel⟩
      obtain ⟨right, hRuns, rfl⟩ := resolves_retried_iff.mp hResolves
      obtain ⟨_, hJoined, rfl⟩ := sequel_after_iff.mp hSequel
      obtain ⟨r, hMapped, rfl⟩ := sequel_maps_joinedTo_iff.mp hJoined
      exact ⟨r, ⟨right, between, hRuns, hMapped⟩, rfl⟩
    · rintro ⟨r, ⟨right, between, hRuns, hSequel⟩, rfl⟩
      exact ⟨_, between, resolves_retried_iff.mpr ⟨right, hRuns, rfl⟩,
        sequel_after_iff.mpr ⟨_, sequel_maps_joinedTo_iff.mpr ⟨r, hSequel, rfl⟩, rfl⟩⟩
  · rw [resolves_retried_iff]
    constructor
    · rintro ⟨right, hRuns, rfl⟩
      obtain ⟨r, hComes, rfl⟩ := (fmap_runs_iff (hBBehaved.givesResults user flag _)).mp hRuns
      exact ⟨r, hComes, rfl⟩
    · rintro ⟨r, hComes, rfl⟩
      exact ⟨_, (fmap_runs_iff (hBBehaved.givesResults user flag _)).mpr ⟨r, hComes, rfl⟩, rfl⟩
  · rw [Outcome.result_after, Outcome.result_after]
    exact Outcome.result_joinedTo ((Outcome.result_after 1 other).trans hSame)

theorem resolves_fmap_alike (hBBehaved : b.WellBehaved host)
    (hResult : ∀ value state steps, o = .returned value state steps →
      value.IsResult ∧ state.IsStatePair) :
    Alike Eq
      (andThen (Resolves host b (.pair user (.bool flag)) o world) (Sequel (host.Maps f)))
      (andThen (after (Sequel (host.Maps f) o world) 1)
        (Resolves host (fmap f b) (.pair user (.bool flag)))) := by
  cases o with
  | raised exception =>
      have hMaps : ∀ o w, after (Sequel (host.Maps f) (.raised exception) world) 1 o w ↔
          o = .raised exception ∧ w = world := fun _ _ => after_sequel_raised_iff
      have hResolved : ∀ o w, andThen (Resolves host b (.pair user (.bool flag)) (.raised exception) world)
          (Sequel (host.Maps f)) o w ↔ o = .raised exception ∧ w = world := fun o w =>
        (andThen_of_only (fun _ _ => resolves_raised_iff) o w).trans sequel_raised_iff
      exact .of_only hResolved (fun o w => (andThen_of_only hMaps o w).trans resolves_raised_iff) rfl rfl
  | returned result last steps =>
      obtain ⟨hGiven, ⟨leftUser, set⟩⟩ := hResult _ _ _ rfl
      cases hGiven with
      | success value => exact resolves_fmap_alike_of_success
      | failure value children =>
          have hMaps : ∀ o w, after (Sequel (host.Maps f) (.returned (.err (.tree value children))
              (.pair leftUser (.bool set)) steps) world) 1 o w ↔
              o = .returned (.err (.tree value children)) (.pair leftUser (.bool set)) (1 + steps) ∧
                w = world := fun _ _ => after_sequel_failed_iff
          cases set with
          | true =>
              have hResolved : ∀ o w, andThen (Resolves host b (.pair user (.bool flag))
                  (.returned (.err (.tree value children)) (.pair leftUser (.bool true)) steps) world)
                  (Sequel (host.Maps f)) o w ↔
                  o = .returned (.err (.tree value children)) (.pair leftUser (.bool true)) (steps + 3) ∧
                    w = host.noting .alternationSkipped (.tree value children) world := fun o w =>
                (andThen_of_only (fun _ _ => resolves_aborted_iff) o w).trans sequel_failed_iff
              exact .of_only hResolved (fun o w => (andThen_of_only hMaps o w).trans resolves_aborted_iff)
                rfl rfl
          | false =>
              exact (resolves_fmap_alike_of_failure hBBehaved).congr (fun _ _ => Iff.rfl)
                fun o w => andThen_of_only hMaps o w

theorem fmap_altOr_runsLike (hABehaved : a.WellBehaved host) (hBBehaved : b.WellBehaved host)
    (f : Callable κ) : (fmap f (altOr a b)).RunsLike Eq host (altOr (fmap f a) (fmap f b)) := by
  rintro user flag world _ rfl
  let runs := a.program.Runs host (.pair user (.bool flag)) world
  have hParts : Alike Eq
      (andThen runs fun o w =>
        andThen (Resolves host b (.pair user (.bool flag)) o w) (Sequel (host.Maps f)))
      (andThen runs fun o w => andThen (after (Sequel (host.Maps f) o w) 1)
        (Resolves host (fmap f b) (.pair user (.bool flag)))) := by
    apply Alike.andThen_congr
    intro o w hComes
    apply resolves_fmap_alike hBBehaved
    rintro value state steps rfl
    exact hABehaved user flag _ _ _ _ _ hComes
  refine (hParts.after_left 1).congr (fun outcome final => ?_) fun outcome final => ?_
  · rw [fmap_runs_iff ((hABehaved.altOr hBBehaved).givesResults user flag world)]
    refine exists_congr fun inner => and_congr_left fun _ => ?_
    rw [← andThen_assoc]
    exact exists_congr fun o => exists_congr fun w => and_congr_left fun _ =>
      altOr_runs_iff hABehaved hBBehaved
  · rw [altOr_runs_iff (fmap_wellBehaved hABehaved f) (fmap_wellBehaved hBBehaved f)]
    have hMapped : (fmap f a).program.Runs host (.pair user (.bool flag)) world =
        andThen runs fun o w => after (Sequel (host.Maps f) o w) 1 := by
      funext o w
      exact propext ((fmap_runs_iff (hABehaved.givesResults user flag world)).trans andThen_after_iff)
    rw [hMapped]
    exact andThen_assoc outcome final

theorem map_fmap_wellBehaved {others : List (Alternative κ)} (hBehaved : ∀ c ∈ others, c.WellBehaved host)
    (f : Callable κ) : ∀ c ∈ others.map (fmap f), c.WellBehaved host := by
  intro c hWithin
  obtain ⟨d, hListed, rfl⟩ := List.mem_map.mp hWithin
  exact fmap_wellBehaved (hBehaved d hListed) f

theorem choice_concat (a : Alternative κ) (others : List (Alternative κ)) (last : Alternative κ) :
    choice a (others ++ [last]) = altOr (choice a others) last := by
  simp only [choice, List.foldl_append, List.foldl_cons, List.foldl_nil]

theorem choice_wellBehaved {others : List (Alternative κ)} (hFirst : a.WellBehaved host)
    (hBehaved : ∀ c ∈ others, c.WellBehaved host) : (choice a others).WellBehaved host := by
  induction others generalizing a with
  | nil => exact hFirst
  | cons second others ih =>
      exact ih (hFirst.altOr (hBehaved second (List.mem_cons_self ..)))
        fun c hLater => hBehaved c (List.mem_cons_of_mem second hLater)

theorem altOrRightAssoc_wellBehaved {others : List (Alternative κ)} (hFirst : a.WellBehaved host)
    (hBehaved : ∀ c ∈ others, c.WellBehaved host) : (altOrRightAssoc a others).WellBehaved host := by
  induction others generalizing a with
  | nil => exact hFirst
  | cons second others ih =>
      exact hFirst.altOr (ih (hBehaved second (List.mem_cons_self ..))
        fun c hLater => hBehaved c (List.mem_cons_of_mem second hLater))

section Chains

variable {others : List (Alternative κ)} (hABehaved : a.WellBehaved host)
  (hBehaved : ∀ c ∈ others, c.WellBehaved host)
include hABehaved hBehaved

theorem fmap_choice_runsLike (f : Callable κ) :
    (fmap f (choice a others)).RunsLike Eq host (choice (fmap f a) (others.map (fmap f))) := by
  -- The chain grows at its end, as the last operand is that of the outermost alternation.
  induction others using List.reverseRecOn with
  | nil => exact .refl host _
  | append_singleton others last ih =>
      have hEarly : ∀ c ∈ others, c.WellBehaved host := fun c hWithin =>
        hBehaved c (List.mem_append_left [last] hWithin)
      have hLastBehaved : last.WellBehaved host := hBehaved last (by simp)
      have hChain := choice_wellBehaved hABehaved hEarly
      rw [List.map_append, List.map_singleton, choice_concat, choice_concat]
      apply (fmap_altOr_runsLike hChain hLastBehaved f).trans
      exact altOr_runsLike World.observing_eq (fmap_wellBehaved hChain f) (fmap_wellBehaved hLastBehaved f)
        (choice_wellBehaved (fmap_wellBehaved hABehaved f) (map_fmap_wellBehaved hEarly f))
        (fmap_wellBehaved hLastBehaved f) (ih hEarly) (.refl host _)

theorem fmap_altOrRightAssoc_runsLike (f : Callable κ) :
    (fmap f (altOrRightAssoc a others)).RunsLike Eq host
      (altOrRightAssoc (fmap f a) (others.map (fmap f))) := by
  induction others generalizing a with
  | nil => exact .refl host _
  | cons second others ih =>
      have hSecondBehaved : second.WellBehaved host := hBehaved second (List.mem_cons_self ..)
      have hLater : ∀ c ∈ others, c.WellBehaved host := fun c hWithin =>
        hBehaved c (List.mem_cons_of_mem second hWithin)
      have hChain := altOrRightAssoc_wellBehaved hSecondBehaved hLater
      apply (fmap_altOr_runsLike hABehaved hChain f).trans
      exact altOr_runsLike World.observing_eq (fmap_wellBehaved hABehaved f) (fmap_wellBehaved hChain f)
        (fmap_wellBehaved hABehaved f)
        (altOrRightAssoc_wellBehaved (fmap_wellBehaved hSecondBehaved f) (map_fmap_wellBehaved hLater f))
        (.refl host _) (ih hSecondBehaved hLater)

end Chains

/-- Alternation commits to its first success. After one of the left operand the right one is not started, and
what is bound runs as it does on the left one alone. After a failure of the left operand with the flag clear,
what is bound runs as it does on the right one from the same pair, and the tree of that failure comes in front
only if the right operand fails itself. So a map over a chain is the chain of the maps. -/
theorem alternation_commits (hABehaved : a.WellBehaved host) (hBBehaved : b.WellBehaved host)
    (k : Callable κ) (user : Value κ) (flag : Bool) (world : World ω) :
    (∀ value left steps next, a.program.Runs host (.pair user (.bool flag)) world
        (.returned (.ok value) left steps) next →
      Alike Eq ((bind (altOr a b) k).program.Runs host (.pair user (.bool flag)) world)
        ((bind a k).program.Runs host (.pair user (.bool flag)) world) ∧
      ∀ count q seen above failure more now, ¬ Machine.Reaches host count
        (Machine.start (bind (altOr a b) k).program (.pair user (.bool flag))) world
        ⟨.take q, seen, above ++ [.altRight failure, .bound (.call k)], more⟩ now) ∧
    (∀ value children left steps next, a.program.Runs host (.pair user (.bool flag)) world
        (.returned (.err (.tree value children)) (.pair left (.bool false)) steps) next →
      (∃ count more, Machine.Reaches host count
        (Machine.start (bind (altOr a b) k).program (.pair user (.bool flag))) world
        ⟨.take b.program, .pair user (.bool flag),
          [.altRight (.err (.tree value children)), .bound (.call k)], more⟩
        (host.noting .backtracked (.tree value children) next)) ∧
      (∀ failure last spent ended, b.program.Runs host (.pair user (.bool flag))
          (host.noting .backtracked (.tree value children) next)
          (.returned (.err failure) last spent) ended →
        ∀ outcome final,
          (bind (altOr a b) k).program.Runs host (.pair user (.bool flag)) world outcome final ↔
            outcome = .returned (.err (.tree value (children ++ [failure]))) last
              (1 + (steps + 4 + spent)) ∧ final = ended) ∧
      ((∀ failure last spent ended, ¬ b.program.Runs host (.pair user (.bool flag))
          (host.noting .backtracked (.tree value children) next)
          (.returned (.err failure) last spent) ended) →
        Alike Eq ((bind (altOr a b) k).program.Runs host (.pair user (.bool flag)) world)
          ((bind b k).program.Runs host (.pair user (.bool flag))
            (host.noting .backtracked (.tree value children) next)))) ∧
    ∀ f first others, (∀ c ∈ first :: others, c.WellBehaved host) →
      (fmap f (choice first others)).RunsLike Eq host
        (choice (fmap f first) (others.map (fmap f))) ∧
      (fmap f (altOrRightAssoc first others)).RunsLike Eq host
        (altOrRightAssoc (fmap f first) (others.map (fmap f))) := by
  refine ⟨fun value left steps next hRuns => ⟨?_, ?_⟩, fun value children left steps next hRuns =>
    ⟨?_, ?_, ?_⟩, fun f first others hBehaved => ?_⟩
  · exact bind_altOr_of_success hABehaved hBBehaved hRuns k
  · intro count q seen above failure more now
    exact not_starts_second hABehaved hBBehaved hRuns
  · exact starts_second hRuns k
  · intro failure last spent ended hFails outcome final
    exact bind_altOr_of_failures hABehaved hBBehaved hRuns hFails
  · exact fun hRecovers => bind_altOr_of_recovery hABehaved hBBehaved hRuns hRecovers k
  · obtain ⟨hFirstBehaved, hOthersBehaved⟩ := List.forall_mem_cons.mp hBehaved
    exact ⟨fmap_choice_runsLike hFirstBehaved hOthersBehaved f,
      fmap_altOrRightAssoc_runsLike hFirstBehaved hOthersBehaved f⟩

/-- The failure of the binder after a recovery stands alone, without the tree of the left operand. -/
theorem alternation_commits_over_error :
    ∃ steps final,
      (bind (altOr (error (.str "a")) (inject (.int 0))) (.code none .checked)).program.Runs Host.logger
        (.pair (.int 5) (.bool false)) ⟨[], #[], 0⟩
        (.returned (.failWith (.int 0)) (.pair (.int 5) (.bool false)) steps) final ∧
      final.host = [.int 0] := by
  obtain ⟨_, hFails, _⟩ := alternation_commits (error_wellBehaved Host.logger (.str "a"))
    (inject_wellBehaved Host.logger (.int 0)) (.code none .checked) (.int 5) false ⟨[], #[], 0⟩
  have hLeft : (error (.str "a")).program.Runs Host.logger (.pair (.int 5) (.bool false)) ⟨[], #[], 0⟩
      (.returned (.err (.tree (.str "a") [])) (.pair (.int 5) (.bool false)) 2) ⟨[], #[], 0⟩ :=
    ⟨5, rfl⟩
  obtain ⟨_, _, hRecovers⟩ := hFails _ _ _ _ _ hLeft
  have hAlike := hRecovers fun _ _ _ _ hRuns => by
    obtain ⟨⟨⟩, _⟩ := Program.pure_runs_iff.mp hRuns
  have hRight : (bind (inject (.int 0)) (.code none .checked)).program.Runs Host.logger
      (.pair (.int 5) (.bool false)) ⟨[], #[], 0⟩
      (.returned (.failWith (.int 0)) (.pair (.int 5) (.bool false)) 4) ⟨[.int 0], #[], 1⟩ :=
    ⟨20, rfl⟩
  obtain ⟨other, last, hComes, hSame, rfl⟩ := hAlike.back _ _ hRight
  obtain ⟨steps, rfl⟩ := Outcome.returned_of_result hSame
  exact ⟨steps, _, hComes, rfl⟩

end Alternative

end Backtrack
