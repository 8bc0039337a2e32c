import Backtrack.Alternative.OfValues
import Backtrack.Proofs.ApplicativeLaws
import Backtrack.Proofs.Commitment

namespace Backtrack

variable {κ τ ω α β : Type} {host : Host κ τ ω} {R : World ω → World ω → Prop}
  {f g h k unit lifted composed : Callable κ} {F G H : Value κ → Value κ}
  {r s value left user : Value κ} {flag set : Bool} {steps : Nat} {world next : World ω}

open Outcomes

/-- In every world the computation gives the value, and leaves a corresponding world. -/
def Exec.Quietly (R : World ω → World ω → Prop) (x : Exec κ ω α) (a : α) : Prop :=
  ∀ world, ∃ next, x world = .ok a next ∧ R next world

namespace Exec.Quietly

variable {x : Exec κ ω α} {a : α}

theorem pure (hReflexive : ∀ world, R world world) (a : α) :
    Quietly R (Pure.pure a : Exec κ ω α) a :=
  fun world => ⟨world, rfl, hReflexive world⟩

theorem map (hQuietly : x.Quietly R a) (f : α → β) : Quietly R (f <$> x) (f a) := by
  intro world
  obtain ⟨next, hGave, hRelated⟩ := hQuietly world
  exact ⟨next, Exec.map_of_ok hGave, hRelated⟩

theorem bind {f : α → Exec κ ω β} {b : β} (hEquivalence : Equivalence R) (hQuietly : x.Quietly R a)
    (hOnward : (f a).Quietly R b) : Quietly R (x >>= f) b := by
  intro world
  obtain ⟨next, hGave, hRelated⟩ := hQuietly world
  obtain ⟨last, hEnded, hOnto⟩ := hOnward next
  exact ⟨last, (Exec.bind_of_ok hGave).trans hEnded, hEquivalence.trans hOnto hRelated⟩

end Exec.Quietly

namespace Host

def Computes (R : World ω → World ω → Prop) (host : Host κ τ ω) (f : Callable κ)
    (F : Value κ → Value κ) : Prop :=
  ∀ value, (host.invoke f [value]).Quietly R (F value)

def LiftsResults (R : World ω → World ω → Prop) (host : Host κ τ ω) (lifted : Callable κ)
    (F : Value κ → Value κ) : Prop :=
  ∀ value world, ∃ mark a next, Alternative.ofLiftedResult (F value) = .ok a ∧
    host.invoke lifted [value] world = .ok (.alternative mark a.program) next ∧ R next world

def ComposesChains (R : World ω → World ω → Prop) (host : Host κ τ ω) (f h composed : Callable κ) :
    Prop :=
  ∀ value world, Exec.MatchesBy Eq R
    ((host.invoke f [value] >>= fun result => result.chain host (.callable h)) world)
    (host.invoke composed [value] world)

end Host

namespace Value

def onOk (F : Value κ → Value κ) : Value κ → Value κ
  | ok value => F value
  | other => other

theorem onOk_isResult (hResults : ∀ value, (F value).isResult = true) (hResult : r.isResult = true) :
    (r.onOk F).isResult = true := by
  cases r with
  | ok value => exact hResults value
  | err error => rfl
  | _ => cases hResult

theorem chain_ok (hComputes : host.Computes R f F) (hResults : ∀ value, (F value).isResult = true)
    (value : Value κ) :
    (ok value).chain host (.callable f) = host.invoke f [value] := by
  funext world
  obtain ⟨next, hInvoked, _⟩ := hComputes value world
  have hCalled : host.callValue (.callable f) [value] world = .ok (F value) next := hInvoked
  refine (Exec.bind_of_ok hCalled).trans ?_
  rw [if_pos (hResults value), hInvoked]
  rfl

theorem chain_quietly (hReflexive : ∀ world, R world world) (hComputes : host.Computes R f F)
    (hResults : ∀ value, (F value).isResult = true) (r : Value κ) :
    (r.chain host (.callable f)).Quietly R (r.onOk F) := by
  cases r with
  | ok value =>
      rw [chain_ok hComputes hResults]
      exact hComputes value
  | _ => exact .pure hReflexive _

theorem mapSuccess_quietly (hReflexive : ∀ world, R world world) (hComputes : host.Computes R g G)
    (r : Value κ) :
    (r.mapSuccess host (.callable g)).Quietly R (r.onOk fun value => ok (G value)) := by
  cases r with
  | ok value => exact (hComputes value).map ok
  | _ => exact .pure hReflexive _

theorem chain_unit_quietly (hReflexive : ∀ world, R world world) (hComputes : host.Computes R unit ok)
    (r : Value κ) : (r.chain host (.callable unit)).Quietly R r := by
  have hChained := chain_quietly hReflexive hComputes (fun _ => rfl) r
  cases r <;> exact hChained

theorem chain_chain_quietly (hEquivalence : Equivalence R) (hComputes : host.Computes R f F)
    (hResults : ∀ value, (F value).isResult = true) (hOnward : host.Computes R h H)
    (hAgain : ∀ value, (H value).isResult = true) (hComposes : host.ComposesChains R f h composed)
    (r : Value κ) :
    (r.chain host (.callable f) >>= fun s => s.chain host (.callable h)).Quietly R
        ((r.onOk F).onOk H) ∧
      (r.chain host (.callable composed)).Quietly R ((r.onOk F).onOk H) := by
  have hChains : ∀ s : Value κ, (s.chain host (.callable h)).Quietly R (s.onOk H) :=
    chain_quietly hEquivalence.refl hOnward hAgain
  have hWhole : host.Computes R composed fun value => (F value).onOk H := by
    intro value world
    have hBoth := (hComputes value).bind (f := fun s => s.chain host (.callable h)) hEquivalence
      (hChains (F value))
    obtain ⟨next, hGave, hRelated⟩ := hBoth world
    have hMatched := hComposes value world
    rw [hGave] at hMatched
    obtain ⟨_, last, hAnswered, rfl, hMet⟩ := hMatched.of_ok
    exact ⟨last, hAnswered, hEquivalence.trans (hEquivalence.symm hMet) hRelated⟩
  have hSame : (r.onOk fun value => (F value).onOk H) = (r.onOk F).onOk H := by
    cases r <;> rfl
  refine ⟨(chain_quietly hEquivalence.refl hComputes hResults r).bind hEquivalence (hChains _), ?_⟩
  rw [← hSame]
  exact chain_quietly hEquivalence.refl hWhole (fun value => onOk_isResult hAgain (hResults value)) r

end Value

namespace Alternative

variable {a b c : Alternative κ} {state : Value κ}

theorem ofLiftedResult_of_isResult (hResult : r.isResult = true) :
    ofLiftedResult r = .ok (ofResult r) := by
  cases r with
  | ok | err => rfl
  | _ => cases hResult

/-- From every state pair the alternative comes to the result, with the pair as it was and in a
corresponding world. -/
def Settles (R : World ω → World ω → Prop) (host : Host κ τ ω) (a : Alternative κ) (s : Value κ) :
    Prop :=
  ∀ user flag world, ∃ steps next, a.program.Runs host (.pair user (.bool flag)) world
    (.returned s (.pair user (.bool flag)) steps) next ∧ R next world

theorem Settles.runsLike (hEquivalence : Equivalence R) (hSettles : a.Settles R host s)
    (hAlsoSettles : b.Settles R host s) : a.RunsLike R host b := by
  intro user flag first second hRelated
  obtain ⟨_, next, hRuns, hKept⟩ := hSettles user flag first
  obtain ⟨_, last, hAgain, hMet⟩ := hAlsoSettles user flag second
  exact .of_only hRuns.only hAgain.only rfl
    (hEquivalence.trans hKept (hEquivalence.trans hRelated (hEquivalence.symm hMet)))

theorem ofResult_settles (hReflexive : ∀ world, R world world) (host : Host κ τ ω) (s : Value κ) :
    (ofResult s).Settles R host s :=
  fun _ _ world => ⟨1, world, Program.pure_runs_iff.mpr ⟨rfl, rfl⟩, hReflexive world⟩

theorem bind_ofResult_runs {mark : Mark} {m : Mapper κ} :
    (Program.generator mark (.bind (ofResult r).program m)).Runs host state world =
      after ((Frame.bound m).Comes host r state world) 2 := by
  rw [Program.bind_runs, ofResult, Program.pure_runs, after_andThen_onto, returning_andThen,
    after_after]

theorem ofResult_bound_settles {m : Mapper κ} (hReflexive : ∀ world, R world world)
    (hResult : r.isResult = true)
    (hSucceeds : ∀ value state world, ∃ steps next,
      (Frame.bound m : Frame κ τ).Comes host (.ok value) state world
        (.returned (F value) state steps) next ∧ R next world) :
    Settles R host ⟨.generator none (.bind (ofResult r).program m)⟩ (r.onOk F) := by
  intro user flag world
  rw [bind_ofResult_runs]
  cases r with
  | ok value =>
      obtain ⟨_, next, hComes, hRelated⟩ := hSucceeds value _ world
      exact ⟨_, next, ⟨_, hComes, rfl⟩, hRelated⟩
  | err error =>
      rw [Frame.bound_comes_err]
      exact ⟨_, world, ⟨_, ⟨rfl, rfl⟩, rfl⟩, hReflexive world⟩
  | _ => cases hResult

theorem bind_ofResult_settles (hReflexive : ∀ world, R world world)
    (hLifts : host.LiftsResults R lifted F) (hResults : ∀ value, (F value).isResult = true)
    (hResult : r.isResult = true) : (bind (ofResult r) lifted).Settles R host (r.onOk F) := by
  apply ofResult_bound_settles hReflexive hResult
  intro value state world
  obtain ⟨mark, a, next, hLifting, hInvoked, hRelated⟩ := hLifts value world
  obtain rfl : ofResult (F value) = a := by
    simpa [ofLiftedResult_of_isResult (hResults value)] using hLifting
  have hCalled : host.Calls lifted value state world (.returned (F value) state 1) next :=
    (Host.Calls.ran_iff hInvoked).mpr (Program.pure_runs_iff.mpr ⟨rfl, rfl⟩)
  exact ⟨1, next, Frame.bound_comes_iff.mpr hCalled, hRelated⟩

theorem fmap_ofResult_settles (hReflexive : ∀ world, R world world) (hComputes : host.Computes R g G)
    (hResult : r.isResult = true) :
    (fmap g (ofResult r)).Settles R host (r.onOk fun value => .ok (G value)) := by
  apply ofResult_bound_settles hReflexive hResult
  intro value state world
  obtain ⟨next, hInvoked, hRelated⟩ := hComputes value world
  rw [Frame.mapping_comes, Exec.sealed_of_ok hInvoked, Exec.leads_ok]
  exact ⟨_, next, ⟨_, ⟨rfl, rfl⟩, rfl⟩, hRelated⟩

theorem bind_resumes (hRuns : c.program.Runs host state world (.returned r left steps) next)
    (k : Callable κ) :
    Alike Eq ((bind c k).program.Runs host state world)
      ((bind (ofResult r) k).program.Runs host left next) := by
  have hFirst : (bind c k).program.Runs host state world =
      after ((Frame.bound (.call k)).Comes host r left next) (1 + steps) := by
    apply eq_of_iff
    intro outcome final
    rw [bind, Program.bind_runs, ← after_after, ← onto_returned]
    refine exists_congr fun o => and_congr_left fun _ => ?_
    exact andThen_of_only hRuns.only o final
  rw [hFirst, bind, bind_ofResult_runs]
  exact ((Alike.refl _).after_left _).after_right 2

/-- Lifting carries chaining and mapping over to binding and mapping, the results themselves satisfy the
monad laws, and a computation that has returned may be bound by its lifted result. -/
theorem lifting_embeds_results (hEquivalence : Equivalence R) (host : Host κ τ ω) :
    (∀ f lifted F, host.Computes R f F → (∀ value, (F value).isResult = true) →
      host.LiftsResults R lifted F → ∀ r : Value κ, r.isResult = true → ∃ s a b,
        (r.chain host (.callable f)).Quietly R s ∧ ofLiftedResult s = .ok a ∧
          ofLiftedResult r = .ok b ∧ a.RunsLike R host (bind b lifted) ∧
          (bind b lifted).Settles R host s) ∧
    (∀ g G, host.Computes R g G → ∀ r : Value κ, r.isResult = true → ∃ s a b,
        (r.mapSuccess host (.callable g)).Quietly R s ∧ ofLiftedResult s = .ok a ∧
          ofLiftedResult r = .ok b ∧ a.RunsLike R host (fmap g b) ∧
          (fmap g b).Settles R host s) ∧
    (∀ f F, host.Computes R f F → (∀ value, (F value).isResult = true) → ∀ value,
      (Value.ok value).chain host (.callable f) = host.invoke f [value]) ∧
    (∀ unit, host.Computes R unit .ok → ∀ r : Value κ,
      (r.chain host (.callable unit)).Quietly R r) ∧
    (∀ f h composed F H, host.Computes R f F → (∀ value, (F value).isResult = true) →
      host.Computes R h H → (∀ value, (H value).isResult = true) →
      host.ComposesChains R f h composed → ∀ r : Value κ, ∃ s,
        (r.chain host (.callable f) >>= fun t => t.chain host (.callable h)).Quietly R s ∧
          (r.chain host (.callable composed)).Quietly R s) ∧
    ∀ (c : Alternative κ) state world r left steps next,
      c.program.Runs host state world (.returned r left steps) next → r.isResult = true →
      ∃ b, ofLiftedResult r = .ok b ∧ ∀ k, Alike Eq ((bind c k).program.Runs host state world)
        ((bind b k).program.Runs host left next) := by
  have hReflexive := hEquivalence.refl
  refine ⟨?_, ?_, ?_, ?_, ?_, ?_⟩
  · intro f lifted F hComputes hResults hLifts r hResult
    have hBound := bind_ofResult_settles hReflexive hLifts hResults hResult
    exact ⟨r.onOk F, _, _, Value.chain_quietly hReflexive hComputes hResults r,
      ofLiftedResult_of_isResult (Value.onOk_isResult hResults hResult),
      ofLiftedResult_of_isResult hResult, (ofResult_settles hReflexive host _).runsLike hEquivalence hBound,
      hBound⟩
  · intro g G hComputes r hResult
    have hMapped := fmap_ofResult_settles hReflexive hComputes hResult
    exact ⟨r.onOk fun value => .ok (G value), _, _, Value.mapSuccess_quietly hReflexive hComputes r,
      ofLiftedResult_of_isResult (Value.onOk_isResult (fun _ => rfl) hResult),
      ofLiftedResult_of_isResult hResult, (ofResult_settles hReflexive host _).runsLike hEquivalence hMapped,
      hMapped⟩
  · exact fun f F hComputes hResults => Value.chain_ok hComputes hResults
  · exact fun unit hComputes r => Value.chain_unit_quietly hReflexive hComputes r
  · exact fun f h composed F H hComputes hResults hOnward hAgain hComposes r =>
      ⟨_, Value.chain_chain_quietly hEquivalence hComputes hResults hOnward hAgain hComposes r⟩
  · exact fun c state world r left steps next hRuns hResult =>
      ⟨_, ofLiftedResult_of_isResult hResult, bind_resumes hRuns⟩

end Alternative

inductive Lifted where
  | checked
  | liftedCheck
  | paired
  | succeed
  | listed
  | checkedThenListed

namespace Host

def lifter : Host Lifted Empty Unit where
  debug := false
  call
    | .checked, [value] => pure (check value)
    | .liftedCheck, [value] => do
        let a ← Exec.demand (Alternative.ofLiftedResult (check value))
        Exec.giveOut a.toValue
    | .paired, [value] => pure (.pair value value)
    | .succeed, [value] => pure (.ok value)
    | .listed, [value] => pure (.ok (.list [value]))
    | .checkedThenListed, [value] =>
        match check value with
        | .ok value => pure (.ok (.list [value]))
        | failure => pure failure
    | _, _ => pure .null
  start _ _ := pure (.value .null)
  spawn _ _ := throw .exhausted
  resume := nofun
  close := nofun
where
  check (value : Value Lifted) : Value Lifted :=
    if value.isTrue then .ok value else .failWith value

def SameNotes (first second : World Unit) : Prop := first.journal = second.journal

theorem sameNotes_equivalence : Equivalence SameNotes where
  refl _ := rfl
  symm hSame := Eq.symm hSame
  trans hSame hAgain := Eq.trans hSame hAgain

theorem lifter_check_isResult (value : Value Lifted) : (lifter.check value).isResult = true := by
  unfold lifter.check
  split <;> rfl

theorem lifter_computes : lifter.Computes SameNotes (.code none .checked) lifter.check :=
  fun _ => .pure sameNotes_equivalence.refl _

theorem lifter_liftsResults : lifter.LiftsResults SameNotes (.code none .liftedCheck) lifter.check := by
  intro value world
  have hLifting := Alternative.ofLiftedResult_of_isResult (lifter_check_isResult value)
  refine ⟨some world.nextMark, _, { world with nextMark := world.nextMark + 1 }, hLifting, ?_, rfl⟩
  show (Exec.demand (Alternative.ofLiftedResult (lifter.check value)) >>= fun a =>
    Exec.giveOut a.toValue) world = _
  rw [hLifting]
  rfl

theorem lifter_composesChains :
    lifter.ComposesChains SameNotes (.code none .checked) (.code none .listed)
      (.code none .checkedThenListed) := by
  intro value world
  show Exec.MatchesBy Eq SameNotes
    ((lifter.check value).chain lifter (.callable (.code none .listed)) world)
    ((match lifter.check value with
      | .ok value => pure (.ok (.list [value]))
      | failure => pure failure : Exec Lifted Unit (Value Lifted)) world)
  cases lifter.check value <;> exact .ok rfl rfl

end Host

namespace Alternative

/-- A check that fails does so whether it is chained or bound, and also behind what ran before. -/
theorem lifting_embeds_results_of_lifter :
    (bind (ofResult (.ok (.int 0))) (.code none .liftedCheck)).Settles Host.SameNotes Host.lifter
      (.failWith (.int 0)) ∧
    (fmap (.code none .paired) (ofResult (.failWith (.int 0)))).Settles Host.SameNotes Host.lifter
      (.failWith (.int 0)) ∧
    (Value.ok (.int 0)).chain Host.lifter (.callable (.code none .checked)) =
      Host.lifter.invoke (.code none .checked) [.int 0] ∧
    ((Value.ok (.int 0)).chain Host.lifter (.callable (.code none .succeed))).Quietly Host.SameNotes
      (.ok (.int 0)) ∧
    ((Value.ok (.int 1)).chain Host.lifter (.callable (.code none .checkedThenListed))).Quietly
      Host.SameNotes (.ok (.list [.int 1])) ∧
    ∃ steps final, (bind (put (.int 7)) (.code none .liftedCheck)).program.Runs Host.lifter
      (.pair (.int 5) (.bool true)) ⟨(), #[], 0⟩
      (.returned (.failWith .null) (.pair (.int 7) (.bool true)) steps) final := by
  obtain ⟨hChains, hMaps, hLeftUnit, hRightUnit, hAssociates, hResumes⟩ :=
    lifting_embeds_results Host.sameNotes_equivalence Host.lifter
  have hReflexive := Host.sameNotes_equivalence.refl
  have hBound := hChains _ _ _ Host.lifter_computes Host.lifter_check_isResult Host.lifter_liftsResults
  refine ⟨?_, ?_, ?_, ?_, ?_, ?_⟩
  · obtain ⟨s, _, _, hQuietly, _, ⟨⟩, _, hSettles⟩ := hBound (.ok (.int 0)) rfl
    obtain ⟨_, ⟨⟩, _⟩ := hQuietly ⟨(), #[], 0⟩
    exact hSettles
  · obtain ⟨s, _, _, hQuietly, _, ⟨⟩, _, hSettles⟩ :=
      hMaps (.code none .paired) (fun value => .pair value value) (fun _ => .pure hReflexive _)
        (.failWith (.int 0)) rfl
    obtain ⟨_, ⟨⟩, _⟩ := hQuietly ⟨(), #[], 0⟩
    exact hSettles
  · exact hLeftUnit _ _ Host.lifter_computes Host.lifter_check_isResult _
  · exact hRightUnit (.code none .succeed) (fun _ => .pure hReflexive _) _
  · obtain ⟨s, _, hQuietly⟩ := hAssociates _ (.code none .listed) _ _ (fun value => .ok (.list [value]))
      Host.lifter_computes Host.lifter_check_isResult (fun _ => .pure hReflexive _) (fun _ => rfl)
      Host.lifter_composesChains (.ok (.int 1))
    obtain ⟨_, ⟨⟩, _⟩ := hQuietly ⟨(), #[], 0⟩
    exact hQuietly
  · have hStored : (put (.int 7)).program.Runs Host.lifter (.pair (.int 5) (.bool true)) ⟨(), #[], 0⟩
        (.returned (.ok .null) (.pair (.int 7) (.bool true)) 2) ⟨(), #[], 0⟩ := ⟨20, rfl⟩
    obtain ⟨_, ⟨⟩, hAlike⟩ := hResumes _ _ _ _ _ _ _ hStored rfl
    obtain ⟨s, _, _, hQuietly, _, ⟨⟩, _, hSettles⟩ := hBound (.ok .null) rfl
    obtain ⟨_, ⟨⟩, _⟩ := hQuietly ⟨(), #[], 0⟩
    obtain ⟨steps, next, hRuns, _⟩ := hSettles (.int 7) true ⟨(), #[], 0⟩
    obtain ⟨other, last, hFound, hSame, _⟩ := (hAlike (.code none .liftedCheck)).back _ _ hRuns
    obtain ⟨more, rfl⟩ := Outcome.returned_of_result hSame
    exact ⟨more, last, hFound⟩

end Alternative

end Backtrack
