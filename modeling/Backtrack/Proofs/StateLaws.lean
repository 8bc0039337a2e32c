import Backtrack.Alternative.OfValues
import Backtrack.Proofs.Continuing

/-! The laws of state programs. Mapping and binding go on from whatever a program returns, so producing
a value is a unit of binding on either side, binds associate, a map binds to a program that produces
the mapped value, and maps compose. A chain of binds runs like the fold of its steps, however it is
nested. -/

namespace Backtrack

variable {κ τ ω : Type} {host : Host κ τ ω} {R : World ω → World ω → Prop} {f g h : Callable κ}
  {value state : Value κ} {world first second : World ω}

open Outcomes

namespace Program

def RunsLike (R : World ω → World ω → Prop) (host : Host κ τ ω) (p q : Program κ) : Prop :=
  ∀ state first second, R first second →
    Alike R (p.Runs host state first) (q.Runs host state second)

end Program

def Value.RunsBound (host : Host κ τ ω) (state : Value κ) : Value κ → World ω → Outcomes κ ω
  | .program p, world => p.Runs host state world
  | other, world => fun outcome final =>
      outcome = .raised (.fault (.expectedBinderProgram other.typeName)) ∧ final = world

namespace Host

/-- The call of a binder, which a generator makes, and the run of the program that it gives. -/
def GoesOn (host : Host κ τ ω) (f : Callable κ) (value state : Value κ) (world : World ω) :
    Outcomes κ ω :=
  Exec.Leads (Value.RunsBound host state) ((host.invoke f [value]).sealed world)

/-- The call of a binder outside of every generator, and the run of the program that it gives. -/
def GoesOnAlone (host : Host κ τ ω) (f : Callable κ) (value state : Value κ) (world : World ω) :
    Outcomes κ ω :=
  Exec.Leads (Value.RunsBound host state) (host.invoke f [value] world)

theorem goesOn_eq_alone (hOther : ¬ host.Stops f value world) :
    host.GoesOn f value state world = host.GoesOnAlone f value state world := by
  rw [GoesOn, sealed_invoke_of_not_stops hOther]
  rfl

/-- The call of a function, which a generator makes; its value takes the place of its argument. -/
def Converts (host : Host κ τ ω) (h : Callable κ) (value state : Value κ) (world : World ω) :
    Outcomes κ ω :=
  Exec.Leads (fun result => returning result state) ((host.invoke h [value]).sealed world)

end Host

namespace Frame

theorem flatMapped_comes : (flatMapped f : Frame κ τ).Comes host = host.GoesOn f := by
  funext value state world
  apply comes_eq_leads rfl
  intro produced next hResumed
  apply eq_of_iff
  intro outcome final
  cases produced with
  | program p => exact comes_of_relaying hResumed
  | _ => exact comes_of_raised hResumed

theorem mapped_comes : (mapped (.call h) : Frame κ τ).Comes host = host.Converts h := by
  funext value state world
  apply comes_eq_leads rfl
  intro result next hResumed
  exact eq_of_iff fun _ _ => comes_of_returned hResumed

end Frame

namespace Program

variable {p : Program κ} {mark : Mark}

theorem flatMap_runs :
    (generator mark (.flatMap p f)).Runs host state world =
      (andThen (p.Runs host state world) (Onto (host.GoesOn f))).after 1 := by
  rw [generator_runs, ← Frame.flatMapped_comes, Frame.comes_eq_onto rfl fun _ => rfl]

theorem map_runs :
    (generator mark (.map p (.call h))).Runs host state world =
      (andThen (p.Runs host state world) (Onto (host.Converts h))).after 1 := by
  rw [generator_runs, ← Frame.mapped_comes, Frame.comes_eq_onto rfl fun _ => rfl]

end Program

inductive Value.ProgramsAlike (R : World ω → World ω → Prop) (host : Host κ τ ω) :
    Value κ → Value κ → Prop where
  | mk {p q : Program κ} : p.RunsLike R host q → ProgramsAlike R host (.program p) (.program q)

inductive Value.FlatMappedWith (R : World ω → World ω → Prop) (host : Host κ τ ω) (g : Callable κ) :
    Value κ → Value κ → Prop where
  | mk {p q : Program κ} {mark : Mark} : p.RunsLike R host q →
      FlatMappedWith R host g (.program p) (.program (.generator mark (.flatMap q g)))

namespace Host

/-- Each call of the function gives a program or raises an exception, and does alike in corresponding
worlds. -/
def GivesPrograms (R : World ω → World ω → Prop) (host : Host κ τ ω) (f : Callable κ) : Prop :=
  ∀ value first second, R first second →
    Exec.MatchesBy (Value.ProgramsAlike R host) R (host.invoke f [value] first)
      (host.invoke f [value] second)

def Purifies (R : World ω → World ω → Prop) (host : Host κ τ ω) (unit : Callable κ) : Prop :=
  ∀ value world, ∃ next,
    host.invoke unit [value] world = .ok (.program (.pure value)) next ∧ R next world

def ComposesPrograms (R : World ω → World ω → Prop) (host : Host κ τ ω) (f g composed : Callable κ) :
    Prop :=
  ∀ value world, Exec.MatchesBy (Value.FlatMappedWith R host g) R (host.invoke f [value] world)
    (host.invoke composed [value] world)

def Lifts (R : World ω → World ω → Prop) (host : Host κ τ ω) (h lifted : Callable κ) : Prop :=
  ∀ value world, Exec.MatchesBy (fun result produced => produced = .program (.pure result)) R
    (host.invoke h [value] world) (host.invoke lifted [value] world)

def ComposesMaps (R : World ω → World ω → Prop) (host : Host κ τ ω) (h j joined : Callable κ) : Prop :=
  ∀ value world, Exec.MatchesBy Eq R
    ((host.invoke h [value] >>= fun result => host.invoke j [result]) world)
    (host.invoke joined [value] world)

theorem GivesPrograms.goesOn_alike (hGives : host.GivesPrograms R g) (hRelated : R first second) :
    Alike R (host.GoesOn g value state first) (host.GoesOn g value state second) := by
  apply (hGives value first second hRelated).sealed.leads
  intro _ _ world other hPrograms hOnward
  cases hPrograms with
  | mk hAlike => exact hAlike state world other hOnward

end Host

namespace Program.RunsLike

variable {p q r : Program κ} {mark other : Mark}

theorem swap (hEquivalence : Equivalence R) (hAlike : p.RunsLike R host q) : q.RunsLike R host p :=
  fun state first second hRelated =>
    (hAlike state second first (hEquivalence.symm hRelated)).swap hEquivalence.symm

theorem trans (hEquivalence : Equivalence R) (hAlike : p.RunsLike R host q)
    (hOnward : q.RunsLike R host r) : p.RunsLike R host r :=
  fun state first second hRelated =>
    (hAlike state first second hRelated).trans_of (fun hLeft hRight => hEquivalence.trans hLeft hRight)
      (hOnward state second second (hEquivalence.refl second))

theorem flatMap (hAlike : p.RunsLike R host q) (hGives : host.GivesPrograms R g) :
    RunsLike R host (.generator mark (.flatMap p g)) (.generator other (.flatMap q g)) := by
  intro state first second hRelated
  have hRuns := (hAlike state first second hRelated).onto (S := host.GoesOn g) (T := host.GoesOn g)
    fun _ _ _ _ _ _ => hGives.goesOn_alike
  rw [flatMap_runs, flatMap_runs]
  exact (hRuns.after_left 1).after_right 1

end Program.RunsLike

namespace Host

variable {unit composed lifted j joined : Callable κ}

theorem Purifies.goesOn_alike (hPurifies : host.Purifies R unit) :
    Alike R (host.GoesOn unit value state world) (returning value state world) := by
  obtain ⟨next, hInvoked, hRelated⟩ := hPurifies value world
  rw [GoesOn, Exec.sealed_of_ok hInvoked, Exec.leads_ok]
  exact .of_only (fun _ _ => Program.pure_runs_iff) (fun _ _ => Iff.rfl) rfl hRelated

theorem ComposesPrograms.goesOn_alike (hComposes : host.ComposesPrograms R f g composed)
    (hGives : host.GivesPrograms R g) :
    Alike R (andThen (host.GoesOn f value state world) (Onto (host.GoesOn g)))
      (host.GoesOn composed value state world) := by
  rw [GoesOn, Exec.leads_andThen_onto]
  apply (hComposes value world).sealed.leads
  intro _ _ next other hFlatMapped hRelated
  cases hFlatMapped with
  | mk hAlike =>
      have hRuns := (hAlike state next other hRelated).onto (S := host.GoesOn g) (T := host.GoesOn g)
        fun _ _ _ _ _ _ => hGives.goesOn_alike
      rw [Value.RunsBound, Value.RunsBound, Program.flatMap_runs]
      exact hRuns.after_right 1

theorem ComposesPrograms.gives (hEquivalence : Equivalence R)
    (hComposes : host.ComposesPrograms R f g composed) (hFirst : host.GivesPrograms R f)
    (hSecond : host.GivesPrograms R g) :
    host.GivesPrograms R composed := by
  intro value here there hRelated
  have hMatched := hFirst value here there hRelated
  have hLeft := hComposes value here
  have hRight := hComposes value there
  generalize host.invoke f [value] here = result at hMatched hLeft
  generalize host.invoke f [value] there = answer at hMatched hRight
  cases hMatched with
  | ok hHeld hKept =>
      obtain ⟨_, _, hLeftCall, hLeftBinds, hLeftKept⟩ := hLeft.of_ok
      obtain ⟨_, _, hRightCall, hRightBinds, hRightKept⟩ := hRight.of_ok
      rw [hLeftCall, hRightCall]
      cases hHeld with
      | mk hAlike =>
          cases hLeftBinds with
          | mk hLeftAlike =>
              cases hRightBinds with
              | mk hRightAlike =>
                  have hInner := (hLeftAlike.swap hEquivalence).trans hEquivalence
                    (hAlike.trans hEquivalence hRightAlike)
                  exact .ok (.mk (hInner.flatMap hSecond))
                    (hEquivalence.trans (hEquivalence.symm hLeftKept) (hEquivalence.trans hKept hRightKept))
  | error hKept =>
      obtain ⟨_, hLeftCall, hLeftKept⟩ := hLeft.of_error
      obtain ⟨_, hRightCall, hRightKept⟩ := hRight.of_error
      rw [hLeftCall, hRightCall]
      exact .error
        (hEquivalence.trans (hEquivalence.symm hLeftKept) (hEquivalence.trans hKept hRightKept))

theorem Lifts.converts_alike (hLifts : host.Lifts R h lifted) :
    Alike R (host.Converts h value state world) (host.GoesOn lifted value state world) := by
  apply (hLifts value world).sealed.leads
  rintro result _ next other rfl hRelated
  exact .of_only (fun _ _ => Iff.rfl) (fun _ _ => Program.pure_runs_iff) rfl hRelated

theorem ComposesMaps.converts_alike (hComposes : host.ComposesMaps R h j joined) :
    Alike R (andThen (host.Converts h value state world) (Onto (host.Converts j)))
      (host.Converts joined value state world) := by
  have hUnfolded : andThen (host.Converts h value state world) (Onto (host.Converts j)) =
      Exec.Leads (fun result => returning result state)
        ((host.invoke h [value] >>= fun result => host.invoke j [result]).sealed world) := by
    rw [Converts, Exec.leads_andThen_onto, Exec.sealed_bind, Exec.leads_bind]
    simp only [returning_andThen]
    rfl
  rw [hUnfolded]
  apply (hComposes value world).sealed.leads
  rintro result _ next other rfl hRelated
  exact .of_only (fun _ _ => Iff.rfl) (fun _ _ => Iff.rfl) rfl hRelated

/-- The fold of the steps: each is called with the value of the one before it, and the program that it
gives runs from the state that the one before it left. -/
def Passes (goesOn : Callable κ → Value κ → Value κ → World ω → Outcomes κ ω) :
    List (Callable κ) → Value κ → Value κ → World ω → Outcomes κ ω
  | [], value, state, world => returning value state world
  | f :: rest, value, state, world =>
      andThen (goesOn f value state world) (Onto (Passes goesOn rest))

theorem passes_alone (fs : List (Callable κ))
    (hOther : ∀ f ∈ fs, ∀ value world, ¬ host.Stops f value world) :
    Passes host.GoesOn fs = Passes host.GoesOnAlone fs := by
  induction fs with
  | nil => rfl
  | cons f fs ih =>
      have hFirst : ∀ value world, ¬ host.Stops f value world := hOther f (List.mem_cons_self ..)
      funext value state world
      rw [Passes, Passes, goesOn_eq_alone (hFirst value world),
        ih fun g hHg => hOther g (List.mem_cons_of_mem f hHg)]

theorem passes_append (fs gs : List (Callable κ)) :
    Passes host.GoesOn (fs ++ gs) value state world =
      andThen (Passes host.GoesOn fs value state world) (Onto (Passes host.GoesOn gs)) := by
  induction fs generalizing value state world with
  | nil => exact returning_andThen.symm
  | cons f fs ih =>
      have hOnward : Passes host.GoesOn (fs ++ gs) = fun value left next =>
          andThen (Passes host.GoesOn fs value left next) (Onto (Passes host.GoesOn gs)) := by
        funext value left next
        exact ih
      rw [List.cons_append, Passes, Passes, andThen_onto_assoc, hOnward]

/-- The function stands for the steps: it is one of them alone, or it binds one function that stands for
steps to another. -/
inductive Nests (R : World ω → World ω → Prop) (host : Host κ τ ω) :
    Callable κ → List (Callable κ) → Prop where
  | step {f : Callable κ} : host.GivesPrograms R f → Nests R host f [f]
  | composed {f g composed : Callable κ} {fs gs : List (Callable κ)} :
      Nests R host f fs → Nests R host g gs → host.ComposesPrograms R f g composed →
      Nests R host composed (fs ++ gs)

namespace Nests

variable {fs : List (Callable κ)}

theorem givesPrograms (hEquivalence : Equivalence R) (hNests : Nests R host f fs) :
    host.GivesPrograms R f := by
  induction hNests with
  | step hGives => exact hGives
  | composed _ _ hComposes hFirstIh hSecondIh => exact hComposes.gives hEquivalence hFirstIh hSecondIh

theorem goesOn_alike (hEquivalence : Equivalence R) (hNests : Nests R host f fs)
    (hRelated : R first second) :
    Alike R (host.GoesOn f value state first) (Passes host.GoesOn fs value state second) := by
  induction hNests generalizing value state first second with
  | step hGives =>
      rw [Passes, show Passes host.GoesOn [] = returning from rfl, andThen_returning]
      exact hGives.goesOn_alike hRelated
  | @composed f g composed fs gs _ hNested hComposes hFirstIh hSecondIh =>
      have hUnnested : Alike R (host.GoesOn composed value state first)
          (andThen (host.GoesOn f value state first) (Onto (host.GoesOn g))) :=
        (hComposes.goesOn_alike (hNested.givesPrograms hEquivalence)).swap hEquivalence.symm
      have hFolded : Alike R (andThen (host.GoesOn f value state first) (Onto (host.GoesOn g)))
          (andThen (Passes host.GoesOn fs value state second) (Onto (Passes host.GoesOn gs))) :=
        (hFirstIh hRelated).onto fun _ _ _ _ _ _ => hSecondIh
      rw [passes_append]
      exact hUnnested.trans_of (fun hLeft hRight => hEquivalence.trans hLeft hRight) hFolded

end Nests

end Host

namespace Program

variable {p : Program κ} {unit composed lifted j joined : Callable κ}

theorem pure_flatMap_runs :
    (flatMap (.pure value) f).Runs host state world =
      (host.GoesOn f value state world).after 2 := by
  rw [flatMap, flatMap_runs, pure_runs, after_andThen_onto, returning_andThen, after_after]

theorem flatMap_unit_alike (hReflexive : ∀ x, R x x) (hPurifies : host.Purifies R unit) :
    Alike R ((p.flatMap unit).Runs host state world) (p.Runs host state world) := by
  have hRuns : Alike R (andThen (p.Runs host state world) (Onto (host.GoesOn unit)))
      (andThen (p.Runs host state world) (Onto returning)) :=
    Alike.onto_same hReflexive fun _ _ _ _ _ => hPurifies.goesOn_alike
  rw [andThen_returning] at hRuns
  rw [flatMap, flatMap_runs]
  exact hRuns.after_left 1

theorem flatMap_flatMap_alike (hReflexive : ∀ x, R x x) (hGives : host.GivesPrograms R g)
    (hComposes : host.ComposesPrograms R f g composed) :
    Alike R (((p.flatMap f).flatMap g).Runs host state world)
      ((p.flatMap composed).Runs host state world) := by
  have hRuns : Alike R
      (andThen (p.Runs host state world) (Onto fun value left next =>
        andThen (host.GoesOn f value left next) (Onto (host.GoesOn g))))
      (andThen (p.Runs host state world) (Onto (host.GoesOn composed))) :=
    Alike.onto_same hReflexive fun _ _ _ _ _ => hComposes.goesOn_alike hGives
  rw [flatMap, flatMap, flatMap, flatMap_runs, flatMap_runs, flatMap_runs, after_andThen_onto,
    andThen_onto_assoc, after_after]
  exact (hRuns.after_left 2).after_right 1

theorem map_alike (hReflexive : ∀ x, R x x) (hLifts : host.Lifts R h lifted) :
    Alike R ((p.map h).Runs host state world) ((p.flatMap lifted).Runs host state world) := by
  have hRuns : Alike R (andThen (p.Runs host state world) (Onto (host.Converts h)))
      (andThen (p.Runs host state world) (Onto (host.GoesOn lifted))) :=
    Alike.onto_same hReflexive fun _ _ _ _ _ => hLifts.converts_alike
  rw [map, map_runs, flatMap, flatMap_runs]
  exact (hRuns.after_left 1).after_right 1

theorem map_map_alike (hReflexive : ∀ x, R x x) (hComposes : host.ComposesMaps R h j joined) :
    Alike R (((p.map h).map j).Runs host state world) ((p.map joined).Runs host state world) := by
  have hRuns : Alike R
      (andThen (p.Runs host state world) (Onto fun value left next =>
        andThen (host.Converts h value left next) (Onto (host.Converts j))))
      (andThen (p.Runs host state world) (Onto (host.Converts joined))) :=
    Alike.onto_same hReflexive fun _ _ _ _ _ => hComposes.converts_alike
  rw [map, map, map, map_runs, map_runs, map_runs, after_andThen_onto, andThen_onto_assoc,
    after_after]
  exact (hRuns.after_left 2).after_right 1

/-- The second program binds the steps to the first one, each bind to all that comes before it, in
functions that may nest several steps. -/
inductive Chained (R : World ω → World ω → Prop) (host : Host κ τ ω) (p : Program κ) :
    Program κ → List (Callable κ) → Prop where
  | start : Chained R host p p []
  | bound {q : Program κ} {f : Callable κ} {fs gs : List (Callable κ)} {mark : Mark} :
      Chained R host p q fs → host.Nests R f gs →
      Chained R host p (.generator mark (.flatMap q f)) (fs ++ gs)

/-- A chain runs like the fold of its steps over the state. -/
theorem Chained.alike (hEquivalence : Equivalence R) {q : Program κ} {fs : List (Callable κ)}
    (hChained : Chained R host p q fs) :
    Alike R (q.Runs host state world)
      (andThen (p.Runs host state world) (Onto (Host.Passes host.GoesOn fs))) := by
  induction hChained with
  | start =>
      rw [show Host.Passes host.GoesOn [] = returning from rfl, andThen_returning]
      exact .of_refl hEquivalence.refl _
  | @bound q f fs gs mark _ hNests ih =>
      have hRuns := ih.onto (S := host.GoesOn f) (T := Host.Passes host.GoesOn gs)
        fun _ _ _ _ _ _ => hNests.goesOn_alike hEquivalence
      have hAppended : Host.Passes host.GoesOn (fs ++ gs) = fun value left next =>
          andThen (Host.Passes host.GoesOn fs value left next) (Onto (Host.Passes host.GoesOn gs)) := by
        funext value left next
        exact Host.passes_append fs gs
      rw [andThen_onto_assoc] at hRuns
      rw [flatMap_runs, hAppended]
      exact hRuns.after_left 1

theorem pure_flatMap_runs_of_stops {args : List (Value κ)} {next : World ω}
    (hInvoked : host.invoke f [value] world = .error (.raised (.thrown .stopIteration args)) next)
    (outcome : Outcome κ) (final : World ω) :
    (flatMap (.pure value) f).Runs host state world outcome final ↔
      outcome = .raised (.thrown .runtime [.str "generator raised StopIteration"]) ∧ final = next := by
  have hOnly : ∀ o w, host.GoesOn f value state world o w ↔
      o = .raised (.thrown .runtime [.str "generator raised StopIteration"]) ∧ w = next := by
    intro o w
    rw [Host.GoesOn, Exec.sealed_of_error hInvoked]
    exact Exec.leads_raised_iff
  rw [pure_flatMap_runs]
  exact after_of_only hOnly 2 outcome final

/-- The laws of mapping and binding. What is alike gives the same value, leaves the same state, raises
the same exception and leaves corresponding worlds; or neither side ends. The generators of the library make
the calls: what would end a generator leaves them as another exception than it leaves the call alone. -/
theorem state_laws (hEquivalence : Equivalence R) (host : Host κ τ ω) :
    (∀ f value state world, ¬ host.Stops f value world →
      (flatMap (.pure value) f).Runs host state world =
        (host.GoesOnAlone f value state world).after 2) ∧
    (∀ f value state world args next,
      host.invoke f [value] world = .error (.raised (.thrown .stopIteration args)) next →
      ∀ outcome final, (flatMap (.pure value) f).Runs host state world outcome final ↔
        outcome = .raised (.thrown .runtime [.str "generator raised StopIteration"]) ∧ final = next) ∧
    (∀ unit, host.Purifies R unit → ∀ (p : Program κ) state world,
      Alike R ((p.flatMap unit).Runs host state world) (p.Runs host state world)) ∧
    (∀ f g composed, host.GivesPrograms R g → host.ComposesPrograms R f g composed →
      ∀ (p : Program κ) state world, Alike R (((p.flatMap f).flatMap g).Runs host state world)
        ((p.flatMap composed).Runs host state world)) ∧
    (∀ h lifted, host.Lifts R h lifted → ∀ (p : Program κ) state world,
      Alike R ((p.map h).Runs host state world) ((p.flatMap lifted).Runs host state world)) ∧
    (∀ h j joined, host.ComposesMaps R h j joined → ∀ (p : Program κ) state world,
      Alike R (((p.map h).map j).Runs host state world) ((p.map joined).Runs host state world)) ∧
    (∀ (p q : Program κ) fs, Chained R host p q fs → ∀ state world,
      Alike R (q.Runs host state world)
        (andThen (p.Runs host state world) (Onto (Host.Passes host.GoesOn fs)))) ∧
    ∀ fs : List (Callable κ), (∀ f ∈ fs, ∀ value world, ¬ host.Stops f value world) →
      Host.Passes host.GoesOn fs = Host.Passes host.GoesOnAlone fs := by
  refine ⟨?_, ?_, ?_, ?_, ?_, ?_, ?_, ?_⟩
  · intro f value state world hOther
    rw [pure_flatMap_runs, Host.goesOn_eq_alone hOther]
  · exact fun _ _ _ _ _ _ hInvoked => pure_flatMap_runs_of_stops hInvoked
  · exact fun _ hPurifies _ _ _ => flatMap_unit_alike hEquivalence.refl hPurifies
  · exact fun _ _ _ hGives hComposes _ _ _ => flatMap_flatMap_alike hEquivalence.refl hGives hComposes
  · exact fun _ _ hLifts _ _ _ => map_alike hEquivalence.refl hLifts
  · exact fun _ _ _ hComposes _ _ _ => map_map_alike hEquivalence.refl hComposes
  · exact fun _ _ _ hChained _ _ => hChained.alike hEquivalence
  · exact fun fs hOther => Host.passes_alone fs hOther

/-- The call raises one exception and the bind of a produced value another. -/
theorem flatMap_pure_seals_exception :
    (∀ outcome final, Host.stopper.GoesOnAlone (.code none ()) (.int 1) (.int 0) ⟨(), #[], 0⟩
        outcome final ↔
      outcome = .raised (.thrown .stopIteration []) ∧ final = ⟨(), #[], 0⟩) ∧
    ∀ outcome final, (flatMap (.pure (.int 1)) (.code none ())).Runs Host.stopper (.int 0)
        ⟨(), #[], 0⟩ outcome final ↔
      outcome = .raised (.thrown .runtime [.str "generator raised StopIteration"]) ∧
        final = ⟨(), #[], 0⟩ := by
  have hInvoked : Host.stopper.invoke (.code none ()) [.int 1] ⟨(), #[], 0⟩ =
      .error (.raised (.thrown .stopIteration [])) ⟨(), #[], 0⟩ := rfl
  refine ⟨fun outcome final => ?_, pure_flatMap_runs_of_stops hInvoked⟩
  rw [Host.GoesOnAlone, hInvoked]
  exact Exec.leads_raised_iff

end Program

inductive Stored where
  | unit
  | stored
  | storedTwice
  | paired
  | pairedUnit
  | pairedTwice

namespace Host

def storer : Host Stored Empty (List (Value Stored)) where
  debug := false
  call
    | .unit, [value] => Exec.giveOut (.program (.pure value))
    | .stored, [value] => store value
    | .storedTwice, [value] => do
        match ← store value with
        | .program p => Exec.giveOut (.program (p.flatMap (.code none .stored)))
        | other => pure other
    | .paired, [value] => pair value
    | .pairedUnit, [value] => do
        let both ← pair value
        Exec.giveOut (.program (.pure both))
    | .pairedTwice, [value] => do pair (← pair value)
    | _, _ => pure .null
  start _ _ := pure (.value .null)
  spawn _ _ := throw .exhausted
  resume := nofun
  close := nofun
where
  log (value : Value Stored) : Exec Stored (List (Value Stored)) Unit :=
    modify fun world => { world with host := value :: world.host }
  store (value : Value Stored) : Exec Stored (List (Value Stored)) (Value Stored) := do
    log value
    if value.isTrue then Exec.giveOut (.program (.put value))
    else Exec.raise (.thrown .value [value])
  pair (value : Value Stored) : Exec Stored (List (Value Stored)) (Value Stored) := do
    log value
    pure (.pair value value)

def SameStores (first second : World (List (Value Stored))) : Prop := first.host = second.host

theorem sameStores_equivalence : Equivalence SameStores where
  refl _ := rfl
  symm hSame := Eq.symm hSame
  trans hSame hAgain := Eq.trans hSame hAgain

theorem put_runsLike (value : Value Stored) :
    (Program.put value).RunsLike SameStores storer (.put value) := by
  intro state first second hRelated
  have hOnly : ∀ world o w, (Program.put value).Runs storer state world o w ↔
      o = .returned .null value 1 ∧ w = world := by
    intro world o w
    rw [Program.runs_iff_exists_evaluates]
    constructor
    · rintro ⟨ending, hEvaluates, rfl⟩
      obtain ⟨rfl, rfl⟩ := Evaluates.put_iff.mp hEvaluates
      exact ⟨rfl, rfl⟩
    · rintro ⟨rfl, rfl⟩
      exact ⟨_, .put, rfl⟩
  exact .of_only (hOnly first) (hOnly second) rfl hRelated

theorem storer_purifies : storer.Purifies SameStores (.code none .unit) :=
  fun _ _ => ⟨_, rfl, rfl⟩

theorem storer_gives : storer.GivesPrograms SameStores (.code none .stored) := by
  intro value first second hRelated
  have hLogged : value :: first.host = value :: second.host := congrArg (value :: ·) hRelated
  show Exec.MatchesBy _ _ (storer.store value first) (storer.store value second)
  unfold storer.store
  cases value.isTrue with
  | true => exact .ok (.mk (put_runsLike value)) hLogged
  | false => exact .error hLogged

theorem storer_composes :
    storer.ComposesPrograms SameStores (.code none .stored) (.code none .stored)
      (.code none .storedTwice) := by
  intro value world
  show Exec.MatchesBy _ _ (storer.store value world) ((storer.store value >>= _) world)
  unfold storer.store
  cases value.isTrue with
  | true => exact .ok (.mk (put_runsLike value)) rfl
  | false => exact .error rfl

theorem storer_lifts : storer.Lifts SameStores (.code none .paired) (.code none .pairedUnit) :=
  fun _ _ => .ok rfl rfl

theorem storer_composesMaps :
    storer.ComposesMaps SameStores (.code none .paired) (.code none .paired)
      (.code none .pairedTwice) :=
  fun _ _ => .ok rfl rfl

end Host

namespace Program

/-- Producing a value is a unit of a put, and a put maps and binds in pairs. The second step of the chain
raises, for it is called with what storing produces; with both steps nested in one function it runs like the
fold. -/
theorem state_laws_of_storer :
    (flatMap (.pure (.int 1)) (.code none .stored)).Runs Host.storer .null ⟨[], #[], 0⟩ =
      (Host.storer.GoesOnAlone (.code none .stored) (.int 1) .null ⟨[], #[], 0⟩).after 2 ∧
    (Alike Host.SameStores
        (((Program.put (.int 1)).flatMap (.code none .unit)).Runs Host.storer .null ⟨[], #[], 0⟩)
        ((Program.put (.int 1)).Runs Host.storer .null ⟨[], #[], 0⟩) ∧
      Alike Host.SameStores
        (((Program.put (.int 1)).map (.code none .paired)).Runs Host.storer .null ⟨[], #[], 0⟩)
        (((Program.put (.int 1)).flatMap (.code none .pairedUnit)).Runs Host.storer .null
          ⟨[], #[], 0⟩) ∧
      Alike Host.SameStores
        ((((Program.put (.int 1)).map (.code none .paired)).map (.code none .paired)).Runs Host.storer
          .null ⟨[], #[], 0⟩)
        (((Program.put (.int 1)).map (.code none .pairedTwice)).Runs Host.storer .null
          ⟨[], #[], 0⟩)) ∧
    Alike Host.SameStores
      (((Program.pure (.int 1)).flatMap (.code none .storedTwice)).Runs Host.storer .null
        ⟨[], #[], 0⟩)
      (andThen ((Program.pure (.int 1)).Runs Host.storer .null ⟨[], #[], 0⟩)
        (Onto (Host.Passes Host.storer.GoesOn [.code none .stored, .code none .stored]))) ∧
    ∃ final, (((Program.pure (.int 1)).flatMap (.code none .stored)).flatMap
        (.code none .stored)).Runs Host.storer .null ⟨[], #[], 0⟩
        (.raised (.thrown .value [.null])) final ∧ final.host = [.null, .int 1] := by
  obtain ⟨hProduced, _, hUnit, hAssociates, hMaps, hComposes, hFolds, _⟩ :=
    state_laws Host.sameStores_equivalence Host.storer
  have hTwice : Host.storer.Nests Host.SameStores (.code none .storedTwice)
      [.code none .stored, .code none .stored] :=
    .composed (.step Host.storer_gives) (.step Host.storer_gives) Host.storer_composes
  have hOther : ¬ Host.storer.Stops (.code none .stored) (.int 1) ⟨[], #[], 0⟩ := by
    rintro ⟨args, next, ⟨⟩⟩
  refine ⟨hProduced _ _ _ _ hOther, ⟨hUnit _ Host.storer_purifies _ _ _, hMaps _ _ Host.storer_lifts _ _ _,
    hComposes _ _ _ Host.storer_composesMaps _ _ _⟩, hFolds _ _ _ (.bound .start hTwice) _ _, ?_⟩
  have hNested : ((Program.pure (.int 1)).flatMap (.code none .storedTwice)).Runs Host.storer .null
      ⟨[], #[], 0⟩ (.raised (.thrown .value [.null])) ⟨[.null, .int 1], #[], 2⟩ :=
    ⟨20, rfl⟩
  obtain ⟨other, last, hRuns, hSame, hLogged⟩ :=
    (hAssociates _ _ _ Host.storer_gives Host.storer_composes _ _ _).back _ _ hNested
  obtain rfl := Outcome.raised_of_result hSame
  exact ⟨last, hRuns, hLogged⟩

end Program

end Backtrack
