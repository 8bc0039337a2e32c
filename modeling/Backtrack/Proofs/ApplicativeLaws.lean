import Backtrack.Proofs.Equivalence
import Backtrack.Proofs.MonadLaws
import Backtrack.Proofs.StateLaws
import Backtrack.Proofs.Visits

namespace Backtrack

variable {κ τ ω : Type} {host : Host κ τ ω} {R : World ω → World ω → Prop} {f g : Callable κ}
  {value state failure user : Value κ} {flag : Bool} {world first second : World ω}

open Outcomes

theorem Exec.MatchesBy.successes_alike {result answer : EStateM.Result (Halt κ) (World ω) (Value κ)}
    (hMatched : Exec.MatchesBy Eq R result answer) :
    Alike R (Exec.Leads (fun value => returning (.ok value) state) result)
      (Exec.Leads (fun value => returning (.ok value) state) answer) := by
  apply hMatched.leads
  rintro value _ first second rfl hRelated
  exact .returning hRelated

def Outcomes.raising (exception : Raised κ) (world : World ω) : Outcomes κ ω :=
  fun outcome final => outcome = .raised exception ∧ final = world

namespace Frame

theorem bound_comes_err {f : Mapper κ} :
    (bound f : Frame κ τ).Comes host (.err failure) state world =
      returning (.err failure) state world :=
  eq_of_iff fun _ _ => comes_of_returned rfl

theorem mapping_comes :
    (bound (.injectAfter f) : Frame κ τ).Comes host (.ok value) state world =
      after (Exec.Leads (fun result => returning (.ok result) state)
        ((host.invoke f [value]).sealed world)) 1 := by
  rw [← Exec.leads_after]
  apply eq_of_iff
  intro outcome final
  rw [mapping_comes_iff]
  cases hInvoked : host.invoke f [value] world with
  | ok result next =>
      rw [Host.Maps.mapped_iff hInvoked, Exec.sealed_of_ok hInvoked, Exec.leads_ok,
        after_of_only fun _ _ => returning_iff]
      rfl
  | error halt next =>
      rw [Exec.sealed_of_error hInvoked]
      cases halt with
      | raised exception =>
          rw [Host.Maps.raised_iff hInvoked]
          exact Exec.leads_raised_iff.symm
      | exhausted => exact iff_of_false (Host.Maps.not_of_exhausted hInvoked) Exec.not_leads_exhausted

theorem applying_comes {c : Alternative κ} :
    (bound (.mapOver c.program) : Frame κ τ).Comes host (.ok (.callable f)) state world =
      (Alternative.fmap f c).program.Runs host state world :=
  eq_of_iff fun _ _ => comes_of_relaying rfl

theorem resume_applying_of_stray {p : Program κ} (hStray : ∀ f, value ≠ .callable f) :
    (bound (.mapOver p) : Frame κ τ).resume host (.ok value) world =
      .error (.raised (.fault (.expectedCallable .mapper))) world := by
  cases value with
  | callable f => exact absurd rfl (hStray f)
  | _ => rfl

theorem applying_comes_of_stray {p : Program κ} (hStray : ∀ f, value ≠ .callable f) :
    (bound (.mapOver p) : Frame κ τ).Comes host (.ok value) state world =
      raising (.fault (.expectedCallable .mapper)) world :=
  eq_of_iff fun _ _ => comes_of_raised (resume_applying_of_stray hStray)

end Frame

namespace Alternative

variable {a b c u v w : Alternative κ}

theorem fmap_runs :
    (fmap f c).program.Runs host state world =
      (andThen (c.program.Runs host state world)
        (Onto ((Frame.bound (.injectAfter f)).Comes host))).after 1 :=
  Program.bind_runs

theorem apply_runs :
    (apply u c).program.Runs host state world =
      (andThen (u.program.Runs host state world)
        (Onto ((Frame.bound (.mapOver c.program)).Comes host))).after 1 :=
  Program.bind_runs

theorem inject_runs :
    (inject value).program.Runs host state world = (returning (.ok value) state world).after 1 :=
  Program.pure_runs

theorem apply_inject_runs :
    (apply (inject (.callable f)) c).program.Runs host state world =
      after ((fmap f c).program.Runs host state world) 2 := by
  rw [apply_runs, inject_runs, after_andThen_onto, returning_andThen, Frame.applying_comes, after_after]

section Continued

variable {S T : Value κ → Value κ → World ω → Outcomes κ ω}

theorem GivesResults.onto_same (hGives : a.GivesResults host) (hReflexive : ∀ x, R x x)
    (hFailed : ∀ failure state world,
      Alike R (S (.err failure) state world) (T (.err failure) state world))
    (hSucceeded : ∀ value left set steps next,
      a.program.Runs host (.pair user (.bool flag)) world
        (.returned (.ok value) (.pair left (.bool set)) steps) next →
      Alike R (S (.ok value) (.pair left (.bool set)) next)
        (T (.ok value) (.pair left (.bool set)) next)) :
    Alike R (andThen (a.program.Runs host (.pair user (.bool flag)) world) (Onto S))
      (andThen (a.program.Runs host (.pair user (.bool flag)) world) (Onto T)) := by
  apply Alike.onto_same hReflexive
  intro value state steps next hRuns
  obtain ⟨hResult, ⟨left, set⟩⟩ := hGives user flag world value state steps next hRuns
  cases value with
  | ok value => exact hSucceeded value left set steps next hRuns
  | err failure => exact hFailed failure _ next
  | _ => cases hResult

theorem GivesResults.onto (hGives : a.GivesResults host) (hAlike : a.RunsLike R host a)
    (hRelated : R first second)
    (hFailed : ∀ failure state first second, R first second →
      Alike R (S (.err failure) state first) (T (.err failure) state second))
    (hSucceeded : ∀ value left set steps here there,
      a.program.Runs host (.pair user (.bool flag)) first
        (.returned (.ok value) (.pair left (.bool set)) steps) here → R here there →
      Alike R (S (.ok value) (.pair left (.bool set)) here)
        (T (.ok value) (.pair left (.bool set)) there)) :
    Alike R (andThen (a.program.Runs host (.pair user (.bool flag)) first) (Onto S))
      (andThen (a.program.Runs host (.pair user (.bool flag)) second) (Onto T)) := by
  apply (hAlike user flag first second hRelated).onto
  intro value state steps here there hRuns hMet
  obtain ⟨hResult, ⟨left, set⟩⟩ := hGives user flag first value state steps here hRuns
  cases value with
  | ok value => exact hSucceeded value left set steps here there hRuns hMet
  | err failure => exact hFailed failure _ here there hMet
  | _ => cases hResult

end Continued

def RunsAlike (R : World ω → World ω → Prop) (host : Host κ τ ω) (a b : Alternative κ) : Prop :=
  ∀ user flag world, Alike R (a.program.Runs host (.pair user (.bool flag)) world)
    (b.program.Runs host (.pair user (.bool flag)) world)

theorem produces_of_runs {left : Value κ} {steps : Nat} {next : World ω}
    (hRuns : a.program.Runs host (.pair user (.bool flag)) world (.returned value left steps) next) :
    a.program.Produces host value :=
  ⟨user, flag, world, left, steps, next, hRuns.evaluates⟩

def GivesCallables (host : Host κ τ ω) (a : Alternative κ) : Prop :=
  ∀ value, a.program.Produces host (.ok value) → ∃ f, value = .callable f

/-- The alternative gives results, and succeeds only with functions, which do alike in corresponding
worlds. -/
structure GivesFunctions (R : World ω → World ω → Prop) (host : Host κ τ ω) (a : Alternative κ) :
    Prop where
  results : a.GivesResults host
  callables : a.GivesCallables host
  maps : a.GivesMaps R host

end Alternative

namespace Host

def Returns (R : World ω → World ω → Prop) (host : Host κ τ ω) (identity : Callable κ) : Prop :=
  ∀ value world, ∃ next, host.invoke identity [value] world = .ok value next ∧ R next world

def Feeds (R : World ω → World ω → Prop) (host : Host κ τ ω) (argument : Value κ)
    (feed f : Callable κ) : Prop :=
  ∀ world, Exec.MatchesBy Eq R (host.invoke f [argument] world)
    (host.invoke feed [.callable f] world)

def ComposesAfter (R : World ω → World ω → Prop) (host : Host κ τ ω) (f after g : Callable κ) : Prop :=
  ∀ world, ∃ composed next,
    host.invoke after [.callable g] world = .ok (.callable composed) next ∧ R next world ∧
      host.ComposesMaps R g f composed

/-- Called with the function `f`, the function `compose` gives one that composes it with the functions
that the predicate holds of. -/
def Curries (R : World ω → World ω → Prop) (host : Host κ τ ω) (compose f : Callable κ)
    (inner : Callable κ → Prop) : Prop :=
  ∀ world, ∃ after next, host.invoke compose [.callable f] world = .ok (.callable after) next ∧
    R next world ∧ ∀ g, inner g → host.ComposesAfter R f after g

end Host

namespace Frame

variable {j : Callable κ}

theorem mapping_mapping_comes :
    andThen ((bound (.injectAfter f) : Frame κ τ).Comes host (.ok value) state world)
        (Onto ((bound (.injectAfter g)).Comes host)) =
      after (Exec.Leads (fun result => returning (.ok result) state)
        ((host.invoke f [value] >>= fun result => host.invoke g [result]).sealed world)) 2 := by
  rw [mapping_comes, after_andThen_onto, Exec.leads_andThen_onto, Exec.sealed_bind, Exec.leads_bind]
  simp only [returning_andThen, mapping_comes]
  rw [Exec.leads_after, after_after]

end Frame

namespace Alternative

variable {identity joined feed : Callable κ}

theorem fmap_identity_runsAlike (hReflexive : ∀ x, R x x) (hReturns : host.Returns R identity)
    (hGives : c.GivesResults host) : (fmap identity c).RunsAlike R host c := by
  intro user flag world
  have hKept : Alike R
      (andThen (c.program.Runs host (.pair user (.bool flag)) world)
        (Onto ((Frame.bound (.injectAfter identity)).Comes host)))
      (andThen (c.program.Runs host (.pair user (.bool flag)) world) (Onto returning)) := by
    apply hGives.onto_same hReflexive
    · intro failure state world
      rw [Frame.bound_comes_err]
      exact .returning (hReflexive world)
    · intro value left set _ world _
      obtain ⟨next, hInvoked, hRelated⟩ := hReturns value world
      rw [Frame.mapping_comes, Exec.sealed_of_ok hInvoked, Exec.leads_ok]
      exact (Alike.returning hRelated).after_left 1
  rw [andThen_returning] at hKept
  rw [fmap_runs]
  exact hKept.after_left 1

theorem fmap_fmap_runsAlike (hReflexive : ∀ x, R x x) (hComposes : host.ComposesMaps R f g joined)
    (hGives : c.GivesResults host) : (fmap g (fmap f c)).RunsAlike R host (fmap joined c) := by
  intro user flag world
  have hMapped : Alike R
      (andThen (c.program.Runs host (.pair user (.bool flag)) world)
        (Onto fun value left next =>
          andThen ((Frame.bound (.injectAfter f) : Frame κ τ).Comes host value left next)
            (Onto ((Frame.bound (.injectAfter g)).Comes host))))
      (andThen (c.program.Runs host (.pair user (.bool flag)) world)
        (Onto ((Frame.bound (.injectAfter joined)).Comes host))) := by
    apply hGives.onto_same hReflexive
    · intro failure state world
      rw [Frame.bound_comes_err, returning_andThen, Frame.bound_comes_err, Frame.bound_comes_err]
      exact .returning (hReflexive world)
    · intro value left set _ world _
      rw [Frame.mapping_mapping_comes, Frame.mapping_comes]
      exact ((hComposes value world).sealed.successes_alike.after_left 2).after_right 1
  rw [fmap_runs, fmap_runs, fmap_runs, after_andThen_onto, andThen_onto_assoc, after_after]
  exact (hMapped.after_left 2).after_right 1

theorem apply_inject_runsAlike (hReflexive : ∀ x, R x x) :
    (apply (inject (.callable f)) c).RunsAlike R host (fmap f c) := by
  intro user flag world
  rw [apply_inject_runs]
  exact (Alike.of_refl hReflexive _).after_left 2

theorem apply_to_inject_runsAlike (hReflexive : ∀ x, R x x) (hGives : u.GivesResults host)
    (hCallables : u.GivesCallables host)
    (hFeeds : ∀ f, u.program.Produces host (.ok (.callable f)) → host.Feeds R value feed f) :
    (apply u (inject value)).RunsAlike R host (apply (inject (.callable feed)) u) := by
  intro user flag world
  have hFed : Alike R
      (andThen (u.program.Runs host (.pair user (.bool flag)) world)
        (Onto ((Frame.bound (.mapOver (inject value).program) : Frame κ τ).Comes host)))
      (andThen (u.program.Runs host (.pair user (.bool flag)) world)
        (Onto ((Frame.bound (.injectAfter feed)).Comes host))) := by
    apply hGives.onto_same hReflexive
    · intro failure state world
      rw [Frame.bound_comes_err, Frame.bound_comes_err]
      exact .returning (hReflexive world)
    · intro function left set _ world hRuns
      obtain ⟨f, rfl⟩ := hCallables function (produces_of_runs hRuns)
      have hCalls := hFeeds f (produces_of_runs hRuns) world
      rw [Frame.applying_comes, fmap_runs, inject_runs, after_andThen_onto, returning_andThen,
        Frame.mapping_comes, Frame.mapping_comes, after_after, after_after]
      exact (hCalls.sealed.successes_alike.after_left _).after_right 1
  rw [apply_inject_runs, fmap_runs, apply_runs, after_after]
  exact (hFed.after_left 1).after_right _

section Composition

variable {compose after composed : Callable κ} (hEquivalence : Equivalence R)
  (hOuter : host.MapsAlike R f f)
include hEquivalence hOuter

theorem mapping_composed_alike (hInner : host.MapsAlike R g g)
    (hComposes : host.ComposesMaps R g f composed) (hRelated : R first second) :
    Alike R ((Frame.bound (.injectAfter composed) : Frame κ τ).Comes host (.ok value) state first)
      (andThen ((Frame.bound (.injectAfter g) : Frame κ τ).Comes host (.ok value) state second)
        (Onto ((Frame.bound (.injectAfter f)).Comes host))) := by
  have hParts : Exec.MatchesBy Eq R
      ((host.invoke g [value] >>= fun result => host.invoke f [result]) first)
      ((host.invoke g [value] >>= fun result => host.invoke f [result]) second) :=
    (hInner value first second hRelated).bind fun result _ here there hSame hMet =>
      hSame ▸ hOuter result here there hMet
  rw [Frame.mapping_comes, Frame.mapping_mapping_comes]
  refine (Alike.after_left ?_ 1).after_right 2
  exact ((hComposes value first).sealed.successes_alike.swap hEquivalence.symm).trans_of
    (fun hLeft hRight => hEquivalence.trans hLeft hRight) hParts.sealed.successes_alike

theorem fmap_composed_alike (user : Value κ) (flag : Bool) (hInner : host.MapsAlike R g g)
    (hComposes : host.ComposesMaps R g f composed) (hWGives : w.GivesResults host)
    (hWAlike : w.RunsLike R host w) (hRelated : R first second) :
    Alike R ((fmap composed w).program.Runs host (.pair user (.bool flag)) first)
      (andThen ((fmap g w).program.Runs host (.pair user (.bool flag)) second)
        (Onto ((Frame.bound (.injectAfter f)).Comes host))) := by
  rw [fmap_runs, fmap_runs, after_andThen_onto, andThen_onto_assoc]
  refine (Alike.after_left ?_ 1).after_right 1
  apply hWGives.onto hWAlike hRelated
  · intro failure state first second hMet
    rw [Frame.bound_comes_err, Frame.bound_comes_err, returning_andThen, Frame.bound_comes_err]
    exact .returning hMet
  · intro value left set _ here there _ hMet
    exact mapping_composed_alike hEquivalence hOuter hInner hComposes hMet

theorem fmap_after_alike (user : Value κ) (flag : Bool) (hVGives : v.GivesFunctions R host)
    (hVAlike : v.RunsLike R host v) (hWGives : w.GivesResults host) (hWAlike : w.RunsLike R host w)
    (hCurried : ∀ g, v.program.Produces host (.ok (.callable g)) → host.ComposesAfter R f after g)
    (hRelated : R first second) :
    Alike R
      (andThen ((fmap after v).program.Runs host (.pair user (.bool flag)) first)
        (Onto ((Frame.bound (.mapOver w.program)).Comes host)))
      (andThen ((apply v w).program.Runs host (.pair user (.bool flag)) second)
        (Onto ((Frame.bound (.injectAfter f)).Comes host))) := by
  rw [fmap_runs, apply_runs, after_andThen_onto, after_andThen_onto, andThen_onto_assoc,
    andThen_onto_assoc]
  refine (Alike.after_left ?_ 1).after_right 1
  apply hVGives.results.onto hVAlike hRelated
  · intro failure state first second hMet
    rw [Frame.bound_comes_err, Frame.bound_comes_err, returning_andThen, returning_andThen,
      Frame.bound_comes_err, Frame.bound_comes_err]
    exact .returning hMet
  · intro function left set _ here there hRuns hMet
    obtain ⟨g, rfl⟩ := hVGives.callables function (produces_of_runs hRuns)
    obtain ⟨composed, next, hInvoked, hKept, hComposes⟩ := hCurried g (produces_of_runs hRuns) here
    have hMapped := fmap_composed_alike hEquivalence hOuter left set
      (hVGives.maps g (produces_of_runs hRuns)) hComposes hWGives hWAlike (hEquivalence.trans hKept hMet)
    rw [Frame.mapping_comes, Exec.sealed_of_ok hInvoked, Exec.leads_ok, after_andThen_onto,
      returning_andThen, Frame.applying_comes, Frame.applying_comes]
    exact hMapped.after_left 1

end Composition

theorem apply_apply_runsAlike {compose : Callable κ} (hEquivalence : Equivalence R)
    (hUGives : u.GivesFunctions R host) (hVGives : v.GivesFunctions R host)
    (hVAlike : v.RunsLike R host v) (hWGives : w.GivesResults host) (hWAlike : w.RunsLike R host w)
    (hCurries : ∀ f, u.program.Produces host (.ok (.callable f)) →
      host.Curries R compose f fun g => v.program.Produces host (.ok (.callable g))) :
    (apply (apply (apply (inject (.callable compose)) u) v) w).RunsAlike R host
      (apply u (apply v w)) := by
  intro user flag world
  have hOnward : Alike R
      (andThen (u.program.Runs host (.pair user (.bool flag)) world)
        (Onto fun value left next => andThen
          ((Frame.bound (.injectAfter compose) : Frame κ τ).Comes host value left next)
          (Onto fun value left next => andThen
            ((Frame.bound (.mapOver v.program) : Frame κ τ).Comes host value left next)
            (Onto ((Frame.bound (.mapOver w.program)).Comes host)))))
      (andThen (u.program.Runs host (.pair user (.bool flag)) world)
        (Onto ((Frame.bound (.mapOver (apply v w).program)).Comes host))) := by
    apply hUGives.results.onto_same hEquivalence.refl
    · intro failure state world
      rw [Frame.bound_comes_err, returning_andThen, Frame.bound_comes_err, returning_andThen,
        Frame.bound_comes_err, Frame.bound_comes_err]
      exact .returning (hEquivalence.refl world)
    · intro function left set _ world hRuns
      obtain ⟨f, rfl⟩ := hUGives.callables function (produces_of_runs hRuns)
      obtain ⟨after, next, hInvoked, hKept, hCurried⟩ := hCurries f (produces_of_runs hRuns) world
      have hRest := fmap_after_alike hEquivalence (hUGives.maps f (produces_of_runs hRuns)) left set hVGives
        hVAlike hWGives hWAlike hCurried hKept
      rw [Frame.mapping_comes, Exec.sealed_of_ok hInvoked, Exec.leads_ok, after_andThen_onto,
        returning_andThen, Frame.applying_comes, Frame.applying_comes, fmap_runs (f := f)]
      exact (hRest.after_left 1).after_right 1
  rw [apply_runs, apply_runs, apply_inject_runs, fmap_runs, apply_runs, after_after,
    after_andThen_onto, andThen_onto_assoc, after_after, after_andThen_onto, andThen_onto_assoc,
    after_after]
  exact (hOnward.after_left _).after_right 1

end Alternative

/-- What applying goes on with, by what its functions came to. -/
def Host.Applies (host : Host κ τ ω) (c : Alternative κ) : Value κ → Value κ → World ω → Outcomes κ ω
  | .ok (.callable f), left, next => (Alternative.fmap f c).program.Runs host left next
  | .ok _, _, next => raising (.fault (.expectedCallable .mapper)) next
  | result, left, next => returning result left next

namespace Machine

/-- The machine is above a generator that hands on what it is sent, or is done. -/
def OverRelay (m : Machine κ τ) : Prop :=
  m.stack.getLast? = some .relay ∨ ∃ value, m.mode = .deliver value ∧ m.stack = []

theorem OverRelay.of_step {m next : Machine κ τ} {after : World ω} (hAbove : m.OverRelay)
    (hStepped : m.step host world = .ok (.inl next) after) : next.OverRelay := by
  obtain ⟨mode, state, stack, steps⟩ := m
  cases mode with
  | take p =>
      have hBottom : stack.getLast? = some .relay := by
        obtain hBottom | ⟨_, ⟨⟩, _⟩ := hAbove
        exact hBottom
      cases p with
      | modify f =>
          obtain ⟨_, _, ⟨⟩⟩ := step_modify_cases hStepped
          exact .inl hBottom
      | generator mark r =>
          cases hStepped
          refine .inl ?_
          simp [List.getLast?_cons, hBottom]
      | foreign | foreignEffect => cases hStepped
      | pure | get | put =>
          cases hStepped
          exact .inl hBottom
  | deliver sent =>
      cases stack with
      | nil => cases hStepped
      | cons top below =>
          have hBottom : (top :: below).getLast? = some .relay := by
            obtain hBottom | ⟨_, _, ⟨⟩⟩ := hAbove
            exact hBottom
          cases below with
          | nil =>
              obtain rfl : top = .relay := by simpa using hBottom
              cases hStepped
              exact .inr ⟨sent, rfl, rfl⟩
          | cons second rest =>
              rw [List.getLast?_cons_cons] at hBottom
              rcases step_deliver_cases hStepped with ⟨value, _, ⟨⟩⟩ | ⟨q, left, _, ⟨⟩⟩
              · exact .inl hBottom
              · exact .inl ((List.getLast?_cons_cons).trans hBottom)

theorem OverRelay.of_reaches {m last : Machine κ τ} {count : Nat} {final : World ω}
    (hAbove : m.OverRelay) (hReaches : Reaches host count m world last final) : last.OverRelay :=
  hReaches.invariant (fun m _ => m.OverRelay) (fun _ _ _ _ _ _ hStepped hAbove => hAbove.of_step hStepped)
    hAbove

end Machine

namespace Alternative

variable {q : Program κ} {seen left : Value κ} {now next : World ω} {waiting : List (Frame κ τ)}

theorem apply_runs_of_gives (hGives : u.GivesResults host) :
    (apply u c).program.Runs host (.pair user (.bool flag)) world =
      after (andThen (u.program.Runs host (.pair user (.bool flag)) world) (Onto (host.Applies c)))
        1 := by
  have hOnward : andThen (u.program.Runs host (.pair user (.bool flag)) world)
        (Onto ((Frame.bound (.mapOver c.program)).Comes host)) =
      andThen (u.program.Runs host (.pair user (.bool flag)) world) (Onto (host.Applies c)) := by
    apply andThen_onto_congr
    intro value state steps next hRuns
    obtain ⟨hResult, _⟩ := hGives user flag world value state steps next hRuns
    cases value with
    | err failure => exact Frame.bound_comes_err
    | ok value =>
        cases value with
        | callable f => exact Frame.applying_comes
        | _ => exact Frame.applying_comes_of_stray nofun
    | _ => cases hResult
  rw [apply_runs, hOnward]

theorem applying_yielded {p : Program κ} {rest : Frame κ τ} (hResult : value.isResult = true)
    (hResumed : (Frame.bound (.mapOver c.program)).resume host value world =
      .ok (.yielded (.program p) rest) next) :
    ∃ f, value = .ok (.callable f) ∧ p = (fmap f c).program ∧ rest = .relay ∧ next = world := by
  cases value with
  | ok value =>
      by_cases hCallable : ∃ f, value = .callable f
      · obtain ⟨f, rfl⟩ := hCallable
        have hResumes : (Frame.bound (.mapOver c.program)).resume host (.ok (.callable f)) world =
            .ok (.yielded (.program (fmap f c).program) .relay) world := rfl
        rw [hResumes] at hResumed
        cases hResumed
        exact ⟨f, rfl, rfl, rfl, rfl⟩
      · rw [Frame.resume_applying_of_stray fun f hSame => hCallable ⟨f, hSame⟩] at hResumed
        cases hResumed
  | err failure =>
      have hReturns : (Frame.bound (.mapOver c.program)).resume host (.err failure) world =
          .ok (.returned (.err failure)) world := rfl
      rw [hReturns] at hResumed
      cases hResumed
  | _ => cases hResult

/-- After its functions an application takes up programs only to map one that they succeeded with. -/
theorem applying_visits_iff (hResult : value.isResult = true) :
    Visits host q seen now (.generator (.bound (.mapOver c.program)) value) left world waiting ↔
      ∃ f above, value = .ok (.callable f) ∧ waiting = above ++ [.relay] ∧
        Visits host q seen now (.program (fmap f c).program) left world above := by
  constructor
  · intro hVisits
    cases hVisits with
    | inside hResumed hVisits =>
        obtain ⟨f, rfl, rfl, rfl, rfl⟩ := applying_yielded hResult hResumed
        exact ⟨f, _, rfl, rfl, hVisits⟩
    | later hResumed _ hOnward =>
        obtain ⟨_, _, _, rfl, _⟩ := applying_yielded hResult hResumed
        exact absurd hOnward (Visits.of_returned rfl)
  · rintro ⟨f, above, rfl, rfl, hVisits⟩
    exact .inside rfl hVisits

/-- What an application takes up: itself, what its functions take up, and from where these left off what
the map takes up of the function that they succeeded with. -/
theorem apply_takes_iff (hGives : u.GivesResults host) :
    (∃ count more, Machine.Reaches host count
      (Machine.start (apply u c).program (.pair user (.bool flag))) world
      ⟨.take q, seen, waiting, more⟩ now) ↔
    (waiting = [] ∧ q = (apply u c).program ∧ seen = .pair user (.bool flag) ∧ now = world) ∨
    (∃ above, waiting = above ++ [.bound (.mapOver c.program)] ∧
      ∃ count more, Machine.Reaches host count
        (Machine.start u.program (.pair user (.bool flag))) world ⟨.take q, seen, above, more⟩ now) ∨
    ∃ f left steps next above, waiting = above ++ [.relay] ∧
      u.program.Runs host (.pair user (.bool flag)) world
        (.returned (.ok (.callable f)) left steps) next ∧
      ∃ count more, Machine.Reaches host count (Machine.start (fmap f c).program left) next
        ⟨.take q, seen, above, more⟩ now := by
  simp only [Machine.exists_reaches_take_iff]
  constructor
  · intro hVisits
    obtain rfl | ⟨above, bottom, rfl⟩ := List.eq_nil_or_concat' waiting
    · exact .inl ⟨rfl, Visits.program_nil_iff.mp hVisits⟩
    rw [apply, Visits.generator_iff] at hVisits
    rcases hVisits.yielded_cases rfl with ⟨rfl, hInside⟩ | ⟨value, left, steps, next, hRan, hOnward⟩
    · exact .inr (.inl ⟨above, rfl, hInside⟩)
    · have hRuns := Program.runs_iff_exists_evaluates.mpr ⟨_, hRan, rfl⟩
      have hResult := (hGives user flag world value left steps next hRuns).1
      obtain ⟨f, above, rfl, hSame, hVisits⟩ := (applying_visits_iff hResult).mp hOnward
      exact .inr (.inr ⟨f, left, steps, next, above, hSame, hRuns, hVisits⟩)
  · rintro (⟨rfl, rfl, rfl, rfl⟩ | ⟨above, rfl, hVisits⟩ |
      ⟨f, left, steps, next, above, rfl, hRuns, hVisits⟩)
    · exact .here
    · exact .generator (.inside rfl hVisits)
    · exact .generator (.later rfl hRuns.evaluates
        ((applying_visits_iff rfl).mpr ⟨f, above, rfl, rfl, hVisits⟩))

/-- The functor and applicative laws, and the order in which an application runs: it goes on only with a
function that its functions succeeded with, from where they left off, and does not come back to them. -/
theorem applicative_laws (hEquivalence : Equivalence R) (host : Host κ τ ω) :
    (∀ identity, host.Returns R identity → ∀ c : Alternative κ, c.GivesResults host →
      (fmap identity c).RunsAlike R host c) ∧
    (∀ f g joined, host.ComposesMaps R f g joined → ∀ c : Alternative κ, c.GivesResults host →
      (fmap g (fmap f c)).RunsAlike R host (fmap joined c)) ∧
    (∀ f (c : Alternative κ), (apply (inject (.callable f)) c).RunsAlike R host (fmap f c)) ∧
    (∀ value feed (u : Alternative κ), u.GivesResults host → u.GivesCallables host →
      (∀ f, u.program.Produces host (.ok (.callable f)) → host.Feeds R value feed f) →
      (apply u (inject value)).RunsAlike R host (apply (inject (.callable feed)) u)) ∧
    (∀ compose (u v w : Alternative κ), u.GivesFunctions R host → v.GivesFunctions R host →
      v.RunsLike R host v → w.GivesResults host → w.RunsLike R host w →
      (∀ f, u.program.Produces host (.ok (.callable f)) →
        host.Curries R compose f fun g => v.program.Produces host (.ok (.callable g))) →
      (apply (apply (apply (inject (.callable compose)) u) v) w).RunsAlike R host
        (apply u (apply v w))) ∧
    (Raised.fault (.expectedCallable .mapper) : Raised κ).exceptionClass = .type ∧
    ∀ u c : Alternative κ, u.GivesResults host → ∀ user flag world,
      (apply u c).program.Runs host (.pair user (.bool flag)) world =
        after (andThen (u.program.Runs host (.pair user (.bool flag)) world)
          (Onto (host.Applies c))) 1 ∧
      (∀ q seen waiting now, (∃ count more, Machine.Reaches host count
          (Machine.start (apply u c).program (.pair user (.bool flag))) world
          ⟨.take q, seen, waiting, more⟩ now) ↔
        (waiting = [] ∧ q = (apply u c).program ∧ seen = .pair user (.bool flag) ∧ now = world) ∨
        (∃ above, waiting = above ++ [.bound (.mapOver c.program)] ∧
          ∃ count more, Machine.Reaches host count
            (Machine.start u.program (.pair user (.bool flag))) world
            ⟨.take q, seen, above, more⟩ now) ∨
        ∃ f left steps next above, waiting = above ++ [.relay] ∧
          u.program.Runs host (.pair user (.bool flag)) world
            (.returned (.ok (.callable f)) left steps) next ∧
          ∃ count more, Machine.Reaches host count (Machine.start (fmap f c).program left) next
            ⟨.take q, seen, above, more⟩ now) ∧
      ∀ count (m last : Machine κ τ) now after, m.stack.getLast? = some .relay →
        Machine.Reaches host count m now last after →
        last.stack.getLast? ≠ some (.bound (.mapOver c.program)) := by
  refine ⟨?_, ?_, ?_, ?_, ?_, rfl, fun u c hGives user flag world => ⟨?_, ?_, ?_⟩⟩
  · exact fun _ hReturns _ hGives => fmap_identity_runsAlike hEquivalence.refl hReturns hGives
  · exact fun _ _ _ hComposes _ hGives => fmap_fmap_runsAlike hEquivalence.refl hComposes hGives
  · exact fun _ _ => apply_inject_runsAlike hEquivalence.refl
  · exact fun _ _ _ hGives hCallables hFeeds =>
      apply_to_inject_runsAlike hEquivalence.refl hGives hCallables hFeeds
  · exact fun _ _ _ _ hUGives hVGives hVAlike hWGives hWAlike hCurries =>
      apply_apply_runsAlike hEquivalence hUGives hVGives hVAlike hWGives hWAlike hCurries
  · exact apply_runs_of_gives hGives
  · exact fun _ _ _ _ => apply_takes_iff hGives
  · intro count m last now after hBottom hReaches hBack
    obtain hKept | ⟨_, _, hDone⟩ := Machine.OverRelay.of_reaches (.inl hBottom) hReaches
    · rw [hKept] at hBack
      cases hBack
    · rw [hDone] at hBack
      cases hBack

end Alternative

inductive Composed where
  | identity
  | doubled
  | listed
  | both
  | feed
  | compose
  | after

namespace Host

def composer : Host Composed Empty (List (Value Composed)) where
  debug := false
  call
    | .identity, [value] => pure value
    | .doubled, [value] => double value
    | .listed, [value] => list value
    | .both, [value] => do list (← double value)
    | .feed, [_] => list (.int 1)
    | .compose, [_] => Exec.giveOut (.callable (.code none .after))
    | .after, [_] => Exec.giveOut (.callable (.code none .both))
    | _, _ => pure .null
  start _ _ := pure (.value .null)
  spawn _ _ := throw .exhausted
  resume := nofun
  close := nofun
where
  double (value : Value Composed) : Exec Composed (List (Value Composed)) (Value Composed) := do
    modify fun world => { world with host := value :: world.host }
    pure (.pair value value)
  list (value : Value Composed) : Exec Composed (List (Value Composed)) (Value Composed) := do
    modify fun world => { world with host := value :: world.host }
    pure (.list [value])

def SameCallsLogged (first second : World (List (Value Composed))) : Prop :=
  first.host = second.host

theorem sameCallsLogged_equivalence : Equivalence SameCallsLogged where
  refl _ := rfl
  symm hSame := Eq.symm hSame
  trans hSame hAgain := Eq.trans hSame hAgain

theorem composer_curries (inner : Callable Composed → Prop)
    (hOnly : ∀ g, inner g → g = .code none .doubled) :
    composer.Curries SameCallsLogged (.code none .compose) (.code none .listed) inner := by
  intro world
  refine ⟨_, _, rfl, rfl, fun g hHolds => ?_⟩
  obtain rfl := hOnly g hHolds
  intro world
  exact ⟨_, _, rfl, rfl, fun _ _ => .ok rfl rfl⟩

end Host

namespace Alternative

theorem eq_of_inject_produces {argument : Value κ}
    (hProduces : (inject value).program.Produces host argument) : argument = .ok value := by
  obtain ⟨user, flag, world, state, cost, final, hEvaluates⟩ := hProduces
  obtain ⟨⟨⟩, _⟩ := Evaluates.pure_iff.mp hEvaluates
  rfl

theorem inject_givesFunctions (hMaps : host.MapsAlike R f f) :
    (inject (.callable f)).GivesFunctions R host where
  results := inject_givesResults host _
  callables value hProduces := by
    cases eq_of_inject_produces hProduces
    exact ⟨f, rfl⟩
  maps g hProduces := by
    cases eq_of_inject_produces hProduces
    exact hMaps

/-- Functions applied through their composition do as they do one after the other; and what is no
function raises before the arguments are taken up. -/
theorem applicative_laws_of_composer :
    (apply (apply (apply (inject (.callable (.code none .compose)))
        (inject (.callable (.code none .listed)))) (inject (.callable (.code none .doubled))))
        (inject (.int 1))).RunsAlike Host.SameCallsLogged Host.composer
      (apply (inject (.callable (.code none .listed)))
        (apply (inject (.callable (.code none .doubled))) (inject (.int 1)))) ∧
    (apply (inject (.callable (.code none .listed))) (inject (.int 1))).RunsAlike
      Host.SameCallsLogged Host.composer
      (apply (inject (.callable (.code none .feed))) (inject (.callable (.code none .listed)))) ∧
    (fmap (.code none .identity) (error (.str "no"))).RunsAlike Host.SameCallsLogged Host.composer
      (error (.str "no")) ∧
    ∀ c : Alternative Composed, (apply (inject (.int 0)) c).program.Runs Host.composer
      (.pair .null (.bool false)) ⟨[], #[], 0⟩ (.raised (.fault (.expectedCallable .mapper)))
      ⟨[], #[], 0⟩ := by
  have hListed : Host.composer.MapsAlike Host.SameCallsLogged (.code none .listed)
      (.code none .listed) :=
    fun value _ _ hRelated => .ok rfl (congrArg (value :: ·) hRelated)
  have hDoubled : Host.composer.MapsAlike Host.SameCallsLogged (.code none .doubled)
      (.code none .doubled) :=
    fun value _ _ hRelated => .ok rfl (congrArg (value :: ·) hRelated)
  obtain ⟨hIdentity, _, _, hFeeds, hComposition, _, hOrder⟩ :=
    applicative_laws Host.sameCallsLogged_equivalence Host.composer
  refine ⟨?_, ?_, ?_, fun c => ?_⟩
  · apply hComposition _ _ _ _ (inject_givesFunctions hListed) (inject_givesFunctions hDoubled)
      (inject_runsLike _ _) (inject_givesResults _ _) (inject_runsLike _ _)
    intro f hProduces
    cases eq_of_inject_produces hProduces
    apply Host.composer_curries
    intro g hInner
    cases eq_of_inject_produces hInner
    rfl
  · apply hFeeds _ _ _ (inject_givesResults _ _) (inject_givesFunctions hListed).callables
    intro f hProduces
    cases eq_of_inject_produces hProduces
    exact fun _ => .ok rfl rfl
  · exact hIdentity _ (fun _ _ => ⟨_, rfl, rfl⟩) _ (error_givesResults _ _)
  · rw [(hOrder (inject (.int 0)) c (inject_givesResults _ _) .null false ⟨[], #[], 0⟩).1, inject_runs,
      after_andThen_onto, returning_andThen]
    exact ⟨_, ⟨_, ⟨rfl, rfl⟩, rfl⟩, rfl⟩

end Alternative

end Backtrack
