import Backtrack.Proofs.Failing

namespace Backtrack

variable {κ τ ω : Type} {flag : Bool}

namespace Machine

variable {host : Host κ τ ω} {m next : Machine κ τ} {user failure : Value κ} {world after : World ω}

theorem not_waits_altRight {left : Value κ} :
    ¬ (Frame.altRight left : Frame κ τ).Waits true := by
  intro hWaits
  cases hWaits with
  | altRight _ _ hClear => cases hClear

theorem Live.altRight_not_mem {left : Value κ} (hLive : m.Live true) :
    .altRight left ∉ m.stack := by
  intro hListed
  cases hLive with
  | taking _ _ hPublic hWaits => exact not_waits_altRight (hWaits _ hListed)
  | asking _ _ hAsks hWaits =>
      cases hListed with
      | head => cases hAsks
      | tail _ hListed => exact not_waits_altRight (hWaits _ hListed)
  | sending _ hReady hWaits =>
      cases hListed with
      | head =>
          cases hReady with
          | waiting hFrameWaits hResult => exact not_waits_altRight hFrameWaits
          | asked hAsks hLasting hAnswered => cases hAsks
      | tail _ hListed => exact not_waits_altRight (hWaits _ hListed)
  | done _ _ hResult => cases hListed

theorem Failing.altRight_not_mem {left last final : Value κ} (hFailing : m.Failing true last final) :
    .altRight left ∉ m.stack := by
  intro hListed
  cases hFailing with
  | unwinding _ hResult hWaits hEnds => exact not_waits_altRight (hWaits _ hListed)
  | asking _ hResult hWaits hEnds | told _ hResult hWaits hEnds | aborting _ hWaits hEnds =>
      cases hListed with
      | tail _ hListed => exact not_waits_altRight (hWaits _ hListed)

end Machine

/-- A host whose functions in do-notation yield an alternative that aborts. It counts how often one of
them is closed. -/
def Host.aborter : Host Unit Unit Nat where
  debug := false
  call _ _ := pure .null
  start _ _ := pure (.coroutine ())
  spawn _ _ := pure ()
  resume _ _ := pure (.yielded (Alternative.abort (.str "stop")).toValue ())
  close _ := modify fun world => { world with host := world.host + 1 }

theorem Host.aborter_offers {q : Program Unit} (hOffers : Host.aborter.Offers q) : q.Public := by
  cases hOffers with
  | call hCalled => cases hCalled
  | resume hResumed =>
      cases hResumed
      exact (Alternative.Public.abort (.str "stop")).program_public

namespace Alternative

def stopped : Alternative Unit := altOr (ofCall ⟨none, none, [], ()⟩ []) (error (.str "other"))

theorem stopped_public : stopped.Public :=
  .altOr (.ofCall _ []) (.error _)

variable {host : Host κ τ ω} {a : Alternative κ} {user : Value κ} {world : World ω}

/-- What a public run that returns gives: it failed and set the flag, or it left the flag as it was. -/
theorem returned_cases {lacking : Bool} {host : Host κ τ ω lacking} {fuel : Nat}
    {value state : Value κ} {after : World ω}
    (hRuns : a.program.RunsPublicly host (.pair user (.bool flag)) world)
    (hReturned : a.program.run host fuel (.pair user (.bool flag)) world =
      .ok (value, state) after) :
    value.IsResult ∧ ∃ last, state = .pair last (.bool flag) ∨
      (state = .pair last (.bool true) ∧ ∃ failure, value = .err failure) := by
  obtain ⟨count, steps, last, hReaches⟩ := Program.reaches_of_run hReturned
  rcases hRuns.live_or_failing hReaches with hLive | ⟨_, _, hFailing⟩
  · cases hLive with
    | done user steps hResult => exact ⟨hResult, user, .inl rfl⟩
  · cases hFailing with
    | unwinding steps hResult hWaits hEnds => exact ⟨hResult, _, .inr ⟨rfl, _, rfl⟩⟩

theorem runPair_eq_ok {lacking : Bool} {host : Host κ τ ω lacking} {fuel : Nat}
    {result last aborted : Value κ} {after : World ω}
    (hReturned : a.runPair host fuel (.pair user (.bool flag)) world =
      .ok (result, last, aborted) after) :
    ∃ state, a.program.run host fuel (.pair user (.bool flag)) world = .ok (result, state) after ∧
      state.unpackPair = .ok (last, aborted) := by
  obtain ⟨_, _, hGiven, hRunning⟩ := Exec.bind_eq_ok.mp hReturned
  cases hGiven
  obtain ⟨⟨value, state⟩, middle, hRan, hRest⟩ := Exec.bind_eq_ok.mp hRunning
  obtain ⟨⟨left, set⟩, next, hDemanded, hAnswered⟩ := Exec.bind_eq_ok.mp hRest
  obtain ⟨hUnpacked, rfl⟩ := Exec.demand_eq_ok.mp hDemanded
  cases value with
  | ok success | err failure =>
      cases hAnswered
      exact ⟨state, hRan, hUnpacked⟩
  | _ => cases hAnswered

theorem run_eq_ok {fuel : Nat} {result last aborted : Value κ} {after : World ω}
    (hReturned : a.run host fuel user world = .ok (.outcome result last aborted) after) :
    ∃ middle, a.runPair host fuel (.pair user (.bool false)) world =
      .ok (result, last, aborted) middle := by
  obtain ⟨⟨value, left, set⟩, middle, hRanPair, hReported⟩ := Exec.bind_eq_ok.mp hReturned
  refine ⟨middle, ?_⟩
  dsimp only at hReported
  split at hReported
  · obtain ⟨_, _, _, hShown⟩ := Exec.bind_eq_ok.mp hReported
    obtain ⟨_, _, _, hLogged⟩ := Exec.bind_eq_ok.mp hShown
    obtain ⟨_, _, _, hNoted⟩ := Exec.bind_eq_ok.mp hLogged
    obtain ⟨_, _, _, hGave⟩ := Exec.bind_eq_ok.mp hNoted
    cases hGave
    exact hRanPair
  · cases hReported
    exact hRanPair

/-- The abort flag is never cleared and goes with no success: it stays set, with no right operand of an
alternation run, and a success leaves it as it was. -/
theorem flag_monotone (hRuns : a.program.RunsPublicly host (.pair user (.bool flag)) world) :
    (∀ fuel value state after,
      a.program.run host fuel (.pair user (.bool flag)) world = .ok (value, state) after →
        value.IsResult ∧ ∃ last set, state = .pair last (.bool set) ∧
          (flag = true → set = true) ∧ ∀ success, value = .ok success → set = flag) ∧
    (flag = true → ∀ count m after left,
      Machine.Reaches host count (Machine.start a.program (.pair user (.bool flag))) world m after →
        .altRight left ∉ m.stack) ∧
    (flag = false → ∀ fuel result last aborted after,
      a.run host fuel user world = .ok (.outcome result last aborted) after →
        aborted.isTrue = true → ∃ failure, result = .err failure) := by
  refine ⟨?_, ?_, ?_⟩
  · intro fuel value state after hReturned
    obtain ⟨hResult, last, rfl | ⟨rfl, failure, rfl⟩⟩ := returned_cases hRuns hReturned
    · exact ⟨hResult, last, flag, rfl, id, fun _ _ => rfl⟩
    · exact ⟨hResult, last, true, rfl, fun _ => rfl, nofun⟩
  · intro hSet count m after left hReaches
    subst hSet
    rcases hRuns.live_or_failing hReaches with hLive | ⟨_, _, hFailing⟩
    · exact hLive.altRight_not_mem
    · exact hFailing.altRight_not_mem
  · intro hClear fuel result last aborted after hReturned hSet
    subst hClear
    obtain ⟨middle, hRanPair⟩ := run_eq_ok hReturned
    obtain ⟨state, hRan, hUnpacked⟩ := runPair_eq_ok hRanPair
    obtain ⟨hResult, user, rfl | ⟨rfl, failure, rfl⟩⟩ := returned_cases hRuns hRan
    · cases hUnpacked
      cases hSet
    · exact ⟨failure, rfl⟩

theorem flag_monotone_under_body :
    (∃ value after, stopped.program.run Host.aborter 20 (.pair (.int 5) (.bool true)) ⟨0, #[], 0⟩ =
      .ok (value, .pair (.int 5) (.bool true)) after ∧ value.IsResult) ∧
    ∀ count m after left, Machine.Reaches Host.aborter count
      (Machine.start stopped.program (.pair (.int 5) (.bool true))) ⟨0, #[], 0⟩ m after →
        .altRight left ∉ m.stack := by
  have hRuns := stopped_public.program_public.runsPublicly (fun _ => Host.aborter_offers) (.int 5)
    true ⟨0, #[], 0⟩
  obtain ⟨hReturns, hUnstarted, _⟩ := flag_monotone hRuns
  exact ⟨⟨_, _, rfl, (hReturns 20 _ _ _ rfl).1⟩, hUnstarted rfl⟩

end Alternative

end Backtrack
