import Backtrack.Proofs.PublicRun

namespace Backtrack

variable {κ τ ω : Type} {flag : Bool}

namespace Frame

/-- What a generator makes of a failure that it hands on. -/
def graft : Frame κ τ → Value κ → Value κ
  | altRight (.err (.tree value children)), failure => .tree value (children ++ [failure])
  | _, failure => failure

/-- What a stack makes of a failure, innermost generator first. -/
def grafted : List (Frame κ τ) → Value κ → Value κ
  | [], failure => failure
  | frame :: below, failure => grafted below (frame.graft failure)

theorem Waits.graft_isResult {frame : Frame κ τ} {failure : Value κ} (hWaits : frame.Waits flag)
    (hResult : (Value.err failure).IsResult) : (Value.err (frame.graft failure)).IsResult := by
  cases hWaits with
  | altRight value children hClear => exact .failure value (children ++ [failure])
  | _ => exact hResult

end Frame

namespace Machine

variable {m next last : Machine κ τ} {user final : Value κ}

/-- The machine is on its way out with a failure, which becomes the final one. -/
inductive Failing (flag : Bool) (user final : Value κ) : Machine κ τ → Prop where
  | unwinding {failure : Value κ} {stack : List (Frame κ τ)} (steps : Nat) :
      (Value.err failure).IsResult → (∀ frame ∈ stack, frame.Waits flag) →
      Frame.grafted stack failure = final →
      Failing flag user final ⟨.deliver (.err failure), .pair user (.bool true), stack, steps⟩
  | asking {second : Program κ} {snapshot failure : Value κ} {below : List (Frame κ τ)}
      (steps : Nat) :
      (Value.err failure).IsResult → (∀ frame ∈ below, frame.Waits flag) →
      Frame.grafted below failure = final →
      Failing flag user final
        ⟨.take .get, .pair user (.bool true), .altFlag second snapshot (.err failure) :: below,
          steps⟩
  | told {second : Program κ} {snapshot failure : Value κ} {below : List (Frame κ τ)}
      (steps : Nat) :
      (Value.err failure).IsResult → (∀ frame ∈ below, frame.Waits flag) →
      Frame.grafted below failure = final →
      Failing flag user final
        ⟨.deliver (.pair user (.bool true)), .pair user (.bool true),
          .altFlag second snapshot (.err failure) :: below, steps⟩
  | aborting {reason : Value κ} {below : List (Frame κ τ)} (steps : Nat) :
      (∀ frame ∈ below, frame.Waits flag) → Frame.grafted below (.leaf reason) = final →
      Failing flag user final
        ⟨.deliver .null, .pair user (.bool true), .aborting reason :: below, steps⟩

theorem Raising.failing (hRaising : m.Raising flag) : ∃ user final, m.Failing flag user final := by
  cases hRaising with
  | mk user reason steps hWaits => exact ⟨user, _, .aborting steps hWaits rfl⟩

/-- What a machine that is on its way out does to the world in a step: a body in do-notation is closed,
an alternation notes that it is skipped. -/
def parting {lacking : Bool} (host : Host κ τ ω lacking) (m : Machine κ τ) : Exec κ ω Unit :=
  match m.mode, m.stack with
  | .deliver _, .body _ t :: _ => (host.close t).sealed
  | .deliver _, .altFlag _ _ left :: _ => Frame.noteFailure host .alternationSkipped left
  | _, _ => pure ()

def remaining (m : Machine κ τ) : Nat :=
  match m.mode, m.stack with
  | .deliver _, .altFlag _ _ _ :: below => 3 * below.length + 3
  | .deliver _, .aborting _ :: below => 3 * below.length + 3
  | .deliver _, stack => 3 * stack.length + 2
  | .take _, stack => 3 * stack.length + 1

/-- A step on the way out leads to the next machine and does nothing else than part. -/
structure Parts (flag : Bool) (user final : Value κ) (m next : Machine κ τ) : Prop where
  failing : next.Failing flag user final
  less : next.remaining < m.remaining
  bodies : ∀ name t, .body name t ∈ next.stack → .body name t ∈ m.stack
  step : ∀ {ω : Type} {lacking : Bool} (host : Host κ τ ω lacking) (world : World ω),
    m.step host world = ((fun _ => Sum.inl next) <$> m.parting host) world

section Parting

variable {failure : Value κ} {frame : Frame κ τ} {below : List (Frame κ τ)}

theorem remaining_deliver_le (value state : Value κ) (stack : List (Frame κ τ)) (steps : Nat) :
    (⟨.deliver value, state, stack, steps⟩ : Machine κ τ).remaining ≤ 3 * stack.length + 2 := by
  cases stack with
  | nil => exact Nat.le_refl 2
  | cons frame below =>
      have hShorter : 3 * below.length + 3 ≤ 3 * (below.length + 1) + 2 := by omega
      cases frame with
      | altFlag _ _ _ | aborting _ => exact hShorter
      | _ => exact Nat.le_refl _

theorem remaining_of_waits (hWaits : frame.Waits flag) (value state : Value κ) (steps : Nat) :
    (⟨.deliver value, state, frame :: below, steps⟩ : Machine κ τ).remaining =
      3 * below.length + 5 := by
  have hCounted : 3 * (below.length + 1) + 2 = 3 * below.length + 5 := by omega
  cases hWaits <;> exact hCounted

theorem parts_of_passing (steps : Nat) (hResult : (Value.err failure).IsResult)
    (hFrameWaits : frame.Waits flag) (hWaits : ∀ frame ∈ below, frame.Waits flag)
    (hEnds : Frame.grafted (frame :: below) failure = final)
    (hStep : ∀ {ω : Type} {lacking : Bool} (host : Host κ τ ω lacking) (world : World ω),
      (⟨.deliver (.err failure), .pair user (.bool true), frame :: below, steps⟩ :
        Machine κ τ).step host world =
      ((fun _ => Sum.inl ⟨.deliver (.err (frame.graft failure)), .pair user (.bool true), below,
        steps⟩) <$> parting host ⟨.deliver (.err failure), .pair user (.bool true),
          frame :: below, steps⟩) world) :
    ∃ next, Parts flag user final
      ⟨.deliver (.err failure), .pair user (.bool true), frame :: below, steps⟩ next := by
  refine ⟨_, .unwinding steps (hFrameWaits.graft_isResult hResult) hWaits hEnds, ?_, ?_, hStep⟩
  · rw [remaining_of_waits hFrameWaits]
    exact Nat.lt_of_le_of_lt (remaining_deliver_le _ _ below steps) (by omega)
  · exact fun name t hListed => List.mem_cons_of_mem frame hListed

theorem step_unwinding_body {lacking : Bool} (name : Option String) (t : τ) (state : Value κ)
    (steps : Nat) (host : Host κ τ ω lacking) (world : World ω) :
    (⟨.deliver (.err failure), state, .body name t :: below, steps⟩ :
        Machine κ τ).step host world =
      ((fun _ => Sum.inl ⟨.deliver (.err failure), state, below, steps⟩) <$> (host.close t).sealed)
        world := by
  cases hClosed : (host.close t).sealed world with
  | ok _ after =>
      rw [Exec.map_of_ok hClosed]
      exact step_of_returned (Exec.bind_of_ok hClosed)
  | error halt after =>
      rw [Exec.map_of_error hClosed]
      exact step_of_resume_error (Exec.bind_of_error hClosed)

theorem parts_of_unwinding (steps : Nat) (hResult : (Value.err failure).IsResult)
    (hFrameWaits : frame.Waits flag) (hWaits : ∀ frame ∈ below, frame.Waits flag)
    (hEnds : Frame.grafted (frame :: below) failure = final) :
    ∃ next, Parts flag user final
      ⟨.deliver (.err failure), .pair user (.bool true), frame :: below, steps⟩ next := by
  cases hFrameWaits with
  | bound hContinues =>
      exact parts_of_passing steps hResult (.bound hContinues) hWaits hEnds fun _ _ => rfl
  | relay => exact parts_of_passing steps hResult .relay hWaits hEnds fun _ _ => rfl
  | sequenced collected hAllPublic =>
      exact parts_of_passing steps hResult (.sequenced collected hAllPublic) hWaits hEnds
        fun _ _ => rfl
  | traversed rest f collected =>
      exact parts_of_passing steps hResult (.traversed rest f collected) hWaits hEnds fun _ _ => rfl
  | altLeft kept hPublic =>
      refine ⟨_, .asking steps hResult hWaits hEnds, ?_, ?_, fun _ _ => rfl⟩
      · simp [remaining]
      · intro name t hListed
        cases hListed with
        | tail _ hListed => exact List.mem_cons_of_mem _ hListed
  | altRight value children hClear =>
      cases hResult with
      | failure other grandchildren =>
          exact parts_of_passing steps (.failure other grandchildren)
            (.altRight value children hClear) hWaits hEnds fun _ _ => rfl
  | body name t =>
      exact parts_of_passing steps hResult (.body name t) hWaits hEnds
        (step_unwinding_body name t _ steps)

theorem step_told {second : Program κ} {snapshot : Value κ} (steps : Nat)
    {lacking : Bool} (host : Host κ τ ω lacking) (world : World ω) :
    (⟨.deliver (.pair user (.bool true)), .pair user (.bool true),
        .altFlag second snapshot (.err failure) :: below, steps⟩ : Machine κ τ).step host world =
      ((fun _ => Sum.inl ⟨.deliver (.err failure), .pair user (.bool true), below, steps⟩) <$>
        Frame.noteFailure host .alternationSkipped (.err failure)) world := by
  have hResumes := congrFun (Frame.resume_altFlag_true host second snapshot (.err failure) user) world
  cases hNoted : Frame.noteFailure host .alternationSkipped (.err failure) world with
  | ok noted after =>
      rw [Exec.map_of_ok hNoted]
      exact step_of_returned (hResumes.trans (Exec.bind_of_ok hNoted))
  | error halt after =>
      rw [Exec.map_of_error hNoted]
      exact step_of_resume_error (hResumes.trans (Exec.bind_of_error hNoted))

theorem Failing.step_cases (hFailing : m.Failing flag user final) :
    (∃ steps, m = ⟨.deliver (.err final), .pair user (.bool true), [], steps⟩) ∨
      ∃ next, Parts flag user final m next := by
  cases hFailing with
  | @unwinding failure stack steps hResult hWaits hEnds =>
      cases stack with
      | nil =>
          cases hEnds
          exact .inl ⟨steps, rfl⟩
      | cons frame below =>
          obtain ⟨hFrameWaits, hBelowWait⟩ := List.forall_mem_cons.mp hWaits
          exact .inr (parts_of_unwinding steps hResult hFrameWaits hBelowWait hEnds)
  | asking steps hResult hWaits hEnds =>
      refine .inr ⟨_, .told (steps + 1) hResult hWaits hEnds, ?_, ?_, fun _ _ => rfl⟩
      · simp [remaining]
        omega
      · exact fun name t hListed => hListed
  | @told second snapshot failure below steps hResult hWaits hEnds =>
      refine .inr ⟨_, .unwinding steps hResult hWaits hEnds, ?_, ?_, step_told steps⟩
      · exact Nat.lt_of_le_of_lt (remaining_deliver_le _ _ below steps) (by simp [remaining])
      · exact fun name t hListed => List.mem_cons_of_mem _ hListed
  | @aborting reason below steps hWaits hEnds =>
      refine .inr ⟨_, .unwinding steps (.failure reason []) hWaits hEnds, ?_, ?_, fun _ _ => rfl⟩
      · exact Nat.lt_of_le_of_lt (remaining_deliver_le _ _ below steps) (by simp [remaining])
      · exact fun name t hListed => List.mem_cons_of_mem _ hListed

end Parting

section Run

variable {lacking : Bool} {host : Host κ τ ω lacking} {world after : World ω} {count : Nat}

theorem Failing.step_failing (hFailing : m.Failing flag user final)
    (hStepped : m.step host world = .ok (.inl next) after) : next.Failing flag user final := by
  rcases hFailing.step_cases with ⟨steps, rfl⟩ | ⟨following, hParts⟩
  · cases hStepped
  · rw [hParts.step] at hStepped
    obtain ⟨_, _, hSame⟩ := Exec.map_eq_ok.mp hStepped
    cases hSame
    exact hParts.failing

theorem Failing.of_reaches (hFailing : m.Failing flag user final)
    (hReaches : Reaches host count m world last after) : last.Failing flag user final :=
  hReaches.invariant (fun m _ => m.Failing flag user final)
    (fun _ _ _ _ _ _ hStepped hFails => hFails.step_failing hStepped) hFailing

theorem Failing.take_cases (hFailing : m.Failing flag user final) {q : Program κ}
    (hTaken : m.mode = .take q) :
    q = .get ∧ ∃ second snapshot left below, m.stack = .altFlag second snapshot left :: below := by
  cases hFailing with
  | asking steps hResult hWaits hEnds =>
      cases hTaken
      exact ⟨rfl, _, _, _, _, rfl⟩
  | unwinding steps hResult hWaits hEnds | told steps hResult hWaits hEnds
  | aborting steps hWaits hEnds => cases hTaken

theorem Failing.choosesPublic (hFailing : m.Failing flag user final) : m.ChoosesPublic := by
  intro q frame below hTaken hTop hFromHost
  obtain ⟨_, _, _, _, _, hAsking⟩ := hFailing.take_cases hTaken
  rw [hAsking] at hTop
  cases hTop
  cases hFromHost

end Run

section Parting

variable {host other : Host κ τ ω}

end Parting

end Machine

namespace Program

open Machine

variable {lacking : Bool} {host : Host κ τ ω lacking} {p : Program κ} {m : Machine κ τ} {user : Value κ}
  {world after : World ω} {count : Nat}

/-- Wherever a public run comes to, its flag is still the one it began with or it is on its way out. -/
theorem RunsPublicly.live_or_failing
    (hRuns : p.RunsPublicly host (.pair user (.bool flag)) world)
    (hReaches : Reaches host count (Machine.start p (.pair user (.bool flag))) world m after) :
    m.Live flag ∨ ∃ user final, m.Failing flag user final := by
  refine hReaches.invariant (fun m _ => m.Live flag ∨ ∃ user final, m.Failing flag user final)
    ?_ (.inl (.start hRuns.isPublic))
  intro count next middle last final hReached hStepped hHolds
  rcases hHolds with hLive | ⟨user, final, hFailing⟩
  · have hChooses := hRuns.chooses _ _ _ (hReached.trans (.step hStepped (.here last final)))
    rcases hLive.step_cases hStepped hChooses with hLives | hRaising
    · exact .inl hLives
    · exact .inr hRaising.failing
  · exact .inr ⟨user, final, hFailing.step_failing hStepped⟩

/-- A public program runs publicly if all alternatives that the host's code may produce are public. -/
theorem Public.runsPublicly (hPublic : p.Public) (hOffersPublic : ∀ q, host.Offers q → q.Public)
    (user : Value κ) (flag : Bool) (world : World ω) :
    p.RunsPublicly host (.pair user (.bool flag)) world := by
  refine ⟨hPublic, fun count m after hReaches => ?_⟩
  have hBegins : (Machine.start p (.pair user (.bool flag)) : Machine κ τ).ChoosesPublic := by
    intro q frame below hTaken hTop
    cases hTop
  refine (hReaches.invariant
    (fun m _ => m.ChoosesPublic ∧ (m.Live flag ∨ ∃ user final, m.Failing flag user final))
    ?_ ⟨hBegins, .inl (.start hPublic)⟩).1
  intro count next middle last final hReached hStepped hHolds
  rcases hHolds.2 with hLive | ⟨user, final, hFailing⟩
  · have hChooses := hLive.choosesPublic hStepped hOffersPublic
    rcases hLive.step_cases hStepped hChooses with hLives | hRaising
    · exact ⟨hChooses, .inl hLives⟩
    · exact ⟨hChooses, .inr hRaising.failing⟩
  · have hFails := hFailing.step_failing hStepped
    exact ⟨hFails.choosesPublic, .inr ⟨user, final, hFails⟩⟩

end Program

end Backtrack
