import Backtrack.Alternative.Run
import Backtrack.Proofs.MonadLaws
import Backtrack.Proofs.Wrapping

/-! Values that are no results. A program that was written by hand may return anything, and only the run of
the outermost alternative checks what it is given. The generators that wait for an operand look at what they
need: those that sequence ask for the value of whatever is no failure, and an alternation takes whatever is
no success for a failure. So a value that is no result is reported, by one exception or another, unless it
has a part of that name or the right operand of an alternation succeeds in its place. -/

namespace Backtrack

variable {κ τ ω : Type} {host : Host κ τ ω} {value part state left right user initial second : Value κ}
  {frame : Frame κ τ} {stack below : List (Frame κ τ)} {world now after final : World ω}
  {count steps cost fuel : Nat} {p q : Program κ} {a : Alternative κ}

namespace Exec

variable {α β : Type} {settles : Prop}

/-- Whatever its fuel, the run never returns; and with enough of it the run ends by an exception, if all that
it waits for comes to an end. -/
structure Reports (run : Nat → Exec κ ω α) (world : World ω) (settles : Prop) : Prop where
  unreturned : ∀ fuel a final, run fuel world ≠ .ok a final
  raises : settles → ∃ enough, ∀ fuel, ∃ exception final,
    run (enough + fuel) world = .error (.raised exception) final

theorem Reports.bind {run : Nat → Exec κ ω α} (hReports : Reports run world settles)
    (f : α → Exec κ ω β) : Reports (fun fuel => run fuel >>= f) world settles where
  unreturned fuel b final hReturned := by
    obtain ⟨a, next, hFirst, _⟩ := bind_eq_ok.mp hReturned
    exact hReports.unreturned fuel a next hFirst
  raises hSettled := by
    obtain ⟨enough, hRaised⟩ := hReports.raises hSettled
    refine ⟨enough, fun fuel => ?_⟩
    obtain ⟨exception, final, hEnded⟩ := hRaised fuel
    exact ⟨exception, final, bind_of_error hEnded⟩

theorem raised_of_ends {x : Exec κ ω α} (hUnreturned : ∀ a final, x world ≠ .ok a final)
    (hEnds : ∀ final, x world ≠ .error .exhausted final) :
    ∃ exception final, x world = .error (.raised exception) final := by
  cases hEnded : x world with
  | ok a final => exact absurd hEnded (hUnreturned a final)
  | error halt final =>
      cases halt with
      | raised exception => exact ⟨exception, final, rfl⟩
      | exhausted => exact absurd hEnded (hEnds final)

end Exec

namespace Value

theorem error?_of_stray (hStray : value.isResult = false) : ∃ cause, value.error? = .error cause := by
  cases value with
  | err => cases hStray
  | _ => exact ⟨_, rfl⟩

theorem not_ok_of_stray (hStray : value.isResult = false) (success : Value κ) : value ≠ .ok success := by
  rintro rfl
  cases hStray

end Value

namespace Frame

/-- The generator goes on with the value of whatever is no failure. -/
inductive AsksValue : Frame κ τ → Prop where
  | bound (f : Mapper κ) : AsksValue (.bound f)
  | sequenced (rest : List (Program κ)) (collected : List (Value κ)) :
      AsksValue (.sequenced rest collected)
  | traversed (rest : List (Value κ)) (f : Callable κ) (collected : List (Value κ)) :
      AsksValue (.traversed rest f collected)
  | body (name : Option String) (t : τ) : AsksValue (.body name t)

theorem joinFailures_of_stray_left (hStray : left.isResult = false) (right : Value κ) :
    ∃ cause, joinFailures left right = .error cause := by
  obtain ⟨cause, hLacks⟩ := Value.error?_of_stray hStray
  refine ⟨cause, ?_⟩
  unfold joinFailures
  rw [hLacks]
  rfl

theorem joinFailures_of_stray_right (hStray : right.isResult = false) (left : Value κ) :
    ∃ cause, joinFailures left right = .error cause := by
  obtain ⟨cause, hLacks⟩ := Value.error?_of_stray hStray
  unfold joinFailures
  rw [hLacks]
  cases left with
  | err failure => cases failure <;> exact ⟨_, rfl⟩
  | _ => exact ⟨_, rfl⟩

theorem onSuccess_of_stray (hStray : value.isResult = false)
    (continuation : Value κ → Exec κ ω (Step κ (Frame κ τ))) :
    onSuccess value continuation = Exec.demand value.value? >>= continuation := by
  cases value with
  | err => cases hStray
  | _ => rfl

theorem bodySend_of_stray (host : Host κ τ ω) (hStray : value.isResult = false)
    (name : Option String) (t : τ) :
    bodySend host name t value =
      (match value.value? with
      | .ok part => (host.resume t part).sealed >>= bodyNext host name
      | .error cause => (host.close t).sealed >>= fun _ => Exec.fail cause) := by
  cases value with
  | err => cases hStray
  | _ => rfl

theorem AsksValue.resume_eq (hAsks : frame.AsksValue) (hStray : value.isResult = false)
    (hHas : value.value? = .ok part) : frame.resume host value = frame.resume host (.ok part) := by
  cases hAsks with
  | bound | sequenced | traversed =>
      refine (onSuccess_of_stray hStray _).trans ?_
      rw [hHas]
      rfl
  | body name t =>
      refine (bodySend_of_stray host hStray name t).trans ?_
      rw [hHas]
      rfl

theorem AsksValue.resume_error {cause : Fault κ} (host : Host κ τ ω) (hAsks : frame.AsksValue)
    (hStray : value.isResult = false) (hLacks : value.value? = .error cause) (world : World ω) :
    ∃ halt after, frame.resume host value world = .error halt after ∧
      (halt = .exhausted → ∃ t, host.close t world = .error .exhausted after) := by
  cases hAsks with
  | bound | sequenced | traversed =>
      refine ⟨.raised (.fault cause), world,
        (congrFun (onSuccess_of_stray hStray _) world).trans ?_, nofun⟩
      rw [hLacks]
      rfl
  | body name t =>
      have hCloses := congrFun (bodySend_of_stray host hStray name t) world
      rw [hLacks] at hCloses
      cases hClosed : host.close t world with
      | ok _ after =>
          exact ⟨_, after, hCloses.trans (Exec.bind_of_ok (Exec.sealed_of_ok hClosed)), nofun⟩
      | error halt after =>
          refine ⟨_, after, hCloses.trans (Exec.bind_of_error (Exec.sealed_of_error hClosed)), ?_⟩
          intro hExhausted
          have hSealed := Exec.sealed_of_error hClosed
          rw [hExhausted] at hSealed
          exact ⟨t, Exec.sealed_eq_exhausted.mp hSealed⟩

theorem altLeft_resume_of_stray (hStray : value.isResult = false) (second : Program κ)
    (snapshot : Value κ) :
    (altLeft second snapshot : Frame κ τ).resume host value world =
      .ok (.yielded (.program .get) (.altFlag second snapshot value)) world := by
  cases value with
  | ok => cases hStray
  | _ => rfl

theorem altRight_resume_error {cause : Fault κ} (hNoSuccess : ∀ success, right ≠ .ok success)
    (hLacks : joinFailures left right = .error cause) :
    (altRight left : Frame κ τ).resume host right world = .error (.raised (.fault cause)) world := by
  have hJoins : (altRight left : Frame κ τ).resume host right world =
      (Exec.demand (joinFailures left right) >>= finish : Exec κ ω (Step κ (Frame κ τ))) world := by
    cases right with
    | ok success => exact absurd rfl (hNoSuccess success)
    | _ => rfl
  rw [hJoins, hLacks]
  rfl

theorem altFlag_resume_of_quiet {sent aborted : Value κ} (hQuiet : host.debug = false)
    (hUnpacks : sent.unpackPair = .ok (user, aborted)) (q : Program κ) (snapshot left : Value κ)
    (world : World ω) :
    (altFlag q snapshot left : Frame κ τ).resume host sent world =
      .ok (if aborted.isTrue then .returned left
        else .yielded (.program (.put snapshot)) (.altRestored q left)) world := by
  refine (Exec.bind_of_ok (Exec.demand_eq_ok.mpr ⟨hUnpacks, rfl⟩)).trans ?_
  unfold noteFailure
  rw [hQuiet]
  dsimp only
  split <;> rfl

theorem altFlag_resume_of_stray (host : Host κ τ ω) (hStray : value.isResult = false) (q : Program κ)
    (snapshot sent : Value κ) (world : World ω) :
    (∃ cause, (altFlag q snapshot value : Frame κ τ).resume host sent world =
      .error (.raised (.fault cause)) world) ∨
    (host.debug = false ∧ ∃ user aborted, sent.unpackPair = .ok (user, aborted)) := by
  cases hUnpacks : sent.unpackPair with
  | error cause =>
      refine .inl ⟨cause, Exec.bind_of_error ?_⟩
      rw [hUnpacks]
      rfl
  | ok pair =>
      cases hQuiet : host.debug with
      | false => exact .inr ⟨rfl, pair.1, pair.2, rfl⟩
      | true =>
          obtain ⟨cause, hLacks⟩ := Value.error?_of_stray hStray
          refine .inl ⟨cause, (Exec.bind_of_ok (Exec.demand_eq_ok.mpr ⟨hUnpacks, rfl⟩)).trans ?_⟩
          unfold noteFailure
          rw [hQuiet, hLacks]
          dsimp only
          split <;> rfl

end Frame

/-- One of the suspended generators takes the value for a result: for a success, if it has a part of that
name, or for a failure, if that leads an alternation to a right operand that succeeds. -/
inductive Mistaken (host : Host κ τ ω) (value state : Value κ) (now : World ω) :
    List (Frame κ τ) → Prop where
  | success {part : Value κ} {frame : Frame κ τ} {below : List (Frame κ τ)} :
      frame.AsksValue → value.value? = .ok part → Mistaken host value state now (frame :: below)
  | failure {second : Program κ} {snapshot user aborted success left : Value κ} {cost : Nat}
      {final : World ω} {below : List (Frame κ τ)} :
      host.debug = false → state.unpackPair = .ok (user, aborted) → aborted.isTrue = false →
      Evaluates host (.program second) snapshot now (.returned (.ok success) left cost) final →
      Mistaken host value state now (.altLeft second snapshot :: below)
  | relayed {below : List (Frame κ τ)} :
      Mistaken host value state now below → Mistaken host value state now (.relay :: below)
  | kept {second : Program κ} {snapshot user aborted : Value κ} {below : List (Frame κ τ)} :
      host.debug = false → state.unpackPair = .ok (user, aborted) → aborted.isTrue = true →
      Mistaken host value state now below →
      Mistaken host value state now (.altLeft second snapshot :: below)

namespace Machine

/-- What becomes of a stray value that nothing takes for a result: it is what the machine comes to its end
with, or it stops the machine, or an alternation keeps it beside the failure of the right operand. -/
inductive Strays (host : Host κ τ ω) (value : Value κ) (now : World ω) (m : Machine κ τ)
    (stack : List (Frame κ τ)) : Prop where
  | returned {count steps : Nat} {state : Value κ} :
      Reaches host count m now ⟨.deliver value, state, [], steps⟩ now → Strays host value now m stack
  | stopped {count : Nat} {last : Machine κ τ} {halt : Halt κ} {after : World ω} :
      Reaches host count m now last now → last.step host now = .error halt after →
      (halt = .exhausted → ∃ t, host.close t now = .error .exhausted after) →
      Strays host value now m stack
  | kept {count steps : Nat} {second : Program κ} {snapshot : Value κ} {below : List (Frame κ τ)} :
      .altLeft second snapshot ∈ stack →
      Reaches host count m now ⟨.take second, snapshot, .altRight value :: below, steps⟩ now →
      (∀ success left cost final,
        ¬ Evaluates host (.program second) snapshot now (.returned (.ok success) left cost) final) →
      Strays host value now m stack

/-- All that waits comes to an end: the coroutines when they are closed, and the right operands when they
are run from here. -/
structure Settling (host : Host κ τ ω) (now : World ω) (stack : List (Frame κ τ)) : Prop where
  closes : ∀ t world final, host.close t world ≠ .error .exhausted final
  operands : ∀ second snapshot, .altLeft second snapshot ∈ stack →
    ∃ ending final, Evaluates host (.program second) snapshot now ending final

section Stray

variable {m next : Machine κ τ} {aborted snapshot : Value κ}

theorem Strays.of_reaches (hReaches : Reaches host count m now next now)
    (hStrays : Strays host value now next below) (hListed : below ⊆ stack) :
    Strays host value now m stack := by
  cases hStrays with
  | returned hOnward => exact .returned (hReaches.trans hOnward)
  | stopped hOnward hFailed hExhausts => exact .stopped (hReaches.trans hOnward) hFailed hExhausts
  | kept hWaiting hOnward hFails => exact .kept (hListed hWaiting) (hReaches.trans hOnward) hFails

theorem Strays.of_resume_error {halt : Halt κ} (hFailed : frame.resume host value now = .error halt after)
    (hExhausts : halt = .exhausted → ∃ t, host.close t now = .error .exhausted after) :
    Strays host value now ⟨.deliver value, state, frame :: below, steps⟩ stack :=
  .stopped (.here _ _) (step_of_resume_error hFailed) hExhausts

theorem reaches_altFlag (hStray : value.isResult = false) (q : Program κ) (snapshot state : Value κ)
    (below : List (Frame κ τ)) (steps : Nat) :
    Reaches host 2 ⟨.deliver value, state, .altLeft q snapshot :: below, steps⟩ now
      ⟨.deliver state, state, .altFlag q snapshot value :: below, steps + 1⟩ now :=
  .step (step_of_yielded (Frame.altLeft_resume_of_stray hStray q snapshot)) (.step rfl (.here _ _))

theorem reaches_of_altFlag_set (hQuiet : host.debug = false)
    (hUnpacks : state.unpackPair = .ok (user, aborted)) (hSet : aborted.isTrue = true) :
    Reaches host 1 ⟨.deliver state, state, .altFlag q snapshot value :: below, steps⟩ now
      ⟨.deliver value, state, below, steps⟩ now := by
  have hResumed := Frame.altFlag_resume_of_quiet hQuiet hUnpacks q snapshot value now
  rw [if_pos hSet] at hResumed
  exact .step (step_of_returned hResumed) (.here _ _)

theorem reaches_of_altFlag_clear (hQuiet : host.debug = false)
    (hUnpacks : state.unpackPair = .ok (user, aborted)) (hClear : aborted.isTrue = false) :
    Reaches host 3 ⟨.deliver state, state, .altFlag q snapshot value :: below, steps⟩ now
      ⟨.take q, snapshot, .altRight value :: below, steps + 1⟩ now := by
  have hResumed := Frame.altFlag_resume_of_quiet hQuiet hUnpacks q snapshot value now
  rw [if_neg (Bool.eq_false_iff.mp hClear)] at hResumed
  exact .step (step_of_yielded hResumed) (.step rfl (.step (step_of_yielded rfl) (.here _ _)))

theorem strays_of_unmistaken (hStray : value.isResult = false)
    (hHolds : ∀ frame ∈ stack, frame.Holds) (hUnmistaken : ¬ Mistaken host value state now stack) :
    Strays host value now ⟨.deliver value, state, stack, steps⟩ stack := by
  -- Relays, and alternations with the flag set, send the value on as it is; no other frame lets it pass.
  induction stack generalizing steps with
  | nil => exact .returned (.here _ _)
  | cons frame below ih =>
      have hOthers : ∀ frame ∈ below, frame.Holds :=
        fun frame hListed => hHolds frame (List.mem_cons_of_mem _ hListed)
      have hAsking : frame.AsksValue →
          Strays host value now ⟨.deliver value, state, frame :: below, steps⟩ (frame :: below) := by
        intro hAsks
        cases hPart : value.value? with
        | ok part => exact absurd (.success hAsks hPart) hUnmistaken
        | error cause =>
            obtain ⟨halt, after, hFailed, hExhausts⟩ := hAsks.resume_error host hStray hPart now
            exact .of_resume_error hFailed hExhausts
      cases hHolds frame List.mem_cons_self with
      | bound f => exact hAsking (.bound f)
      | sequenced rest collected => exact hAsking (.sequenced rest collected)
      | traversed rest f collected => exact hAsking (.traversed rest f collected)
      | body name t => exact hAsking (.body name t)
      | relay =>
          refine .of_reaches (.step (step_of_returned rfl) (.here _ _)) (ih hOthers ?_)
            (List.subset_cons_self _ _)
          exact fun hMistaken => hUnmistaken (.relayed hMistaken)
      | @altLeft q snapshot =>
          have hAsked : Reaches host 2 _ now _ now :=
            reaches_altFlag hStray q snapshot state below steps
          obtain ⟨cause, hFailed⟩ | ⟨hQuiet, user, aborted, hUnpacks⟩ :=
            Frame.altFlag_resume_of_stray host hStray q snapshot state now
          · exact .stopped hAsked (step_of_resume_error hFailed) nofun
          · cases hFlag : aborted.isTrue with
            | true =>
                refine .of_reaches (hAsked.trans (reaches_of_altFlag_set hQuiet hUnpacks hFlag))
                  (ih hOthers ?_) (List.subset_cons_self _ _)
                exact fun hMistaken => hUnmistaken (.kept hQuiet hUnpacks hFlag hMistaken)
            | false =>
                refine .kept List.mem_cons_self
                  (hAsked.trans (reaches_of_altFlag_clear hQuiet hUnpacks hFlag)) ?_
                exact fun success left cost final hSucceeds =>
                  hUnmistaken (.failure hQuiet hUnpacks hFlag hSucceeds)
      | altRight left =>
          obtain ⟨cause, hLacks⟩ := Frame.joinFailures_of_stray_right hStray left
          exact .of_resume_error (Frame.altRight_resume_error (Value.not_ok_of_stray hStray) hLacks) nofun

theorem step_altRight_of_stray {right : Value κ} (hStray : value.isResult = false)
    (hFails : ∀ success, right ≠ .ok success) :
    ∃ cause, (⟨.deliver right, state, .altRight value :: below, steps⟩ : Machine κ τ).step host now =
      .error (.raised (.fault cause)) now := by
  obtain ⟨cause, hLacks⟩ := Frame.joinFailures_of_stray_left hStray right
  exact ⟨cause, step_of_resume_error (Frame.altRight_resume_error hFails hLacks)⟩

theorem Strays.eq_of_drive {finished : Finished κ} (hStrays : Strays host value now m stack)
    (hStray : value.isResult = false) (hDriven : m.drive host fuel now = .ok finished final) :
    finished.value = value := by
  cases hStrays with
  | returned hReaches =>
      obtain ⟨_, hEnded⟩ := reaches_of_drive (hReaches.drive_eq_ok hDriven)
      obtain ⟨hSame, _⟩ := hEnded.of_finish rfl
      cases hSame
      rfl
  | stopped hReaches hFailed =>
      obtain ⟨_, hEnded⟩ := reaches_of_drive (hReaches.drive_eq_ok hDriven)
      cases hEnded.of_error hFailed
      cases hFailed
  | @kept _ steps q snapshot below _ hReaches hFails =>
      obtain ⟨_, hEnded⟩ := reaches_of_drive (hReaches.drive_eq_ok hDriven)
      have hLoaded : Reaches host _ ((Activity.program q).load snapshot (.altRight value :: below) steps)
          now ⟨.deliver finished.value, finished.state, [], finished.steps⟩ final := hEnded
      obtain ⟨⟨⟩, _⟩ | ⟨_, _, ⟨⟩⟩ | ⟨right, left, cost, after, _, _, hEvaluates, hToRight⟩ :=
        hLoaded.cases_of_load
      have hFailing : ∀ success, right ≠ .ok success := by
        rintro success rfl
        exact hFails success left cost after hEvaluates
      obtain ⟨cause, hStopped⟩ := step_altRight_of_stray hStray hFailing
      cases hToRight.of_error hStopped

theorem Strays.exists_endsWithin (hStrays : Strays host value now m stack)
    (hStray : value.isResult = false) (hSettling : Settling host now stack) :
    ∃ enough, EndsWithin host enough m now := by
  cases hStrays with
  | returned hReaches =>
      refine ⟨1 + _, hReaches.endsWithin fun final hExhausted => ?_⟩
      rw [drive_of_finish rfl] at hExhausted
      cases hExhausted
  | @stopped _ _ halt _ hReaches hFailed hExhausts =>
      cases halt with
      | raised exception =>
          exact ⟨_, hReaches.endsWithin (endsWithin_of_raise hSettling.closes hFailed)⟩
      | exhausted =>
          obtain ⟨t, hExhausted⟩ := hExhausts rfl
          exact absurd hExhausted (hSettling.closes t now _)
  | @kept _ steps q snapshot below hWaiting hReaches hFails =>
      obtain ⟨ending, final, hEvaluates⟩ := hSettling.operands q snapshot hWaiting
      obtain ⟨used, hRuns⟩ := hEvaluates.drive (.altRight value :: below) steps
      refine ⟨1 + used + _, hReaches.endsWithin fun last hExhausted => ?_⟩
      have hProceeds := (hRuns 1).symm.trans hExhausted
      cases ending with
      | returned right left cost =>
          have hFailing : ∀ success, right ≠ .ok success := by
            rintro success rfl
            exact hFails success left cost final hEvaluates
          obtain ⟨cause, hStopped⟩ := step_altRight_of_stray hStray hFailing
          exact endsWithin_of_raise hSettling.closes hStopped last hProceeds
      | raised exception => exact unwind_ne_exhausted hSettling.closes _ _ _ _ hProceeds
      | replaced exception => cases hProceeds

end Stray

end Machine

open Machine

namespace Program

theorem eq_of_run_stray {result last : Value κ}
    (hReaches : Reaches host count (start p initial) world ⟨.take q, state, stack, steps⟩ now)
    (hHolds : ∀ frame ∈ stack, frame.Holds)
    (hEvaluates : Evaluates host (.program q) state now (.returned value left cost) after)
    (hStray : value.isResult = false) (hUnmistaken : ¬ Mistaken host value left after stack)
    (hRan : p.run host fuel initial world = .ok (result, last) final) : result = value := by
  obtain ⟨finished, _, hDriven, hEnded⟩ := Exec.bind_eq_ok.mp hRan
  obtain ⟨_, _, _, hReported⟩ := Exec.bind_eq_ok.mp hEnded
  cases hReported
  obtain ⟨_, hToValue⟩ := reaches_of_evaluates hEvaluates stack steps
  exact (strays_of_unmistaken hStray hHolds hUnmistaken).eq_of_drive hStray
    ((hReaches.trans hToValue).drive_eq_ok hDriven)

theorem exists_run_ends_of_stray
    (hReaches : Reaches host count (start p initial) world ⟨.take q, state, stack, steps⟩ now)
    (hHolds : ∀ frame ∈ stack, frame.Holds)
    (hEvaluates : Evaluates host (.program q) state now (.returned value left cost) after)
    (hStray : value.isResult = false) (hUnmistaken : ¬ Mistaken host value left after stack)
    (hSettling : Settling host after stack) :
    ∃ enough, ∀ fuel last, p.run host (enough + fuel) initial world ≠ .error .exhausted last := by
  obtain ⟨more, hToValue⟩ := reaches_of_evaluates hEvaluates stack steps
  obtain ⟨enough, hEnds⟩ :=
    (strays_of_unmistaken hStray hHolds hUnmistaken).exists_endsWithin hStray hSettling
  have hWhole := (hReaches.trans hToValue).endsWithin hEnds
  refine ⟨enough + (count + more), fun fuel last hExhausted => ?_⟩
  obtain hDriven | ⟨_, _, _, hNoted⟩ := Exec.bind_eq_error.mp hExhausted
  · exact hWhole.add fuel last hDriven
  · cases hNoted

end Program

/-- What an alternation does that takes a stray value for a failure and whose right operand succeeds. -/
theorem Evaluates.altLeft_of_mistaken {snapshot aborted success ended : Value κ}
    (hStray : value.isResult = false) (hQuiet : host.debug = false)
    (hUnpacks : state.unpackPair = .ok (user, aborted)) (hClear : aborted.isTrue = false)
    (hSucceeds : Evaluates host (.program q) snapshot now (.returned (.ok success) ended cost) final) :
    Evaluates host (.generator (.altLeft q snapshot) value) state now
      (.returned (.ok success) ended (cost + 2)) final := by
  have hFlagged := Frame.altFlag_resume_of_quiet hQuiet hUnpacks q snapshot value now
  rw [if_neg (Bool.eq_false_iff.mp hClear)] at hFlagged
  have hWhole : Evaluates host (.generator (.altLeft q snapshot) value) state now
      ((((Ending.returned (.ok success) ended 0).after cost).after 1).after 1) final :=
    .yielded (Frame.altLeft_resume_of_stray hStray q snapshot) .get
      (.yielded hFlagged .put (.yielded rfl hSucceeds (.returned rfl)))
  have hTotal : 1 + (1 + (cost + 0)) = cost + 2 := by omega
  rw [← hTotal]
  exact hWhole

namespace Alternative

theorem runPair_ok_cases {outcome : Value κ × Value κ × Value κ}
    (hUnpacks : initial.unpackPair = .ok (user, second))
    (hReturned : a.runPair host fuel initial world = .ok outcome final) :
    ∃ last middle, a.program.run host fuel (.pair user (.bool second.isTrue)) world =
        .ok (outcome.1, last) middle ∧ outcome.1.isResult = true := by
  unfold runPair at hReturned
  rw [hUnpacks, Exec.demand_ok, pure_bind] at hReturned
  obtain ⟨⟨result, last⟩, middle, hRan, hRest⟩ := Exec.bind_eq_ok.mp hReturned
  obtain ⟨_, _, _, hChecked⟩ := Exec.bind_eq_ok.mp hRest
  cases result with
  | ok | err =>
      cases hChecked
      exact ⟨last, middle, hRan, rfl⟩
  | _ => cases hChecked

theorem run_exhausted_of_runPair (hUnpacks : initial.unpackPair = .ok (user, second))
    (hExhausted : a.runPair host fuel initial world = .error .exhausted final) :
    a.program.run host fuel (.pair user (.bool second.isTrue)) world = .error .exhausted final := by
  unfold runPair at hExhausted
  rw [hUnpacks, Exec.demand_ok, pure_bind] at hExhausted
  obtain hRan | ⟨⟨result, last⟩, middle, _, hRest⟩ := Exec.bind_eq_error.mp hExhausted
  · exact hRan
  · dsimp only at hRest
    cases hPair : last.unpackPair with
    | error cause =>
        rw [hPair] at hRest
        cases hRest
    | ok parts =>
        rw [hPair] at hRest
        cases result <;> cases hRest

theorem runPair_reports_of_stray (hUnpacks : initial.unpackPair = .ok (user, second))
    (hReaches : Reaches host count (start a.program (.pair user (.bool second.isTrue))) world
      ⟨.take q, state, stack, steps⟩ now)
    (hHolds : ∀ frame ∈ stack, frame.Holds)
    (hEvaluates : Evaluates host (.program q) state now (.returned value left cost) after)
    (hStray : value.isResult = false) (hUnmistaken : ¬ Mistaken host value left after stack) :
    Exec.Reports (fun fuel => a.runPair host fuel initial) world (Settling host after stack) := by
  have hUnreturned : ∀ fuel outcome final, a.runPair host fuel initial world ≠ .ok outcome final := by
    intro fuel outcome final hReturned
    obtain ⟨_, _, hRan, hResult⟩ := runPair_ok_cases hUnpacks hReturned
    rw [Program.eq_of_run_stray hReaches hHolds hEvaluates hStray hUnmistaken hRan, hStray] at hResult
    cases hResult
  refine ⟨hUnreturned, fun hSettling => ?_⟩
  obtain ⟨enough, hEnds⟩ :=
    Program.exists_run_ends_of_stray hReaches hHolds hEvaluates hStray hUnmistaken hSettling
  refine ⟨enough, fun fuel => Exec.raised_of_ends (hUnreturned (enough + fuel)) ?_⟩
  exact fun final hExhausted => hEnds fuel final (run_exhausted_of_runPair hUnpacks hExhausted)

/-- A program that ends as the operand of alternatives with a value that is no result is reported by an
exception, unless the value is taken for a result. If it is, the generator that asks for its value goes on
as from a success with it, and the alternation as from a failure. -/
theorem stray_value_reported (hUnpacks : initial.unpackPair = .ok (user, second))
    (hReaches : Reaches host count (start a.program (.pair user (.bool second.isTrue))) world
      ⟨.take q, state, stack, steps⟩ now)
    (hHolds : ∀ frame ∈ stack, frame.Holds)
    (hEvaluates : Evaluates host (.program q) state now (.returned value left cost) after)
    (hStray : value.isResult = false) :
    (¬ Mistaken host value left after stack →
      Exec.Reports (fun fuel => a.runPair host fuel initial) world (Settling host after stack) ∧
      (second.isTrue = false →
        Exec.Reports (fun fuel => a.run host fuel user) world (Settling host after stack))) ∧
    (∀ (frame : Frame κ τ) part, frame.AsksValue → value.value? = .ok part →
      frame.resume host value = frame.resume host (.ok part)) ∧
    ∀ (other : Program κ) snapshot finalUser aborted success ended spent last, host.debug = false →
      left.unpackPair = .ok (finalUser, aborted) → aborted.isTrue = false →
      Evaluates host (.program other) snapshot after (.returned (.ok success) ended spent) last →
      Evaluates host (.generator (.altLeft other snapshot) value) left after
        (.returned (.ok success) ended (spent + 2)) last := by
  refine ⟨fun hUnmistaken => ⟨?_, fun hClear => ?_⟩, fun frame part hAsks hHas => hAsks.resume_eq hStray hHas,
    fun _ _ _ _ _ _ _ _ hQuiet hPair hClear hSucceeds =>
      Evaluates.altLeft_of_mistaken hStray hQuiet hPair hClear hSucceeds⟩
  · exact runPair_reports_of_stray hUnpacks hReaches hHolds hEvaluates hStray hUnmistaken
  · rw [hClear] at hReaches
    exact (runPair_reports_of_stray rfl hReaches hHolds hEvaluates hStray hUnmistaken).bind _

/-- A number where a result is awaited, beside a right operand that fails: the alternation asks the number
for its error. -/
theorem stray_value_reported_over_error :
    ∃ enough, ∀ fuel, ∃ exception last,
      (altOr ⟨.pure (.int 5)⟩ (error (.str "no"))).run Host.codeless (enough + fuel) (.int 0)
        ⟨(), #[], 0⟩ = .error (.raised exception) last := by
  have hTaken : Reaches Host.codeless 4
      (start (altOr ⟨.pure (.int 5)⟩ (error (.str "no"))).program (.pair (.int 0) (.bool false)))
      ⟨(), #[], 0⟩ ⟨.take (.pure (.int 5)), .pair (.int 0) (.bool false),
        [.altLeft (error (.str "no")).program (.pair (.int 0) (.bool false))], 2⟩ ⟨(), #[], 0⟩ :=
    reaches_of_advance rfl
  have hHolds : ∀ frame ∈ [Frame.altLeft (error (.str "no")).program
      (Value.pair (.int 0) (.bool false))], (frame : Frame Empty Empty).Holds := by
    intro frame hListed
    cases List.mem_singleton.mp hListed
    exact .altLeft _ _
  have hUnpacks : (Value.pair (.int 0) (.bool false) : Value Empty).unpackPair =
      .ok (.int 0, .bool false) := rfl
  have hSettling : Settling Host.codeless ⟨(), #[], 0⟩ [Frame.altLeft (error (.str "no")).program
      (Value.pair (.int 0) (.bool false))] := by
    refine ⟨nofun, fun second snapshot hListed => ?_⟩
    cases List.mem_singleton.mp hListed
    exact ⟨_, _, (error_runs_iff.mpr ⟨rfl, rfl⟩).evaluates⟩
  obtain ⟨hReported, _, _⟩ := stray_value_reported hUnpacks hTaken hHolds .pure rfl
  refine ((hReported ?_).2 rfl).raises hSettling
  intro hMistaken
  cases hMistaken with
  | success hAsks => cases hAsks
  | failure _ _ _ hSucceeds =>
      obtain ⟨⟨⟩, _⟩ := error_runs_iff.mp (Program.runs_iff_exists_evaluates.mpr ⟨_, hSucceeds, rfl⟩)
  | kept _ hUnpacks hSet =>
      cases hUnpacks
      cases hSet

/-- A number is reported when it is what the whole run comes to. Where a right operand succeeds in its place
it is not, nor is a tree whose value is collected as that of a success. -/
theorem stray_value_unreported :
    (∃ last, (⟨.pure (.int 5)⟩ : Alternative Empty).run Host.codeless 20 (.int 0) ⟨(), #[], 0⟩ =
      .error (.raised (.fault (.producedNonResult "int"))) last) ∧
    (∃ last, (altOr ⟨.pure (.int 5)⟩ (inject (.int 1))).run Host.codeless 20 (.int 0) ⟨(), #[], 0⟩ =
      .ok (.outcome (.ok (.int 1)) (.int 0) (.bool false)) last) ∧
    (∃ last, (⟨.pure (.leaf (.int 5))⟩ : Alternative Empty).run Host.codeless 20 (.int 0)
        ⟨(), #[], 0⟩ = .error (.raised (.fault (.producedNonResult "ErrorTree"))) last) ∧
    ∃ last, (sequence [⟨.pure (.leaf (.int 5))⟩]).run Host.codeless 20 (.int 0) ⟨(), #[], 0⟩ =
      .ok (.outcome (.ok (.list [.int 5])) (.int 0) (.bool false)) last :=
  ⟨⟨_, rfl⟩, ⟨_, rfl⟩, ⟨_, rfl⟩, ⟨_, rfl⟩⟩

end Alternative

end Backtrack
