import Backtrack.Proofs.Failing
import Backtrack.Proofs.Unrolling

namespace Backtrack

variable {κ τ ω : Type} {lacking : Bool}

inductive Stands (resumption : τ → κ) : Activity κ τ → Stage κ τ → Prop where
  | returned {value} :
      Stands resumption (.program (.pure (.ok value))) (.reads (.returned value))
  | taken {mark p t} :
      Stands resumption
        (.program (.generator none (.bind p (.call (.code none (resumption t))))))
        (.reads (.yielded (.alternative mark p) t))
  | begun {mark p t} :
      Stands resumption
        (.generator (.fresh (.bind p (.call (.code none (resumption t))))) .null)
        (.reads (.yielded (.alternative mark p) t))
  | sent {t sent} :
      Stands resumption (.generator (.bound (.call (.code none (resumption t)))) sent)
        (.sends t sent)

namespace Host

variable {host : Host κ τ ω lacking} {name : Option String} {resumption : τ → κ} {step : Step κ τ} {t : τ}
  {value : Value κ} {a : Alternative κ} {world final : World ω}

theorem unrolled_of_stray (hStray : ∀ mark p, value ≠ .alternative mark p) :
    (unrolled name resumption (.yielded value t) : Exec κ ω (Alternative κ)) =
      Exec.fail (.yieldedNonAlternative name value.typeName) := by
  cases value with
  | alternative mark p => exact absurd rfl (hStray mark p)
  | _ => rfl

theorem unrolled_sealed (name : Option String) (resumption : τ → κ) (step : Step κ τ) :
    (unrolled name resumption step : Exec κ ω (Alternative κ)).sealed =
      unrolled name resumption step := by
  cases step with
  | returned value => rfl
  | yielded value t => cases value <;> rfl

theorem unrolled_cases (name : Option String) (resumption : τ → κ) (step : Step κ τ) :
    (∃ a, Stands resumption (.program a.program) (.reads step) ∧
      ∀ world : World ω, unrolled name resumption step world = .ok a world) ∨
    ∃ value t, step = .yielded value t ∧ ∀ mark p, value ≠ .alternative mark p := by
  cases step with
  | returned value => exact .inl ⟨.inject value, .returned, fun _ => rfl⟩
  | yielded value t =>
      by_cases hAlternative : ∃ mark p, value = .alternative mark p
      · obtain ⟨mark, p, rfl⟩ := hAlternative
        exact .inl ⟨.bind ⟨p⟩ (.code none (resumption t)), .taken, fun _ => rfl⟩
      · exact .inr ⟨value, t, rfl, fun mark p hSame => hAlternative ⟨mark, p, hSame⟩⟩

end Host

namespace Frame

variable {host : Host κ τ ω lacking} {name : Option String} {resumption : τ → κ} {t : τ}
  {sent value : Value κ} {world : World ω}

theorem resume_bound_of_succeeds (hResumes : host.Resumes name resumption) (t : τ)
    (hSucceeds : sent.Succeeds value) (world : World ω) :
    (bound (.call (.code none (resumption t)))).resume host sent world =
      ((host.resume t value).sealed >>= fun step => Host.unrolled name resumption step >>= fun a =>
        yieldProgram a.program .relay) world := by
  obtain ⟨hNofailure, hHeld⟩ := hSucceeds
  change onSuccess sent
    (fun value => (host.call (resumption t) [value]).sealed >>= yieldAlternative _ _) world = _
  unfold onSuccess
  split
  · exact absurd rfl (hNofailure _)
  · simp only [hHeld, Exec.demand_ok, pure_bind, hResumes t value, Exec.sealed_bind,
      Host.unrolled_sealed, map_eq_pure_bind, bind_assoc]
    rfl

theorem resume_bound_of_misfits (k : κ) {cause : Fault κ} (hMisfits : sent.Misfits cause)
    (world : World ω) :
    (bound (.call (.code none k))).resume host sent world =
      .error (.raised (.fault cause)) world := by
  obtain ⟨hNofailure, hHeld⟩ := hMisfits
  change onSuccess sent (fun value => (host.call k [value]).sealed >>= yieldAlternative _ _) world = _
  unfold onSuccess
  split
  · exact absurd rfl (hNofailure _)
  · rw [hHeld]
    rfl

theorem resume_bound_cases (hResumes : host.Resumes name resumption) (t : τ) (sent : Value κ)
    (world : World ω) :
    (∃ failure, sent = .err failure ∧
      (bound (.call (.code none (resumption t)))).resume host sent world =
        .ok (.returned (.err failure)) world) ∨
    (∃ cause, sent.Misfits cause ∧
      (bound (.call (.code none (resumption t)))).resume host sent world =
        .error (.raised (.fault cause)) world) ∨
    (∃ value halt after, sent.Succeeds value ∧ (host.resume t value).sealed world = .error halt after ∧
      (bound (.call (.code none (resumption t)))).resume host sent world = .error halt after) ∨
    (∃ value stray rest after, sent.Succeeds value ∧
      (host.resume t value).sealed world = .ok (.yielded stray rest) after ∧
      (∀ mark p, stray ≠ .alternative mark p) ∧
      (bound (.call (.code none (resumption t)))).resume host sent world =
        .error (.raised (.fault (.yieldedNonAlternative name stray.typeName))) after) ∨
    ∃ value step a after, sent.Succeeds value ∧ (host.resume t value).sealed world = .ok step after ∧
      Stands resumption (.program (Alternative.program a)) (.reads step) ∧
      (bound (.call (.code none (resumption t)))).resume host sent world =
        .ok (.yielded (.program a.program) .relay) after := by
  rcases sent.sent_cases with ⟨failure, rfl⟩ | ⟨value, hSucceeds⟩ | ⟨cause, hMisfits⟩
  · exact .inl ⟨failure, rfl, rfl⟩
  · have hUnfolds := resume_bound_of_succeeds hResumes t hSucceeds world
    cases hResumed : (host.resume t value).sealed world with
    | error halt after =>
        rw [Exec.bind_of_error hResumed] at hUnfolds
        exact .inr (.inr (.inl ⟨value, halt, after, hSucceeds, hResumed, hUnfolds⟩))
    | ok step after =>
        rw [Exec.bind_of_ok hResumed] at hUnfolds
        rcases Host.unrolled_cases name resumption step with
          ⟨a, hStands, hUnrolls⟩ | ⟨yielded, rest, rfl, hStray⟩
        · rw [Exec.bind_of_ok (hUnrolls after)] at hUnfolds
          exact .inr (.inr (.inr (.inr ⟨value, step, a, after, hSucceeds, hResumed, hStands,
            hUnfolds⟩)))
        · rw [Host.unrolled_of_stray hStray] at hUnfolds
          exact .inr (.inr (.inr (.inl ⟨value, yielded, rest, after, hSucceeds, hResumed, hStray,
            hUnfolds⟩)))
  · exact .inr (.inl ⟨cause, hMisfits, resume_bound_of_misfits _ hMisfits world⟩)

end Frame

namespace Stands

variable {host : Host κ τ ω lacking} {name : Option String} {resumption : τ → κ} {activity : Activity κ τ}
  {stage : Stage κ τ} {ending : Ending κ} {state sent : Value κ} {t : τ} {world final : World ω}

theorem of_resume_bound (hResumes : host.Resumes name resumption) {value : Value κ}
    {rest : Frame κ τ} {start : World ω}
    (hResumed : (Frame.bound (.call (.code none (resumption t)))).resume host sent world =
      .ok (.yielded value rest) start) :
    ∃ given step a, sent.Succeeds given ∧ (host.resume t given).sealed world = .ok step start ∧
      Stands resumption (.program (Alternative.program a)) (.reads step) ∧
      value = .program a.program ∧ rest = .relay := by
  rcases Frame.resume_bound_cases hResumes t sent world with
    ⟨_, _, hOther⟩ | ⟨_, _, hOther⟩ | ⟨_, _, _, _, _, hOther⟩ | ⟨_, _, _, _, _, _, _, hOther⟩ |
    ⟨given, step, a, after, hSucceeds, hCame, hStands, hOther⟩
  · rw [hResumed] at hOther
    cases hOther
  · rw [hResumed] at hOther
    cases hOther
  · rw [hResumed] at hOther
    cases hOther
  · rw [hResumed] at hOther
    cases hOther
  · rw [hResumed] at hOther
    cases hOther
    exact ⟨given, step, a, hSucceeds, hCame, hStands, rfl, rfl⟩

theorem unrolls_of_ended (hResumes : host.Resumes name resumption)
    (hEvaluates : Evaluates host (.generator (.bound (.call (.code none (resumption t)))) sent)
      state world ending final)
    (hEnded : ∀ value rest start,
      (Frame.bound (.call (.code none (resumption t)))).resume host sent world ≠
        .ok (.yielded value rest) start) :
    ∃ left, Unrolls host name (.sends t sent) state world ending.result final left := by
  rcases Frame.resume_bound_cases hResumes t sent world with
    ⟨failure, rfl, hResumed⟩ | ⟨cause, hMisfits, hResumed⟩ |
    ⟨value, halt, after, hSucceeds, hFailed, hResumed⟩ |
    ⟨value, yielded, rest, after, hSucceeds, hCame, hStray, hResumed⟩ |
    ⟨_, _, _, after, _, _, _, hResumed⟩
  · obtain ⟨rfl, rfl⟩ := (Evaluates.returned_iff hResumed).mp hEvaluates
    exact ⟨_, .failed⟩
  · obtain ⟨rfl, rfl⟩ := (Evaluates.resumeRaised_iff hResumed).mp hEvaluates
    exact ⟨_, .misfit hMisfits⟩
  · obtain ⟨exception, rfl, rfl, rfl⟩ := Evaluates.halted_cases hResumed hEvaluates
    exact ⟨_, .resumeRaised hSucceeds hFailed⟩
  · obtain ⟨rfl, rfl⟩ := (Evaluates.resumeRaised_iff hResumed).mp hEvaluates
    exact ⟨_, .resumed hSucceeds hCame (.stray hStray)⟩
  · exact absurd hResumed (hEnded _ _ after)

theorem unrolls (hResumes : host.Resumes name resumption)
    (hEvaluates : Evaluates host activity state world ending final)
    (hStands : Stands resumption activity stage) :
    ∃ left, Unrolls host name stage state world ending.result final left := by
  induction hEvaluates generalizing stage with
  | pure =>
      cases hStands
      exact ⟨none, .returned⟩
  | get | put | modify | modifyRaised | foreign | foreignEffect => cases hStands
  | generator _ ih =>
      cases hStands with
      | taken =>
          rw [Ending.result_after]
          exact ih .begun
  | returned hResumed =>
      cases hStands with
      | begun => cases hResumed
      | sent =>
          refine unrolls_of_ended hResumes (.returned hResumed) fun value rest start hYielded => ?_
          rw [hResumed] at hYielded
          cases hYielded
  | resumeRaised hResumed =>
      cases hStands with
      | begun => cases hResumed
      | sent =>
          refine unrolls_of_ended hResumes (.resumeRaised hResumed) fun value rest start hYielded => ?_
          rw [hResumed] at hYielded
          cases hYielded
  | yielded hResumed hEvaluates hContinues ih ihRest =>
      rw [Ending.result_after]
      cases hStands with
      | begun =>
          cases hResumed
          obtain ⟨left, hUnrolls⟩ := ihRest .sent
          exact ⟨left, .ran hEvaluates hUnrolls⟩
      | sent =>
          obtain ⟨given, step, a, hSucceeds, hCame, hInner, ⟨⟩, rfl⟩ := of_resume_bound hResumes hResumed
          obtain ⟨left, hUnrolls⟩ := ih hInner
          obtain ⟨rfl, rfl⟩ := (Evaluates.returned_iff rfl).mp hContinues
          exact ⟨left, .resumed hSucceeds hCame hUnrolls⟩
  | yieldedRaised hResumed hEvaluates hClosed ih =>
      cases hStands with
      | begun =>
          cases hResumed
          cases hClosed
          exact ⟨_, .raised hEvaluates⟩
      | sent =>
          obtain ⟨given, step, a, hSucceeds, hCame, hInner, ⟨⟩, rfl⟩ := of_resume_bound hResumes hResumed
          obtain ⟨left, hUnrolls⟩ := ih hInner
          cases hClosed
          exact ⟨left, .resumed hSucceeds hCame hUnrolls⟩
  | yieldedReplacing hResumed hEvaluates hClosed =>
      cases hStands with
      | begun =>
          cases hResumed
          cases hClosed
      | sent =>
          obtain ⟨given, step, a, hSucceeds, hCame, hInner, ⟨⟩, rfl⟩ := of_resume_bound hResumes hResumed
          cases hClosed
  | yieldedReplaced hResumed hEvaluates ih =>
      cases hStands with
      | begun =>
          cases hResumed
          exact ⟨_, .replaced hEvaluates⟩
      | sent =>
          obtain ⟨given, step, a, hSucceeds, hCame, hInner, ⟨⟩, rfl⟩ := of_resume_bound hResumes hResumed
          obtain ⟨left, hUnrolls⟩ := ih hInner
          exact ⟨left, .resumed hSucceeds hCame hUnrolls⟩
  | stray hResumed hStray | strayRaised hResumed hStray =>
      cases hStands with
      | begun =>
          cases hResumed
          exact absurd rfl (hStray _)
      | sent =>
          obtain ⟨given, step, a, hSucceeds, hCame, hInner, rfl, rfl⟩ := of_resume_bound hResumes hResumed
          exact absurd rfl (hStray _)

theorem evaluates_relaying {frame : Frame κ τ} {p : Program κ} {start : World ω}
    (hResumed : frame.resume host sent world = .ok (.yielded (.program p) .relay) start)
    (hEvaluates : Evaluates host (.program p) state start ending final) :
    ∃ whole, Evaluates host (.generator frame sent) state world whole final ∧
      whole.result = ending.result := by
  cases ending with
  | returned value left cost =>
      exact ⟨_, .yielded hResumed hEvaluates (.returned rfl), rfl⟩
  | raised exception => exact ⟨_, .yieldedRaised hResumed hEvaluates rfl, rfl⟩
  | replaced exception => exact ⟨_, .yieldedReplaced hResumed hEvaluates, rfl⟩

theorem evaluates_of_begun {mark : Mark} {p : Program κ} {result : RunResult κ}
    (hStands : Stands resumption activity (.reads (.yielded (.alternative mark p) t)))
    (hBegun : ∃ ending, Evaluates host
      (.generator (.fresh (.bind p (.call (.code none (resumption t))))) .null) state world ending
        final ∧ ending.result = result) :
    ∃ ending, Evaluates host activity state world ending final ∧ ending.result = result := by
  cases hStands with
  | begun => exact hBegun
  | taken =>
      obtain ⟨ending, hEvaluates, hSame⟩ := hBegun
      exact ⟨_, .generator hEvaluates, (Ending.result_after 1 ending).trans hSame⟩

theorem evaluates {result : RunResult κ} {left : Option τ}
    (hResumes : host.Resumes name resumption)
    (hUnrolls : Unrolls host name stage state world result final left)
    (hStands : Stands resumption activity stage) :
    ∃ ending, Evaluates host activity state world ending final ∧ ending.result = result := by
  induction hUnrolls generalizing activity with
  | ordinary | callRaised | beginRaised | begun => cases hStands
  | returned =>
      cases hStands
      exact ⟨_, .pure, rfl⟩
  | stray hStray => cases hStands <;> exact absurd rfl (hStray _ _)
  | ran hRan _ ih =>
      obtain ⟨ending, hContinues, hSame⟩ := ih .sent
      exact evaluates_of_begun hStands
        ⟨_, .yielded rfl hRan hContinues, (Ending.result_after _ ending).trans hSame⟩
  | raised hRaised => exact evaluates_of_begun hStands ⟨_, .yieldedRaised rfl hRaised rfl, rfl⟩
  | replaced hReplaced => exact evaluates_of_begun hStands ⟨_, .yieldedReplaced rfl hReplaced, rfl⟩
  | failed =>
      cases hStands
      exact ⟨_, .returned rfl, rfl⟩
  | misfit hMisfits =>
      cases hStands
      exact ⟨_, .resumeRaised (Frame.resume_bound_of_misfits _ hMisfits _), rfl⟩
  | @resumed t _ _ step _ world next _ _ _ hSucceeds hCame hUnrolls ih =>
      cases hStands
      have hUnfolds := (Frame.resume_bound_of_succeeds hResumes t hSucceeds world).trans
        (Exec.bind_of_ok hCame)
      rcases Host.unrolled_cases name resumption step with
        ⟨a, hInner, hGives⟩ | ⟨yielded, rest, rfl, hStray⟩
      · obtain ⟨ending, hEvaluates, hSame⟩ := ih hInner
        obtain ⟨whole, hRelays, hEnds⟩ :=
          evaluates_relaying (hUnfolds.trans (Exec.bind_of_ok (hGives next))) hEvaluates
        exact ⟨whole, hRelays, hEnds.trans hSame⟩
      · rw [Host.unrolled_of_stray hStray] at hUnfolds
        cases hUnrolls with
        | stray => exact ⟨_, .resumeRaised hUnfolds, rfl⟩
        | ran | raised | replaced => exact absurd rfl (hStray _ _)
  | @resumeRaised t _ _ _ world _ _ hSucceeds hCame =>
      cases hStands
      have hUnfolds := (Frame.resume_bound_of_succeeds hResumes t hSucceeds world).trans
        (Exec.bind_of_error hCame)
      exact ⟨_, .resumeRaised hUnfolds, rfl⟩

end Stands

def Host.RunsUnrolled (host : Host κ τ ω lacking) (resumption : τ → κ) (f : DoFunction κ)
    (args : List (Value κ)) (state : Value κ) (world : World ω) (outcome : Outcome κ)
    (final : World ω) : Prop :=
  ∃ fuel, (host.unroll resumption f args >>= fun a => a.program.run host fuel state) world =
    outcome.report final

namespace Alternative

variable {host : Host κ τ ω lacking} {resumption : τ → κ} {f : DoFunction κ} {args : List (Value κ)}
  {state : Value κ} {world final : World ω} {result : RunResult κ}

theorem ofCall_runs_iff_settles :
    (∃ outcome, (ofCall f args).program.Runs host state world outcome final ∧
        outcome.result = result) ↔
      Settles host f.name (.calls f.code args) state world result final := by
  constructor
  · intro hGiven
    obtain ⟨outcome, hRuns, rfl⟩ := hGiven
    obtain ⟨ending, hEvaluates, rfl⟩ := Program.runs_iff_exists_evaluates.mp hRuns
    obtain ⟨inner, hBegun, rfl⟩ := Evaluates.generator_iff.mp hEvaluates
    have hSettles := Settles.of_calls hBegun
    rw [← Ending.result_after 1] at hSettles
    exact hSettles
  · intro hGiven
    obtain ⟨left, before, middle, hUnrolls, hCloses⟩ := hGiven
    obtain ⟨ending, hEvaluates, hSame⟩ := Settles.evaluates hUnrolls hCloses (.calls rfl)
    exact ⟨_, Program.runs_iff_exists_evaluates.mpr ⟨_, .generator hEvaluates, rfl⟩,
      (Ending.result_after 1 ending).trans hSame⟩

theorem unrolls_of_runsUnrolled (hResumes : host.Resumes f.name resumption) {outcome : Outcome κ}
    (hRuns : host.RunsUnrolled resumption f args state world outcome final) :
    ∃ left, Unrolls host f.name (.calls f.code args) state world outcome.result final left := by
  obtain ⟨fuel, hRan⟩ := hRuns
  cases hStarted : (host.start f.code args).sealed world with
  | error halt after =>
      have hFailed : host.unroll resumption f args world = .error halt after :=
        Exec.bind_of_error hStarted
      rw [Exec.bind_of_error hFailed] at hRan
      cases outcome with
      | returned => cases hRan
      | raised exception =>
          cases hRan
          exact ⟨none, .callRaised hStarted⟩
  | ok given after =>
      cases given with
      | value value =>
          have hGave : host.unroll resumption f args world = .ok (.inject value) after :=
            Exec.bind_of_ok hStarted
          rw [Exec.bind_of_ok hGave] at hRan
          obtain ⟨ending, hEvaluates, rfl⟩ :=
            Program.runs_iff_exists_evaluates.mp ⟨fuel, hRan⟩
          obtain ⟨rfl, rfl⟩ := Evaluates.pure_iff.mp hEvaluates
          exact ⟨none, .ordinary hStarted⟩
      | coroutine t =>
          cases hResumed : (host.resume t .null).sealed after with
          | error halt next =>
              have hFailed : host.unroll resumption f args world = .error halt next :=
                (Exec.bind_of_ok hStarted).trans (Exec.bind_of_error hResumed)
              rw [Exec.bind_of_error hFailed] at hRan
              cases outcome with
              | returned => cases hRan
              | raised exception =>
                  cases hRan
                  exact ⟨none, .beginRaised hStarted hResumed⟩
          | ok step next =>
              have hUnfolds : host.unroll resumption f args world =
                  Host.unrolled f.name resumption step next :=
                (Exec.bind_of_ok hStarted).trans (Exec.bind_of_ok hResumed)
              rcases Host.unrolled_cases f.name resumption step with
                ⟨a, hStands, hGives⟩ | ⟨value, rest, rfl, hStray⟩
              · rw [Exec.bind_of_ok (hUnfolds.trans (hGives next))] at hRan
                obtain ⟨ending, hEvaluates, rfl⟩ :=
                  Program.runs_iff_exists_evaluates.mp ⟨fuel, hRan⟩
                obtain ⟨left, hUnrolls⟩ := hStands.unrolls hResumes hEvaluates
                exact ⟨left, .begun hStarted hResumed hUnrolls⟩
              · rw [Host.unrolled_of_stray hStray] at hUnfolds
                rw [Exec.bind_of_error hUnfolds] at hRan
                cases outcome with
                | returned => cases hRan
                | raised exception =>
                    cases hRan
                    exact ⟨_, .begun hStarted hResumed (.stray hStray)⟩

theorem runsUnrolled_of_gives {a : Alternative κ} {ending : Ending κ} {next : World ω}
    (hGives : host.unroll resumption f args world = .ok a next)
    (hEvaluates : Evaluates host (.program a.program) state next ending final) :
    host.RunsUnrolled resumption f args state world ending.outcome final := by
  obtain ⟨fuel, hRan⟩ := Program.runs_iff_exists_evaluates.mpr ⟨ending, hEvaluates, rfl⟩
  exact ⟨fuel, (Exec.bind_of_ok hGives).trans hRan⟩

theorem runsUnrolled_of_raises {exception : Raised κ}
    (hRaises : host.unroll resumption f args world = .error (.raised exception) final) :
    host.RunsUnrolled resumption f args state world (.raised exception) final :=
  ⟨0, Exec.bind_of_error hRaises⟩

theorem runsUnrolled_of_unrolls (hResumes : host.Resumes f.name resumption) {left : Option τ}
    (hUnrolls : Unrolls host f.name (.calls f.code args) state world result final left) :
    ∃ outcome, host.RunsUnrolled resumption f args state world outcome final ∧
      outcome.result = result := by
  cases hUnrolls with
  | ordinary hStarted => exact ⟨_, runsUnrolled_of_gives (Exec.bind_of_ok hStarted) .pure, rfl⟩
  | callRaised hStarted => exact ⟨_, runsUnrolled_of_raises (Exec.bind_of_error hStarted), rfl⟩
  | beginRaised hStarted hResumed =>
      exact ⟨_, runsUnrolled_of_raises
        ((Exec.bind_of_ok hStarted).trans (Exec.bind_of_error hResumed)), rfl⟩
  | @begun _ _ t step _ _ _ next _ _ _ hStarted hResumed hUnrolls =>
      have hUnfolds : host.unroll resumption f args world =
          Host.unrolled f.name resumption step next :=
        (Exec.bind_of_ok hStarted).trans (Exec.bind_of_ok hResumed)
      rcases Host.unrolled_cases f.name resumption step with
        ⟨a, hStands, hGives⟩ | ⟨value, rest, rfl, hStray⟩
      · obtain ⟨ending, hEvaluates, hSame⟩ := hStands.evaluates hResumes hUnrolls
        exact ⟨_, runsUnrolled_of_gives (hUnfolds.trans (hGives next)) hEvaluates, hSame⟩
      · rw [Host.unrolled_of_stray hStray] at hUnfolds
        cases hUnrolls with
        | stray => exact ⟨_, runsUnrolled_of_raises hUnfolds, rfl⟩
        | ran | raised | replaced => exact absurd rfl (hStray _ _)

theorem runsUnrolled_iff_unrolls (hResumes : host.Resumes f.name resumption) :
    (∃ outcome, host.RunsUnrolled resumption f args state world outcome final ∧
        outcome.result = result) ↔
      ∃ left, Unrolls host f.name (.calls f.code args) state world result final left := by
  constructor
  · intro hGiven
    obtain ⟨outcome, hRuns, rfl⟩ := hGiven
    exact unrolls_of_runsUnrolled hResumes hRuns
  · intro hGiven
    obtain ⟨left, hUnrolls⟩ := hGiven
    exact runsUnrolled_of_unrolls hResumes hUnrolls

/-- Where closing a body ends and raises nothing, the call comes to what the binds come to. -/
theorem ofCall_runs_iff_runsUnrolled (hResumes : host.Resumes f.name resumption)
    (hClean : ∀ t now, ∃ after, host.close t now = .ok () after) :
    (∃ outcome final, (ofCall f args).program.Runs host state world outcome final ∧
        outcome.result = result) ↔
      ∃ outcome middle, host.RunsUnrolled resumption f args state world outcome middle ∧
        outcome.result = result := by
  constructor
  · intro hGiven
    obtain ⟨outcome, final, hRuns⟩ := hGiven
    obtain ⟨left, before, middle, hUnrolls, hCloses⟩ := ofCall_runs_iff_settles.mp ⟨outcome, hRuns⟩
    obtain rfl := hCloses.result_eq_of_clean hClean
    obtain ⟨unrolled, hUnrolled⟩ := (runsUnrolled_iff_unrolls hResumes).mpr ⟨left, hUnrolls⟩
    exact ⟨unrolled, middle, hUnrolled⟩
  · intro hGiven
    obtain ⟨outcome, middle, hRuns⟩ := hGiven
    obtain ⟨left, hUnrolls⟩ := (runsUnrolled_iff_unrolls hResumes).mp ⟨outcome, hRuns⟩
    obtain ⟨final, hCloses⟩ := Host.Closes.exists_of_clean hClean left result middle
    obtain ⟨called, hCalled⟩ := ofCall_runs_iff_settles.mpr ⟨left, result, middle, hUnrolls, hCloses⟩
    exact ⟨called, final, hCalled⟩

/-- A call in do-notation runs as the binds do that its body unrolls to: what it comes to is what they
come to, but for the closing of a body that is left suspended, and it comes to something if and only if
they do. Where closing raises nothing the two come to the same. The body is begun by the run, and resumed
once after each success, with its value. After a failure it is closed in the same step that hands the
failure on. -/
theorem ofCall_iterates_bind (hResumes : host.Resumes f.name resumption) (state : Value κ)
    (world : World ω) :
    (∀ result final,
      (∃ outcome, (ofCall f args).program.Runs host state world outcome final ∧
          outcome.result = result) ↔
        ∃ left before middle,
          Unrolls host f.name (.calls f.code args) state world before middle left ∧
          host.Closes left before middle result final) ∧
    (∀ before middle,
      (∃ outcome, host.RunsUnrolled resumption f args state world outcome middle ∧
          outcome.result = before) ↔
        ∃ left, Unrolls host f.name (.calls f.code args) state world before middle left) ∧
    ((∀ t now, ∃ after, host.close t now = .ok () after) → ∀ result,
      (∃ outcome final, (ofCall f args).program.Runs host state world outcome final ∧
          outcome.result = result) ↔
        ∃ outcome middle, host.RunsUnrolled resumption f args state world outcome middle ∧
          outcome.result = result) ∧
    ∀ (name : Option String) t failure last (below : List (Frame κ τ)) steps after,
      (⟨.deliver (.err failure), last, .body name t :: below, steps⟩ :
          Machine κ τ).step host after =
        ((fun _ => Sum.inl ⟨.deliver (.err failure), last, below, steps⟩) <$>
          (host.close t).sealed) after := by
  refine ⟨fun result final => ofCall_runs_iff_settles, fun before middle => runsUnrolled_iff_unrolls hResumes,
    fun hClean result => ofCall_runs_iff_runsUnrolled hResumes hClean, ?_⟩
  intro name t failure last below steps after
  exact Machine.step_unwinding_body name t last steps host after

end Alternative

/-- A host whose body asks for the user state and then fails with it. It counts the bodies that are
closed. -/
def Host.objector : Host (Option Bool) Bool Nat where
  debug := false
  call
    | some t, [value] =>
        Alternative.toValue <$> (objects t value >>= unrolled none some)
    | _, _ => pure .null
  start _ _ := pure (.coroutine false)
  spawn _ _ := pure false
  resume := objects
  close _ := modify fun world => { world with host := world.host + 1 }
where
  objects : Bool → Value (Option Bool) → Exec (Option Bool) Nat (Step (Option Bool) Bool)
    | false, _ => pure (.yielded Alternative.get.toValue true)
    | true, value => pure (.yielded (Alternative.error value).toValue true)

namespace Alternative

/-- The body is closed when what it yields fails; what it unrolls to fails alike and closes nothing. -/
theorem ofCall_iterates_bind_of_objector :
    (∃ left before middle, Unrolls Host.objector none (.calls none []) (.pair (.int 5) (.bool false))
        ⟨0, #[], 0⟩ before middle left ∧
      Host.objector.Closes left before middle
        (.ok (.failWith (.int 5), .pair (.int 5) (.bool false))) ⟨1, #[], 0⟩) ∧
    (∃ left, Unrolls Host.objector none (.calls none []) (.pair (.int 5) (.bool false))
      ⟨0, #[], 0⟩ (.ok (.failWith (.int 5), .pair (.int 5) (.bool false))) ⟨0, #[], 0⟩ left) ∧
    ∃ outcome middle, Host.objector.RunsUnrolled some ⟨none, none, [], none⟩ []
      (.pair (.int 5) (.bool false)) ⟨0, #[], 0⟩ outcome middle ∧
      outcome.result = .ok (.failWith (.int 5), .pair (.int 5) (.bool false)) := by
  have hResumes : Host.objector.Resumes none some := fun _ _ => rfl
  have hRuns : (ofCall ⟨none, none, [], none⟩ []).program.Runs Host.objector
      (.pair (.int 5) (.bool false)) ⟨0, #[], 0⟩
      (.returned (.failWith (.int 5)) (.pair (.int 5) (.bool false)) 5) ⟨1, #[], 0⟩ := ⟨30, rfl⟩
  obtain ⟨hRuns', hUnrolled, hSame, _⟩ :=
    ofCall_iterates_bind (f := ⟨none, none, [], none⟩) hResumes (.pair (.int 5) (.bool false))
      ⟨0, #[], 0⟩
  exact ⟨(hRuns' _ _).mp ⟨_, hRuns, rfl⟩,
    (hUnrolled _ _).mp ⟨.returned (.failWith (.int 5)) (.pair (.int 5) (.bool false)) 6,
      ⟨30, rfl⟩, rfl⟩,
    (hSame fun _ _ => ⟨_, rfl⟩) _ |>.mp ⟨_, _, hRuns, rfl⟩⟩

end Alternative

end Backtrack
