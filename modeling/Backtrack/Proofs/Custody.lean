import Backtrack.Proofs.Handling

namespace Backtrack

variable {κ τ ω : Type} {lacking : Bool}

namespace Frame

variable {host : Host κ τ ω lacking} {live raising : List τ}

theorem Idle.resume_keeps {frame : Frame κ τ} (hIdle : frame.Idle) (sent : Value κ) :
    Keeps host live (frame.resume host.recording sent) (fun step => step.coroutines ++ live)
      live := by
  have hSame : ∀ record, Exec.Corresponds (World.Records record)
      (frame.resume host.recording sent) (frame.resume host sent) := by
    intro record
    rw [hIdle.resume_muted host.recording, hIdle.resume_muted host]
    exact corresponds_resume (World.records_corresponding record)
      (Host.muted_corresponds host record) frame sent
  refine (Keeps.of_records hSame).of_eq fun world step final hResumed => ?_
  rw [hIdle.resume_coroutines hResumed]
  rfl

theorem close_keeps (host : Host κ τ ω lacking) (frame : Frame κ τ) :
    Keeps host (frame.coroutines ++ live) (frame.close host.recording) (fun _ => live) raising := by
  cases frame with
  | task t | body name t => exact (Keeps.close host t live).sealed
  | _ => exact Keeps.pure rfl

theorem bodyNext_keeps (host : Host κ τ ω lacking) (name : Option String) (step : Step κ τ) :
    Keeps host (step.left ++ live) (bodyNext host.recording name step)
      (fun step => step.coroutines ++ live) live := by
  cases step with
  | returned value => exact Keeps.pure rfl
  | yielded value t =>
      cases value with
      | alternative mark p => exact Keeps.pure rfl
      | _ => exact (Keeps.close host t live).sealed.bind fun _ => Keeps.raise _

theorem bodySend_keeps (host : Host κ τ ω lacking) (name : Option String) (t : τ) (sent : Value κ) :
    Keeps host (t :: live) (bodySend host.recording name t sent)
      (fun step => step.coroutines ++ live) live := by
  unfold bodySend
  split
  · exact (Keeps.close host t live).sealed.bind fun _ => Keeps.pure rfl
  · split
    · exact (Keeps.resume host t _ live).sealed.bind (bodyNext_keeps host name)
    · exact (Keeps.close host t live).sealed.bind fun _ => Keeps.raise _

theorem taskNext_coroutines (step : Step κ τ) : (taskNext step).coroutines = step.left := by
  cases step with
  | yielded value t => rfl
  | returned value => rfl

theorem task_keeps (host : Host κ τ ω lacking) (t : τ) (sent : Value κ) :
    Keeps host (t :: live) (taskNext <$> (host.recording.resume t sent).sealed)
      (fun step => step.coroutines ++ live) live := by
  have hResumed := (Keeps.resume host t sent live).sealed
  simp only [← taskNext_coroutines] at hResumed
  exact Keeps.map taskNext hResumed

theorem resume_keeps (host : Host κ τ ω lacking) (frame : Frame κ τ) (sent : Value κ) :
    Keeps host (frame.coroutines ++ live) (frame.resume host.recording sent)
      (fun step => step.coroutines ++ live) live := by
  cases frame with
  | task t => exact task_keeps host t sent
  | body name t => exact bodySend_keeps host name t sent
  | fresh r =>
      cases r with
      | body f args =>
          cases sent with
          | null =>
              refine (Keeps.start host f.code args live).sealed.bind fun started => ?_
              cases started with
              | value value => exact Keeps.pure rfl
              | coroutine t =>
                  exact (Keeps.resume host t .null live).sealed.bind (bodyNext_keeps host f.name)
          | _ => exact Keeps.raise _
      | task code args =>
          cases sent with
          | null =>
              exact (Keeps.spawn host code args live).bind fun t => task_keeps host t .null
          | _ => exact Keeps.raise _
      | _ =>
          refine Idle.resume_keeps ?_ sent
          trivial
  | _ =>
      refine Idle.resume_keeps ?_ sent
      trivial

/-- The coroutines that the generators of a stack keep, the innermost first. -/
def inCustody (stack : List (Frame κ τ)) : List τ := stack.flatMap coroutines

end Frame

namespace Machine

variable {host : Host κ τ ω lacking} {m next last : Machine κ τ}

theorem take_keeps (host : Host κ τ ω lacking) (p : Program κ) (m : Machine κ τ) :
    Keeps host (Frame.inCustody m.stack) (m.take host.recording p)
      (fun next => Frame.inCustody next.stack) (Frame.inCustody m.stack) := by
  cases p with
  | modify f =>
      have hSame : ∀ record, Exec.Corresponds (World.Records record)
          (host.recording.applyMapper f m.state) (host.applyMapper f m.state) :=
        fun record => Host.applyMapper_corresponds (World.records_corresponding record)
          (fun k args => Exec.entering_nothing_records (host.call k args) record) f m.state
      exact (Keeps.of_records hSame).bind fun state => Keeps.pure rfl
  | foreign mark | foreignEffect mark => exact Keeps.raise _
  | pure | get | put | generator => exact Keeps.pure rfl

theorem deliver_keeps (host : Host κ τ ω lacking) (value : Value κ) (top : Frame κ τ)
    (below : List (Frame κ τ)) (m : Machine κ τ) :
    Keeps host (Frame.inCustody (top :: below)) (m.deliver host.recording value top below)
      (fun next => Frame.inCustody next.stack) (Frame.inCustody below) := by
  refine (Frame.resume_keeps host top value).bind fun step => ?_
  cases step with
  | returned result => exact Keeps.pure rfl
  | yielded yielded rest =>
      cases yielded with
      | program p => exact Keeps.pure rfl
      | _ => exact (Frame.close_keeps host rest).bind fun _ => Keeps.raise _

def inCustody : Machine κ τ ⊕ Finished κ → List τ
  | .inl next => Frame.inCustody next.stack
  | .inr _ => []

/-- A step leaves live what the stack keeps, and an exception what is suspended then. -/
theorem step_keeps (host : Host κ τ ω lacking) (m : Machine κ τ) :
    Keeps host (Frame.inCustody m.stack) (m.step host.recording) inCustody
      (Frame.inCustody m.suspended) := by
  obtain ⟨mode, state, stack, steps⟩ := m
  cases mode with
  | take p => exact Keeps.map Sum.inl (take_keeps host p _)
  | deliver value =>
      cases stack with
      | nil => exact Keeps.pure rfl
      | cons top below => exact Keeps.map Sum.inl (deliver_keeps host value top below _)

theorem closeAll_keeps (host : Host κ τ ω lacking) (frames : List (Frame κ τ)) (raising : List τ) :
    Keeps host (Frame.inCustody frames) (closeAll host.recording frames) (fun _ => []) raising := by
  induction frames with
  | nil => exact Keeps.pure rfl
  | cons frame rest ih => exact (Frame.close_keeps host frame).bind fun _ => ih

theorem stepOrUnwind_keeps (host : Host κ τ ω lacking) (m : Machine κ τ) :
    Keeps host (Frame.inCustody m.stack) (m.stepOrUnwind host.recording) inCustody [] :=
  (step_keeps host m).tryCatch_reraise (closeAll_keeps host m.suspended [])

theorem drive_keeps (host : Host κ τ ω lacking) (fuel : Nat) (m : Machine κ τ) :
    Keeps host (Frame.inCustody m.stack) (m.drive host.recording fuel) (fun _ => []) [] := by
  induction fuel generalizing m with
  | zero => exact Keeps.exhausted
  | succ fuel ih =>
      refine (stepOrUnwind_keeps host m).bind fun result => ?_
      cases result with
      | inl next => exact ih next
      | inr finished => exact Keeps.pure rfl

end Machine

section Runs

variable (host : Host κ τ ω lacking) (fuel : Nat)

theorem Program.run_keeps (p : Program κ) (state : Value κ) :
    Keeps host [] (p.run host.recording fuel state) (fun _ => []) [] := by
  refine (Machine.drive_keeps host fuel (Machine.start p state)).bind fun finished => ?_
  refine (Keeps.of_records fun record =>
    Exec.corresponds_note (World.records_corresponding record) _).bind fun _ => ?_
  exact Keeps.pure rfl

theorem Keeps.demand {α : Type} (part : Except (Fault κ) α) :
    Keeps host [] (Exec.demand part) (fun _ => []) [] := by
  cases part with
  | ok a => exact Keeps.pure rfl
  | error cause => exact Keeps.raise _

omit fuel in
theorem Keeps.shortRepr (value : Value κ) :
    Keeps host [] (host.recording.shortRepr value) (fun _ => []) [] := by
  unfold Host.shortRepr Literal.shown
  split
  · exact Keeps.pure rfl
  · exact Keeps.raise _

theorem Alternative.runPair_keeps (a : Alternative κ) (initial : Value κ) :
    Keeps host [] (a.runPair host.recording fuel initial) (fun _ => []) [] := by
  refine (Keeps.demand host _).bind fun ⟨user, aborted⟩ => ?_
  refine (Program.run_keeps host fuel a.program _).bind fun ⟨result, final⟩ => ?_
  refine (Keeps.demand host _).bind fun ⟨finalUser, finalAborted⟩ => ?_
  cases result with
  | ok value | err failure => exact Keeps.pure rfl
  | _ => exact Keeps.raise _

theorem Alternative.run_keeps (a : Alternative κ) (user : Value κ) :
    Keeps host [] (a.run host.recording fuel user) (fun _ => []) [] := by
  refine (runPair_keeps host fuel a _).bind fun ⟨result, finalUser, aborted⟩ => ?_
  dsimp only
  split
  · refine (Keeps.shortRepr host _).bind fun shownResult => ?_
    refine (Keeps.shortRepr host _).bind fun shownUser => ?_
    refine (Keeps.demand host _).bind fun flag => ?_
    refine (Keeps.of_records fun record =>
      Exec.corresponds_note (World.records_corresponding record) _).bind fun _ => ?_
    exact Keeps.pure rfl
  · exact Keeps.pure rfl

end Runs

end Backtrack
