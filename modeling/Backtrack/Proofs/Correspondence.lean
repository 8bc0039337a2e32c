import Backtrack.Alternative.Run
import Backtrack.Proofs.Evaluation

namespace Backtrack

variable {κ τ ω υ α β : Type} {lacking : Bool}

/-- Corresponding worlds take notes alike and give out the same marks. -/
structure World.Corresponding (R : World ω → World υ → Prop) : Prop where
  noted : ∀ first second, R first second → ∀ entry, R (first.noted entry) (second.noted entry)
  sameMark : ∀ first second, R first second → first.nextMark = second.nextMark
  gaveOut : ∀ first second, R first second →
    R { first with nextMark := first.nextMark + 1 } { second with nextMark := second.nextMark + 1 }

inductive Exec.Matches (R : World ω → World υ → Prop) :
    EStateM.Result (Halt κ) (World ω) α → EStateM.Result (Halt κ) (World υ) α → Prop where
  | ok {a first second} : R first second → Matches R (.ok a first) (.ok a second)
  | error {halt first second} : R first second → Matches R (.error halt first) (.error halt second)

def Exec.Corresponds (R : World ω → World υ → Prop) (x : Exec κ ω α) (y : Exec κ υ α) : Prop :=
  ∀ first second, R first second → Exec.Matches R (x first) (y second)

theorem Exec.Matches.of_ok {R : World ω → World υ → Prop} {a : α} {first : World ω}
    {answer : EStateM.Result (Halt κ) (World υ) α} (hMatched : Exec.Matches R (.ok a first) answer) :
    ∃ second, answer = .ok a second ∧ R first second := by
  cases hMatched with
  | ok hRelated => exact ⟨_, rfl, hRelated⟩

theorem Exec.Matches.of_error {R : World ω → World υ → Prop} {halt : Halt κ} {first : World ω}
    {answer : EStateM.Result (Halt κ) (World υ) α} (hMatched : Exec.Matches R (.error halt first) answer) :
    ∃ second, answer = .error halt second ∧ R first second := by
  cases hMatched with
  | error hRelated => exact ⟨_, rfl, hRelated⟩

theorem Exec.Matches.imp {R S : World ω → World υ → Prop} (hWeaker : ∀ first second, R first second →
    S first second) {result : EStateM.Result (Halt κ) (World ω) α}
    {answer : EStateM.Result (Halt κ) (World υ) α} (hMatched : Exec.Matches R result answer) :
    Exec.Matches S result answer := by
  cases hMatched with
  | ok hRelated => exact .ok (hWeaker _ _ hRelated)
  | error hRelated => exact .error (hWeaker _ _ hRelated)

theorem Exec.Matches.bind {R : World ω → World υ → Prop} {x : Exec κ ω α} {y : Exec κ υ α}
    {f : α → Exec κ ω β} {g : α → Exec κ υ β} {first : World ω} {second : World υ}
    (hMatched : Exec.Matches R (x first) (y second))
    (hOnward : ∀ a next last, y second = .ok a last → R next last →
      Exec.Matches R (f a next) (g a last)) :
    Exec.Matches R ((x >>= f) first) ((y >>= g) second) := by
  generalize hRan : x first = result at hMatched
  generalize hAnswered : y second = answer at hMatched hOnward
  cases hMatched with
  | ok hRelated =>
      rw [bind_of_ok hRan, bind_of_ok hAnswered]
      exact hOnward _ _ _ (Eq.refl _) hRelated
  | error hRelated =>
      rw [bind_of_error hRan, bind_of_error hAnswered]
      exact .error hRelated

theorem Exec.Matches.tryCatch {R : World ω → World υ → Prop} {x : Exec κ ω α} {y : Exec κ υ α}
    {f : Halt κ → Exec κ ω α} {g : Halt κ → Exec κ υ α} {first : World ω} {second : World υ}
    (hMatched : Exec.Matches R (x first) (y second))
    (hHandled : ∀ halt next last, y second = .error halt last → R next last →
      Exec.Matches R (f halt next) (g halt last)) :
    Exec.Matches R ((tryCatch x f) first) ((tryCatch y g) second) := by
  generalize hRan : x first = result at hMatched
  generalize hAnswered : y second = answer at hMatched hHandled
  cases hMatched with
  | ok hRelated =>
      rw [tryCatch_of_ok hRan, tryCatch_of_ok hAnswered]
      exact .ok hRelated
  | error hRelated =>
      rw [tryCatch_of_error hRan, tryCatch_of_error hAnswered]
      exact hHandled _ _ _ (Eq.refl _) hRelated

theorem Exec.Matches.rfl (result : EStateM.Result (Halt κ) (World ω) α) :
    Exec.Matches Eq result result := by
  cases result with
  | ok a final => exact .ok (Eq.refl final)
  | error halt final => exact .error (Eq.refl final)

structure Host.Corresponds (R : World ω → World υ → Prop) (host : Host κ τ ω lacking)
    (other : Host κ τ υ lacking) :
    Prop where
  debug : host.debug = other.debug
  call : ∀ k args, Exec.Corresponds R (host.call k args) (other.call k args)
  start : ∀ k args, Exec.Corresponds R (host.start k args) (other.start k args)
  spawn : ∀ k args, Exec.Corresponds R (host.spawn k args) (other.spawn k args)
  resume : ∀ t sent, Exec.Corresponds R (host.resume t sent) (other.resume t sent)
  close : ∀ t, Exec.Corresponds R (host.close t) (other.close t)
  literal : host.debug = true → ∀ value, host.literal value = other.literal value
  logged : host.debug = true → ∀ value, host.logged value = other.logged value

namespace Exec

variable {R : World ω → World υ → Prop}

@[simp] theorem corresponds_pure (a : α) : Corresponds R (pure a : Exec κ ω α) (pure a) :=
  fun _ _ hRelated => .ok hRelated

@[simp] theorem corresponds_throw (halt : Halt κ) :
    Corresponds R (throw halt : Exec κ ω α) (throw halt) :=
  fun _ _ hRelated => .error hRelated

@[simp] theorem corresponds_raise (exception : Raised κ) :
    Corresponds R (raise exception : Exec κ ω α) (raise exception) :=
  corresponds_throw _

@[simp] theorem corresponds_fail (cause : Fault κ) :
    Corresponds R (fail cause : Exec κ ω α) (fail cause) :=
  corresponds_raise _

@[simp] theorem corresponds_demand (part : Except (Fault κ) α) :
    Corresponds R (demand part : Exec κ ω α) (demand part) := by
  cases part with
  | ok a => exact corresponds_pure a
  | error cause => exact corresponds_fail cause

theorem Corresponds.bind {x : Exec κ ω α} {y : Exec κ υ α} {f : α → Exec κ ω β}
    {g : α → Exec κ υ β} (hSame : Corresponds R x y) (hNext : ∀ a, Corresponds R (f a) (g a)) :
    Corresponds R (x >>= f) (y >>= g) :=
  fun first second hRelated =>
    (hSame first second hRelated).bind fun a _ _ _ hOnward => hNext a _ _ hOnward

theorem Corresponds.map {x : Exec κ ω α} {y : Exec κ υ α} (hSame : Corresponds R x y) (f : α → β) :
    Corresponds R (f <$> x) (f <$> y) := by
  rw [map_eq_pure_bind, map_eq_pure_bind]
  exact hSame.bind fun a => corresponds_pure (f a)

theorem Matches.sealed {x : Exec κ ω α} {y : Exec κ υ α} {first : World ω} {second : World υ}
    (hMatched : Matches R (x first) (y second)) : Matches R (x.sealed first) (y.sealed second) := by
  generalize hRan : x first = result at hMatched
  generalize hAnswered : y second = answer at hMatched
  cases hMatched with
  | ok hRelated =>
      rw [sealed_of_ok hRan, sealed_of_ok hAnswered]
      exact .ok hRelated
  | error hRelated =>
      rw [sealed_of_error hRan, sealed_of_error hAnswered]
      exact .error hRelated

theorem Corresponds.sealed {x : Exec κ ω α} {y : Exec κ υ α} (hSame : Corresponds R x y) :
    Corresponds R x.sealed y.sealed :=
  fun first second hRelated => (hSame first second hRelated).sealed

theorem Corresponds.tryCatch {x : Exec κ ω α} {y : Exec κ υ α} {f : Halt κ → Exec κ ω α}
    {g : Halt κ → Exec κ υ α} (hSame : Corresponds R x y)
    (hHandled : ∀ halt, Corresponds R (f halt) (g halt)) :
    Corresponds R (tryCatch x f) (tryCatch y g) :=
  fun first second hRelated =>
    (hSame first second hRelated).tryCatch fun halt _ _ _ hOnward => hHandled halt _ _ hOnward

theorem corresponds_mapM {f : α → Exec κ ω β} {g : α → Exec κ υ β}
    (hSame : ∀ a, Corresponds R (f a) (g a)) (items : List α) :
    Corresponds R (items.mapM f) (items.mapM g) := by
  induction items with
  | nil => exact corresponds_pure []
  | cons a rest ih =>
      rw [List.mapM_cons, List.mapM_cons]
      exact (hSame a).bind fun b => ih.bind fun bs => corresponds_pure _

theorem corresponds_foldlM {f : β → α → Exec κ ω β} {g : β → α → Exec κ υ β}
    (hSame : ∀ b a, Corresponds R (f b a) (g b a)) (items : List α) (first : β) :
    Corresponds R (items.foldlM f first) (items.foldlM g first) := by
  induction items generalizing first with
  | nil => exact corresponds_pure first
  | cons a rest ih =>
      rw [List.foldlM_cons, List.foldlM_cons]
      exact (hSame first a).bind ih

section Stable

variable (hStable : World.Corresponding R)

include hStable

theorem corresponds_note (entry : Note) :
    Corresponds R (note entry : Exec κ ω Unit) (note entry) :=
  fun first second hRelated => .ok (hStable.noted first second hRelated entry)

theorem corresponds_giveOut (value : Value κ) :
    Corresponds R (giveOut value : Exec κ ω (Value κ)) (giveOut value) := by
  intro first second hRelated
  have hKept := hStable.gaveOut first second hRelated
  have hSame := hStable.sameMark first second hRelated
  show Matches R (.ok (value.marked first.nextMark) _) (.ok (value.marked second.nextMark) _)
  rw [← hSame] at hKept ⊢
  exact .ok hKept

end Stable

end Exec

namespace Host

variable {R : World ω → World υ → Prop} {host : Host κ τ ω lacking} {other : Host κ τ υ lacking}

section Calls

variable (hStable : World.Corresponding R)
  (hCall : ∀ k args, Exec.Corresponds R (host.call k args) (other.call k args))

include hStable hCall

theorem invoke_corresponds (f : Callable κ) (args : List (Value κ)) :
    Exec.Corresponds R (host.invoke f args) (other.invoke f args) := by
  cases f with
  | code mark k => exact hCall k args
  | doFunction f | method f receiver => exact Exec.corresponds_giveOut hStable _

omit hStable hCall in
theorem guarded_corresponds {x : Exec κ ω (Value κ)} {y : Exec κ υ (Value κ)}
    (hSame : Exec.Corresponds R x y) (classes : List ExceptionClass) :
    Exec.Corresponds R (guarded x classes) (guarded y classes) := by
  refine (hSame.map Value.ok).tryCatch fun halt => ?_
  cases halt with
  | raised exception =>
      dsimp only
      split
      · exact (Exec.corresponds_demand _).map _
      · exact Exec.corresponds_raise exception
  | exhausted => exact Exec.corresponds_throw _

theorem applyMapper_corresponds (f : Mapper κ) (value : Value κ) :
    Exec.Corresponds R (host.applyMapper f value) (other.applyMapper f value) := by
  -- Only updating the user state applies another mapper.
  cases f with
  | updateUser f =>
      refine (Exec.corresponds_demand _).bind fun user => ?_
      refine (applyMapper_corresponds f user).bind fun updated => ?_
      exact (Exec.corresponds_demand _).bind fun flag => Exec.corresponds_pure _
  | call f => exact invoke_corresponds hStable hCall f [value]
  | attempt thunk classes =>
      exact guarded_corresponds (invoke_corresponds hStable hCall thunk []) classes
  | injectAfter f =>
      exact (invoke_corresponds hStable hCall f [value]).bind fun result => Exec.corresponds_pure _
  | readUser => exact (Exec.corresponds_demand _).map _
  | raiseFlag => exact (Exec.corresponds_demand _).bind fun user => Exec.corresponds_pure _
  | mapOver computation =>
      cases value with
      | callable f => exact Exec.corresponds_pure _
      | _ => exact Exec.corresponds_fail _
  | constant result => exact Exec.corresponds_pure _
  | recordFailure => exact Exec.corresponds_pure _
  | succeedEmpty => exact Exec.corresponds_pure _

end Calls

end Host

namespace Frame

variable {R : World ω → World υ → Prop} {host : Host κ τ ω lacking} {other : Host κ τ υ lacking}

theorem corresponds_yieldAlternative (role : OperandRole) (rest : Frame κ τ) (value : Value κ) :
    Exec.Corresponds R (yieldAlternative role rest value : Exec κ ω (Step κ (Frame κ τ)))
      (yieldAlternative role rest value) := by
  cases value with
  | alternative mark p => exact Exec.corresponds_pure _
  | _ => exact Exec.corresponds_fail _

theorem corresponds_sequenceNext (collected : List (Value κ)) (ps : List (Program κ)) :
    Exec.Corresponds R (sequenceNext collected ps : Exec κ ω (Step κ (Frame κ τ)))
      (sequenceNext collected ps) := by
  cases ps with
  | nil => exact Exec.corresponds_pure _
  | cons p rest => exact Exec.corresponds_pure _

theorem corresponds_onSuccess (result : Value κ)
    {f : Value κ → Exec κ ω (Step κ (Frame κ τ))} {g : Value κ → Exec κ υ (Step κ (Frame κ τ))}
    (hNext : ∀ value, Exec.Corresponds R (f value) (g value)) :
    Exec.Corresponds R (onSuccess result f) (onSuccess result g) := by
  cases result with
  | err error => exact Exec.corresponds_pure _
  | _ => exact (Exec.corresponds_demand _).bind hNext

variable (hStable : World.Corresponding R) (hSame : host.Corresponds R other)

include hStable hSame

theorem corresponds_traverseNext (f : Callable κ) (collected items : List (Value κ)) :
    Exec.Corresponds R (traverseNext host f collected items) (traverseNext other f collected items) := by
  cases items with
  | nil => exact Exec.corresponds_pure _
  | cons item rest =>
      exact (Host.invoke_corresponds hStable hSame.call f [item]).sealed.bind fun value =>
        corresponds_yieldAlternative _ _ value

omit hStable in
theorem corresponds_bodyNext (name : Option String) (step : Step κ τ) :
    Exec.Corresponds R (bodyNext host name step) (bodyNext other name step) := by
  cases step with
  | returned value => exact Exec.corresponds_pure _
  | yielded value t =>
      cases value with
      | alternative mark p => exact Exec.corresponds_pure _
      | _ => exact (hSame.close t).sealed.bind fun _ => Exec.corresponds_fail _

omit hStable in
theorem corresponds_bodySend (name : Option String) (t : τ) (result : Value κ) :
    Exec.Corresponds R (bodySend host name t result) (bodySend other name t result) := by
  unfold bodySend
  split
  · exact (hSame.close t).sealed.bind fun _ => Exec.corresponds_pure _
  · split
    · exact (hSame.resume t _).sealed.bind fun step => corresponds_bodyNext hSame name step
    · exact (hSame.close t).sealed.bind fun _ => Exec.corresponds_fail _

omit hStable in
theorem shortRepr_corresponds (hDebug : host.debug = true) (value : Value κ) :
    Exec.Corresponds R (host.shortRepr value) (other.shortRepr value) := by
  unfold Host.shortRepr
  rw [hSame.literal hDebug]
  cases other.literal value with
  | had => exact Exec.corresponds_pure _
  | raises exception => exact Exec.corresponds_raise _

theorem corresponds_noteFailure (entry : String → Note) (left : Value κ) :
    Exec.Corresponds R (noteFailure host entry left) (noteFailure other entry left) := by
  unfold noteFailure
  rw [← hSame.debug]
  split
  · rename_i hDebug
    exact (Exec.corresponds_demand _).bind fun error =>
      (shortRepr_corresponds hSame hDebug error).sealed.bind fun _ => Exec.corresponds_note hStable _
  · exact Exec.corresponds_pure _

theorem corresponds_begin (r : Recipe κ) :
    Exec.Corresponds R (begin host r) (begin other r) := by
  cases r with
  | sequence ps => exact corresponds_sequenceNext [] ps
  | traverse items f => exact corresponds_traverseNext hStable hSame f [] items
  | body f args =>
      refine (hSame.start f.code args).sealed.bind fun started => ?_
      cases started with
      | value value => exact Exec.corresponds_pure _
      | coroutine t =>
          exact (hSame.resume t .null).sealed.bind fun step => corresponds_bodyNext hSame f.name step
  | task code args =>
      exact (hSame.spawn code args).bind fun t => (hSame.resume t .null).sealed.map taskNext
  | _ => exact Exec.corresponds_pure _

theorem corresponds_resume (frame : Frame κ τ) (sent : Value κ) :
    Exec.Corresponds R (frame.resume host sent) (frame.resume other sent) := by
  cases frame with
  | fresh r =>
      cases sent with
      | null => exact corresponds_begin hStable hSame r
      | _ => exact Exec.corresponds_fail _
  | task t => exact (hSame.resume t sent).sealed.map taskNext
  | mapped f =>
      exact (Host.applyMapper_corresponds hStable hSame.call f sent).sealed.bind fun value =>
        Exec.corresponds_pure _
  | flatMapped f =>
      refine (Host.invoke_corresponds hStable hSame.call f [sent]).sealed.bind fun value => ?_
      cases value with
      | program p => exact Exec.corresponds_pure _
      | _ => exact Exec.corresponds_fail _
  | bound f =>
      refine corresponds_onSuccess sent fun value => ?_
      exact (Host.applyMapper_corresponds hStable hSame.call f value).sealed.bind fun produced =>
        corresponds_yieldAlternative _ _ produced
  | relay => exact Exec.corresponds_pure _
  | sequenced rest collected =>
      exact corresponds_onSuccess sent fun value => corresponds_sequenceNext _ _
  | traversed rest f collected =>
      exact corresponds_onSuccess sent fun value => corresponds_traverseNext hStable hSame f _ _
  | altSnapshot first second => exact Exec.corresponds_pure _
  | altLeft second snapshot =>
      cases sent with
      | ok value => exact Exec.corresponds_pure _
      | _ => exact Exec.corresponds_pure _
  | altFlag second snapshot left =>
      refine (Exec.corresponds_demand _).bind fun unpacked => ?_
      dsimp only
      split
      · exact (corresponds_noteFailure hStable hSame _ left).bind fun _ => Exec.corresponds_pure _
      · exact (corresponds_noteFailure hStable hSame _ left).bind fun _ => Exec.corresponds_pure _
  | altRestored second left => exact Exec.corresponds_pure _
  | altRight left =>
      cases sent with
      | ok value => exact Exec.corresponds_pure _
      | _ => exact (Exec.corresponds_demand _).bind fun joined => Exec.corresponds_pure _
  | aborting failure => exact Exec.corresponds_pure _
  | body name t => exact corresponds_bodySend hSame name t sent

omit hStable in
theorem corresponds_close (frame : Frame κ τ) :
    Exec.Corresponds R (frame.close host) (frame.close other) := by
  cases frame with
  | task t | body name t => exact (hSame.close t).sealed
  | _ => exact Exec.corresponds_pure _

end Frame

namespace Machine

variable {R : World ω → World υ → Prop} {host : Host κ τ ω lacking} {other : Host κ τ υ lacking}
  (hStable : World.Corresponding R) (hSame : host.Corresponds R other)

include hStable hSame

theorem take_corresponds (p : Program κ) (m : Machine κ τ) :
    Exec.Corresponds R (m.take host p) (m.take other p) := by
  cases p with
  | modify f =>
      exact (Host.applyMapper_corresponds hStable hSame.call f m.state).bind fun state =>
        Exec.corresponds_pure _
  | foreign mark | foreignEffect mark => exact Exec.corresponds_fail _
  | _ => exact Exec.corresponds_pure _

theorem deliver_corresponds (value : Value κ) (top : Frame κ τ) (below : List (Frame κ τ))
    (m : Machine κ τ) :
    Exec.Corresponds R (m.deliver host value top below) (m.deliver other value top below) := by
  refine (Frame.corresponds_resume hStable hSame top value).bind fun step => ?_
  cases step with
  | returned result => exact Exec.corresponds_pure _
  | yielded yielded rest =>
      cases yielded with
      | program p => exact Exec.corresponds_pure _
      | _ => exact (Frame.corresponds_close hSame rest).bind fun _ => Exec.corresponds_fail _

theorem step_corresponds (m : Machine κ τ) :
    Exec.Corresponds R (m.step host) (m.step other) := by
  obtain ⟨mode, state, stack, steps⟩ := m
  cases mode with
  | take p => exact (take_corresponds hStable hSame p _).map _
  | deliver value =>
      cases stack with
      | nil => exact Exec.corresponds_pure _
      | cons top below => exact (deliver_corresponds hStable hSame value top below _).map _

omit hStable in
theorem closeAll_corresponds (frames : List (Frame κ τ)) :
    Exec.Corresponds R (closeAll host frames) (closeAll other frames) := by
  induction frames with
  | nil => exact Exec.corresponds_pure _
  | cons frame rest ih => exact (Frame.corresponds_close hSame frame).bind fun _ => ih

theorem stepOrUnwind_corresponds (m : Machine κ τ) :
    Exec.Corresponds R (m.stepOrUnwind host) (m.stepOrUnwind other) := by
  refine (step_corresponds hStable hSame m).tryCatch fun halt => ?_
  cases halt with
  | raised exception =>
      exact (closeAll_corresponds hSame m.suspended).bind fun _ => Exec.corresponds_raise _
  | exhausted => exact Exec.corresponds_throw _

theorem drive_corresponds (fuel : Nat) (m : Machine κ τ) :
    Exec.Corresponds R (m.drive host fuel) (m.drive other fuel) := by
  induction fuel generalizing m with
  | zero => exact Exec.corresponds_throw _
  | succ fuel ih =>
      refine (stepOrUnwind_corresponds hStable hSame m).bind fun result => ?_
      cases result with
      | inl next => exact ih next
      | inr finished => exact Exec.corresponds_pure _

end Machine

namespace Program

variable {R : World ω → World υ → Prop} {host : Host κ τ ω lacking} {other : Host κ τ υ lacking}

theorem run_corresponds (hStable : World.Corresponding R) (hSame : host.Corresponds R other)
    (p : Program κ) (fuel : Nat) (state : Value κ) :
    Exec.Corresponds R (p.run host fuel state) (p.run other fuel state) := by
  refine (Machine.drive_corresponds hStable hSame fuel _).bind fun finished => ?_
  exact (Exec.corresponds_note hStable _).bind fun _ => Exec.corresponds_pure _

theorem Runs.of_corresponds (hStable : World.Corresponding R) (hSame : host.Corresponds R other)
    {p : Program κ} {state : Value κ} {outcome : Outcome κ} {world final : World ω} {start : World υ}
    (hRuns : p.Runs host state world outcome final) (hRelated : R world start) :
    ∃ last, p.Runs other state start outcome last ∧ R final last := by
  obtain ⟨fuel, hRan⟩ := hRuns
  have hMatched :=
    Machine.drive_corresponds hStable hSame fuel (Machine.start p state) world start hRelated
  cases hDriven : (Machine.start p state).drive host fuel world with
  | ok finished after =>
      rw [run_of_drive_ok hDriven] at hRan
      have hReported : (Outcome.returned finished.value finished.state finished.steps).report after =
          outcome.report final := hRan
      obtain ⟨rfl, rfl⟩ := Outcome.report_inj hReported
      obtain ⟨last, hAnswered, hKept⟩ := (hDriven ▸ hMatched).of_ok
      exact ⟨last, ⟨fuel, run_of_drive_ok hAnswered⟩, hKept⟩
  | error halt after =>
      rw [run_of_drive_error hDriven] at hRan
      obtain ⟨last, hAnswered, hKept⟩ := (hDriven ▸ hMatched).of_error
      cases outcome with
      | returned value left steps => cases hRan
      | raised exception =>
          cases hRan
          exact ⟨last, ⟨fuel, run_of_drive_error hAnswered⟩, hKept⟩

end Program

namespace Alternative

variable {R : World ω → World υ → Prop} {host : Host κ τ ω lacking} {other : Host κ τ υ lacking}

theorem runPair_corresponds (hStable : World.Corresponding R) (hSame : host.Corresponds R other)
    (a : Alternative κ) (fuel : Nat) (initial : Value κ) :
    Exec.Corresponds R (a.runPair host fuel initial) (a.runPair other fuel initial) := by
  refine (Exec.corresponds_demand _).bind fun ⟨user, aborted⟩ => ?_
  refine (Program.run_corresponds hStable hSame a.program fuel _).bind fun ⟨result, final⟩ => ?_
  refine (Exec.corresponds_demand _).bind fun ⟨finalUser, finalAborted⟩ => ?_
  cases result with
  | ok value | err failure => exact Exec.corresponds_pure _
  | _ => exact Exec.corresponds_fail _

theorem run_corresponds (hStable : World.Corresponding R) (hSame : host.Corresponds R other)
    (a : Alternative κ) (fuel : Nat) (user : Value κ) :
    Exec.Corresponds R (a.run host fuel user) (a.run other fuel user) := by
  refine (runPair_corresponds hStable hSame a fuel _).bind fun ⟨result, finalUser, aborted⟩ => ?_
  rw [← hSame.debug]
  cases hDebug : host.debug with
  | false => exact Exec.corresponds_pure _
  | true =>
      refine (Frame.shortRepr_corresponds hSame hDebug _).bind fun shownResult => ?_
      refine (Frame.shortRepr_corresponds hSame hDebug _).bind fun shownUser => ?_
      rw [hSame.logged hDebug]
      refine (Exec.corresponds_demand _).bind fun flag => ?_
      exact (Exec.corresponds_note hStable _).bind fun _ => Exec.corresponds_pure _

end Alternative

end Backtrack
