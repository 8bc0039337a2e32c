import Backtrack.Proofs.Abort

/-! Well-typed programs raise nothing. In a public run every value that is sent to a generator is what that
waits for, so the library itself raises nothing; what is left are the callbacks, and the texts of what is
caught or noted. -/

namespace Backtrack

variable {κ τ ω α β : Type} {lacking flag : Bool}

def Exec.RaisesNothing (x : Exec κ ω α) (world : World ω) : Prop :=
  ∀ exception final, x world ≠ .error (.raised exception) final

namespace Exec.RaisesNothing

variable {x : Exec κ ω α} {world : World ω}

theorem of_ok {a : α} {final : World ω} (hEnded : x world = .ok a final) : x.RaisesNothing world := by
  intro exception last hRaised
  rw [hEnded] at hRaised
  cases hRaised

theorem bind {f : α → Exec κ ω β} (hFirst : x.RaisesNothing world)
    (hOnward : ∀ a next, x world = .ok a next → (f a).RaisesNothing next) :
    (x >>= f).RaisesNothing world := by
  intro exception final hRaised
  rcases Exec.bind_eq_error.mp hRaised with hFailed | ⟨a, next, hEnded, hFailed⟩
  · exact hFirst exception final hFailed
  · exact hOnward a next hEnded exception final hFailed

theorem map (f : α → β) (hFirst : x.RaisesNothing world) : (f <$> x).RaisesNothing world := by
  rw [map_eq_pure_bind]
  exact hFirst.bind fun a next _ => of_ok rfl

theorem sealed (hQuiet : x.RaisesNothing world) : x.sealed.RaisesNothing world := by
  intro exception final hRaised
  obtain ⟨inner, hInner, _⟩ := Exec.sealed_eq_raised.mp hRaised
  exact hQuiet inner final hInner

end Exec.RaisesNothing

/-- What a step leaves to the code of the host: to map a value, to choose the alternative to run for a
value, to compute a value whose exceptions may be caught, to be a function, to begin, resume or close a body
in do-notation, to have the literal form of a failure that is noted. -/
inductive Errand (κ τ : Type) where
  | map (f : Mapper κ) (value : Value κ)
  | choose (f : Callable κ) (value : Value κ)
  | attempt (thunk : Callable κ) (classes : List ExceptionClass)
  | apply (value : Value κ)
  | begin (f : DoFunction κ) (args : List (Value κ))
  | resume (t : τ) (value : Value κ)
  | close (t : τ)
  | note (failure : Value κ)

/-- The next step of the machine has the errand. -/
inductive Machine.Sends : Machine κ τ → Errand κ τ → Prop where
  | changes {f user flag stack steps} :
      Sends ⟨.take (.modify (.updateUser f)), .pair user flag, stack, steps⟩ (.map f user)
  | attempts {thunk classes sent state below steps} :
      Sends ⟨.deliver sent, state, .mapped (.attempt thunk classes) :: below, steps⟩
        (.attempt thunk classes)
  | binds {f value state below steps} :
      Sends ⟨.deliver (.ok value), state, .bound (.call f) :: below, steps⟩ (.choose f value)
  | maps {f value state below steps} :
      Sends ⟨.deliver (.ok value), state, .bound (.injectAfter f) :: below, steps⟩ (.map (.call f) value)
  | applies {p value state below steps} :
      Sends ⟨.deliver (.ok value), state, .bound (.mapOver p) :: below, steps⟩ (.apply value)
  | traverses {f item rest state below steps} :
      Sends ⟨.deliver .null, state, .fresh (.traverse (item :: rest) f) :: below, steps⟩ (.choose f item)
  | traversesOn {f item rest collected value state below steps} :
      Sends ⟨.deliver (.ok value), state, .traversed (item :: rest) f collected :: below, steps⟩
        (.choose f item)
  | begins {f args state below steps} :
      Sends ⟨.deliver .null, state, .fresh (.body f args) :: below, steps⟩ (.begin f args)
  | resumes {name t value state below steps} :
      Sends ⟨.deliver (.ok value), state, .body name t :: below, steps⟩ (.resume t value)
  | closes {name t failure state below steps} :
      Sends ⟨.deliver (.err failure), state, .body name t :: below, steps⟩ (.close t)
  | notes {second kept failure sent state below steps} :
      Sends ⟨.deliver sent, state, .altFlag second kept (.err failure) :: below, steps⟩ (.note failure)

namespace Errand

/-- The body does not raise, and what it yields is an alternative. -/
def ResumesWell (host : Host κ τ ω lacking) (t : τ) (value : Value κ) (world : World ω) : Prop :=
  (host.resume t value).RaisesNothing world ∧
    ∀ produced rest final, host.resume t value world = .ok (.yielded produced rest) final →
      ∃ mark p, produced = .alternative mark p

/-- The callback does in the world what a well-behaved one does. -/
def Behaves (host : Host κ τ ω lacking) (world : World ω) : Errand κ τ → Prop
  | map f value => (host.applyMapper f value).RaisesNothing world
  | choose f value => (host.invoke f [value]).RaisesNothing world ∧
      ∀ produced final, host.invoke f [value] world = .ok produced final →
        ∃ mark p, produced = .alternative mark p
  | attempt thunk classes => ∀ exception final,
      host.invoke thunk [] world = .error (.raised exception) final →
        classes.any exception.exceptionClass.isA = true
  | apply value => ∃ f, value = .callable f
  | begin f args => (host.start f.code args).RaisesNothing world ∧
      ∀ t next, host.start f.code args world = .ok (.coroutine t) next → ResumesWell host t .null next
  | resume t value => ResumesWell host t value world
  | close t => (host.close t).RaisesNothing world
  | note _ => True

/-- The text of an exception that is caught can be computed, and in debugging that of a failure. -/
def Legible (host : Host κ τ ω lacking) (world : World ω) : Errand κ τ → Prop
  | attempt thunk _ => ∀ exception final,
      host.invoke thunk [] world = .error (.raised exception) final →
        ∃ text, exception.failureText = .ok text
  | note failure => host.debug = true → host.literal failure = .had
  | _ => True

end Errand

def Program.Entrusts (host : Host κ τ ω lacking) (p : Program κ) (state : Value κ) (world : World ω)
    (Good : World ω → Errand κ τ → Prop) : Prop :=
  ∀ count m now errand, Machine.Reaches host count (Machine.start p state) world m now →
    m.Sends errand → Good now errand

namespace Frame

variable {host : Host κ τ ω lacking} {frame : Frame κ τ} {user sent value : Value κ} {world : World ω}

theorem yieldAlternative_raisesNothing {role : OperandRole} {rest : Frame κ τ}
    (hAlternative : ∃ mark p, value = .alternative mark p) :
    (yieldAlternative role rest value : Exec κ ω _).RaisesNothing world := by
  obtain ⟨mark, p, rfl⟩ := hAlternative
  exact .of_ok rfl

theorem sequenceNext_raisesNothing (collected : List (Value κ)) (ps : List (Program κ)) :
    (sequenceNext collected ps : Exec κ ω (Step κ (Frame κ τ))).RaisesNothing world := by
  cases ps with
  | nil | cons => exact .of_ok rfl

theorem traverseNext_raisesNothing {f : Callable κ} (collected : List (Value κ))
    {items : List (Value κ)}
    (hChooses : ∀ item rest, items = item :: rest →
      (Errand.choose f item : Errand κ τ).Behaves host world) :
    (traverseNext host f collected items).RaisesNothing world := by
  cases items with
  | nil => exact .of_ok rfl
  | cons item rest =>
      obtain ⟨hQuiet, hGives⟩ := hChooses item rest rfl
      exact hQuiet.sealed.bind fun produced next hInvoked =>
        yieldAlternative_raisesNothing (hGives produced next (Exec.sealed_eq_ok.mp hInvoked))

theorem resume_body_raisesNothing {name : Option String} {t : τ}
    (hResumes : Errand.ResumesWell host t value world) :
    ((host.resume t value).sealed >>= bodyNext host name).RaisesNothing world := by
  obtain ⟨hQuiet, hGives⟩ := hResumes
  refine hQuiet.sealed.bind fun step next hResumed => ?_
  cases step with
  | returned result => exact .of_ok rfl
  | yielded produced rest =>
      obtain ⟨mark, p, rfl⟩ := hGives produced rest next (Exec.sealed_eq_ok.mp hResumed)
      exact .of_ok rfl

theorem guarded_raisesNothing {thunk : Callable κ} {classes : List ExceptionClass}
    (hCovered : (Errand.attempt thunk classes : Errand κ τ).Behaves host world)
    (hLegible : (Errand.attempt thunk classes : Errand κ τ).Legible host world) :
    (Host.guarded (host.invoke thunk []) classes).RaisesNothing world := by
  unfold Host.guarded
  cases hInvoked : host.invoke thunk [] world with
  | ok result next => exact .of_ok (Exec.tryCatch_of_ok (Exec.map_of_ok hInvoked))
  | error halt next =>
      intro exception final hRaised
      rw [Exec.tryCatch_of_error (Exec.map_of_error hInvoked)] at hRaised
      cases halt with
      | exhausted => cases hRaised
      | raised caught =>
          obtain ⟨text, hShown⟩ := hLegible caught next hInvoked
          dsimp only at hRaised
          rw [hCovered caught next hInvoked, if_pos rfl, hShown] at hRaised
          cases hRaised

theorem begin_raisesNothing {r : Recipe κ} {state : Value κ} {below : List (Frame κ τ)} {steps : Nat}
    (hPublic : r.Public)
    (hBehaves : ∀ errand : Errand κ τ,
      (⟨.deliver .null, state, .fresh r :: below, steps⟩ : Machine κ τ).Sends errand →
        errand.Behaves host world) : (begin host r).RaisesNothing world := by
  cases hPublic with
  | primitive | abort | bind | altOr => exact .of_ok rfl
  | sequence => exact sequenceNext_raisesNothing _ _
  | traverse items f =>
      refine traverseNext_raisesNothing [] fun item rest hSame => ?_
      subst hSame
      exact hBehaves _ .traverses
  | body f args =>
      obtain ⟨hQuiet, hResumes⟩ := hBehaves _ .begins
      refine hQuiet.sealed.bind fun started next hBegan => ?_
      cases started with
      | value value => exact .of_ok rfl
      | coroutine t =>
          exact resume_body_raisesNothing (hResumes t next (Exec.sealed_eq_ok.mp hBegan))

theorem resume_waiting_raisesNothing {result state : Value κ} {below : List (Frame κ τ)} {steps : Nat}
    (hWaits : frame.Waits flag) (hResult : result.IsResult)
    (hBehaves : ∀ errand : Errand κ τ,
      (⟨.deliver result, state, frame :: below, steps⟩ : Machine κ τ).Sends errand →
        errand.Behaves host world) : (frame.resume host result).RaisesNothing world := by
  cases hWaits with
  | @bound f hContinues =>
      cases hResult with
      | failure value children => exact .of_ok rfl
      | success value =>
          cases hContinues with
          | call f =>
              obtain ⟨hQuiet, hGives⟩ := hBehaves _ .binds
              exact hQuiet.sealed.bind fun produced next hInvoked =>
                yieldAlternative_raisesNothing (hGives produced next (Exec.sealed_eq_ok.mp hInvoked))
          | injectAfter f =>
              have hQuiet : (host.invoke f [value]).RaisesNothing world := hBehaves _ .maps
              have hInjects : (host.applyMapper (.injectAfter f) value).RaisesNothing world :=
                hQuiet.bind fun _ _ _ => .of_ok rfl
              refine hInjects.sealed.bind fun produced next hApplied => ?_
              obtain ⟨result, _, _, hInjected⟩ := Exec.bind_eq_ok.mp (Exec.sealed_eq_ok.mp hApplied)
              cases hInjected
              exact yieldAlternative_raisesNothing ⟨_, _, rfl⟩
          | mapOver hPublic =>
              obtain ⟨f, rfl⟩ := hBehaves _ .applies
              exact .of_ok rfl
  | relay => exact .of_ok rfl
  | sequenced collected hAllPublic =>
      cases hResult with
      | success value => exact sequenceNext_raisesNothing _ _
      | failure value children => exact .of_ok rfl
  | traversed rest f collected =>
      cases hResult with
      | success value =>
          refine traverseNext_raisesNothing _ fun item others hSame => ?_
          subst hSame
          exact hBehaves _ .traversesOn
      | failure value children => exact .of_ok rfl
  | altLeft user hPublic => cases hResult <;> exact .of_ok rfl
  | altRight value children hClear => cases hResult <;> exact .of_ok rfl
  | body name t =>
      cases hResult with
      | success value => exact resume_body_raisesNothing (hBehaves _ .resumes)
      | failure value children =>
          have hQuiet : (host.close t).RaisesNothing world := hBehaves _ .closes
          exact hQuiet.sealed.bind fun _ _ _ => .of_ok rfl

theorem resume_asked_raisesNothing {effect : Program κ} {state : Value κ} {below : List (Frame κ τ)}
    {steps : Nat} (hAsks : frame.Asks flag effect) (hLasting : effect ≠ .modify .raiseFlag)
    (hAnswered : effect = .get → sent = .pair user (.bool flag))
    (hBehaves : ∀ errand : Errand κ τ,
      (⟨.deliver sent, state, frame :: below, steps⟩ : Machine κ τ).Sends errand →
        errand.Behaves host world ∧ errand.Legible host world) :
    (frame.resume host sent).RaisesNothing world := by
  cases hAsks with
  | primitive hFinishes =>
      cases hFinishes with
      | error failure => exact .of_ok rfl
      | attempt thunk classes =>
          obtain ⟨hCovered, hLegible⟩ := hBehaves _ .attempts
          have hQuiet : (host.applyMapper (.attempt thunk classes) sent).RaisesNothing world :=
            guarded_raisesNothing hCovered hLegible
          exact hQuiet.sealed.bind fun _ _ _ => .of_ok rfl
      | get =>
          rw [hAnswered rfl]
          exact .of_ok rfl
      | modify f => exact .of_ok rfl
  | abort failure => exact absurd rfl hLasting
  | snapshot => exact .of_ok rfl
  | reread kept value children hPublic =>
      have hShows : host.debug = true → host.literal (.tree value children) = .had :=
        (hBehaves _ .notes).2
      rw [hAnswered rfl]
      cases flag with
      | true =>
          rw [resume_altFlag_true]
          exact .of_ok (Exec.bind_of_ok (noteFailure_of_had hShows .alternationSkipped world))
      | false =>
          rw [resume_altFlag_false]
          exact .of_ok (Exec.bind_of_ok (noteFailure_of_had hShows .backtracked world))
  | restore => exact .of_ok rfl

end Frame

namespace Machine

variable {host : Host κ τ ω lacking} {m : Machine κ τ} {world : World ω}

theorem step_resume_raisesNothing {sent state : Value κ} {frame : Frame κ τ}
    {below : List (Frame κ τ)} {steps : Nat} (hQuiet : (frame.resume host sent).RaisesNothing world)
    (hProper : ∀ step final, frame.resume host sent world = .ok step final → step.Proper host flag) :
    ((⟨.deliver sent, state, frame :: below, steps⟩ : Machine κ τ).step host).RaisesNothing world := by
  refine Exec.RaisesNothing.map _ (hQuiet.bind fun step next hResumed => ?_)
  cases hProper step next hResumed with
  | result | asks | runs | offered => exact .of_ok rfl

theorem Live.step_raisesNothing (hLive : m.Live flag)
    (hBehaves : ∀ errand, m.Sends errand → errand.Behaves host world ∧ errand.Legible host world) :
    (m.step host).RaisesNothing world := by
  cases hLive with
  | taking user steps hPublic hWaits =>
      cases hPublic with
      | result | generator => exact .of_ok rfl
  | asking user steps hAsks hWaits =>
      cases hAsks with
      | primitive hFinishes =>
          cases hFinishes with
          | error | attempt | get => exact .of_ok rfl
          | modify f =>
              have hQuiet : (host.applyMapper f user).RaisesNothing world := (hBehaves _ .changes).1
              refine .map _ (.bind ?_ fun _ _ _ => .of_ok rfl)
              exact hQuiet.bind fun _ _ _ => .of_ok rfl
      | abort | snapshot | reread | restore => exact .of_ok rfl
  | sending steps hReady hWaits =>
      refine step_resume_raisesNothing ?_ fun step final hResumed => hReady.resume_proper hResumed
      cases hReady with
      | fresh hPublic => exact Frame.begin_raisesNothing hPublic fun errand hSends =>
          (hBehaves errand hSends).1
      | waiting hFrameWaits hResult =>
          exact Frame.resume_waiting_raisesNothing hFrameWaits hResult fun errand hSends =>
            (hBehaves errand hSends).1
      | asked hAsks hLasting hAnswered =>
          exact Frame.resume_asked_raisesNothing hAsks hLasting hAnswered hBehaves
  | done user steps hResult => exact .of_ok rfl

theorem Failing.step_raisesNothing {user final : Value κ} (hFailing : m.Failing flag user final)
    (hBehaves : ∀ errand, m.Sends errand → errand.Behaves host world ∧ errand.Legible host world) :
    (m.step host).RaisesNothing world := by
  have hParts : (m.parting host).RaisesNothing world := by
    cases hFailing with
    | @unwinding failure stack steps hResult hWaits hEnds =>
        cases stack with
        | nil => exact .of_ok rfl
        | cons frame below =>
            cases (List.forall_mem_cons.mp hWaits).1 with
            | body name t =>
                have hQuiet : (host.close t).RaisesNothing world := (hBehaves _ .closes).1
                exact hQuiet.sealed
            | _ => exact .of_ok rfl
    | told steps hResult =>
        cases hResult with
        | failure value children =>
            have hShows : host.debug = true → host.literal (.tree value children) = .had :=
              (hBehaves _ .notes).2
            exact .of_ok (Frame.noteFailure_of_had hShows .alternationSkipped world)
    | asking | aborting => exact .of_ok rfl
  rcases hFailing.step_cases with ⟨steps, rfl⟩ | ⟨next, hParting⟩
  · exact .of_ok rfl
  · intro exception after hRaised
    rw [hParting.step] at hRaised
    exact hParts.map _ exception after hRaised

end Machine

namespace Alternative

structure Shown (host : Host κ τ ω lacking) (result user aborted : Value κ) : Prop where
  result : host.literal result = .had
  user : host.literal user = .had
  aborted : ∃ text, host.logged aborted = .ok text

open Machine

variable {host : Host κ τ ω lacking} {a : Alternative κ} {user second initial : Value κ} {world : World ω}

theorem reached_raisesNothing (hRuns : a.program.RunsPublicly host (.pair user (.bool flag)) world)
    (hBehaves : a.program.Entrusts host (.pair user (.bool flag)) world (Errand.Behaves host))
    (hLegible : a.program.Entrusts host (.pair user (.bool flag)) world (Errand.Legible host))
    {count : Nat} {m : Machine κ τ} {now : World ω}
    (hReaches : Reaches host count (Machine.start a.program (.pair user (.bool flag))) world m now) :
    (m.step host).RaisesNothing now := by
  have hSends : ∀ errand, m.Sends errand → errand.Behaves host now ∧ errand.Legible host now :=
    fun errand hSends' =>
      ⟨hBehaves count m now errand hReaches hSends', hLegible count m now errand hReaches hSends'⟩
  rcases hRuns.live_or_failing hReaches with hLive | ⟨_, _, hFailing⟩
  · exact hLive.step_raisesNothing hSends
  · exact hFailing.step_raisesNothing hSends

theorem run_returns (hRuns : a.program.RunsPublicly host (.pair user (.bool flag)) world)
    (hQuiet : ∀ count m now, Reaches host count
      (Machine.start a.program (.pair user (.bool flag))) world m now →
        (m.step host).RaisesNothing now) (fuel : Nat) :
    (∃ value last set after, a.program.run host fuel (.pair user (.bool flag)) world =
        .ok (value, .pair last (.bool set)) after ∧ value.IsResult) ∨
      ∃ after, a.program.run host fuel (.pair user (.bool flag)) world = .error .exhausted after := by
  cases hRan : a.program.run host fuel (.pair user (.bool flag)) world with
  | ok returned after =>
      obtain ⟨value, state⟩ := returned
      obtain ⟨hResult, last, rfl | ⟨rfl, _⟩⟩ := returned_cases hRuns hRan
      · exact .inl ⟨value, last, flag, after, rfl, hResult⟩
      · exact .inl ⟨value, last, true, after, rfl, hResult⟩
  | error halt after =>
      cases halt with
      | exhausted => exact .inr ⟨after, rfl⟩
      | raised exception =>
          rcases Exec.bind_eq_error.mp hRan with hDriven | ⟨_, _, _, hNoted⟩
          · obtain ⟨count, m, now, first, _, hReaches, hRaised, _⟩ := unwinds_of_drive hDriven
            exact absurd hRaised (hQuiet count m now hReaches first _)
          · rcases Exec.bind_eq_error.mp hNoted with hFailed | ⟨_, _, _, hFailed⟩ <;> cases hFailed

theorem runPair_of_run {host : Host κ τ ω lacking} {fuel : Nat}
    {value last : Value κ} {set : Bool} {after : World ω}
    (hUnpacks : initial.unpackPair = .ok (user, second))
    (hRan : a.program.run host fuel (.pair user (.bool second.isTrue)) world =
      .ok (value, .pair last (.bool set)) after) (hResult : value.IsResult) :
    a.runPair host fuel initial world = .ok (value, last, .bool set) after := by
  refine (Exec.bind_of_ok (Exec.demand_eq_ok.mpr ⟨hUnpacks, rfl⟩)).trans ?_
  refine (Exec.bind_of_ok hRan).trans ?_
  cases hResult <;> rfl

theorem runPair_of_error {host : Host κ τ ω lacking} {fuel : Nat} {halt : Halt κ}
    {after : World ω}
    (hUnpacks : initial.unpackPair = .ok (user, second))
    (hRan : a.program.run host fuel (.pair user (.bool second.isTrue)) world = .error halt after) :
    a.runPair host fuel initial world = .error halt after := by
  refine (Exec.bind_of_ok (Exec.demand_eq_ok.mpr ⟨hUnpacks, rfl⟩)).trans ?_
  exact Exec.bind_of_error hRan

theorem run_of_runPair {fuel : Nat} {value last : Value κ} {set : Bool} {after : World ω}
    (hShown : host.debug = true → Shown host value last (.bool set))
    (hRan : a.runPair host fuel (.pair user (.bool false)) world = .ok (value, last, .bool set) after) :
    ∃ final, a.run host fuel user world = .ok (.outcome value last (.bool set)) final := by
  unfold run
  rw [Exec.bind_of_ok hRan]
  cases hDebug : host.debug with
  | true =>
      obtain ⟨hResult, hUser, text, hText⟩ := hShown hDebug
      simp only [Host.shortRepr_of_had hResult, Host.shortRepr_of_had hUser, hText]
      exact ⟨_, rfl⟩
  | false => exact ⟨after, rfl⟩

/-- A public alternative whose callbacks are well-behaved, and for whose caught exceptions and noted failures
a text can be computed, raises nothing: no step of its run raises an exception, and a run that ends returns a
result with a state pair, whatever stood for the flag in the initial pair. -/
theorem typed_raises_nothing (hUnpacks : initial.unpackPair = .ok (user, second))
    (hRuns : a.program.RunsPublicly host (.pair user (.bool second.isTrue)) world)
    (hBehaves : a.program.Entrusts host (.pair user (.bool second.isTrue)) world (Errand.Behaves host))
    (hLegible : a.program.Entrusts host (.pair user (.bool second.isTrue)) world
      (Errand.Legible host)) :
    (∀ count m now, Reaches host count
      (Machine.start a.program (.pair user (.bool second.isTrue))) world m now →
        ∀ exception final, m.step host now ≠ .error (.raised exception) final) ∧
    (∀ fuel, (∀ after, a.runPair host fuel initial world ≠ .error .exhausted after) →
      ∃ result last set after, a.runPair host fuel initial world =
        .ok (result, last, .bool set) after ∧ result.IsResult) ∧
    (second.isTrue = false → ∀ fuel,
      (host.debug = true → ∀ result last aborted after,
        a.runPair host fuel (.pair user (.bool false)) world = .ok (result, last, aborted) after →
        Shown host result last aborted) →
      (∀ after, a.run host fuel user world ≠ .error .exhausted after) →
      ∃ result last set after, a.run host fuel user world =
        .ok (.outcome result last (.bool set)) after ∧ result.IsResult) := by
  have hQuiet : ∀ count m now, Reaches host count
      (Machine.start a.program (.pair user (.bool second.isTrue))) world m now →
        (m.step host).RaisesNothing now :=
    fun _ _ _ hReaches => reached_raisesNothing hRuns hBehaves hLegible hReaches
  refine ⟨hQuiet, fun fuel hEnds => ?_, fun hClear fuel hShown hEnds => ?_⟩
  · rcases run_returns hRuns hQuiet fuel with
      ⟨value, last, set, after, hRan, hResult⟩ | ⟨after, hRan⟩
    · exact ⟨value, last, set, after, runPair_of_run hUnpacks hRan hResult, hResult⟩
    · exact absurd (runPair_of_error hUnpacks hRan) (hEnds after)
  · have hPair' : (Value.pair user (.bool false)).unpackPair = .ok (user, .bool false) := rfl
    rw [hClear] at hRuns hQuiet
    rcases run_returns hRuns hQuiet fuel with
      ⟨value, last, set, after, hRan, hResult⟩ | ⟨after, hRan⟩
    · have hPair := runPair_of_run hPair' hRan hResult
      obtain ⟨final, hReported⟩ :=
        run_of_runPair (fun hDebug => hShown hDebug value last (.bool set) after hPair) hPair
      exact ⟨value, last, set, final, hReported, hResult⟩
    · exact absurd (Exec.bind_of_error (runPair_of_error hPair' hRan)) (hEnds after)

end Alternative

def Literal.ofAtoms : Value Unit → Literal Unit true
  | .list _ => .raises (.thrown .value [])
  | _ => .had

/-- A host whose body yields a success and then a guarded function, which raises an exception with the
argument. -/
def Host.trier (debug : Bool) (argument : Value Unit) (closing : Exec Unit Unit Unit) :
    Host Unit Bool Unit true where
  debug := debug
  call _ _ := Exec.raise (.thrown .value [argument])
  start _ _ := pure (.coroutine false)
  spawn _ _ := throw .exhausted
  resume
    | false, _ => pure (.yielded (Alternative.inject (.int 1)).toValue true)
    | true, _ => pure (.yielded (Alternative.attempt (.code none ()) [.value]).toValue true)
  close _ := closing
  literal := Literal.ofAtoms

section Trier

variable (debug : Bool) (argument : Value Unit) (closing : Exec Unit Unit Unit)

theorem Host.trier_offers {q : Program Unit} (hOffers : (Host.trier debug argument closing).Offers q) :
    q.Public := by
  cases hOffers with
  | call hCalled => cases hCalled
  | @resume t _ _ _ _ _ hResumed =>
      cases t with
      | false =>
          cases hResumed
          exact .result (.success _)
      | true =>
          cases hResumed
          exact .generator (.primitive (.attempt _ _))

namespace Errand

variable (world : World Unit)

theorem resumesWell_trier (t : Bool) (value : Value Unit) :
    ResumesWell (Host.trier debug argument closing) t value world := by
  cases t with
  | false | true =>
      refine ⟨.of_ok rfl, fun produced rest final hResumed => ?_⟩
      cases hResumed
      exact ⟨_, _, rfl⟩

theorem begin_behaves_trier (f : DoFunction Unit) (args : List (Value Unit)) :
    (begin f args : Errand Unit Bool).Behaves (Host.trier debug argument closing) world :=
  ⟨.of_ok rfl, fun t next _ => resumesWell_trier debug argument closing next t .null⟩

theorem attempt_behaves_trier :
    (attempt (.code none ()) [.value] : Errand Unit Bool).Behaves (Host.trier debug argument closing)
      world := by
  intro exception final hRaised
  cases hRaised
  rfl

theorem attempt_legible_trier {text : String} :
    (attempt (.code none ()) [.value] : Errand Unit Bool).Legible (Host.trier debug (.str text) closing)
      world := by
  intro exception final hRaised
  cases hRaised
  exact ⟨_, rfl⟩

end Errand

namespace Alternative

def trying : Alternative Unit := altOr (ofCall ⟨none, none, [], ()⟩ []) (inject (.int 7))

theorem trying_runsPublicly (user : Value Unit) (flag : Bool) (world : World Unit) :
    trying.program.RunsPublicly (Host.trier debug argument closing) (.pair user (.bool flag)) world := by
  have hPublic : trying.Public := .altOr (.ofCall _ []) (.inject _)
  exact hPublic.program_public.runsPublicly (fun _ => Host.trier_offers debug argument closing) user flag
    world

end Alternative

end Trier

namespace Alternative

theorem trying_sends {debug : Bool} {count : Nat} {user : Value Unit} {m : Machine Unit Bool}
    {now : World Unit}
    (hReaches : Machine.Reaches (Host.trier debug (.str "no") (pure ())) count
      (Machine.start trying.program (.pair user (.bool false))) ⟨(), #[], 0⟩ m now) :
    ∀ errand, m.Sends errand → errand.Behaves (Host.trier debug (.str "no") (pure ())) now ∧
      errand.Legible (Host.trier debug (.str "no") (pure ())) now := by
  have hAlong : Machine.Along (Host.trier debug (.str "no") (pure ()))
      (fun m now => ∀ errand, m.Sends errand →
        errand.Behaves (Host.trier debug (.str "no") (pure ())) now ∧
          errand.Legible (Host.trier debug (.str "no") (pure ())) now) 30
      (Machine.start trying.program (.pair user (.bool false))) ⟨(), #[], 0⟩ := by
    cases debug
    all_goals
      repeat' apply And.intro
    all_goals first
      | trivial
      | (intro errand hSends; cases hSends)
    all_goals first
      | exact ⟨Errand.begin_behaves_trier _ _ _ _ _ _, trivial⟩
      | exact ⟨Errand.resumesWell_trier _ _ _ _ _ _, trivial⟩
      | exact ⟨Errand.attempt_behaves_trier _ _ _ _, Errand.attempt_legible_trier _ _ _⟩
      | exact ⟨.of_ok rfl, trivial⟩
      | exact ⟨trivial, fun _ => rfl⟩
  exact hAlong.of_reaches hReaches

/-- The body's second alternative fails, the body is closed, the failure noted and the second operand run;
the pair is given as a list of two items. -/
theorem typed_raises_nothing_of_trying :
    (∃ last set after, trying.runPair (Host.trier true (.str "no") (pure ())) 40
      (.list [.int 5, .int 0]) ⟨(), #[], 0⟩ = .ok (.ok (.int 7), last, .bool set) after) ∧
    ∃ last set after, trying.run (Host.trier true (.str "no") (pure ())) 40 (.int 5) ⟨(), #[], 0⟩ =
      .ok (.outcome (.ok (.int 7)) last (.bool set)) after := by
  have hRuns := trying_runsPublicly true (.str "no") (pure ()) (.int 5) false ⟨(), #[], 0⟩
  have hUnpacks : (Value.list [.int 5, .int 0]).unpackPair =
      .ok (.int 5, (.int 0 : Value Unit)) := rfl
  obtain ⟨ended, hPair⟩ : ∃ ended, trying.runPair (Host.trier true (.str "no") (pure ())) 40
      (.list [.int 5, .int 0]) ⟨(), #[], 0⟩ = .ok (.ok (.int 7), .int 5, .bool false) ended := ⟨_, rfl⟩
  obtain ⟨reported, hRun⟩ : ∃ reported, trying.run (Host.trier true (.str "no") (pure ())) 40 (.int 5)
      ⟨(), #[], 0⟩ = .ok (.outcome (.ok (.int 7)) (.int 5) (.bool false)) reported := ⟨_, rfl⟩
  have hShown : ∀ result last aborted after,
      trying.runPair (Host.trier true (.str "no") (pure ())) 40 (.pair (.int 5) (.bool false))
        ⟨(), #[], 0⟩ = .ok (result, last, aborted) after →
          Shown (Host.trier true (.str "no") (pure ())) result last aborted := by
    intro result last aborted after hReturned
    cases (show _ = EStateM.Result.ok _ ended from hPair).symm.trans hReturned
    exact ⟨rfl, rfl, _, rfl⟩
  obtain ⟨_, hReturns, hReports⟩ := typed_raises_nothing hUnpacks hRuns
    (fun _ _ _ errand hReaches hSends => (trying_sends hReaches errand hSends).1)
    fun _ _ _ errand hReaches hSends => (trying_sends hReaches errand hSends).2
  obtain ⟨result, last, set, after, hReturned, _⟩ := hReturns 40 fun after hExhausted => by
    rw [hPair] at hExhausted
    cases hExhausted
  obtain ⟨answer, final, flag, left, hReported, _⟩ :=
    hReports rfl 40 (fun _ => hShown) fun after hExhausted => by
      rw [hRun] at hExhausted
      cases hExhausted
  cases hPair.symm.trans hReturned
  cases hRun.symm.trans hReported
  exact ⟨⟨_, _, _, hReturned⟩, _, _, _, hReported⟩

def unprintable : Value Unit := .outcome (.int 5) (.int 0) (.bool false)

theorem trying_behaves_unprintable {count : Nat} {m : Machine Unit Bool} {now : World Unit}
    {errand : Errand Unit Bool}
    (hReaches : Machine.Reaches (Host.trier false unprintable (pure ())) count
      (Machine.start trying.program (.pair (.int 5) (.bool false))) ⟨(), #[], 0⟩ m now)
    (hSends : m.Sends errand) : errand.Behaves (Host.trier false unprintable (pure ())) now := by
  have hAlong : Machine.Along (Host.trier false unprintable (pure ()))
      (fun m now => ∀ errand, m.Sends errand →
        errand.Behaves (Host.trier false unprintable (pure ())) now) 30
      (Machine.start trying.program (.pair (.int 5) (.bool false))) ⟨(), #[], 0⟩ := by
    repeat' apply And.intro
    all_goals first
      | trivial
      | (intro errand hSends; cases hSends)
    · exact Errand.begin_behaves_trier _ _ _ _ _ _
    · exact Errand.resumesWell_trier _ _ _ _ _ _
    · exact Errand.attempt_behaves_trier _ _ _ _
  exact hAlong.of_reaches hReaches errand hSends

def ignoring : Exec Unit Unit Unit :=
  Exec.raise (.thrown .runtime [.str "generator ignored GeneratorExit"])

theorem trying_behaves_ignoring {count : Nat} {m : Machine Unit Bool} {now : World Unit}
    {errand : Errand Unit Bool}
    (hReaches : Machine.Reaches (Host.trier false (.str "no") ignoring) count
      (Machine.start trying.program (.pair (.int 5) (.bool false))) ⟨(), #[], 0⟩ m now)
    (hSends : m.Sends errand) (hOther : ∀ t, errand ≠ .close t) :
    errand.Behaves (Host.trier false (.str "no") ignoring) now := by
  have hAlong : Machine.Along (Host.trier false (.str "no") ignoring)
      (fun m now => ∀ errand, m.Sends errand → (∀ t, errand ≠ .close t) →
        errand.Behaves (Host.trier false (.str "no") ignoring) now) 30
      (Machine.start trying.program (.pair (.int 5) (.bool false))) ⟨(), #[], 0⟩ := by
    repeat' apply And.intro
    all_goals first
      | trivial
      | (intro errand hSends hOther; cases hSends)
    · exact Errand.begin_behaves_trier _ _ _ _ _ _
    · exact Errand.resumesWell_trier _ _ _ _ _ _
    · exact Errand.attempt_behaves_trier _ _ _ _
    · exact absurd rfl (hOther _)
  exact hAlong.of_reaches hReaches errand hSends hOther

/-- The callbacks are well-behaved, but an exception that is caught has no text, a body cannot be closed, or
the user state that is noted has no literal form. -/
theorem trying_raises :
    (trying.program.RunsPublicly (Host.trier false unprintable (pure ())) (.pair (.int 5) (.bool false))
        ⟨(), #[], 0⟩ ∧
      trying.program.Entrusts (Host.trier false unprintable (pure ())) (.pair (.int 5) (.bool false))
        ⟨(), #[], 0⟩ (Errand.Behaves (Host.trier false unprintable (pure ()))) ∧
      trying.runPair (Host.trier false unprintable (pure ())) 20 (.pair (.int 5) (.bool false))
          ⟨(), #[], 0⟩ =
        .error (.raised (.fault (.absentAttribute "int" "error"))) ⟨(), #[], 0⟩) ∧
    (trying.program.RunsPublicly (Host.trier false (.str "no") ignoring) (.pair (.int 5) (.bool false))
        ⟨(), #[], 0⟩ ∧
      trying.program.Entrusts (Host.trier false (.str "no") ignoring) (.pair (.int 5) (.bool false))
        ⟨(), #[], 0⟩ (fun now errand => (∀ t, errand ≠ .close t) →
          errand.Behaves (Host.trier false (.str "no") ignoring) now) ∧
      trying.runPair (Host.trier false (.str "no") ignoring) 20 (.pair (.int 5) (.bool false))
          ⟨(), #[], 0⟩ =
        .error (.raised (.thrown .runtime [.str "generator ignored GeneratorExit"])) ⟨(), #[], 0⟩) ∧
    trying.program.RunsPublicly (Host.trier true (.str "no") (pure ())) (.pair (.list []) (.bool false))
        ⟨(), #[], 0⟩ ∧
      trying.program.Entrusts (Host.trier true (.str "no") (pure ())) (.pair (.list []) (.bool false))
        ⟨(), #[], 0⟩ (Errand.Behaves (Host.trier true (.str "no") (pure ()))) ∧
      ∃ after, trying.run (Host.trier true (.str "no") (pure ())) 40 (.list []) ⟨(), #[], 0⟩ =
        .error (.raised (.thrown .value [])) after := by
  refine ⟨⟨?_, ?_, rfl⟩, ⟨?_, ?_, rfl⟩, ?_, ?_, ⟨_, rfl⟩⟩
  · exact trying_runsPublicly false unprintable (pure ()) (.int 5) false ⟨(), #[], 0⟩
  · exact fun _ _ _ _ hReaches hSends => trying_behaves_unprintable hReaches hSends
  · exact trying_runsPublicly false (.str "no") ignoring (.int 5) false ⟨(), #[], 0⟩
  · exact fun _ _ _ _ hReaches hSends => trying_behaves_ignoring hReaches hSends
  · exact trying_runsPublicly true (.str "no") (pure ()) (.list []) false ⟨(), #[], 0⟩
  · exact fun _ _ _ errand hReaches hSends => (trying_sends hReaches errand hSends).1

end Alternative

end Backtrack
