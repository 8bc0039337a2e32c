import Backtrack.Proofs.Correspondence
import Backtrack.Proofs.Yields

/-! What a run does with the coroutines of its host. A host can keep a record of it, which changes nothing
else. The coroutines that a run has started and not ended form a stack: a new one is put on top, and only
the one on top is resumed or closed. -/

namespace Backtrack

variable {κ τ ω α β : Type} {lacking : Bool}

inductive Handling (κ τ ω : Type) where
  | started (t : τ)
  /-- it was resumed with the value in the world, and is suspended again as `left` or has ended -/
  | resumed (t : τ) (sent : Value κ) (world : World ω) (left : Option τ)
  | closed (t : τ)
  /-- closing it raised an exception -/
  | broken (t : τ)

/-- The world of a host that keeps a record. -/
abbrev RecordWorld (κ τ ω : Type) : Type := World (ω × List (Handling κ τ ω))

namespace World

def recorded (world : World ω) (record : List (Handling κ τ ω)) : RecordWorld κ τ ω :=
  ⟨(world.host, record), world.journal, world.nextMark⟩

def unrecorded (world : RecordWorld κ τ ω) : World ω :=
  ⟨world.host.1, world.journal, world.nextMark⟩

def record (world : RecordWorld κ τ ω) : List (Handling κ τ ω) := world.host.2

@[simp] theorem unrecorded_recorded (world : World ω) (record : List (Handling κ τ ω)) :
    (world.recorded record).unrecorded = world := rfl

@[simp] theorem record_recorded (world : World ω) (record : List (Handling κ τ ω)) :
    (world.recorded record).record = record := rfl

end World

def Exec.entering (x : Exec κ ω α) (entries : Except (Halt κ) α → List (Handling κ τ ω)) :
    Exec κ (ω × List (Handling κ τ ω)) α := fun world =>
  match x (World.unrecorded world) with
  | .ok a after => .ok a (after.recorded (World.record world ++ entries (.ok a)))
  | .error halt after =>
      .error halt (after.recorded (World.record world ++ entries (.error halt)))

namespace Host

def startEntries : Except (Halt κ) (Started κ τ) → List (Handling κ τ ω)
  | .ok (.coroutine t) => [.started t]
  | _ => []

def spawnEntries : Except (Halt κ) τ → List (Handling κ τ ω)
  | .ok t => [.started t]
  | .error _ => []

def resumeEntries (t : τ) (sent : Value κ) (world : World ω) :
    Except (Halt κ) (Step κ τ) → List (Handling κ τ ω)
  | .ok (.yielded _ rest) => [.resumed t sent world (some rest)]
  | .ok (.returned _) => [.resumed t sent world none]
  | .error (.raised _) => [.resumed t sent world none]
  | .error .exhausted => []

def closeEntries (t : τ) : Except (Halt κ) Unit → List (Handling κ τ ω)
  | .ok _ => [.closed t]
  | .error (.raised _) => [.broken t]
  | .error .exhausted => []

/-- The host, keeping a record of what is done with its coroutines. -/
def recording (host : Host κ τ ω lacking) : Host κ τ (ω × List (Handling κ τ ω)) lacking where
  debug := host.debug
  call k args := (host.call k args).entering fun _ => []
  start k args := (host.start k args).entering startEntries
  spawn k args := (host.spawn k args).entering spawnEntries
  resume t sent world :=
    (host.resume t sent).entering (resumeEntries t sent (World.unrecorded world)) world
  close t := (host.close t).entering (closeEntries t)
  literal := host.literal
  logged := host.logged

end Host

def World.Records (record : List (Handling κ τ ω)) (world : RecordWorld κ τ ω) (other : World ω) :
    Prop :=
  world.unrecorded = other ∧ world.record = record

theorem World.records_corresponding (record : List (Handling κ τ ω)) :
    World.Corresponding (World.Records record) where
  noted := by
    rintro first _ ⟨rfl, hSame⟩ entry
    exact ⟨rfl, hSame⟩
  sameMark := by
    rintro first _ ⟨rfl, _⟩
    rfl
  gaveOut := by
    rintro first _ ⟨rfl, hSame⟩
    exact ⟨rfl, hSame⟩

theorem Exec.entering_eq_ok {x : Exec κ ω α} {entries : Except (Halt κ) α → List (Handling κ τ ω)}
    {world final : RecordWorld κ τ ω} {a : α} :
    x.entering entries world = .ok a final ↔ ∃ after, x world.unrecorded = .ok a after ∧
      final = after.recorded (world.record ++ entries (.ok a)) := by
  unfold entering
  cases hEnded : x world.unrecorded with
  | ok b after =>
      constructor
      · intro hSame
        cases hSame
        exact ⟨after, rfl, rfl⟩
      · intro hGiven
        obtain ⟨_, ⟨⟩, rfl⟩ := hGiven
        rfl
  | error halt after =>
      constructor
      · intro hSame
        cases hSame
      · intro hGiven
        obtain ⟨_, ⟨⟩, _⟩ := hGiven

theorem Exec.entering_eq_error {x : Exec κ ω α}
    {entries : Except (Halt κ) α → List (Handling κ τ ω)} {world final : RecordWorld κ τ ω}
    {halt : Halt κ} :
    x.entering entries world = .error halt final ↔ ∃ after, x world.unrecorded = .error halt after ∧
      final = after.recorded (world.record ++ entries (.error halt)) := by
  unfold entering
  cases hEnded : x world.unrecorded with
  | ok b after =>
      constructor
      · intro hSame
        cases hSame
      · intro hGiven
        obtain ⟨_, ⟨⟩, _⟩ := hGiven
  | error other after =>
      constructor
      · intro hSame
        cases hSame
        exact ⟨after, rfl, rfl⟩
      · intro hGiven
        obtain ⟨_, ⟨⟩, rfl⟩ := hGiven
        rfl

theorem Exec.entering_nothing_records (x : Exec κ ω α) (record : List (Handling κ τ ω)) :
    Exec.Corresponds (World.Records record) (x.entering fun _ => []) x := by
  rintro first _ ⟨rfl, hSame⟩
  unfold entering
  cases hEnded : x first.unrecorded with
  | ok a after => exact .ok ⟨rfl, by simp [hSame]⟩
  | error halt after => exact .error ⟨rfl, by simp [hSame]⟩

/-- The coroutines that are live, the innermost first, before and after what is recorded. Each entry is
about the innermost one, and says what the host did with it. -/
inductive Handles (host : Host κ τ ω lacking) :
    List τ → List (Handling κ τ ω) → List τ → Prop where
  | nothing {live} : Handles host live [] live
  | started {code args world t after live entries last} :
      host.start code args world = .ok (.coroutine t) after →
      Handles host (t :: live) entries last → Handles host live (.started t :: entries) last
  | spawned {code args world t after live entries last} :
      host.spawn code args world = .ok t after →
      Handles host (t :: live) entries last → Handles host live (.started t :: entries) last
  | resumed {t sent world value rest after live entries last} :
      host.resume t sent world = .ok (.yielded value rest) after →
      Handles host (rest :: live) entries last →
      Handles host (t :: live) (.resumed t sent world (some rest) :: entries) last
  | returned {t sent world value after live entries last} :
      host.resume t sent world = .ok (.returned value) after →
      Handles host live entries last →
      Handles host (t :: live) (.resumed t sent world none :: entries) last
  | raised {t sent world exception after live entries last} :
      host.resume t sent world = .error (.raised exception) after →
      Handles host live entries last →
      Handles host (t :: live) (.resumed t sent world none :: entries) last
  | closed {t world after live entries last} :
      host.close t world = .ok () after → Handles host live entries last →
      Handles host (t :: live) (.closed t :: entries) last

theorem Handles.append {host : Host κ τ ω lacking} {live middle last : List τ}
    {first second : List (Handling κ τ ω)} (hHandles : Handles host live first middle)
    (hOnward : Handles host middle second last) : Handles host live (first ++ second) last := by
  induction hHandles with
  | nothing => exact hOnward
  | started hStarted _ ih => exact .started hStarted (ih hOnward)
  | spawned hSpawned _ ih => exact .spawned hSpawned (ih hOnward)
  | resumed hResumed _ ih => exact .resumed hResumed (ih hOnward)
  | returned hResumed _ ih => exact .returned hResumed (ih hOnward)
  | raised hResumed _ ih => exact .raised hResumed (ih hOnward)
  | closed hClosed _ ih => exact .closed hClosed (ih hOnward)

def Step.left : Step κ τ → List τ
  | yielded _ t => [t]
  | returned _ => []

def Started.left : Started κ τ → List τ
  | coroutine t => [t]
  | value _ => []

/-- A computation finds the coroutines live, and leaves live those of its value or, if it raises an
exception, the others; unless closing one of them raised one. -/
def Keeps (host : Host κ τ ω lacking) (live : List τ) (x : Exec κ (ω × List (Handling κ τ ω)) α)
    (after : α → List τ) (raising : List τ) : Prop :=
  ∀ world : RecordWorld κ τ ω,
    (∀ a final, x world = .ok a final → ∃ entries,
      World.record final = world.record ++ entries ∧ Handles host live entries (after a)) ∧
    ∀ exception final, x world = .error (.raised exception) final → ∃ entries,
      World.record final = world.record ++ entries ∧
        ((∃ t, .broken t ∈ entries) ∨ Handles host live entries raising)

namespace Keeps

variable {host : Host κ τ ω lacking} {live raising last : List τ} {after : α → List τ}

theorem pure {a : α} (hSame : live = after a) : Keeps host live (pure a) after raising := by
  subst hSame
  intro world
  constructor
  · intro b final hReturned
    cases hReturned
    exact ⟨[], by simp, .nothing⟩
  · intro exception final hRaised
    cases hRaised

theorem raise (exception : Raised κ) : Keeps host live (Exec.raise exception) after live := by
  intro world
  constructor
  · intro b final hReturned
    cases hReturned
  · intro exception final hRaised
    cases hRaised
    exact ⟨[], by simp, .inr .nothing⟩

theorem exhausted : Keeps host live (throw .exhausted) after raising := by
  intro world
  constructor
  · intro b final hReturned
    cases hReturned
  · intro exception final hRaised
    cases hRaised

theorem bind {x : Exec κ (ω × List (Handling κ τ ω)) α}
    {f : α → Exec κ (ω × List (Handling κ τ ω)) β} {ends : β → List τ}
    (hFirst : Keeps host live x after raising)
    (hSecond : ∀ a, Keeps host (after a) (f a) ends raising) :
    Keeps host live (x >>= f) ends raising := by
  intro world
  constructor
  · intro b final hReturned
    obtain ⟨a, middle, hEnded, hContinued⟩ := Exec.bind_eq_ok.mp hReturned
    obtain ⟨entries, hRecorded, hHandles⟩ := (hFirst world).1 a middle hEnded
    obtain ⟨others, hMore, hOnward⟩ := (hSecond a middle).1 b final hContinued
    exact ⟨entries ++ others, by rw [hMore, hRecorded, List.append_assoc], hHandles.append hOnward⟩
  · intro exception final hRaised
    obtain hEnded | ⟨a, middle, hEnded, hContinued⟩ := Exec.bind_eq_error.mp hRaised
    · exact (hFirst world).2 exception final hEnded
    · obtain ⟨entries, hRecorded, hHandles⟩ := (hFirst world).1 a middle hEnded
      obtain ⟨others, hMore, ⟨t, hListed⟩ | hOnward⟩ := (hSecond a middle).2 exception final hContinued
      · exact ⟨entries ++ others, by rw [hMore, hRecorded, List.append_assoc],
          .inl ⟨t, List.mem_append_right entries hListed⟩⟩
      · exact ⟨entries ++ others, by rw [hMore, hRecorded, List.append_assoc],
          .inr (hHandles.append hOnward)⟩

theorem of_eq {x : Exec κ (ω × List (Handling κ τ ω)) α} {ends : α → List τ}
    (hKeeps : Keeps host live x after raising)
    (hSame : ∀ world a final, x world = .ok a final → after a = ends a) :
    Keeps host live x ends raising := by
  intro world
  constructor
  · intro a final hReturned
    obtain ⟨entries, hRecorded, hHandles⟩ := (hKeeps world).1 a final hReturned
    rw [hSame world a final hReturned] at hHandles
    exact ⟨entries, hRecorded, hHandles⟩
  · exact (hKeeps world).2

theorem map (f : α → β) {x : Exec κ (ω × List (Handling κ τ ω)) α} {ends : β → List τ}
    (hKeeps : Keeps host live x (fun a => ends (f a)) raising) :
    Keeps host live (f <$> x) ends raising := by
  rw [map_eq_pure_bind]
  exact hKeeps.bind fun a => Keeps.pure rfl

theorem tryCatch_reraise {x : Exec κ (ω × List (Handling κ τ ω)) α}
    {cleanup : Exec κ (ω × List (Handling κ τ ω)) Unit} (hFirst : Keeps host live x after raising)
    (hCleaned : Keeps host raising cleanup (fun _ => last) last) :
    Keeps host live (tryCatch x fun
      | .raised exception => do
          cleanup
          Exec.raise exception
      | .exhausted => throw .exhausted) after last := by
  intro world
  cases hEnded : x world with
  | ok a middle =>
      rw [Exec.tryCatch_of_ok hEnded]
      constructor
      · intro b final hReturned
        cases hReturned
        exact (hFirst world).1 a middle hEnded
      · intro exception final hRaised
        cases hRaised
  | error halt middle =>
      rw [Exec.tryCatch_of_error hEnded]
      cases halt with
      | exhausted =>
          constructor
          · intro b final hReturned
            cases hReturned
          · intro exception final hRaised
            cases hRaised
      | raised exception =>
          obtain ⟨entries, hRecorded, hGiven⟩ := (hFirst world).2 exception middle hEnded
          have hReraised : Keeps host raising (cleanup >>= fun _ => Exec.raise exception) after last :=
            hCleaned.bind fun _ => Keeps.raise exception
          constructor
          · intro b final hReturned
            obtain ⟨_, _, _, hFailed⟩ := Exec.bind_eq_ok.mp hReturned
            cases hFailed
          · intro other final hRaised
            obtain ⟨others, hMore, hOnward⟩ := (hReraised middle).2 other final hRaised
            refine ⟨entries ++ others, by rw [hMore, hRecorded, List.append_assoc], ?_⟩
            rcases hGiven with ⟨t, hListed⟩ | hHandles
            · exact .inl ⟨t, List.mem_append_left others hListed⟩
            · rcases hOnward with ⟨t, hListed⟩ | hOnward
              · exact .inl ⟨t, List.mem_append_right entries hListed⟩
              · exact .inr (hHandles.append hOnward)

theorem sealed {x : Exec κ (ω × List (Handling κ τ ω)) α} (hKeeps : Keeps host live x after raising) :
    Keeps host live x.sealed after raising := by
  intro world
  constructor
  · exact fun a final hReturned => (hKeeps world).1 a final (Exec.sealed_eq_ok.mp hReturned)
  · intro exception final hRaised
    obtain ⟨inner, hInner, _⟩ := Exec.sealed_eq_raised.mp hRaised
    exact (hKeeps world).2 inner final hInner

theorem of_records {x : Exec κ (ω × List (Handling κ τ ω)) α} {y : Exec κ ω α}
    (hSame : ∀ record, Exec.Corresponds (World.Records record) x y) :
    Keeps host live x (fun _ => live) live := by
  intro world
  have hMatched := hSame world.record world world.unrecorded ⟨rfl, rfl⟩
  constructor
  · intro a final hReturned
    rw [hReturned] at hMatched
    obtain ⟨_, _, _, hKept⟩ := hMatched.of_ok
    exact ⟨[], by simp [hKept], .nothing⟩
  · intro exception final hRaised
    rw [hRaised] at hMatched
    obtain ⟨_, _, _, hKept⟩ := hMatched.of_error
    exact ⟨[], by simp [hKept], .inr .nothing⟩

theorem start (host : Host κ τ ω lacking) (code : κ) (args : List (Value κ)) (live : List τ) :
    Keeps host live (host.recording.start code args)
      (fun started => started.left ++ live) live := by
  intro world
  constructor
  · intro started final hReturned
    obtain ⟨after, hBegan, rfl⟩ := Exec.entering_eq_ok.mp hReturned
    refine ⟨_, rfl, ?_⟩
    cases started with
    | value value => exact .nothing
    | coroutine t => exact .started hBegan .nothing
  · intro exception final hRaised
    obtain ⟨after, _, rfl⟩ := Exec.entering_eq_error.mp hRaised
    exact ⟨_, rfl, .inr .nothing⟩

theorem spawn (host : Host κ τ ω lacking) (code : κ) (args : List (Value κ)) (live : List τ) :
    Keeps host live (host.recording.spawn code args) (fun t => t :: live) live := by
  intro world
  constructor
  · intro t final hReturned
    obtain ⟨after, hSpawned, rfl⟩ := Exec.entering_eq_ok.mp hReturned
    exact ⟨_, rfl, .spawned hSpawned .nothing⟩
  · intro exception final hRaised
    obtain ⟨after, _, rfl⟩ := Exec.entering_eq_error.mp hRaised
    exact ⟨_, rfl, .inr .nothing⟩

theorem resume (host : Host κ τ ω lacking) (t : τ) (sent : Value κ) (live : List τ) :
    Keeps host (t :: live) (host.recording.resume t sent)
      (fun step => step.left ++ live) live := by
  intro world
  constructor
  · intro step final hReturned
    obtain ⟨after, hCame, rfl⟩ := Exec.entering_eq_ok.mp hReturned
    refine ⟨_, rfl, ?_⟩
    cases step with
    | yielded value rest => exact .resumed hCame .nothing
    | returned value => exact .returned hCame .nothing
  · intro exception final hRaised
    obtain ⟨after, hCame, rfl⟩ := Exec.entering_eq_error.mp hRaised
    exact ⟨_, rfl, .inr (.raised hCame .nothing)⟩

theorem close (host : Host κ τ ω lacking) (t : τ) (live : List τ) :
    Keeps host (t :: live) (host.recording.close t) (fun _ => live) raising := by
  intro world
  constructor
  · intro _ final hReturned
    obtain ⟨after, hClosed, rfl⟩ := Exec.entering_eq_ok.mp hReturned
    exact ⟨_, rfl, .closed hClosed .nothing⟩
  · intro exception final hRaised
    obtain ⟨after, _, rfl⟩ := Exec.entering_eq_error.mp hRaised
    exact ⟨_, rfl, .inl ⟨t, List.mem_singleton_self _⟩⟩

end Keeps

def Host.muted (host : Host κ τ ω lacking) : Host κ τ ω lacking where
  debug := host.debug
  call := host.call
  start _ _ := throw .exhausted
  spawn _ _ := throw .exhausted
  resume _ _ := throw .exhausted
  close _ := throw .exhausted
  literal := host.literal
  logged := host.logged

theorem Host.muted_corresponds (host : Host κ τ ω lacking) (record : List (Handling κ τ ω)) :
    host.recording.muted.Corresponds (World.Records record) host.muted where
  debug := rfl
  call k args := Exec.entering_nothing_records (host.call k args) record
  start _ _ := Exec.corresponds_throw .exhausted
  spawn _ _ := Exec.corresponds_throw .exhausted
  resume _ _ := Exec.corresponds_throw .exhausted
  close _ := Exec.corresponds_throw .exhausted
  literal _ _ := rfl
  logged _ _ := rfl

theorem Host.applyMapper_muted (host : Host κ τ ω lacking) (f : Mapper κ) (value : Value κ) :
    host.muted.applyMapper f value = host.applyMapper f value := by
  cases f with
  | updateUser f =>
      unfold applyMapper
      simp only [applyMapper_muted host f]
  | _ => rfl

namespace Frame

/-- The coroutine that a suspended generator keeps, if it keeps one. -/
def coroutines : Frame κ τ → List τ
  | task t => [t]
  | body _ t => [t]
  | _ => []

end Frame

def Step.coroutines : Step κ (Frame κ τ) → List τ
  | returned _ => []
  | yielded _ rest => rest.coroutines

namespace Frame

variable {host : Host κ τ ω lacking} {step : Step κ (Frame κ τ)} {value sent : Value κ}
  {world final : World ω}

/-- The generators that neither keep a coroutine nor are about to start one. -/
def Idle : Frame κ τ → Prop
  | fresh (.body _ _) | fresh (.task _ _) | task _ | body _ _ => False
  | _ => True

theorem Idle.resume_muted {frame : Frame κ τ} (hIdle : frame.Idle) (host : Host κ τ ω lacking)
    (sent : Value κ) : frame.resume host sent = frame.resume host.muted sent := by
  cases frame with
  | task t | body name t => exact hIdle.elim
  | fresh r =>
      cases r with
      | body f args | task code args => exact hIdle.elim
      | _ => cases sent <;> rfl
  | mapped f =>
      change (host.applyMapper f sent).sealed >>= finish =
        (host.muted.applyMapper f sent).sealed >>= finish
      rw [Host.applyMapper_muted]
  | bound f =>
      change onSuccess sent (fun value => (host.applyMapper f value).sealed >>= _) =
        onSuccess sent fun value => (host.muted.applyMapper f value).sealed >>= _
      simp only [Host.applyMapper_muted]
  | _ => rfl

theorem Idle.resume_coroutines {frame : Frame κ τ} (hIdle : frame.Idle)
    (hResumed : frame.resume host sent world = .ok step final) : step.coroutines = [] := by
  cases step with
  | returned value => rfl
  | yielded value rest =>
      cases yields_of_resume hResumed with
      | begun | started | task | body => exact hIdle.elim
      | _ => rfl

end Frame

end Backtrack
