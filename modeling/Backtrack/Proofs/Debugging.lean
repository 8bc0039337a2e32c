import Backtrack.Proofs.Soundness
import Backtrack.Proofs.Trials
import Backtrack.Proofs.Wrapping

/-! Debugging does not interfere. With debugging on, alternations and runs take notes. A run that takes them
does the same, step by step, as one that does not, and so do the runs nested in it, as long as there is a text
of all that the notes show. -/

namespace Backtrack

variable {κ τ ω α : Type} {lacking : Bool} {root : Prop}

def Note.countsSteps : Note → Bool
  | .programFinished _ => true
  | _ => false

namespace World

structure SameButNotes (first second : World ω) : Prop where
  alike : first.Alike second
  counts : first.journal.toList.filter Note.countsSteps = second.journal.toList.filter Note.countsSteps

@[refl] theorem SameButNotes.refl (world : World ω) : world.SameButNotes world :=
  ⟨⟨rfl, rfl⟩, rfl⟩

theorem sameButNotes_corresponding : Corresponding (SameButNotes (ω := ω)) where
  noted first second hSame entry := ⟨hSame.alike, by simp [noted, hSame.counts]⟩
  sameMark _ _ hSame := hSame.alike.2
  gaveOut _ _ hSame := ⟨⟨hSame.alike.1, congrArg (· + 1) hSame.alike.2⟩, hSame.counts⟩

theorem SameButNotes.noted {first second : World ω} (hSame : first.SameButNotes second) {entry : Note}
    (hUncounted : entry.countsSteps = false) : (first.noted entry).SameButNotes second :=
  ⟨hSame.alike, by simp [World.noted, hUncounted, hSame.counts]⟩

end World

/-- The host's code as it is, under a library that takes no notes. -/
def Host.quietly (host : Host κ τ ω lacking) : Host κ τ ω lacking := { host with debug := false }

section Quietly

variable (host : Host κ τ ω lacking)

@[simp] theorem Host.invoke_quietly (f : Callable κ) (args : List (Value κ)) :
    host.quietly.invoke f args = host.invoke f args := by
  cases f <;> rfl

@[simp] theorem Host.applyMapper_quietly (f : Mapper κ) (value : Value κ) :
    host.quietly.applyMapper f value = host.applyMapper f value := by
  -- Only updating the user state applies another mapper.
  cases f with
  | updateUser f =>
      apply bind_congr
      intro user
      rw [applyMapper_quietly f user]
  | call f | attempt f | injectAfter f => simp [applyMapper]
  | mapOver computation => cases value <;> rfl
  | _ => rfl

namespace Frame

@[simp] theorem traverseNext_quietly (f : Callable κ) (collected items : List (Value κ)) :
    traverseNext host.quietly f collected items = traverseNext host f collected items := by
  cases items with
  | nil => rfl
  | cons item rest => simp [traverseNext]

@[simp] theorem begin_quietly (r : Recipe κ) : begin host.quietly r = begin host r := by
  cases r with
  | traverse items f => simp [begin]
  | _ => rfl

/-- Whether notes are taken matters to an alternation that reads the flag, and to no other generator. -/
theorem resume_quietly (frame : Frame κ τ) (sent : Value κ)
    (hPlain : ∀ second snapshot left, frame ≠ .altFlag second snapshot left) :
    frame.resume host.quietly sent = frame.resume host sent := by
  cases frame with
  | fresh r =>
      cases sent with
      | null => simp [resume]
      | _ => rfl
  | mapped | flatMapped | bound | traversed => simp [resume]
  | altFlag second snapshot left => exact absurd rfl (hPlain second snapshot left)
  | _ => rfl

@[simp] theorem close_quietly (frame : Frame κ τ) : frame.close host.quietly = frame.close host := by
  cases frame <;> rfl

end Frame

@[simp] theorem Machine.take_quietly (p : Program κ) (m : Machine κ τ) :
    m.take host.quietly p = m.take host p := by
  cases p with
  | modify f => simp [take]
  | _ => rfl

@[simp] theorem Machine.closeAll_quietly (frames : List (Frame κ τ)) :
    closeAll host.quietly frames = closeAll host frames := by
  induction frames with
  | nil => rfl
  | cons frame rest ih => simp [closeAll, ih]

end Quietly

/-- The first result is the second, but for a note that was taken at most. -/
inductive Exec.AddsNote : EStateM.Result (Halt κ) (World ω) α → EStateM.Result (Halt κ) (World ω) α →
    Prop where
  | same (result : EStateM.Result (Halt κ) (World ω) α) : AddsNote result result
  | noted {a : α} {world : World ω} {entry : Note} : entry.countsSteps = false →
      AddsNote (.ok a (world.noted entry)) (.ok a world)

theorem Exec.AddsNote.matches {result quiet answer : EStateM.Result (Halt κ) (World ω) α}
    (hAdds : AddsNote result quiet) (hMatched : Exec.Matches World.SameButNotes quiet answer) :
    Exec.Matches World.SameButNotes result answer := by
  cases hAdds with
  | same => exact hMatched
  | noted hUncounted =>
      obtain ⟨last, rfl, hRelated⟩ := hMatched.of_ok
      exact .ok (hRelated.noted hUncounted)

namespace Machine

variable {host : Host κ τ ω lacking} {m : Machine κ τ} {world : World ω}

theorem addsNote_of_noting {entry : String → Note} {failure : Value κ} {a : α}
    (hUncounted : ∀ text, (entry text).countsSteps = false) :
    Exec.AddsNote (κ := κ) (.ok a (host.noting entry failure world))
      (.ok a (host.quietly.noting entry failure world)) := by
  cases hDebug : host.debug with
  | true =>
      simp only [Host.noting, hDebug]
      exact .noted (hUncounted _)
  | false =>
      simp only [Host.noting, hDebug]
      exact .same _

/-- The failure that the next step notes, if it notes one, has a literal form. -/
def Shows (host : Host κ τ ω lacking) (m : Machine κ τ) : Prop :=
  ∀ sent second snapshot failure below, m.mode = .deliver sent →
    m.stack = .altFlag second snapshot (.err failure) :: below → host.literal failure = .had

section Flag

variable (host : Host κ τ ω lacking) (world : World ω) (second : Program κ) (snapshot failure : Value κ)
  {sent user aborted state : Value κ} {below : List (Frame κ τ)} {steps : Nat}

theorem resume_altFlag_of_set (hShows : host.debug = true → host.literal failure = .had)
    (hUnpacks : sent.unpackPair = .ok (user, aborted))
    (hSet : aborted.isTrue = true) :
    (.altFlag second snapshot (.err failure) : Frame κ τ).resume host sent world =
      .ok (.returned (.err failure)) (host.noting .alternationSkipped failure world) := by
  refine (Exec.bind_of_ok (Exec.demand_eq_ok.mpr ⟨hUnpacks, rfl⟩)).trans ?_
  dsimp only
  rw [hSet]
  exact Exec.bind_of_ok (Frame.noteFailure_of_had hShows .alternationSkipped world)

theorem resume_altFlag_of_clear (hShows : host.debug = true → host.literal failure = .had)
    (hUnpacks : sent.unpackPair = .ok (user, aborted))
    (hClear : aborted.isTrue = false) :
    (.altFlag second snapshot (.err failure) : Frame κ τ).resume host sent world =
      .ok (.yielded (.program (.put snapshot)) (.altRestored second (.err failure)))
        (host.noting .backtracked failure world) := by
  refine (Exec.bind_of_ok (Exec.demand_eq_ok.mpr ⟨hUnpacks, rfl⟩)).trans ?_
  dsimp only
  rw [hClear]
  exact Exec.bind_of_ok (Frame.noteFailure_of_had hShows .backtracked world)

theorem resume_altFlag_of_error {cause : Fault κ} (hStuck : sent.unpackPair = .error cause) :
    (.altFlag second snapshot (.err failure) : Frame κ τ).resume host sent world =
      .error (.raised (.fault cause)) world := by
  refine Exec.bind_of_error ?_
  rw [hStuck]
  rfl

theorem step_altFlag_addsNote (hShows : host.literal failure = .had) :
    Exec.AddsNote
      ((⟨.deliver sent, state, .altFlag second snapshot (.err failure) :: below, steps⟩ :
        Machine κ τ).step host world)
      ((⟨.deliver sent, state, .altFlag second snapshot (.err failure) :: below, steps⟩ :
        Machine κ τ).step host.quietly world) := by
  cases hUnpacks : sent.unpackPair with
  | error cause =>
      rw [step_of_resume_error (resume_altFlag_of_error host world second snapshot failure hUnpacks),
        step_of_resume_error (resume_altFlag_of_error _ world second snapshot failure hUnpacks)]
      exact .same _
  | ok pair =>
      cases hSet : pair.2.isTrue with
      | true =>
          rw [step_of_returned (resume_altFlag_of_set host world second snapshot failure
              (fun _ => hShows) hUnpacks hSet),
            step_of_returned (resume_altFlag_of_set host.quietly world second snapshot failure nofun
              hUnpacks hSet)]
          exact addsNote_of_noting fun _ => rfl
      | false =>
          rw [step_of_yielded (resume_altFlag_of_clear host world second snapshot failure
              (fun _ => hShows) hUnpacks hSet),
            step_of_yielded (resume_altFlag_of_clear host.quietly world second snapshot failure nofun
              hUnpacks hSet)]
          exact addsNote_of_noting fun _ => rfl

end Flag

theorem step_addsNote (hKeeps : ∀ frame ∈ m.stack, frame.KeepsFailure) (hShows : m.Shows host) :
    Exec.AddsNote (m.step host world) (m.step host.quietly world) := by
  obtain ⟨mode, state, stack, steps⟩ := m
  cases mode with
  | take p =>
      simp only [step, take_quietly]
      exact .same _
  | deliver sent =>
      cases stack with
      | nil => exact .same _
      | cons top below =>
          by_cases hReads : ∃ second snapshot left, top = .altFlag second snapshot left
          · obtain ⟨second, snapshot, left, rfl⟩ := hReads
            have hErr : left.isErr = true := (List.forall_mem_cons.mp hKeeps).1
            cases left with
            | err failure =>
                exact step_altFlag_addsNote host world second snapshot failure
                  (hShows _ _ _ _ _ rfl rfl)
            | _ => cases hErr
          · have hPlain := fun second snapshot left hSame => hReads ⟨second, snapshot, left, hSame⟩
            simp only [step, deliver, Frame.resume_quietly host top sent hPlain, Frame.close_quietly]
            exact .same _

theorem stepOrUnwind_addsNote (hKeeps : ∀ frame ∈ m.stack, frame.KeepsFailure) (hShows : m.Shows host) :
    Exec.AddsNote (m.stepOrUnwind host world) (m.stepOrUnwind host.quietly world) := by
  have hAdds : Exec.AddsNote (m.step host world) (m.step host.quietly world) :=
    step_addsNote hKeeps hShows
  generalize hStepped : m.step host world = result at hAdds
  generalize hQuietly : m.step host.quietly world = answer at hAdds
  cases hAdds with
  | noted hUncounted =>
      rw [stepOrUnwind_of_ok hStepped, stepOrUnwind_of_ok hQuietly]
      exact .noted hUncounted
  | same =>
      cases result with
      | ok next after =>
          rw [stepOrUnwind_of_ok hStepped, stepOrUnwind_of_ok hQuietly]
          exact .same _
      | error halt after =>
          have hSame : m.stepOrUnwind host world = m.stepOrUnwind host.quietly world := by
            refine (Exec.tryCatch_of_error hStepped).trans (.trans ?_
              (Exec.tryCatch_of_error hQuietly).symm)
            simp only [closeAll_quietly]
          rw [hSame]
          exact .same _

end Machine

/-- The first computation does to worlds with other notes what the second does to this one, for one of
these reasons: they are code of the host's own, which reads no notes; the first takes a note where the
second does nothing; both run a program, the one with debugging on; or they are composed of such. -/
inductive Undisturbed : {α : Type} → Exec κ ω α → Exec κ ω α → World ω → Prop where
  | own {α : Type} {x y : Exec κ ω α} {world : World ω} :
      Exec.Corresponds World.SameButNotes x y → Undisturbed x y world
  | noted {entry : Note} {world : World ω} :
      entry.countsSteps = false → Undisturbed (Exec.note entry) (pure ()) world
  | bind {α β : Type} {x y : Exec κ ω α} {f g : α → Exec κ ω β} {world : World ω} :
      Undisturbed x y world →
      (∀ a next, y world = .ok a next → Undisturbed (f a) (g a) next) →
      Undisturbed (x >>= f) (y >>= g) world
  | tryCatch {α : Type} {x y : Exec κ ω α} {f g : Halt κ → Exec κ ω α} {world : World ω} :
      Undisturbed x y world →
      (∀ halt next, y world = .error halt next → Undisturbed (f halt) (g halt) next) →
      Undisturbed (tryCatch x f) (tryCatch y g) world
  | run {τ : Type} {lacking : Bool} {on off : Host κ τ ω lacking} {p : Program κ} {fuel : Nat}
      {state : Value κ} {world : World ω} :
      p.WrapsResults False off state world →
      (∀ count m now, Machine.Reaches off count (Machine.start p state) world m now → m.Shows on) →
      (∀ count m now, Machine.Reaches off count (Machine.start p state) world m now →
        Undisturbed (m.stepOrUnwind on.quietly) (m.stepOrUnwind off) now) →
      Undisturbed (p.run on fuel state) (p.run off fuel state) world

namespace Machine

variable {on off : Host κ τ ω lacking} {p : Program κ} {state : Value κ} {world : World ω}

theorem step_of_stepOrUnwind {m : Machine κ τ} {now after : World ω} {result : Machine κ τ ⊕ Finished κ}
    (hStepped : m.stepOrUnwind off now = .ok result after) : m.step off now = .ok result after := by
  cases hEnded : m.step off now with
  | ok other next =>
      rw [stepOrUnwind_of_ok hEnded] at hStepped
      exact hStepped
  | error halt next =>
      have hUnwound := (Exec.tryCatch_of_error hEnded).symm.trans hStepped
      cases halt with
      | raised exception =>
          obtain ⟨_, _, _, hRaised⟩ := Exec.bind_eq_ok.mp hUnwound
          cases hRaised
      | exhausted => cases hUnwound

/-- A machine that takes notes and one that does not go on in step. -/
theorem drive_matches (hWraps : p.WrapsResults root off state world)
    (hShows : ∀ count m now, Reaches off count (start p state) world m now → m.Shows on)
    (hSteps : ∀ count m now, Reaches off count (start p state) world m now → ∀ noted,
      noted.SameButNotes now →
        Exec.Matches World.SameButNotes (m.stepOrUnwind on.quietly noted) (m.stepOrUnwind off now))
    (fuel : Nat) {count : Nat} {m : Machine κ τ} {now noted : World ω}
    (hReaches : Reaches off count (start p state) world m now) (hSame : noted.SameButNotes now) :
    Exec.Matches World.SameButNotes (m.drive on fuel noted) (m.drive off fuel now) := by
  induction fuel generalizing count m now noted with
  | zero => exact .error hSame
  | succ fuel ih =>
      have hAdds : Exec.AddsNote (m.stepOrUnwind on noted) (m.stepOrUnwind on.quietly noted) :=
        stepOrUnwind_addsNote (hWraps.stack_keepsFailure hReaches) (hShows count m now hReaches)
      refine (hAdds.matches (hSteps count m now hReaches noted hSame)).bind
        fun result next last hStepped hRelated => ?_
      cases result with
      | inl reached =>
          have hOnward := hReaches.trans (.step (step_of_stepOrUnwind hStepped) (.here _ _))
          exact ih hOnward hRelated
      | inr finished => exact .ok hRelated

end Machine

theorem Undisturbed.matches {x y : Exec κ ω α} {world : World ω} (hUndisturbed : Undisturbed x y world)
    {noted : World ω} (hSame : noted.SameButNotes world) :
    Exec.Matches World.SameButNotes (x noted) (y world) := by
  induction hUndisturbed generalizing noted with
  | own hCorresponds => exact hCorresponds noted _ hSame
  | noted hUncounted => exact .ok (hSame.noted hUncounted)
  | bind _ _ hFirst hOnward =>
      exact (hFirst hSame).bind fun a next last hEnded hRelated => hOnward a last hEnded hRelated
  | tryCatch _ _ hFirst hHandled =>
      exact (hFirst hSame).tryCatch fun halt next last hEnded hRelated => hHandled halt last hEnded hRelated
  | run hWraps hShows _ hSteps =>
      refine (Machine.drive_matches hWraps hShows
        (fun count m now hReaches noted => hSteps count m now hReaches) _ (.here _ _)
        hSame).bind fun finished next last _ hRelated => ?_
      exact .ok (World.sameButNotes_corresponding.noted _ _ hRelated _)

theorem Program.Public.built {p : Program κ} (hPublic : p.Public) : p.Built := by
  cases hPublic with
  | result hResult => exact .result hResult.isResult
  | generator hRecipePublic =>
      refine .generator ?_
      cases hRecipePublic with
      | primitive hFinishes => exact .primitive hFinishes
      | abort failure => exact .abort failure
      | bind => exact .bind _ _
      | sequence => exact .sequence _
      | traverse items f => exact .traverse items f
      | altOr => exact .altOr _ _
      | body f args => exact .body f args

namespace Alternative

variable {on off : Host κ τ ω lacking} {a : Alternative κ} {world : World ω}

end Alternative

def Host.plain (debug : Bool) : Host Unit Empty Unit true where
  debug := debug
  call _ _ := pure (.ok (.int 1))
  start _ _ := pure (.value .null)
  spawn _ _ := throw .exhausted
  resume := nofun
  close := nofun
  literal := Literal.ofAtoms

namespace Alternative

end Alternative

namespace Alternative

end Alternative

namespace Alternative

end Alternative

end Backtrack
