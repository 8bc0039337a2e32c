import Backtrack.Proofs.Alternation
import Backtrack.Proofs.Yields

/-! The loop of the machine. A ledger kept beside a run numbers the generators in the order in which they are
created and lists what happens to each of them, by nothing but the machine before and after each step. It
shows that the stack holds the generators that have not returned, each of them suspended at a yield of the
program that the one above it was created for, and that a generator is only ever sent the value of the
program that it yielded last. What a program's value is, the recursive semantics says. -/

namespace Backtrack

variable {κ τ ω : Type} {host : Host κ τ ω} {p q : Program κ} {r : Recipe κ} {mark : Mark}
  {frame rest : Frame κ τ} {stack below : List (Frame κ τ)} {sent value state left initial : Value κ}
  {world start now after final : World ω} {ending : Ending κ} {cost number : Nat} {numbers : List Nat}

inductive Event (κ ω : Type) where
  /-- an effect was taken up in the world -/
  | performed (effect : Program κ) (world : World ω)
  /-- a generator was created for the program -/
  | created (number : Nat) (p : Program κ)
  | sent (number : Nat) (value : Value κ)
  /-- a generator yielded the program, in the state and the world -/
  | yielded (number : Nat) (p : Program κ) (state : Value κ) (world : World ω)
  | returned (number : Nat) (value : Value κ)

def Event.number? : Event κ ω → Option Nat
  | .performed _ _ => none
  | .created number _ | .sent number _ | .yielded number _ _ _ | .returned number _ => some number

structure Ledger (κ ω : Type) where
  /-- the latest first -/
  events : List (Event κ ω)
  /-- those of the generators on the stack, the innermost first -/
  numbers : List Nat
  /-- how many generators were created -/
  count : Nat

namespace Ledger

variable {events : List (Event κ ω)} {event : Event κ ω} {ledger : Ledger κ ω}

/-- The ledger after a step, which took the machine and the world to the next ones. -/
def watch (ledger : Ledger κ ω) (m next : Machine κ τ) (now after : World ω) : Ledger κ ω :=
  match m.mode, next.mode, ledger.numbers with
  | .take (.generator mark r), _, numbers =>
      ⟨.created ledger.count (.generator mark r) :: ledger.events, ledger.count :: numbers,
        ledger.count + 1⟩
  | .take effect, _, numbers => ⟨.performed effect now :: ledger.events, numbers, ledger.count⟩
  | .deliver sent, .take p, number :: numbers =>
      ⟨.yielded number p next.state after :: .sent number sent :: ledger.events, number :: numbers,
        ledger.count⟩
  | .deliver sent, .deliver value, number :: numbers =>
      ⟨.returned number value :: .sent number sent :: ledger.events, numbers, ledger.count⟩
  | .deliver _, _, [] => ledger

def last (events : List (Event κ ω)) (number : Nat) : Option (Event κ ω) :=
  events.find? fun event => event.number? == some number

theorem last_cons_self (hAbout : event.number? = some number) :
    last (event :: events) number = some event := by
  simp [last, hAbout]

theorem last_cons_of_ne (hOther : event.number? ≠ some number) :
    last (event :: events) number = last events number := by
  simp [last, hOther]

theorem mem_of_last (hHappened : last events number = some event) : event ∈ events :=
  List.mem_of_find?_eq_some hHappened

/-- A later generator has a greater number, and those on the stack are the ones that have not returned. -/
structure Numbered (ledger : Ledger κ ω) : Prop where
  lt_count : ∀ event ∈ ledger.events, ∀ number, event.number? = some number → number < ledger.count
  mem_iff : ∀ number, number ∈ ledger.numbers ↔
    (∃ p, .created number p ∈ ledger.events) ∧ ∀ value, .returned number value ∉ ledger.events
  descending : ledger.numbers.Pairwise (· > ·)

namespace Numbered

variable {count : Nat}

theorem empty : (⟨[], [], 0⟩ : Ledger κ ω).Numbered where
  lt_count := nofun
  mem_iff number := by simp
  descending := .nil

theorem lt_of_mem (hNumbered : Numbered ⟨events, numbers, count⟩) (hListed : number ∈ numbers) :
    number < count := by
  obtain ⟨⟨p, hCreated⟩, _⟩ := (hNumbered.mem_iff number).mp hListed
  exact hNumbered.lt_count _ hCreated number rfl

theorem ne_of_mem (hNumbered : Numbered ⟨events, number :: numbers, count⟩)
    (hAbout : event.number? = some number) : ∀ other ∈ numbers, event.number? ≠ some other := by
  intro other hListed hSame
  cases hAbout.symm.trans hSame
  exact Nat.lt_irrefl _ ((List.pairwise_cons.mp hNumbered.descending).1 _ hListed)

theorem keep (hNumbered : Numbered ⟨events, numbers, count⟩)
    (hBounded : ∀ number, event.number? = some number → number < count)
    (hCreates : ∀ number p, event ≠ .created number p)
    (hEnds : ∀ number value, event ≠ .returned number value) :
    Numbered ⟨event :: events, numbers, count⟩ where
  lt_count := List.forall_mem_cons.mpr ⟨hBounded, hNumbered.lt_count⟩
  mem_iff number := by
    have hSame := hNumbered.mem_iff number
    simp only [List.mem_cons, not_or, (hCreates number _).symm, false_or] at *
    rw [hSame]
    exact and_congr_right fun _ => forall_congr' fun value =>
      ⟨fun hAbsent => ⟨(hEnds number value).symm, hAbsent⟩, fun hAbsent => hAbsent.2⟩
  descending := hNumbered.descending

theorem touch (hNumbered : Numbered ⟨events, number :: numbers, count⟩)
    (hAbout : event.number? = some number) (hCreates : ∀ number p, event ≠ .created number p)
    (hEnds : ∀ number value, event ≠ .returned number value) :
    Numbered ⟨event :: events, number :: numbers, count⟩ := by
  refine hNumbered.keep (fun other hSame => ?_) hCreates hEnds
  cases hAbout.symm.trans hSame
  exact hNumbered.lt_of_mem List.mem_cons_self

theorem create (hNumbered : Numbered ⟨events, numbers, count⟩) (p : Program κ) :
    Numbered ⟨.created count p :: events, count :: numbers, count + 1⟩ where
  lt_count := by
    refine List.forall_mem_cons.mpr ⟨?_, fun event hListed number hAbout =>
      Nat.lt_succ_of_lt (hNumbered.lt_count event hListed number hAbout)⟩
    rintro _ ⟨⟩
    exact Nat.lt_succ_self count
  mem_iff number := by
    have hSame := hNumbered.mem_iff number
    -- The number is new, so nothing can have been said of it.
    have hUnreturned : ∀ value, .returned count value ∉ events :=
      fun value hListed => Nat.lt_irrefl count (hNumbered.lt_count _ hListed count rfl)
    simp only [List.mem_cons, reduceCtorEq, false_or, Event.created.injEq] at *
    constructor
    · rintro (rfl | hListed)
      · exact ⟨⟨p, .inl ⟨rfl, rfl⟩⟩, hUnreturned⟩
      · obtain ⟨⟨q, hCreated⟩, hAbsent⟩ := hSame.mp hListed
        exact ⟨⟨q, .inr hCreated⟩, hAbsent⟩
    · rintro ⟨⟨q, ⟨rfl, _⟩ | hCreated⟩, hAbsent⟩
      · exact .inl rfl
      · exact .inr (hSame.mpr ⟨⟨q, hCreated⟩, hAbsent⟩)
  descending := List.pairwise_cons.mpr ⟨fun _ hListed => hNumbered.lt_of_mem hListed, hNumbered.descending⟩

theorem finish (hNumbered : Numbered ⟨events, number :: numbers, count⟩) (value : Value κ) :
    Numbered ⟨.returned number value :: events, numbers, count⟩ where
  lt_count := by
    refine List.forall_mem_cons.mpr ⟨?_, hNumbered.lt_count⟩
    rintro _ ⟨⟩
    exact hNumbered.lt_of_mem List.mem_cons_self
  mem_iff other := by
    have hSame := hNumbered.mem_iff other
    obtain ⟨hLower, _⟩ := List.pairwise_cons.mp hNumbered.descending
    simp only [List.mem_cons, reduceCtorEq, false_or, Event.returned.injEq, not_or] at *
    constructor
    · intro hListed
      obtain ⟨hCreated, hAbsent⟩ := hSame.mp (.inr hListed)
      exact ⟨hCreated, fun _ => ⟨fun hFound => Nat.ne_of_lt (hLower other hListed) hFound.1, hAbsent _⟩⟩
    · rintro ⟨hCreated, hAbsent⟩
      obtain rfl | hListed := hSame.mpr ⟨hCreated, fun value => (hAbsent value).2⟩
      · exact absurd ⟨rfl, rfl⟩ (hAbsent value).1
      · exact hListed
  descending := (List.pairwise_cons.mp hNumbered.descending).2

end Numbered

end Ledger

/-- A run of the program, with the ledger that was kept beside it. -/
inductive Recorded (host : Host κ τ ω) (p : Program κ) (initial : Value κ) (world : World ω) :
    Ledger κ ω → Machine κ τ → World ω → Prop where
  | start : Recorded host p initial world ⟨[], [], 0⟩ (Machine.start p initial) world
  | step {ledger : Ledger κ ω} {m next : Machine κ τ} {now after : World ω} :
      Recorded host p initial world ledger m now → m.step host now = .ok (.inl next) after →
      Recorded host p initial world (ledger.watch m next now after) next after

/-- The state that the last effect left, if each was taken up in the state that the one before it left. -/
inductive LeftBy (host : Host κ τ ω) (initial : Value κ) : List (Event κ ω) → Value κ → Prop where
  | none : LeftBy host initial [] initial
  | effect {events : List (Event κ ω)} {effect : Program κ} {before answer left : Value κ}
      {start after : World ω} :
      LeftBy host initial events before →
      Evaluates host (.program effect) before start (.returned answer left 1) after →
      LeftBy host initial (.performed effect start :: events) left
  | generator {events : List (Event κ ω)} {event : Event κ ω} {state : Value κ} {number : Nat} :
      event.number? = some number → LeftBy host initial events state →
      LeftBy host initial (event :: events) state

/-- The generator of the recipe, created in the state and the world, is to be sent the value: nothing at
first, and then the value of the program that it yielded last. -/
inductive Resumes (host : Host κ τ ω) (r : Recipe κ) (state : Value κ) (world : World ω) :
    Frame κ τ → Value κ → Value κ → World ω → Prop where
  | first : Resumes host r state world (.fresh r) .null state world
  | again {frame rest : Frame κ τ} {q : Program κ} {sent answer before left : Value κ}
      {now start after : World ω} {cost : Nat} :
      Resumes host r state world frame sent before now →
      frame.resume host sent now = .ok (.yielded (.program q) rest) start →
      Evaluates host (.program q) before start (.returned answer left cost) after →
      Resumes host r state world rest answer left after

/-- The generator of the recipe, created in the state and the world, has yielded the program in the second
state and world, and is suspended there. -/
inductive Suspended (host : Host κ τ ω) (r : Recipe κ) (state : Value κ) (world : World ω) :
    Frame κ τ → Program κ → Value κ → World ω → Prop where
  | yielded {frame rest : Frame κ τ} {q : Program κ} {sent before : Value κ} {now start : World ω} :
      Resumes host r state world frame sent before now →
      frame.resume host sent now = .ok (.yielded (.program q) rest) start →
      Suspended host r state world rest q before start

theorem Suspended.resumes (hSuspended : Suspended host r state world frame q left now)
    (hEvaluates : Evaluates host (.program q) left now (.returned sent value cost) after) :
    Resumes host r state world frame sent value after := by
  cases hSuspended with
  | yielded hResumes hResumed => exact .again hResumes hResumed hEvaluates

theorem Resumes.evaluates (hResumes : Resumes host r state world frame sent left now)
    (hEvaluates : Evaluates host (.generator frame sent) left now ending final) :
    ∃ spent, Evaluates host (.generator (.fresh r) .null) state world (ending.after spent) final := by
  -- Each resumption but the first adds the program whose value was sent to what is left.
  induction hResumes generalizing ending with
  | first =>
      refine ⟨0, ?_⟩
      cases ending <;> simpa [Ending.after] using hEvaluates
  | again _ hResumed hAnswered ih =>
      obtain ⟨spent, hWhole⟩ := ih (.yielded hResumed hAnswered hEvaluates)
      rw [Ending.after_after] at hWhole
      exact ⟨_, hWhole⟩

/-- The generators of these numbers stand on the stack, and the innermost one, or else the run, waits for
the program, from the state and the world. Each is suspended at the yield of a program for which the one above
it was created. -/
inductive Nested (host : Host κ τ ω) (p : Program κ) (initial : Value κ) (world : World ω)
    (events : List (Event κ ω)) :
    List Nat → List (Frame κ τ) → Program κ → Value κ → World ω → Prop where
  | outermost : Nested host p initial world events [] [] p initial world
  | within {numbers : List Nat} {stack : List (Frame κ τ)} {number : Nat} {frame : Frame κ τ}
      {mark : Mark} {r : Recipe κ} {q : Program κ} {before state : Value κ} {start now : World ω} :
      Nested host p initial world events numbers stack (.generator mark r) before start →
      .created number (.generator mark r) ∈ events →
      Suspended host r before start frame q state now →
      Ledger.last events number = some (.yielded number q state now) →
      Nested host p initial world events (number :: numbers) (frame :: stack) q state now

section Nested

variable {events : List (Event κ ω)} {event : Event κ ω}

theorem Nested.cons (hNested : Nested host p initial world events numbers stack q state now)
    (hOther : ∀ number ∈ numbers, event.number? ≠ some number) :
    Nested host p initial world (event :: events) numbers stack q state now := by
  induction hNested with
  | outermost => exact .outermost
  | within _ hCreated hSuspended hLast ih =>
      obtain ⟨hDifferent, hOthers⟩ := List.forall_mem_cons.mp hOther
      refine .within (ih hOthers) (List.mem_cons_of_mem _ hCreated) hSuspended ?_
      rw [Ledger.last_cons_of_ne hDifferent]
      exact hLast

end Nested

/-- Where the machine is in its loop: about to take up a program, about to begin a generator that it has
created, or with the value of a program that was waited for. -/
inductive Position (host : Host κ τ ω) (p : Program κ) (initial : Value κ) (world : World ω)
    (events : List (Event κ ω)) :
    List Nat → Mode κ → List (Frame κ τ) → Value κ → World ω → Prop where
  | taking {numbers : List Nat} {stack : List (Frame κ τ)} {q : Program κ} {state : Value κ}
      {now : World ω} :
      Nested host p initial world events numbers stack q state now →
      Position host p initial world events numbers (.take q) stack state now
  | beginning {numbers : List Nat} {stack : List (Frame κ τ)} {number : Nat} {mark : Mark}
      {r : Recipe κ} {state : Value κ} {now : World ω} :
      Nested host p initial world events numbers stack (.generator mark r) state now →
      Ledger.last events number = some (.created number (.generator mark r)) →
      Position host p initial world events (number :: numbers) (.deliver .null) (.fresh r :: stack)
        state now
  | answered {numbers : List Nat} {stack : List (Frame κ τ)} {q : Program κ}
      {before value state : Value κ} {start now : World ω} {cost : Nat} :
      Nested host p initial world events numbers stack q before start →
      Evaluates host (.program q) before start (.returned value state cost) now →
      Position host p initial world events numbers (.deliver value) stack state now

theorem Position.resumes {events : List (Event κ ω)}
    (hPosition : Position host p initial world events numbers (.deliver sent) (frame :: below) state now) :
    ∃ number others mark r before start, numbers = number :: others ∧
      Nested host p initial world events others below (.generator mark r) before start ∧
      .created number (.generator mark r) ∈ events ∧
      Resumes host r before start frame sent state now := by
  cases hPosition with
  | beginning hNested hLast =>
      exact ⟨_, _, _, _, _, _, rfl, hNested, Ledger.mem_of_last hLast, .first⟩
  | answered hNested hEvaluates =>
      cases hNested with
      | within hNested hCreated hSuspended _ =>
          exact ⟨_, _, _, _, _, _, rfl, hNested, hCreated, hSuspended.resumes hEvaluates⟩

structure LoopInvariant (host : Host κ τ ω) (p : Program κ) (initial : Value κ) (world : World ω)
    (ledger : Ledger κ ω) (m : Machine κ τ) (now : World ω) : Prop where
  numbered : ledger.Numbered
  state : LeftBy host initial ledger.events m.state
  position : Position host p initial world ledger.events ledger.numbers m.mode m.stack m.state now

namespace LoopInvariant

open Machine

variable {ledger : Ledger κ ω} {m next : Machine κ τ} {events : List (Event κ ω)} {count steps : Nat}

theorem watch_of_effect (hEffect : ∀ mark r, q ≠ .generator mark r) :
    ledger.watch (⟨.take q, state, stack, steps⟩ : Machine κ τ) next now after =
      ⟨.performed q now :: ledger.events, ledger.numbers, ledger.count⟩ := by
  cases q with
  | generator mark r => exact absurd rfl (hEffect mark r)
  | _ => rfl

theorem evaluates_of_effect (hEffect : ∀ mark r, q ≠ .generator mark r)
    (hStepped : (⟨.take q, state, stack, steps⟩ : Machine κ τ).step host now = .ok (.inl next) after) :
    ∃ value left, next = ⟨.deliver value, left, stack, steps + 1⟩ ∧
      Evaluates host (.program q) state now (.returned value left 1) after := by
  cases q with
  | pure value =>
      cases hStepped
      exact ⟨value, state, rfl, .pure⟩
  | get =>
      cases hStepped
      exact ⟨state, state, rfl, .get⟩
  | put replacement =>
      cases hStepped
      exact ⟨.null, replacement, rfl, .put⟩
  | modify f =>
      obtain ⟨changed, hApplied, ⟨⟩⟩ := step_modify_cases hStepped
      exact ⟨.null, changed, rfl, .modify hApplied⟩
  | generator mark r => exact absurd rfl (hEffect mark r)
  | foreign | foreignEffect => cases hStepped

theorem perform (hEffect : ∀ mark r, q ≠ .generator mark r)
    (hInvariant : LoopInvariant host p initial world ledger ⟨.take q, state, stack, steps⟩ now)
    (hStepped : (⟨.take q, state, stack, steps⟩ : Machine κ τ).step host now = .ok (.inl next) after) :
    LoopInvariant host p initial world
      (ledger.watch (⟨.take q, state, stack, steps⟩ : Machine κ τ) next now after) next after := by
  obtain ⟨events, numbers, count⟩ := ledger
  obtain ⟨value, left, rfl, hEvaluates⟩ := evaluates_of_effect hEffect hStepped
  rw [watch_of_effect hEffect]
  cases hInvariant.position with
  | taking hNested =>
      exact {
        numbered := hInvariant.numbered.keep (fun _ => nofun) nofun nofun
        state := .effect hInvariant.state hEvaluates
        position := .answered (hNested.cons nofun) hEvaluates }

theorem create
    (hInvariant : LoopInvariant host p initial world ⟨events, numbers, count⟩
      ⟨.take (.generator mark r), state, stack, steps⟩ now) :
    LoopInvariant host p initial world
      ⟨.created count (.generator mark r) :: events, count :: numbers, count + 1⟩
      ⟨.deliver .null, state, .fresh r :: stack, steps + 1⟩ now where
  numbered := hInvariant.numbered.create _
  state := .generator rfl hInvariant.state
  position := by
    cases hInvariant.position with
    | taking hNested =>
        refine .beginning (hNested.cons fun number hListed hSame => ?_) (Ledger.last_cons_self rfl)
        cases hSame
        exact Nat.lt_irrefl _ (hInvariant.numbered.lt_of_mem hListed)

theorem yield
    (hInvariant : LoopInvariant host p initial world ⟨events, number :: numbers, count⟩
      ⟨.deliver sent, state, frame :: below, steps⟩ now)
    (hResumed : frame.resume host sent now = .ok (.yielded (.program q) rest) after) :
    LoopInvariant host p initial world
      ⟨.yielded number q state after :: .sent number sent :: events, number :: numbers, count⟩
      ⟨.take q, state, rest :: below, steps⟩ after where
  numbered := .touch (.touch hInvariant.numbered rfl nofun nofun) rfl nofun nofun
  state := .generator rfl (.generator rfl hInvariant.state)
  position := by
    obtain ⟨_, _, _, _, _, _, ⟨⟩, hNested, hCreated, hResumes⟩ := hInvariant.position.resumes
    have hListed := List.mem_cons_of_mem (.yielded number q state after)
      (List.mem_cons_of_mem (.sent number sent) hCreated)
    exact .taking (.within (.cons (.cons hNested (hInvariant.numbered.ne_of_mem rfl))
      (hInvariant.numbered.ne_of_mem rfl)) hListed (.yielded hResumes hResumed)
      (Ledger.last_cons_self rfl))

theorem finish
    (hInvariant : LoopInvariant host p initial world ⟨events, number :: numbers, count⟩
      ⟨.deliver sent, state, frame :: below, steps⟩ now)
    (hResumed : frame.resume host sent now = .ok (.returned value) after) :
    LoopInvariant host p initial world
      ⟨.returned number value :: .sent number sent :: events, numbers, count⟩
      ⟨.deliver value, state, below, steps⟩ after where
  numbered := by
    have hNoted : Ledger.Numbered ⟨.sent number sent :: events, number :: numbers, count⟩ :=
      .touch hInvariant.numbered rfl nofun nofun
    exact hNoted.finish value
  state := .generator rfl (.generator rfl hInvariant.state)
  position := by
    obtain ⟨_, _, _, _, _, _, ⟨⟩, hNested, _, hResumes⟩ := hInvariant.position.resumes
    -- The program for which it was created is the one that the generator below yielded.
    obtain ⟨_, hWhole⟩ := hResumes.evaluates (.returned hResumed)
    exact .answered (.cons (.cons hNested (hInvariant.numbered.ne_of_mem rfl))
      (hInvariant.numbered.ne_of_mem rfl)) (.generator hWhole)

theorem step (hInvariant : LoopInvariant host p initial world ledger m now)
    (hStepped : m.step host now = .ok (.inl next) after) :
    LoopInvariant host p initial world (ledger.watch m next now after) next after := by
  obtain ⟨mode, state, stack, steps⟩ := m
  obtain ⟨events, numbers, count⟩ := ledger
  cases mode with
  | take q =>
      by_cases hGenerates : ∃ mark r, q = .generator mark r
      · obtain ⟨mark, r, rfl⟩ := hGenerates
        cases hStepped
        exact hInvariant.create
      · exact hInvariant.perform (fun mark r hSame => hGenerates ⟨mark, r, hSame⟩) hStepped
  | deliver sent =>
      cases stack with
      | nil => cases hStepped
      | cons frame below =>
          obtain ⟨number, others, _, _, _, _, rfl, _⟩ := hInvariant.position.resumes
          obtain ⟨value, hResumed, ⟨⟩⟩ | ⟨q, rest, hResumed, ⟨⟩⟩ := step_deliver_cases hStepped
          · exact hInvariant.finish hResumed
          · exact hInvariant.yield hResumed

end LoopInvariant

theorem Recorded.invariant {ledger : Ledger κ ω} {m : Machine κ τ}
    (hRecorded : Recorded host p initial world ledger m now) :
    LoopInvariant host p initial world ledger m now := by
  induction hRecorded with
  | start => exact ⟨.empty, .none, .taking .outermost⟩
  | step _ hStepped ih => exact ih.step hStepped

end Backtrack
