import Backtrack.Proofs.Alternation

/-! Public alternatives are those that the library's own operations build. Code of the host may produce
alternatives too, when a binder, a function that is traversed or a body in do-notation runs; a run is
public if those are public as well. -/

namespace Backtrack

variable {κ τ ω : Type}

/-- The effects of the primitive alternatives, each with what makes a result of its value. -/
inductive Mapper.Finishes : Mapper κ → Program κ → Prop where
  | error (failure : Value κ) : Finishes .recordFailure (.pure failure)
  | attempt (thunk : Callable κ) (classes : List ExceptionClass) :
      Finishes (.attempt thunk classes) .get
  | get : Finishes .readUser .get
  | modify (f : Mapper κ) : Finishes .succeedEmpty (.modify (.updateUser f))

mutual
inductive Program.Public : Program κ → Prop
  | result {value : Value κ} : value.IsResult → Program.Public (.pure value)
  | generator {mark : Mark} {r : Recipe κ} : Recipe.Public r → Program.Public (.generator mark r)

inductive Recipe.Public : Recipe κ → Prop
  | primitive {f : Mapper κ} {effect : Program κ} :
      f.Finishes effect → Recipe.Public (.map effect f)
  | abort (failure : Value κ) : Recipe.Public (.abort failure)
  | bind {p : Program κ} {f : Mapper κ} :
      Program.Public p → Mapper.Continues f → Recipe.Public (.bind p f)
  | sequence {ps : List (Program κ)} :
      (∀ p ∈ ps, Program.Public p) → Recipe.Public (.sequence ps)
  | traverse (items : List (Value κ)) (f : Callable κ) : Recipe.Public (.traverse items f)
  | altOr {first second : Program κ} :
      Program.Public first → Program.Public second → Recipe.Public (.altOr first second)
  | body (f : DoFunction κ) (args : List (Value κ)) : Recipe.Public (.body f args)

/-- The functions that bind, map and apply give to the sequencing of two alternatives. -/
inductive Mapper.Continues : Mapper κ → Prop
  | call (f : Callable κ) : Mapper.Continues (.call f)
  | injectAfter (f : Callable κ) : Mapper.Continues (.injectAfter f)
  | mapOver {p : Program κ} : Program.Public p → Mapper.Continues (.mapOver p)
end

theorem Program.Public.marked {p : Program κ} (hPublic : p.Public) (mark : Nat) :
    (p.marked mark).Public := by
  cases hPublic with
  | result hResult => exact .result hResult
  | @generator given r hRecipePublic =>
      cases given with
      | none | some given => exact .generator hRecipePublic

namespace Alternative

/-- An alternative that the library's own operations build. Handing it out keeps it public. -/
inductive Public : Alternative κ → Prop
  | inject (value : Value κ) : Public (inject value)
  | ofResult {result : Value κ} : result.IsResult → Public (ofResult result)
  | error (failure : Value κ) : Public (error failure)
  | abort (failure : Value κ) : Public (abort failure)
  | attempt (thunk : Callable κ) (classes : List ExceptionClass) : Public (attempt thunk classes)
  | get : Public get
  | modify (f : Callable κ) : Public (modify f)
  | put (user : Value κ) : Public (put user)
  | bind {computation : Alternative κ} (f : Callable κ) :
      Public computation → Public (bind computation f)
  | fmap {computation : Alternative κ} (f : Callable κ) :
      Public computation → Public (fmap f computation)
  | apply {f computation : Alternative κ} :
      Public f → Public computation → Public (apply f computation)
  | sequence {computations : List (Alternative κ)} :
      (∀ a ∈ computations, Public a) → Public (sequence computations)
  | traverse (items : List (Value κ)) (f : Callable κ) : Public (traverse items f)
  | altOr {first second : Alternative κ} :
      Public first → Public second → Public (altOr first second)
  | choice {first : Alternative κ} {others : List (Alternative κ)} :
      Public first → (∀ a ∈ others, Public a) → Public (choice first others)
  | altOrRightAssoc {first : Alternative κ} {others : List (Alternative κ)} :
      Public first → (∀ a ∈ others, Public a) → Public (altOrRightAssoc first others)
  | ofCall (f : DoFunction κ) (args : List (Value κ)) : Public (ofCall f args)
  | marked {a : Alternative κ} (mark : Nat) : Public a → Public ⟨a.program.marked mark⟩

variable {first : Alternative κ} {others : List (Alternative κ)}

theorem choice_program_public (hFirstPublic : first.program.Public)
    (hAllPublic : ∀ a ∈ others, a.program.Public) : (choice first others).program.Public := by
  induction others generalizing first with
  | nil => exact hFirstPublic
  | cons second others ih =>
      obtain ⟨hSecondPublic, hRestPublic⟩ := List.forall_mem_cons.mp hAllPublic
      have hJoined : (first.altOr second).program.Public := .generator (.altOr hFirstPublic hSecondPublic)
      exact ih hJoined hRestPublic

theorem altOrRightAssoc_program_public (hFirstPublic : first.program.Public)
    (hAllPublic : ∀ a ∈ others, a.program.Public) :
    (altOrRightAssoc first others).program.Public := by
  induction others generalizing first with
  | nil => exact hFirstPublic
  | cons second others ih =>
      obtain ⟨hSecondPublic, hRestPublic⟩ := List.forall_mem_cons.mp hAllPublic
      exact .generator (.altOr hFirstPublic (ih hSecondPublic hRestPublic))

theorem Public.program_public {a : Alternative κ} (hPublic : a.Public) : a.program.Public := by
  induction hPublic with
  | inject value => exact .result (.success value)
  | ofResult hResult => exact .result hResult
  | error failure => exact .generator (.primitive (.error failure))
  | abort failure => exact .generator (.abort failure)
  | attempt thunk classes => exact .generator (.primitive (.attempt thunk classes))
  | get => exact .generator (.primitive .get)
  | modify f => exact .generator (.primitive (.modify (.call f)))
  | put user => exact .generator (.primitive (.modify (.constant user)))
  | bind f _ ih => exact .generator (.bind ih (.call f))
  | fmap f _ ih => exact .generator (.bind ih (.injectAfter f))
  | apply _ _ hFunctionIh hArgumentIh => exact .generator (.bind hFunctionIh (.mapOver hArgumentIh))
  | sequence _ ih =>
      refine .generator (.sequence fun p hListed => ?_)
      obtain ⟨a, hMember, rfl⟩ := List.mem_map.mp hListed
      exact ih a hMember
  | traverse items f => exact .generator (.traverse items f)
  | altOr _ _ hFirstIh hSecondIh => exact .generator (.altOr hFirstIh hSecondIh)
  | choice _ _ hFirstIh hOthersIh => exact choice_program_public hFirstIh hOthersIh
  | altOrRightAssoc _ _ hFirstIh hOthersIh => exact altOrRightAssoc_program_public hFirstIh hOthersIh
  | ofCall f args => exact .generator (.body f args)
  | marked mark _ ih => exact ih.marked mark

end Alternative

/-- The generator waits for an alternative that code of the host chose, or that the library made of what
such code gave. -/
inductive Frame.FromHost : Frame κ τ → Prop where
  | relay : FromHost .relay
  | traversed (rest : List (Value κ)) (f : Callable κ) (collected : List (Value κ)) :
      FromHost (.traversed rest f collected)
  | body (name : Option String) (t : τ) : FromHost (.body name t)

/-- Whatever alternative the host's code produced is public, if the machine goes on with it. -/
def Machine.ChoosesPublic (m : Machine κ τ) : Prop :=
  ∀ q frame below, m.mode = .take q → m.stack = frame :: below → frame.FromHost → q.Public

/-- The program is public, and so is every alternative that the host's code produces in its run. -/
structure Program.RunsPublicly {lacking : Bool} (host : Host κ τ ω lacking) (p : Program κ) (state : Value κ)
    (world : World ω) : Prop where
  isPublic : p.Public
  chooses : ∀ count m final, Machine.Reaches host count (Machine.start p state) world m final →
    m.ChoosesPublic

/-- Code of the host may produce an alternative with the program. -/
inductive Host.Offers {lacking : Bool} (host : Host κ τ ω lacking) (q : Program κ) : Prop where
  | call {k args world mark final} :
      host.call k args world = .ok (.alternative mark q) final → Offers host q
  | resume {t sent world mark rest final} :
      host.resume t sent world = .ok (.yielded (.alternative mark q) rest) final → Offers host q

end Backtrack
