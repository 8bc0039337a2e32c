import Backtrack.Exec

namespace Backtrack

variable {κ ω α β : Type}

def World.noted (world : World ω) (entry : Note) : World ω :=
  { world with journal := world.journal.push entry }

theorem World.noted_inj {first second : World ω} {entry other : Note} :
    first.noted entry = second.noted other ↔ first = second ∧ entry = other := by
  constructor
  · intro hSame
    obtain ⟨firstHost, firstJournal, firstMark⟩ := first
    obtain ⟨secondHost, secondJournal, secondMark⟩ := second
    simp only [noted, World.mk.injEq, Array.push_eq_push] at hSame
    obtain ⟨rfl, ⟨rfl, rfl⟩, rfl⟩ := hSame
    exact ⟨rfl, rfl⟩
  · intro hGiven
    obtain ⟨rfl, rfl⟩ := hGiven
    rfl

namespace Exec

theorem bind_of_ok {x : Exec κ ω α} {f : α → Exec κ ω β}
    {world next : World ω} {a : α} (hEnded : x world = .ok a next) :
    (x >>= f) world = f a next := by
  simp only [bind, EStateM.bind, hEnded]

theorem bind_of_error {x : Exec κ ω α} {f : α → Exec κ ω β}
    {world next : World ω} {halt : Halt κ} (hEnded : x world = .error halt next) :
    (x >>= f) world = .error halt next := by
  simp only [bind, EStateM.bind, hEnded]

theorem bind_eq_ok {x : Exec κ ω α} {f : α → Exec κ ω β}
    {world final : World ω} {b : β} :
    (x >>= f) world = .ok b final ↔
      ∃ a next, x world = .ok a next ∧ f a next = .ok b final := by
  cases hEnded : x world with
  | ok a next =>
      rw [bind_of_ok hEnded]
      constructor
      · exact fun hRest => ⟨a, next, rfl, hRest⟩
      · intro hGiven
        obtain ⟨_, _, ⟨⟩, hRest⟩ := hGiven
        exact hRest
  | error halt next => simp [bind_of_error hEnded]

theorem bind_eq_error {x : Exec κ ω α} {f : α → Exec κ ω β}
    {world final : World ω} {halt : Halt κ} :
    (x >>= f) world = .error halt final ↔
      x world = .error halt final ∨ ∃ a next, x world = .ok a next ∧ f a next = .error halt final := by
  cases hEnded : x world with
  | ok a next =>
      rw [bind_of_ok hEnded]
      constructor
      · exact fun hRest => .inr ⟨a, next, rfl, hRest⟩
      · intro hGiven
        obtain ⟨⟨⟩⟩ | ⟨_, _, ⟨⟩, hRest⟩ := hGiven
        exact hRest
  | error other next => simp [bind_of_error hEnded]

theorem demand_eq_ok {part : Except (Fault κ) α} {world final : World ω} {a : α} :
    (demand part : Exec κ ω α) world = .ok a final ↔ part = .ok a ∧ final = world := by
  cases part with
  | ok found =>
      constructor
      · intro hGiven
        cases hGiven
        exact ⟨rfl, rfl⟩
      · intro hGiven
        obtain ⟨⟨⟩, rfl⟩ := hGiven
        rfl
  | error cause =>
      constructor
      · intro hGiven
        cases hGiven
      · intro hGiven
        obtain ⟨⟨⟩, _⟩ := hGiven

theorem map_of_ok {x : Exec κ ω α} {f : α → β}
    {world next : World ω} {a : α} (hEnded : x world = .ok a next) :
    (f <$> x) world = .ok (f a) next := by
  simp only [Functor.map, EStateM.map, hEnded]

theorem map_of_error {x : Exec κ ω α} {f : α → β}
    {world next : World ω} {halt : Halt κ} (hEnded : x world = .error halt next) :
    (f <$> x) world = .error halt next := by
  simp only [Functor.map, EStateM.map, hEnded]

theorem map_eq_ok {x : Exec κ ω α} {f : α → β}
    {world final : World ω} {b : β} :
    (f <$> x) world = .ok b final ↔ ∃ a, x world = .ok a final ∧ f a = b := by
  cases hEnded : x world with
  | ok a next =>
      rw [map_of_ok hEnded]
      constructor
      · intro hGiven
        cases hGiven
        exact ⟨a, rfl, rfl⟩
      · intro hGiven
        obtain ⟨_, ⟨⟩, rfl⟩ := hGiven
        rfl
  | error halt next => simp [map_of_error hEnded]

theorem tryCatch_of_ok {x : Exec κ ω α} {handler : Halt κ → Exec κ ω α}
    {world next : World ω} {a : α} (hEnded : x world = .ok a next) :
    (tryCatch x handler) world = .ok a next := by
  change EStateM.tryCatch x handler world = _
  delta EStateM.tryCatch
  simp only [hEnded]

theorem tryCatch_of_error {x : Exec κ ω α} {handler : Halt κ → Exec κ ω α}
    {world next : World ω} {halt : Halt κ} (hEnded : x world = .error halt next) :
    (tryCatch x handler) world = handler halt next := by
  change EStateM.tryCatch x handler world = _
  delta EStateM.tryCatch
  simp only [hEnded]
  rfl

section Sealed

variable {x : Exec κ ω α} {world next : World ω} {a : α} {halt : Halt κ}

@[simp] theorem sealed_pure (a : α) : sealed (pure a : Exec κ ω α) = pure a := rfl

@[simp] theorem sealed_fail (cause : Fault κ) :
    sealed (fail cause : Exec κ ω α) = fail cause := rfl

theorem sealed_of_ok (hEnded : x world = .ok a next) : x.sealed world = .ok a next := by
  simp only [sealed, EStateM.adaptExcept, hEnded]

theorem sealed_of_error (hEnded : x world = .error halt next) :
    x.sealed world = .error halt.sealed next := by
  simp only [sealed, EStateM.adaptExcept, hEnded]

theorem sealed_bind (x : Exec κ ω α) (f : α → Exec κ ω β) :
    (x >>= f).sealed = x.sealed >>= fun a => (f a).sealed := by
  funext world
  cases hEnded : x world with
  | ok a next =>
      rw [bind_of_ok (sealed_of_ok hEnded)]
      simp only [sealed, EStateM.adaptExcept, bind_of_ok hEnded]
  | error halt next => rw [bind_of_error (sealed_of_error hEnded), sealed_of_error (bind_of_error hEnded)]

theorem sealed_eq_ok : x.sealed world = .ok a next ↔ x world = .ok a next := by
  constructor
  · intro hSealed
    cases hEnded : x world with
    | ok b after =>
        rw [sealed_of_ok hEnded] at hSealed
        exact hSealed
    | error other after =>
        rw [sealed_of_error hEnded] at hSealed
        cases hSealed
  · exact sealed_of_ok

theorem sealed_eq_error :
    x.sealed world = .error halt next ↔ ∃ inner, x world = .error inner next ∧ halt = inner.sealed := by
  constructor
  · intro hSealed
    cases hEnded : x world with
    | ok b after =>
        rw [sealed_of_ok hEnded] at hSealed
        cases hSealed
    | error other after =>
        rw [sealed_of_error hEnded] at hSealed
        cases hSealed
        exact ⟨other, rfl, rfl⟩
  · rintro ⟨inner, hEnded, rfl⟩
    exact sealed_of_error hEnded

theorem sealed_eq_exhausted :
    x.sealed world = .error .exhausted next ↔ x world = .error .exhausted next := by
  rw [sealed_eq_error]
  constructor
  · rintro ⟨inner, hEnded, hSame⟩
    cases inner with
    | raised => cases hSame
    | exhausted => exact hEnded
  · exact fun hEnded => ⟨_, hEnded, rfl⟩

theorem sealed_eq_raised {exception : Raised κ} :
    x.sealed world = .error (.raised exception) next ↔
      ∃ inner, x world = .error (.raised inner) next ∧ exception = inner.sealed := by
  rw [sealed_eq_error]
  constructor
  · rintro ⟨inner, hEnded, hSame⟩
    cases inner with
    | raised other =>
        cases hSame
        exact ⟨other, hEnded, rfl⟩
    | exhausted => cases hSame
  · rintro ⟨inner, hEnded, rfl⟩
    exact ⟨_, hEnded, rfl⟩

end Sealed

end Exec

namespace Literal

variable {lacking : Bool} {literal : Literal κ lacking} {text shown : String} {world final : World ω}

end Literal

end Backtrack
