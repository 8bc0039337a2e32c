import Backtrack.Program.Frame

/-! The machine that runs a program. It keeps the generators that have begun and not ended on a stack,
the innermost first, and so needs no recursion into the program. Every program that it takes up counts
as a step, be it an effect or a generator. When an exception leaves a step, the generators that are still
suspended are closed, innermost first, before the exception goes on. -/

namespace Backtrack

variable {κ τ ω : Type} {lacking : Bool}

inductive Mode (κ : Type) where
  | take (p : Program κ)
  | deliver (value : Value κ)

structure Machine (κ τ : Type) where
  mode : Mode κ
  state : Value κ
  stack : List (Frame κ τ)
  steps : Nat

/-- How a program ended that raised nothing. -/
structure Finished (κ : Type) where
  value : Value κ
  state : Value κ
  steps : Nat

namespace Machine

def start (p : Program κ) (state : Value κ) : Machine κ τ :=
  ⟨.take p, state, [], 0⟩

/-- Takes up a program. An effect has its value at once; a generator waits on the stack to be begun. -/
def take (host : Host κ τ ω lacking) (p : Program κ) (m : Machine κ τ) : Exec κ ω (Machine κ τ) :=
  let counted := { m with steps := m.steps + 1 }
  match p with
  | .pure value => pure { counted with mode := .deliver value }
  | .get => pure { counted with mode := .deliver m.state }
  | .put state => pure { counted with mode := .deliver .null, state := state }
  | .modify f => do
      let state ← host.applyMapper f m.state
      pure { counted with mode := .deliver .null, state := state }
  | .generator _ r => pure { counted with mode := .deliver .null, stack := .fresh r :: m.stack }
  | .foreign _ => Exec.fail .unknownProgram
  | .foreignEffect _ => Exec.fail .unknownEffect

def deliver (host : Host κ τ ω lacking) (value : Value κ) (top : Frame κ τ) (below : List (Frame κ τ))
    (m : Machine κ τ) : Exec κ ω (Machine κ τ) := do
  match ← top.resume host value with
  | .returned result => pure { m with mode := .deliver result, stack := below }
  | .yielded (.program p) rest => pure { m with mode := .take p, stack := rest :: below }
  | .yielded other rest =>
      rest.close host
      Exec.fail (.yieldedNonProgram other.typeName)

def step (host : Host κ τ ω lacking) (m : Machine κ τ) : Exec κ ω (Machine κ τ ⊕ Finished κ) :=
  match m.mode with
  | .take p => Sum.inl <$> m.take host p
  | .deliver value =>
      match m.stack with
      | [] => pure (.inr ⟨value, m.state, m.steps⟩)
      | top :: below => Sum.inl <$> m.deliver host value top below

/-- The generators that stay suspended when a step raises an exception: a generator that is sent a value
has ended by then. -/
def suspended (m : Machine κ τ) : List (Frame κ τ) :=
  match m.mode with
  | .take _ => m.stack
  | .deliver _ => m.stack.tail

def closeAll (host : Host κ τ ω lacking) : List (Frame κ τ) → Exec κ ω Unit
  | [] => pure ()
  | frame :: rest => do
      frame.close host
      closeAll host rest

def stepOrUnwind (host : Host κ τ ω lacking) (m : Machine κ τ) : Exec κ ω (Machine κ τ ⊕ Finished κ) :=
  tryCatch (m.step host) fun
    | .raised exception => do
        closeAll host m.suspended
        Exec.raise exception
    | .exhausted => throw .exhausted

def drive (host : Host κ τ ω lacking) : Nat → Machine κ τ → Exec κ ω (Finished κ)
  | 0, _ => throw .exhausted
  | fuel + 1, m => do
      match ← m.stepOrUnwind host with
      | .inl next => drive host fuel next
      | .inr finished => pure finished

end Machine

def Program.run (host : Host κ τ ω lacking) (fuel : Nat) (p : Program κ) (state : Value κ) :
    Exec κ ω (Value κ × Value κ) := do
  let finished ← (Machine.start p state).drive host fuel
  Exec.note (.programFinished finished.steps)
  return (finished.value, finished.state)

end Backtrack
