import Backtrack.Proofs.Sequencing
import Mathlib.Data.List.Forall2

/-! Equal alternatives, and contexts. Two alternatives are equal if nothing but the number of steps tells
their runs apart. One is exchanged for another in a context if they are built alike, layer by layer, from
equal ones. -/

namespace Backtrack

variable {κ τ ω : Type}

/-- What a relation of worlds needs to stand for the same trace. -/
structure World.Observing (R : World ω → World ω → Prop) : Prop where
  refl : ∀ world, R world world
  noted : ∀ first second, R first second → ∀ entry, R (first.noted entry) (second.noted entry)

theorem World.Observing.symm {R : World ω → World ω → Prop} (hObserving : World.Observing R) :
    World.Observing (flip R) where
  refl := hObserving.refl
  noted first second hRelated := hObserving.noted second first hRelated

theorem World.observing_eq : World.Observing (Eq (α := World ω)) where
  refl _ := rfl
  noted _ _ hSame entry := congrArg (World.noted · entry) hSame

def Ending.manner : Ending κ → Ending κ
  | returned value state _ => returned value state 0
  | raised exception => raised exception
  | replaced exception => replaced exception

@[simp] theorem Ending.manner_after (spent : Nat) (ending : Ending κ) :
    (ending.after spent).manner = ending.manner := by
  cases ending <;> rfl

theorem Ending.result_eq_of_manner {ending other : Ending κ} (hSame : other.manner = ending.manner) :
    other.outcome.result = ending.outcome.result := by
  cases ending <;> cases other <;> cases hSame <;> rfl

theorem Ending.raised_of_manner {other : Ending κ} {exception : Raised κ}
    (hSame : other.manner = (raised exception).manner) : other = raised exception := by
  cases other <;> cases hSame
  rfl

theorem Ending.replaced_of_manner {other : Ending κ} {exception : Raised κ}
    (hSame : other.manner = (replaced exception).manner) : other = replaced exception := by
  cases other <;> cases hSame
  rfl

theorem Ending.returned_of_manner {other : Ending κ} {value state : Value κ} {cost : Nat}
    (hSame : other.manner = (returned value state cost).manner) :
    ∃ spent, other = returned value state spent := by
  cases other <;> cases hSame
  exact ⟨_, rfl⟩

theorem Ending.Settled.after {ending : Ending κ} (hSettled : ending.Settled) (spent : Nat) :
    (ending.after spent).Settled := by
  cases ending with
  | returned => exact hSettled
  | raised | replaced => trivial

/-- An evaluation of what is evaluated in the second place that ends like the given one. -/
def Ending.MetBy (R : World ω → World ω → Prop) (host : Host κ τ ω) (ending : Ending κ)
    (final : World ω) (activity : Activity κ τ) (state : Value κ) (world : World ω) : Prop :=
  ∃ other last, Evaluates host activity state world other last ∧
    other.manner = ending.manner ∧ R final last

/-- The second program comes to whatever the first one comes to, from any state pair. -/
def Program.Simulated (R : World ω → World ω → Prop) (host : Host κ τ ω) (p q : Program κ) : Prop :=
  ∀ user flag first second ending final, R first second →
    Evaluates host (.program p) (.pair user (.bool flag)) first ending final →
    ending.MetBy R host final (.program q) (.pair user (.bool flag)) second

def Program.Produces (host : Host κ τ ω) (p : Program κ) (value : Value κ) : Prop :=
  ∃ user flag world state cost final, Evaluates host (.program p) (.pair user (.bool flag)) world
    (.returned value state cost) final

inductive Value.Exchanges (M : Alternative κ → Alternative κ → Prop) : Value κ → Value κ → Prop where
  | alternatives {mark other p q} : M ⟨p⟩ ⟨q⟩ →
      Exchanges M (.alternative mark p) (.alternative other q)
  | others {value other} : (∀ mark p, value ≠ .alternative mark p) →
      (∀ mark p, other ≠ .alternative mark p) → value.typeName = other.typeName →
      Exchanges M value other

theorem Value.Exchanges.imp {M N : Alternative κ → Alternative κ → Prop} {value other : Value κ}
    (hExchanges : Exchanges M value other) (hWeaker : ∀ a b, M a b → N a b) :
    Exchanges N value other := by
  cases hExchanges with
  | alternatives hHeld => exact .alternatives (hWeaker _ _ hHeld)
  | others hStray hOtherStray hSame => exact .others hStray hOtherStray hSame

theorem Value.Exchanges.symm {M : Alternative κ → Alternative κ → Prop} {value other : Value κ}
    (hExchanges : Exchanges M value other) : Exchanges (flip M) other value := by
  cases hExchanges with
  | alternatives hHeld => exact .alternatives hHeld
  | others hStray hOtherStray hSame => exact .others hOtherStray hStray hSame.symm

inductive Step.Exchanges (M : Alternative κ → Alternative κ → Prop) (B : τ → τ → Prop) :
    Step κ τ → Step κ τ → Prop where
  | returned {value} : Exchanges M B (.returned value) (.returned value)
  | yielded {value other t u} : value.Exchanges M other → B t u →
      Exchanges M B (.yielded value t) (.yielded other u)

inductive Started.Exchanges (B : τ → τ → Prop) : Started κ τ → Started κ τ → Prop where
  | value {value} : Exchanges B (.value value) (.value value)
  | coroutine {t u} : B t u → Exchanges B (.coroutine t) (.coroutine u)

namespace Host

def BindsAlike (R : World ω → World ω → Prop) (host : Host κ τ ω)
    (M : Alternative κ → Alternative κ → Prop) (f g : Callable κ) : Prop :=
  ∀ value first second, R first second →
    Exec.MatchesBy (Value.Exchanges M) R (host.invoke f [value] first) (host.invoke g [value] second)

def MapsAlike (R : World ω → World ω → Prop) (host : Host κ τ ω) (f g : Callable κ) : Prop :=
  ∀ value first second, R first second →
    Exec.MatchesBy (· = ·) R (host.invoke f [value] first) (host.invoke g [value] second)

structure RunsBodiesAlike (R : World ω → World ω → Prop) (host : Host κ τ ω)
    (M : Alternative κ → Alternative κ → Prop) (B : τ → τ → Prop) : Prop where
  resume : ∀ t u, B t u → ∀ value first second, R first second →
    Exec.MatchesBy (Step.Exchanges M B) R (host.resume t value first) (host.resume u value second)
  close : ∀ t u, B t u → ∀ first second, R first second →
    Exec.MatchesBy (· = ·) R (host.close t first) (host.close u second)

variable {R : World ω → World ω → Prop} {host : Host κ τ ω}
  {M N : Alternative κ → Alternative κ → Prop} {B : τ → τ → Prop} {f g : Callable κ}

theorem BindsAlike.imp (hAlike : host.BindsAlike R M f g) (hWeaker : ∀ a b, M a b → N a b) :
    host.BindsAlike R N f g :=
  fun value first second hRelated => (hAlike value first second hRelated).imp
    fun _ _ hExchanges => hExchanges.imp hWeaker

theorem BindsAlike.symm (hAlike : host.BindsAlike R M f g) :
    host.BindsAlike (flip R) (flip M) g f :=
  fun value first second hRelated => (hAlike value second first hRelated).symm.imp
    fun _ _ hExchanges => hExchanges.symm

theorem MapsAlike.symm (hAlike : host.MapsAlike R f g) : host.MapsAlike (flip R) g f :=
  fun value first second hRelated => (hAlike value second first hRelated).symm.imp
    fun _ _ hSame => hSame.symm

theorem RunsBodiesAlike.imp (hAlike : host.RunsBodiesAlike R M B) (hWeaker : ∀ a b, M a b → N a b) :
    host.RunsBodiesAlike R N B where
  resume t u hBoth value first second hRelated := by
    refine (hAlike.resume t u hBoth value first second hRelated).imp fun _ _ hExchanges => ?_
    cases hExchanges with
    | returned => exact .returned
    | yielded hValues hRest => exact .yielded (hValues.imp hWeaker) hRest
  close := hAlike.close

theorem RunsBodiesAlike.symm (hAlike : host.RunsBodiesAlike R M B) :
    host.RunsBodiesAlike (flip R) (flip M) (flip B) where
  resume t u hBoth value first second hRelated := by
    refine (hAlike.resume u t hBoth value second first hRelated).symm.imp fun _ _ hExchanges => ?_
    cases hExchanges with
    | returned => exact .returned
    | yielded hValues hRest => exact .yielded hValues.symm hRest
  close t u hBoth first second hRelated :=
    (hAlike.close u t hBoth second first hRelated).symm.imp fun _ _ hSame => hSame.symm

end Host

namespace Alternative

/-- The alternatives are well-behaved and equal: from every state pair, in corresponding worlds, each comes
to the result, state and exception that the other comes to. An exception that is raised while generators are
closed is told apart from the others, as it keeps those below from being closed. -/
structure Equal (R : World ω → World ω → Prop) (host : Host κ τ ω) (a b : Alternative κ) : Prop where
  behaved : a.WellBehaved host
  otherBehaved : b.WellBehaved host
  into : Program.Simulated R host a.program b.program
  back : Program.Simulated (flip R) host b.program a.program

/-- The alternatives are well-behaved, and from every state pair, in corresponding worlds, both come to the
same results, states and exceptions. -/
structure Indistinct (R : World ω → World ω → Prop) (host : Host κ τ ω) (a b : Alternative κ) : Prop where
  behaved : a.WellBehaved host
  otherBehaved : b.WellBehaved host
  alike : a.RunsLike R host b

/-- The functions that the alternative succeeds with do alike in corresponding worlds. -/
def GivesMaps (R : World ω → World ω → Prop) (host : Host κ τ ω) (a : Alternative κ) : Prop :=
  ∀ f, a.program.Produces host (.ok (.callable f)) → host.MapsAlike R f f

/-- One layer of a context, around alternatives that the relation holds of. Functions are compared point
by point, with what their calls do. -/
inductive Layer (R : World ω → World ω → Prop) (host : Host κ τ ω)
    (M : Alternative κ → Alternative κ → Prop) : Alternative κ → Alternative κ → Prop where
  | bind {a b : Alternative κ} {f g : Callable κ} :
      M a b → host.BindsAlike R M f g → Layer R host M (bind a f) (bind b g)
  | fmap {a b : Alternative κ} {f g : Callable κ} :
      M a b → host.MapsAlike R f g → Layer R host M (fmap f a) (fmap g b)
  | apply {f g a b : Alternative κ} :
      M f g → f.GivesMaps R host → M a b → Layer R host M (apply f a) (apply g b)
  | sequence {as bs : List (Alternative κ)} :
      List.Forall₂ M as bs → Layer R host M (sequence as) (sequence bs)
  | traverse (items : List (Value κ)) {f g : Callable κ} :
      host.BindsAlike R M f g → Layer R host M (traverse items f) (traverse items g)
  | altOr {a b c d : Alternative κ} : M a c → M b d → Layer R host M (altOr a b) (altOr c d)
  | choice {a b : Alternative κ} {as bs : List (Alternative κ)} :
      M a b → List.Forall₂ M as bs → Layer R host M (choice a as) (choice b bs)
  | altOrRightAssoc {a b : Alternative κ} {as bs : List (Alternative κ)} :
      M a b → List.Forall₂ M as bs → Layer R host M (altOrRightAssoc a as) (altOrRightAssoc b bs)
  | ofCall {f g : DoFunction κ} {args others : List (Value κ)} {B : τ → τ → Prop} :
      f.name = g.name →
      (∀ first second, R first second → Exec.MatchesBy (Started.Exchanges B) R
        (host.start f.code args first) (host.start g.code others second)) →
      host.RunsBodiesAlike R M B → Layer R host M (ofCall f args) (ofCall g others)

/-- The second alternative is the first one with alternatives in the holes of a context exchanged for related
ones. -/
inductive Exchanged (E : Alternative κ → Alternative κ → Prop) (R : World ω → World ω → Prop)
    (host : Host κ τ ω) : Alternative κ → Alternative κ → Prop where
  | hole {a b : Alternative κ} : E a b → Exchanged E R host a b
  | layer {a b : Alternative κ} {M : Alternative κ → Alternative κ → Prop} :
      (∀ c d, M c d → Exchanged E R host c d) → Layer R host M a b → Exchanged E R host a b

theorem Exchanged.imp {E F : Alternative κ → Alternative κ → Prop} {R : World ω → World ω → Prop}
    {host : Host κ τ ω} {a b : Alternative κ} (hExchanged : Exchanged E R host a b)
    (hWeaker : ∀ c d, E c d → F c d) : Exchanged F R host a b := by
  induction hExchanged with
  | hole hHeld => exact .hole (hWeaker _ _ hHeld)
  | layer _ hLayer ih => exact .layer ih hLayer

theorem Equal.symm {R : World ω → World ω → Prop} {host : Host κ τ ω} {a b : Alternative κ}
    (hEqual : Equal R host a b) : Equal (flip R) host b a :=
  ⟨hEqual.otherBehaved, hEqual.behaved, hEqual.back, hEqual.into⟩

end Alternative

end Backtrack
