import Backtrack.Alternative.OfValues
import Backtrack.Value.Equality

namespace Backtrack

variable {κ : Type}

/-- Bitwise disjunction in two's complement. -/
def disjunction : Int → Int → Int
  | .ofNat a, .ofNat b => .ofNat (a ||| b)
  | .ofNat a, .negSucc b => .negSucc (b - (b &&& a))
  | .negSucc a, .ofNat b => .negSucc (a - (a &&& b))
  | .negSucc a, .negSucc b => .negSucc (a &&& b)

namespace Value

def unsupported (operator : Operator) (left right : Value κ) : Except (Fault κ) (Value κ) :=
  .error (.unsupportedOperands operator left.typeName right.typeName)

def bar (left right : Value κ) : Except (Fault κ) (Value κ) :=
  match left, right with
  | alternative _ first, alternative _ second =>
      .ok (Alternative.altOr ⟨first⟩ ⟨second⟩).toValue
  | bool a, bool b => .ok (bool (a || b))
  | dict type first, dict _ second =>
      .ok (dict type (second.foldl (fun merged entry => insertEntry entry.1 entry.2 merged) first))
  | _, _ =>
      match left.number?, right.number? with
      | some a, some b => .ok (int (disjunction a b))
      | _, _ => unsupported .bar left right

def power (left right : Value κ) : Except (Fault κ) (Value κ) :=
  match left, right with
  | alternative _ first, alternative _ second =>
      .ok (Alternative.altOrRightAssoc ⟨first⟩ [⟨second⟩]).toValue
  | _, _ =>
      match left.number?, right.number? with
      | some a, some (.ofNat n) => .ok (int (a.pow n))
      | _, _ => unsupported .power left right

def mapOnto (left right : Value κ) : Except (Fault κ) (Value κ) :=
  match left, right with
  | callable f, alternative _ p => .ok (Alternative.fmap f ⟨p⟩).toValue
  | _, _ => unsupported .atSign left right

end Value

end Backtrack
