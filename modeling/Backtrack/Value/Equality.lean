import Backtrack.Value.Basic

/-! Equality of values is structural. A truth value equals the number 0 or 1 it stands for, and the
order of a dictionary's entries does not count. What has no parts to compare is equal if it has the same
mark; without one it equals nothing. -/

namespace Backtrack

variable {κ : Type}

def Value.number? : Value κ → Option Int
  | .bool b => some (if b then 1 else 0)
  | .int n => some n
  | _ => none

def sameMark : Mark → Mark → Bool
  | some a, some b => a == b
  | _, _ => false

mutual
def Value.equals : Value κ → Value κ → Bool
  | .null, .null => true
  | .bool a, other => other.number? == some (if a then 1 else 0)
  | .int n, other => other.number? == some n
  | .str a, .str b => a == b
  | .list xs, .list ys => Value.allEqual xs ys
  | .tuple xs, .tuple ys => Value.allEqual xs ys
  | .dict _ xs, .dict _ ys => xs.length == ys.length && Value.entriesWithin xs ys
  | .ok a, .ok b => a.equals b
  | .err a, .err b => a.equals b
  | .tree a xs, .tree b ys => a.equals b && Value.allEqual xs ys
  | .outcome a b c, .outcome x y z => a.equals x && b.equals y && c.equals z
  | .program p, .program q => p.equals q
  | .alternative a _, .alternative b _ => sameMark a b
  | .callable f, .callable g => f.equals g
  | _, _ => false

def Value.allEqual : List (Value κ) → List (Value κ) → Bool
  | [], [] => true
  | x :: xs, y :: ys => x.equals y && Value.allEqual xs ys
  | _, _ => false

/-- Every entry of the first dictionary has an equal one in the second. -/
def Value.entriesWithin : List (Value κ × Value κ) → List (Value κ × Value κ) → Bool
  | [], _ => true
  | (key, value) :: rest, entries =>
      entries.any (fun entry => key.equals entry.1 && value.equals entry.2) &&
        Value.entriesWithin rest entries

def Program.equals : Program κ → Program κ → Bool
  | .pure a, .pure b => a.equals b
  | .get, .get => true
  | .put a, .put b => a.equals b
  | .modify f, .modify g => f.equals g
  | .generator a _, .generator b _ => sameMark a b
  | .foreign a, .foreign b => sameMark a b
  | .foreignEffect a, .foreignEffect b => sameMark a b
  | _, _ => false

/-- A mapper is known if it is a function of the caller's. -/
def Mapper.equals : Mapper κ → Mapper κ → Bool
  | .call f, .call g => f.equals g
  | _, _ => false

def Callable.equals : Callable κ → Callable κ → Bool
  | .code a _, .code b _ => sameMark a b
  | .doFunction f, .doFunction g => sameMark f.mark g.mark
  | .method f x, .method g y => sameMark f.mark g.mark && x.equals y
  | _, _ => false
end

namespace Value

def find? (key : Value κ) (entries : List (Value κ × Value κ)) : Option (Value κ) :=
  (entries.find? fun entry => key.equals entry.1).map Prod.snd

/-- An equal key keeps its place and takes the new value; a new key comes last. -/
def insertEntry (key value : Value κ) :
    List (Value κ × Value κ) → List (Value κ × Value κ)
  | [] => [(key, value)]
  | entry :: rest =>
      if key.equals entry.1 then (entry.1, value) :: rest
      else entry :: insertEntry key value rest

end Value

end Backtrack
