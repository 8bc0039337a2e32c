namespace Backtrack.Script

inductive Primitive where
  | list | tuple | dict
  | add | subtract | multiply | divide | remainder
  | less | equal | negate | truth
  | length | index | drop
  | text | literal | number | isDigit
  | lookUp | insert
  | log | inOrder | range | fold | each | call | raise
  deriving DecidableEq, Repr

inductive Combinator where
  | ok | err | errorTree | leaf | outcome
  | wrap | inject | liftResult
  | bind | fmap | apply | sequence | traverse
  | altOr | altOrRightAssoc | choice | altOrRightAssocOf | choiceOf
  | error | abort | attempt | get | put | modify
  | run | runPair | runProgram
  | pureProgram | getProgram | putProgram | modifyProgram
  | shortRepr
  | bar | power | atSign
  | receive | signature
  | foreignProgram | foreignEffect
  deriving DecidableEq, Repr

inductive Member where
  | isOk | isErr | ok | err | unwrap | unwrapErr
  | map | mapErr | unwrapOr | unwrapOrElse | andThen
  | value | error
  | children | isLeaf | leaf | withChild | walk | values | size | depth | render
  | flatMap | pure | state
  | program | apply | orElse | run
  | result | aborted | errorTree | finalState | display
  deriving DecidableEq, Repr

inductive Operation where
  | primitive (p : Primitive)
  | combinator (c : Combinator)
  | member (m : Member)
  deriving DecidableEq, Repr

def Primitive.names : List (String × Primitive) := [
  ("list", .list), ("tuple", .tuple), ("dict", .dict),
  ("add", .add), ("sub", .subtract), ("mul", .multiply), ("div", .divide), ("mod", .remainder),
  ("lt", .less), ("eq", .equal), ("not", .negate), ("bool", .truth),
  ("len", .length), ("idx", .index), ("drop", .drop),
  ("str", .text), ("repr", .literal), ("int", .number), ("isdigit", .isDigit),
  ("dget", .lookUp), ("dset", .insert),
  ("log", .log), ("seq", .inOrder), ("range", .range), ("fold", .fold), ("each", .each),
  ("call", .call), ("raise", .raise)]

def Combinator.names : List (String × Combinator) := [
  ("Ok", .ok), ("Err", .err), ("ErrorTree", .errorTree), ("leaf", .leaf),
  ("ErrorTree.leaf", .leaf), ("RunResult", .outcome),
  ("Alternative", .wrap), ("Alternative.pure", .inject), ("inject", .inject),
  ("lift_result", .liftResult),
  ("bind", .bind), ("fmap", .fmap), ("apply", .apply), ("sequence", .sequence),
  ("traverse", .traverse),
  ("alt_or", .altOr), ("alt_or_right_assoc", .altOrRightAssoc), ("choice", .choice),
  ("alt_or_right_assoc*", .altOrRightAssocOf), ("choice*", .choiceOf),
  ("error", .error), ("abort", .abort), ("catch", .attempt), ("get", .get), ("put", .put),
  ("modify", .modify),
  ("run", .run), ("run_alternative", .runPair), ("run_state", .runProgram),
  ("Pure", .pureProgram), ("StateProgram.pure", .pureProgram),
  ("Get", .getProgram), ("get_state", .getProgram),
  ("Put", .putProgram), ("put_state", .putProgram), ("Modify", .modifyProgram),
  ("short_repr", .shortRepr),
  ("|", .bar), ("**", .power), ("@", .atSign),
  ("bindself", .receive), ("meta", .signature),
  ("alien_program", .foreignProgram), ("alien_effect", .foreignEffect)]

/-- The name of each member, without the dot that scripts write before it. -/
def Member.text : Member → String
  | isOk => "is_ok"
  | isErr => "is_err"
  | ok => "ok"
  | err => "err"
  | unwrap => "unwrap"
  | unwrapErr => "unwrap_err"
  | map => "map"
  | mapErr => "map_err"
  | unwrapOr => "unwrap_or"
  | unwrapOrElse => "unwrap_or_else"
  | andThen => "and_then"
  | value => "value"
  | error => "error"
  | children => "children"
  | isLeaf => "is_leaf"
  | leaf => "leaf"
  | withChild => "with_child"
  | walk => "walk"
  | values => "values"
  | size => "size"
  | depth => "depth"
  | render => "render"
  | flatMap => "flat_map"
  | pure => "pure"
  | state => "state"
  | program => "program"
  | apply => "apply"
  | orElse => "or_else"
  | run => "run"
  | result => "result"
  | aborted => "aborted"
  | errorTree => "error_tree"
  | finalState => "final_state"
  | display => "display"

def Member.all : List Member :=
  [isOk, isErr, ok, err, unwrap, unwrapErr, map, mapErr, unwrapOr, unwrapOrElse, andThen, value,
    error, children, isLeaf, leaf, withChild, walk, values, size, depth, render, flatMap, pure, state,
    program, apply, orElse, run, result, aborted, errorTree, finalState, display]

namespace Operation

def ofName? (name : String) : Option Operation :=
  match Primitive.names.lookup name with
  | some p => some (primitive p)
  | none =>
      match Combinator.names.lookup name with
      | some c => some (combinator c)
      | none => (Member.all.find? fun m => "." ++ m.text == name).map member

end Operation

end Backtrack.Script
