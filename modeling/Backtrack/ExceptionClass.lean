namespace Backtrack

inductive ExceptionClass where
  | base
  | interrupt
  | exit
  | generatorExit
  | exception
  | stopIteration
  | value
  | type
  | runtime
  | name
  | absentAttribute
  | lookup
  | key
  | index
  | arithmetic
  | zeroDivision
  | library
  | alternativeFailure
  deriving DecidableEq, Repr

namespace ExceptionClass

def all : List ExceptionClass :=
  [base, interrupt, exit, generatorExit, exception, stopIteration, value, type, runtime, name,
    absentAttribute, lookup, key, index, arithmetic, zeroDivision, library, alternativeFailure]

/-- The name under which a class is written and asked for. -/
def text : ExceptionClass → String
  | base => "BaseException"
  | interrupt => "KeyboardInterrupt"
  | exit => "SystemExit"
  | generatorExit => "GeneratorExit"
  | exception => "Exception"
  | stopIteration => "StopIteration"
  | value => "ValueError"
  | type => "TypeError"
  | runtime => "RuntimeError"
  | name => "NameError"
  | absentAttribute => "AttributeError"
  | lookup => "LookupError"
  | key => "KeyError"
  | index => "IndexError"
  | arithmetic => "ArithmeticError"
  | zeroDivision => "ZeroDivisionError"
  | library => "DochoiceError"
  | alternativeFailure => "AlternativeFailure"

def ofText? (text : String) : Option ExceptionClass :=
  all.find? fun c => c.text == text

def lineage : ExceptionClass → List ExceptionClass
  | base => [base]
  | interrupt => [interrupt, base]
  | exit => [exit, base]
  | generatorExit => [generatorExit, base]
  | exception => [exception, base]
  | stopIteration => [stopIteration, exception, base]
  | value => [value, exception, base]
  | type => [type, exception, base]
  | runtime => [runtime, exception, base]
  | name => [name, exception, base]
  | absentAttribute => [absentAttribute, exception, base]
  | lookup => [lookup, exception, base]
  | key => [key, lookup, exception, base]
  | index => [index, lookup, exception, base]
  | arithmetic => [arithmetic, exception, base]
  | zeroDivision => [zeroDivision, arithmetic, exception, base]
  | library => [library, exception, base]
  | alternativeFailure => [alternativeFailure, library, exception, base]

def isA (c ancestor : ExceptionClass) : Bool :=
  c.lineage.contains ancestor

@[simp] theorem isA_self (c : ExceptionClass) : c.isA c = true := by
  cases c <;> rfl

@[simp] theorem isA_base (c : ExceptionClass) : c.isA base = true := by
  cases c <;> rfl

end ExceptionClass

end Backtrack
