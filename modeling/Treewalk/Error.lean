import Treewalk.Operator

/-! Evaluation errors: a cause, and the calls it passed through on its way out. -/
namespace Treewalk

inductive ErrorCategory where
  | typeError
  | divisionByZero
  | duplicateDeclaration
  | arityError
  | unknownOperator
  | overflow
deriving DecidableEq

namespace ErrorCategory

def label : ErrorCategory → String
  | typeError => "TypeError"
  | divisionByZero => "DivisionByZero"
  | duplicateDeclaration => "DuplicateDeclaration"
  | arityError => "ArityError"
  | unknownOperator => "UnknownOperator"
  | overflow => "Overflow"

end ErrorCategory

inductive ErrorKind where
  /-- The condition of an `if` or a `while` was no bool. -/
  | nonBoolCondition (construct got : String)
  /-- An operator on integers met something else. -/
  | invalidOperands (op : Operator) (left right : String)
  /-- The value in callee position was no function. -/
  | notCallable (got : String)
  | divisionByZero (op : Operator)
  /-- A name was declared twice in one frame. -/
  | duplicateDeclaration (name : String)
  | arityMismatch (expected got : Nat)
  | unknownOperator (symbol : String)
  /-- A result left the range of 64-bit integers. -/
  | integerOverflow (op : Operator)
deriving DecidableEq

namespace ErrorKind

def category : ErrorKind → ErrorCategory
  | nonBoolCondition .. | invalidOperands .. | notCallable .. => .typeError
  | divisionByZero .. => .divisionByZero
  | duplicateDeclaration .. => .duplicateDeclaration
  | arityMismatch .. => .arityError
  | unknownOperator .. => .unknownOperator
  | integerOverflow .. => .overflow

/-- The name of the kind itself, finer than its category. -/
def label : ErrorKind → String
  | nonBoolCondition .. => "NonBoolCondition"
  | invalidOperands .. => "InvalidOperands"
  | notCallable .. => "NotCallable"
  | divisionByZero .. => "DivisionByZero"
  | duplicateDeclaration .. => "DuplicateDeclaration"
  | arityMismatch .. => "ArityMismatch"
  | unknownOperator .. => "UnknownOperator"
  | integerOverflow .. => "IntegerOverflow"

def message : ErrorKind → String
  | nonBoolCondition construct got => construct ++ " condition must be a bool, got " ++ got
  | invalidOperands op left right =>
    "operator `" ++ op.symbol ++ "` requires int operands, got " ++ left ++ " and " ++ right
  | notCallable got => got ++ " is not a function"
  | divisionByZero op => "division by zero in `" ++ op.symbol ++ "`"
  | duplicateDeclaration name => "`" ++ name ++ "` is already declared in this scope"
  | arityMismatch expected got =>
    "wrong number of arguments: expected " ++ toString expected ++ ", got " ++ toString got
  | unknownOperator symbol => "unknown operator: " ++ symbol
  | integerOverflow op => "integer overflow in `" ++ op.symbol ++ "`"

end ErrorKind

/-- A cause with its notes, the innermost call first. -/
structure EvalError where
  kind : ErrorKind
  notes : Array String := #[]
deriving DecidableEq

namespace EvalError

def addNote (e : EvalError) (note : String) : EvalError := { e with notes := e.notes.push note }

def category (e : EvalError) : ErrorCategory := e.kind.category

/-- The whole report: category, message, and a line for each note. -/
def display (e : EvalError) : String :=
  e.notes.foldl (fun text note => text ++ "\n  note: " ++ note)
    (e.category.label ++ ": " ++ e.kind.message)

end EvalError
end Treewalk
