import Treewalk.Interner
import Treewalk.Arena

/-! Values: integers, booleans, null and closures.
A closure carries the arena of its body and the frame it was made in. -/
namespace Treewalk

abbrev FrameId := Nat

/-- A function value. Each evaluation of a function node makes a closure with an `id` of its own. -/
structure Closure where
  id : Nat
  params : List Name
  body : ExprId
  arena : SharedArena
  env : FrameId
deriving DecidableEq, Inhabited

namespace Closure

def arity (c : Closure) : Nat := c.params.length

/-- How a closure is shown: its parameters, and no body. -/
def signature (c : Closure) (names : Interner) : String :=
  "function(" ++ ",".intercalate (c.params.map names.lookup) ++ ") \x7b...\x7d;"

end Closure

inductive Value where
  | bool (b : Bool)
  | int (n : Int64)
  | null
  | closure (c : Closure)
deriving DecidableEq, Inhabited

namespace Value

def ofLiteral : Literal → Value
  | .int n => int n
  | .bool b => bool b
  | .null => null

def typeName : Value → String
  | bool _ => "bool"
  | int _ => "int"
  | null => "null"
  | closure _ => "function"

def asBool? : Value → Option Bool
  | bool b => some b
  | _ => none

def asInt? : Value → Option Int64
  | int n => some n
  | _ => none

def asClosure? : Value → Option Closure
  | closure c => some c
  | _ => none

/-- Equality of the language: scalars by content, closures by identity, and values of different
kinds never. -/
def equals : Value → Value → Bool
  | null, null => true
  | int a, int b => a == b
  | bool a, bool b => a == b
  | closure a, closure b => a.id == b.id
  | _, _ => false

def render (names : Interner) : Value → String
  | bool b => if b then "true" else "false"
  | int n => toString n.toInt
  | null => "null"
  | closure c => c.signature names

/-- The text that shows how a value is made up, without the texts of its names. -/
def debugText : Value → String
  | bool b => "Bool(" ++ (if b then "true" else "false") ++ ")"
  | int n => "Int(" ++ toString n.toInt ++ ")"
  | null => "Null"
  | closure c =>
    "Closure(ClosureValue \x7b params: [" ++ ", ".intercalate (c.params.map Name.debugText) ++
      "], body: ExprId(" ++ toString c.body ++ "), .. \x7d)"

end Value
end Treewalk
