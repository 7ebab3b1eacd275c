import Treewalk.Interner
import Treewalk.Arena

/-! Building arenas bottom-up.
Each call adds one node over ids that earlier calls returned, and interns the node's own names. -/
namespace Treewalk

inductive BuildError where
  | unknownOperator (symbol : String)
  | listTooLong (cause : ListTooLong)
  | unknownEntry (index : Nat)
deriving DecidableEq

/-- An arena in the making, and the interner that names its texts. -/
structure Builder where
  arena : Arena := .empty
  names : Interner

/-- What a failing call has added stays. -/
abbrev BuildM := EStateM BuildError Builder

namespace BuildM

def intern (s : String) : BuildM Name := fun ⟨arena, names⟩ =>
  let (n, names) := names.intern s
  .ok n ⟨arena, names⟩

def alloc (n : Node) : BuildM ExprId := fun ⟨arena, names⟩ =>
  let (i, arena) := arena.alloc n
  .ok i ⟨arena, names⟩

def allocList (m : EStateM ListTooLong Arena Span) : BuildM Span := fun ⟨arena, names⟩ =>
  match m arena with
  | .ok span arena => .ok span ⟨arena, names⟩
  | .error e arena => .error (.listTooLong e) ⟨arena, names⟩

def literal (l : Literal) : BuildM ExprId := alloc (.literal l)

def ident (s : String) : BuildM ExprId := do
  let n ← intern s
  alloc (.ident n)

def print (operand : ExprId) : BuildM ExprId := alloc (.print operand)

def binary (op : Operator) (left right : ExprId) : BuildM ExprId := alloc (.binary op left right)

def binarySymbol (symbol : String) (left right : ExprId) : BuildM ExprId :=
  match Operator.ofSymbol? symbol with
  | some op => binary op left right
  | none => throw (.unknownOperator symbol)

def ifElse (cond yes : ExprId) (no : Option ExprId) : BuildM ExprId := alloc (.ifElse cond yes no)

def loop (cond body : ExprId) : BuildM ExprId := alloc (.loop cond body)

def seq (first second : ExprId) : BuildM ExprId := alloc (.seq first second)

/-- Statements nest to the left; no statement at all is a null literal. -/
def block : List ExprId → BuildM ExprId
  | [] => literal .null
  | first :: rest => rest.foldlM seq first

def declare (s : String) (value : ExprId) : BuildM ExprId := do
  let n ← intern s
  alloc (.declare n value)

def assign (s : String) (value : ExprId) : BuildM ExprId := do
  let n ← intern s
  alloc (.assign n value)

def function (params : List String) (body : ExprId) : BuildM ExprId := do
  let names ← params.mapM intern
  let span ← allocList (Arena.allocParams names)
  alloc (.function span body)

def call (callee : ExprId) (args : List ExprId) : BuildM ExprId := do
  let span ← allocList (Arena.allocArgs args)
  alloc (.call callee span)

end BuildM
end Treewalk
