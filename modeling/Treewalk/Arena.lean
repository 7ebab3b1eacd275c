import Treewalk.Name
import Treewalk.Operator

/-! Arenas: expression nodes that point to each other by id.
Argument and parameter lists are kept in two flat tables, and a node holds the span of its list. -/
namespace Treewalk

inductive Literal where
  | int (n : Int64)
  | bool (b : Bool)
  | null
deriving DecidableEq, Inhabited

abbrev ExprId := Nat

/-- A stretch of a flat table. -/
structure Span where
  start : Nat
  length : Nat
deriving DecidableEq, Inhabited

namespace Span

/-- The span of every empty list, wherever the table ends. -/
def empty : Span := ⟨0, 0⟩

def isEmpty (s : Span) : Bool := s.length == 0

/-- The entries of a table that a span covers, unless it reaches past the end.
An empty span covers nothing, whatever its start. -/
def read? {α : Type} (s : Span) (table : Array α) : Option (List α) :=
  if s.length = 0 then some []
  else if s.start + s.length ≤ table.size then
    some (table.extract s.start (s.start + s.length)).toList
  else none

theorem read?_eq_none_iff {α : Type} (s : Span) (table : Array α) :
    s.read? table = none ↔ s.length ≠ 0 ∧ table.size < s.start + s.length := by
  unfold read?
  by_cases hz : s.length = 0
  · simp [hz]
  · by_cases hs : s.start + s.length ≤ table.size
    · simp [hz, hs]
    · simp [hz, hs, Nat.lt_of_not_le hs]

end Span

inductive Node where
  | literal (value : Literal)
  | ident (name : Name)
  | print (operand : ExprId)
  | binary (op : Operator) (left right : ExprId)
  | ifElse (cond yes : ExprId) (no : Option ExprId)
  | loop (cond body : ExprId)
  | seq (first second : ExprId)
  | declare (name : Name) (value : ExprId)
  | assign (name : Name) (value : ExprId)
  | function (params : Span) (body : ExprId)
  | call (callee : ExprId) (args : Span)
deriving DecidableEq, Inhabited

inductive ListKind where
  | argument
  | parameter
deriving DecidableEq

/-- A list with more entries than the length of a span may count. -/
structure ListTooLong where
  kind : ListKind
  length : Nat
deriving DecidableEq

namespace ListTooLong

def message (e : ListTooLong) : String :=
  let list := match e.kind with
    | .argument => "argument list"
    | .parameter => "parameter list"
  list ++ " too long: " ++ toString e.length ++ " exceeds u16::MAX"

end ListTooLong

/-- Nodes by id, and the flat tables of arguments and parameters. -/
structure Arena where
  nodes : Array Node := #[]
  argTable : Array ExprId := #[]
  paramTable : Array Name := #[]
deriving DecidableEq, Inhabited

namespace Arena

def maxListLength : Nat := 65535

def empty : Arena := {}

def size (a : Arena) : Nat := a.nodes.size

def node? (a : Arena) (i : ExprId) : Option Node := a.nodes[i]?

def args? (a : Arena) (s : Span) : Option (List ExprId) := s.read? a.argTable

def params? (a : Arena) (s : Span) : Option (List Name) := s.read? a.paramTable

/-- Add a node; its id is the number of nodes before it. -/
def alloc (n : Node) : StateM Arena ExprId := fun a =>
  (a.nodes.size, { a with nodes := a.nodes.push n })

/-- Add an argument list. An oversized list is refused only after it has been stored, so the table
keeps it; later spans start behind it. -/
def allocArgs (ids : List ExprId) : EStateM ListTooLong Arena Span := fun a =>
  if ids.isEmpty then .ok .empty a
  else
    let span : Span := ⟨a.argTable.size, ids.length⟩
    let a := { a with argTable := a.argTable ++ ids }
    if span.length ≤ maxListLength then .ok span a else .error ⟨.argument, span.length⟩ a

def allocParams (names : List Name) : EStateM ListTooLong Arena Span := fun a =>
  if names.isEmpty then .ok .empty a
  else
    let span : Span := ⟨a.paramTable.size, names.length⟩
    let a := { a with paramTable := a.paramTable ++ names }
    if span.length ≤ maxListLength then .ok span a else .error ⟨.parameter, span.length⟩ a

theorem node?_alloc (n : Node) (a : Arena) (i : ExprId) :
    (alloc n a).2.node? i = if i = a.size then some n else a.node? i := by
  exact Array.getElem?_push

theorem node?_eq_none_iff (a : Arena) (i : ExprId) : a.node? i = none ↔ a.size ≤ i := by
  simp [node?, size]

end Arena

/-- A finished arena that many closures and interpreters refer to. Two of them are the same one
exactly when their ids agree. -/
structure SharedArena where
  id : Nat
  arena : Arena
deriving DecidableEq, Inhabited

namespace SharedArena

def same (a b : SharedArena) : Bool := a.id == b.id

end SharedArena
end Treewalk
