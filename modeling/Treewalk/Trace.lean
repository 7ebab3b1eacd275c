import Treewalk.Name

/-! The trace of a run: spans that were opened and events that happened, in order. -/
namespace Treewalk

inductive TraceEntry where
  /-- A whole program begins. -/
  | evaluate
  /-- A function is applied, before its arity is checked, inside `depth` other applications. -/
  | apply (args depth : Nat)
  /-- A declaration succeeded. -/
  | declared (name : String)
  /-- A loop ended because its condition was false. -/
  | loopFinished (iterations : Nat)
  /-- An assignment found no binding and is about to make a global one. -/
  | undeclaredAssigned (name : String)
  /-- An update found no binding and is about to make a global one. -/
  | globalCreated (name : Name)
deriving DecidableEq

namespace TraceEntry

/-- Spans last; events happen. -/
def isSpan : TraceEntry → Bool
  | evaluate | apply .. => true
  | declared .. | loopFinished .. | undeclaredAssigned .. | globalCreated .. => false

def level : TraceEntry → String
  | declared .. | loopFinished .. => "TRACE"
  | evaluate | apply .. | undeclaredAssigned .. | globalCreated .. => "DEBUG"

def title : TraceEntry → String
  | evaluate => "evaluate"
  | apply .. => "apply"
  | declared .. => "declared"
  | loopFinished .. => "loop finished"
  | undeclaredAssigned .. => "assignment to undeclared name creates a global"
  | globalCreated .. => "update created global binding"

def fields : TraceEntry → List (String × String)
  | evaluate => []
  | apply args depth => [("args", toString args), ("depth", toString depth)]
  | declared name => [("name", name)]
  | loopFinished iterations => [("iterations", toString iterations)]
  | undeclaredAssigned name => [("name", name)]
  | globalCreated name => [("name", name.debugText)]

end TraceEntry
end Treewalk
