import Treewalk.Tree
import Treewalk.Eval

/-! Running a whole program on its own: built with a new interner, evaluated in a new global frame. -/
namespace Treewalk

namespace State

/-- The bindings of one frame, with the texts of their names, in the order of the names. -/
def frame (st : State) (names : Interner) (e : FrameId) : List (String × Value) :=
  (st.store.toList e).map fun (n, v) => (names.lookup n, v)

end State

structure Run where
  outcome : Except Stop Value
  arena : Arena
  names : Interner
  globalFrame : FrameId
  state : State

namespace Run

def globals (r : Run) : List (String × Value) := r.state.frame r.names r.globalFrame

def split {ε α : Type} : EStateM.Result ε State α → Except ε α × State
  | .ok a st => (.ok a, st)
  | .error e st => (.error e, st)

/-- Evaluate one node of an arena in a new global frame. -/
def ofNode (names : Interner) (arena : SharedArena) (root : ExprId) (sink : Sink)
    (evaluate : Evaluator) : Run :=
  let (global, st) := (State.onStore Store.newGlobal) (State.new sink)
  let it : Interpreter := { names, arena }
  let (outcome, state) := split (evaluate it global root st)
  { outcome, arena := arena.arena, names, globalFrame := global, state }

end Run

namespace Program

def run (p : Program) (sink : Sink) : Except BuildError Run :=
  match p.build { names := .empty } with
  | .error e _ => .error e
  | .ok root ⟨arena, names⟩ =>
    .ok (Run.ofNode names { id := 0, arena } root sink
      (Interpreter.evaluate Interpreter.ampleFuel))

end Program
end Treewalk
