import Treewalk.Error
import Treewalk.State

/-! The monad of evaluation: a state that survives every way of stopping early. -/
namespace Treewalk

inductive Stop where
  /-- The program is at fault. -/
  | raised (error : EvalError)
  /-- An id or a span points outside its arena. -/
  | fault
  | outOfFuel
deriving DecidableEq

/-- Evaluation changes the state, and keeps what it changed when it stops early. -/
abbrev EvalM := EStateM Stop State

namespace EvalM

def raise {α : Type} (kind : ErrorKind) : EvalM α := throw (.raised { kind })

def log (entry : TraceEntry) : EvalM Unit := modify (·.log entry)

def println (line : String) : EvalM Unit := modify (·.println line)

/-- Part of an arena that has to be there. -/
def require {α : Type} : Option α → EvalM α
  | some a => pure a
  | none => throw .fault

def ofExcept {α : Type} : Except ErrorKind α → EvalM α
  | .ok a => pure a
  | .error kind => raise kind

def lift {α : Type} (m : StateM State α) : EvalM α := fun st =>
  let (a, st) := m st
  .ok a st

/-- Bind a name in one frame; `text` names it in the error if the frame binds it already. -/
def declare (e : FrameId) (n : Name) (v : Value) (text : String) : EvalM Unit :=
  fun ⟨store, next, channel, trace⟩ =>
    match store.declare e n v with
    | .ok () store => .ok () ⟨store, next, channel, trace⟩
    | .error _ store =>
      .error (.raised { kind := .duplicateDeclaration text }) ⟨store, next, channel, trace⟩

@[inline]
def noting {α : Type} (note : Unit → String) (m : EvalM α) : EvalM α := fun st =>
  match m st with
  | .error (.raised error) st => .error (.raised (error.addNote (note ()))) st
  | r => r

end EvalM
end Treewalk
