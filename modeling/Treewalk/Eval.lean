import Treewalk.Arithmetic
import Treewalk.Eval.Monad

/-! The tree-walking evaluator: one rule for each kind of node.
Operands and arguments are evaluated left to right, and nothing is skipped. Recursion is bounded by
a fuel that counts nesting depth and, apart, the rounds of each loop. -/
namespace Treewalk

/-- What evaluation reads: the texts of names, the arena of the current code, and the number of
enclosing applications. -/
structure Interpreter where
  names : Interner
  arena : SharedArena
  depth : Nat := 0

abbrev Evaluator := Interpreter → FrameId → ExprId → EvalM Value

namespace Interpreter

/-- A condition must be a bool; `construct` names the node that asks. -/
@[inline]
def evalCondition (sub : Evaluator) (it : Interpreter) (e : FrameId) (cond : ExprId)
    (construct : String) : EvalM Bool := do
  match ← sub it e cond with
  | .bool b => pure b
  | v => EvalM.raise (.nonBoolCondition construct v.typeName)

/-- A loop opens no frame. Its value is that of the last round, or null if there was none. -/
@[specialize]
def evalLoop (sub : Evaluator) (it : Interpreter) (e : FrameId) (cond body : ExprId) :
    (fuel : Nat) → (last : Value) → (rounds : Nat) → EvalM Value
  | 0, _, _ => throw .outOfFuel
  | fuel + 1, last, rounds => do
    if ← evalCondition sub it e cond "while" then
      let last ← sub it e body
      evalLoop sub it e cond body fuel last (rounds + 1)
    else
      EvalM.log (.loopFinished rounds)
      pure last

/-- A new name is bound in the current frame, and nowhere else. -/
def declare (it : Interpreter) (e : FrameId) (n : Name) (v : Value) : EvalM Unit := do
  let text := it.names.lookup n
  EvalM.declare e n v text
  EvalM.log (.declared text)

/-- The nearest binding is overwritten. A name that nothing binds becomes global, whatever frame
the assignment runs in. -/
def assign (it : Interpreter) (e : FrameId) (n : Name) (v : Value) : EvalM Unit := do
  if ((← get).store.resolve? e n).isSome then
    modify (·.update e n v)
  else
    let text := it.names.lookup n
    EvalM.log (.undeclaredAssigned text)
    EvalM.declare ((← get).store.global e) n v text

def bindParams (it : Interpreter) (e : FrameId) (bindings : List (Name × Value)) : EvalM Unit :=
  bindings.forM fun (n, v) => EvalM.declare e n v (it.names.lookup n)

/-- Apply a closure to values. Its body runs in the arena it was made in, in a new frame inside the
one it captured. Only an error of the body gets a note. -/
@[specialize]
def apply (sub : Evaluator) (it : Interpreter) (c : Closure) (args : List Value) : EvalM Value := do
  EvalM.log (.apply args.length it.depth)
  if args.length = c.arity then
    let frame ← EvalM.lift (State.onStore (Store.child c.env))
    it.bindParams frame (c.params.zip args)
    EvalM.noting (fun _ => "in call to " ++ c.signature it.names)
      (sub { it with arena := c.arena, depth := it.depth + 1 } frame c.body)
  else
    EvalM.raise (.arityMismatch c.arity args.length)

/-- The rule of each kind of node, over an evaluator of the nodes below it. -/
@[specialize]
def evalNode (fuel : Nat) (sub : Evaluator) (it : Interpreter) (e : FrameId) (i : ExprId) :
    EvalM Value := do
  match ← EvalM.require (it.arena.arena.node? i) with
  | .literal l => pure (.ofLiteral l)
  | .ident n => return ((← get).store.resolve? e n).getD .null
  | .print operand =>
    let v ← sub it e operand
    EvalM.println (v.render it.names)
    pure v
  | .binary op left right =>
    let l ← sub it e left
    let r ← sub it e right
    EvalM.ofExcept (op.eval l r)
  | .ifElse cond yes no =>
    if ← evalCondition sub it e cond "if" then sub it e yes
    else match no with
      | some no => sub it e no
      | none => pure .null
  | .loop cond body => evalLoop sub it e cond body fuel .null 0
  | .seq first second =>
    let _ ← sub it e first
    sub it e second
  | .declare n value =>
    let v ← sub it e value
    it.declare e n v
    pure v
  | .assign n value =>
    let v ← sub it e value
    it.assign e n v
    pure v
  | .function span body =>
    let params ← EvalM.require (it.arena.arena.params? span)
    EvalM.lift (State.newClosure params body it.arena e)
  | .call callee span =>
    match ← sub it e callee with
    | .closure c =>
      let ids ← EvalM.require (it.arena.arena.args? span)
      let args ← ids.mapM (sub it e)
      apply sub it c args
    | v => EvalM.raise (.notCallable v.typeName)

/-- Evaluate a node. The fuel bounds the nesting of evaluations and the rounds of every loop. -/
def eval : (fuel : Nat) → Evaluator
  | 0, _, _, _ => throw .outOfFuel
  | fuel + 1, it, e, i => evalNode fuel (eval fuel) it e i

/-- Apply a value to arguments, by the rules of a call node. -/
def call (fuel : Nat) (it : Interpreter) (callee : Value) (args : List Value) : EvalM Value :=
  match callee with
  | .closure c => apply (eval fuel) it c args
  | v => EvalM.raise (.notCallable v.typeName)

def evaluate (fuel : Nat) (it : Interpreter) (e : FrameId) (root : ExprId) : EvalM Value := do
  EvalM.log .evaluate
  eval fuel it e root

/-- Fuel that no run on a real machine lives to use up. -/
def ampleFuel : Nat := Nat.pow 2 62

end Interpreter
end Treewalk
