import Treewalk.Run
import Treewalk.Proofs.FrameStore

/-! What each step of evaluation does to the state, as equations that later proofs rewrite with.
No proof after this one opens the monad of evaluation or the rules of its nodes. -/
namespace Treewalk

namespace State

def bind (st : State) (e : FrameId) (n : Name) (v : Value) : State :=
  { st with store := st.store.bind e n v }

def bindAll (st : State) (e : FrameId) (bindings : List (Name × Value)) : State :=
  { st with store := st.store.bindAll e bindings }

def child (st : State) (e : FrameId) : State := { st with store := (Store.child e st.store).2 }

/-- A state whose only frame is a global one that binds nothing. -/
def fresh (sink : Sink) : State := { State.new sink with store := (Store.newGlobal .empty).2 }

theorem wellFormed_fresh (sink : Sink) : (fresh sink).store.WellFormed :=
  Store.WellFormed.empty.push (by simp)

theorem get?_fresh (sink : Sink) (e : FrameId) (n : Name) : (fresh sink).store.get? e n = none := by
  have hempty : (fresh sink).store.get? e n = Store.empty.get? e n := Store.get?_push ..
  rw [hempty]
  rfl

theorem mem_frame_iff {st : State} {names : Interner} {e : FrameId} {s : String} {v : Value} :
    (s, v) ∈ st.frame names e ↔ ∃ n, names.lookup n = s ∧ st.store.get? e n = some v := by
  simp [frame, Store.mem_toList_iff, and_comm]

@[simp] theorem store_log (st : State) (t : TraceEntry) : (st.log t).store = st.store := rfl
@[simp] theorem store_println (st : State) (line : String) : (st.println line).store = st.store := rfl
@[simp] theorem store_bind (st : State) (e : FrameId) (n : Name) (v : Value) :
    (st.bind e n v).store = st.store.bind e n v := rfl
@[simp] theorem store_bindAll (st : State) (e : FrameId) (bindings : List (Name × Value)) :
    (st.bindAll e bindings).store = st.store.bindAll e bindings := rfl
@[simp] theorem store_child (st : State) (e : FrameId) :
    (st.child e).store = (Store.push { outer := some e } st.store).2 := rfl

@[simp] theorem store_update (st : State) (e : FrameId) (n : Name) (v : Value) :
    (st.update e n v).store = st.store.update e n v := by
  unfold update
  split <;> rfl

end State

theorem Run.ofNode_eq (names : Interner) (arena : SharedArena) (root : ExprId) (sink : Sink)
    (evaluate : Evaluator) :
    Run.ofNode names arena root sink evaluate =
      { outcome := (Run.split (evaluate { names, arena } 0 root (State.fresh sink))).1
        arena := arena.arena
        names := names
        globalFrame := 0
        state := (Run.split (evaluate { names, arena } 0 root (State.fresh sink))).2 } := rfl

theorem Operator.asClosure?_eval {op : Operator} {l r v : Value} (h : op.eval l r = .ok v) :
    v.asClosure? = none := by
  have checked {n : Int} (hv : op.checked n = .ok v) : v.asClosure? = none := by
    rw [Operator.checked] at hv
    split at hv <;> cases hv
    rfl
  have ints {a b : Int64} (hv : op.evalInts a b = .ok v) : v.asClosure? = none := by
    cases op with
    | add | sub | mul => exact checked hv
    | div =>
      simp only [Operator.evalInts] at hv
      split at hv
      · cases hv
      · exact checked hv
    | mod =>
      simp only [Operator.evalInts] at hv
      split at hv <;> cases hv
      rfl
    | gt | ge | lt | le | eq =>
      cases hv
      rfl
  rw [Operator.eval] at h
  split at h
  · split at h
    · exact ints h
    · cases h
  · cases h
    rfl

namespace EvalM
variable {α : Type}

theorem noting_ok {m : EvalM α} {st st' : State} {a : α} (h : m st = .ok a st')
    (note : Unit → String) : noting note m st = .ok a st' := by
  simp [noting, h]

theorem noting_raised {m : EvalM α} {st st' : State} {x : EvalError}
    (h : m st = .error (.raised x) st') (note : Unit → String) :
    noting note m st = .error (.raised (x.addNote (note ()))) st' := by
  simp [noting, h]

theorem error_of_noting {m : EvalM α} {st st' : State} {x : EvalError} {note : Unit → String}
    (h : noting note m st = .error (.raised x) st') :
    ∃ y, x = y.addNote (note ()) ∧ m st = .error (.raised y) st' := by
  cases hm : m st with
  | ok a st₁ => simp [noting, hm] at h
  | error s st₁ =>
    cases s with
    | raised y =>
      obtain ⟨rfl, rfl⟩ : y.addNote (note ()) = x ∧ st₁ = st' := by simpa [noting, hm] using h
      exact ⟨y, rfl, rfl⟩
    | fault => simp [noting, hm] at h
    | outOfFuel => simp [noting, hm] at h

theorem noting_outOfFuel {m : EvalM α} {st st' : State} (h : m st = .error .outOfFuel st')
    (note : Unit → String) : noting note m st = .error .outOfFuel st' := by
  simp [noting, h]

theorem declare_run (e : FrameId) (n : Name) (v : Value) (text : String) (st : State) :
    declare e n v text st = if st.store.binds e n
      then .error (.raised { kind := .duplicateDeclaration text }) st
      else .ok () (st.bind e n v) := by
  unfold declare Store.declare
  by_cases hb : st.store.binds e n = true
  · simp [hb]
  · simp [hb, State.bind]

end EvalM

namespace Interpreter

theorem declare_run (it : Interpreter) (e : FrameId) (n : Name) (v : Value) (st : State) :
    it.declare e n v st = if st.store.binds e n
      then .error (.raised { kind := .duplicateDeclaration (it.names.lookup n) }) st
      else .ok () ((st.bind e n v).log (.declared (it.names.lookup n))) := by
  unfold declare
  have hrun := EvalM.declare_run e n v (it.names.lookup n) st
  by_cases hb : st.store.binds e n = true
  · rw [if_pos hb] at hrun ⊢
    exact bind_of_error hrun _
  · rw [if_neg hb] at hrun ⊢
    exact bind_of_ok hrun _

/-- An assignment never fails: a name that nothing binds is free in the global frame. -/
theorem assign_run (it : Interpreter) (e : FrameId) (n : Name) (v : Value) (st : State) :
    it.assign e n v st = .ok () (match st.store.owner? e n with
      | some o => st.bind o n v
      | none => (st.log (.undeclaredAssigned (it.names.lookup n))).bind (st.store.global e) n v) := by
  have hget : (get : EvalM State) st = .ok st st := rfl
  rw [assign, bind_of_ok hget, Store.isSome_resolve?]
  cases ho : st.store.owner? e n with
  | some o =>
    rw [if_pos (Option.isSome_some : (some o).isSome = true)]
    change EStateM.Result.ok () (st.update e n v) = _
    simp [State.update, Store.update, ho, State.bind]
  | none =>
    rw [if_neg (by simp)]
    change EvalM.declare (st.store.global e) n v (it.names.lookup n)
      (st.log (.undeclaredAssigned (it.names.lookup n))) = _
    rw [EvalM.declare_run, if_neg (by simp [Store.binds_global_of_owner?_eq_none ho])]

theorem bindParams_cons (it : Interpreter) (e : FrameId) (b : Name × Value)
    (bindings : List (Name × Value)) :
    it.bindParams e (b :: bindings) = (EvalM.declare e b.1 b.2 (it.names.lookup b.1) >>= fun _ =>
      it.bindParams e bindings) := rfl

theorem bindParams_append (it : Interpreter) (e : FrameId) (before after : List (Name × Value)) :
    it.bindParams e (before ++ after) =
      (it.bindParams e before >>= fun _ => it.bindParams e after) := List.forM_append

/-- Binding parameters either binds them all, or stops at a name that is bound by then. -/
theorem bindParams_run (it : Interpreter) (e : FrameId) (bindings : List (Name × Value)) (st : State) :
    it.bindParams e bindings st = .ok () (st.bindAll e bindings) ∨
    ∃ before b after, bindings = before ++ b :: after ∧
      it.bindParams e before st = .ok () (st.bindAll e before) ∧
      (st.bindAll e before).store.binds e b.1 = true ∧
      it.bindParams e bindings st = .error
        (.raised { kind := .duplicateDeclaration (it.names.lookup b.1) }) (st.bindAll e before) := by
  induction bindings generalizing st with
  | nil => exact .inl rfl
  | cons b bindings ih =>
    have hrun := EvalM.declare_run e b.1 b.2 (it.names.lookup b.1) st
    rw [bindParams_cons]
    by_cases hb : st.store.binds e b.1 = true
    · rw [if_pos hb] at hrun
      exact .inr ⟨[], b, bindings, rfl, rfl, hb, bind_of_error hrun _⟩
    · rw [if_neg hb] at hrun
      rw [bind_of_ok hrun]
      rcases ih (st.bind e b.1 b.2) with h | ⟨before, c, after, rfl, hp, hc, h⟩
      · exact .inl h
      · refine .inr ⟨b :: before, c, after, rfl, ?_, hc, h⟩
        rw [bindParams_cons, bind_of_ok hrun]
        exact hp

/-- Binding parameters commutes with what binding a single name commutes with. -/
theorem bindParams_map (it : Interpreter) {f : State → State} {g : Value → Value}
    (hbinds : ∀ st e n, (f st).store.binds e n = st.store.binds e n)
    (hbind : ∀ st e n v, f (st.bind e n v) = (f st).bind e n (g v)) (e : FrameId)
    (bindings : List (Name × Value)) (st : State) :
    it.bindParams e (bindings.map (Prod.map id g)) (f st) = match it.bindParams e bindings st with
      | .ok u st' => .ok u (f st')
      | .error s st' => .error s (f st') := by
  induction bindings generalizing st with
  | nil => rfl
  | cons b bindings ih =>
    have hrun := EvalM.declare_run e b.1 b.2 (it.names.lookup b.1) st
    have hrun' := EvalM.declare_run e b.1 (g b.2) (it.names.lookup b.1) (f st)
    rw [hbinds] at hrun'
    rw [List.map_cons, bindParams_cons, bindParams_cons]
    by_cases hb : st.store.binds e b.1 = true
    · rw [if_pos hb] at hrun hrun'
      rw [bind_of_error hrun]
      exact bind_of_error hrun' _
    · rw [if_neg hb, ← hbind] at hrun'
      rw [if_neg hb] at hrun
      rw [bind_of_ok hrun, ← ih]
      exact bind_of_ok hrun' _

/-- What a condition makes of the end of its operand. -/
def toCondition (construct : String) :
    EStateM.Result Stop State Value → EStateM.Result Stop State Bool
  | .ok (.bool b) st => .ok b st
  | .ok v st => .error (.raised { kind := .nonBoolCondition construct v.typeName }) st
  | .error s st => .error s st

theorem toCondition_eq_ok_iff {construct : String} {r : EStateM.Result Stop State Value} {b : Bool}
    {st : State} : toCondition construct r = .ok b st ↔ r = .ok (.bool b) st := by
  cases r with
  | error s st' => simp [toCondition]
  | ok v st' => cases v <;> simp [toCondition]

/-- An error of a condition comes from its operand, or says that this was no bool. -/
theorem toCondition_eq_error_iff {construct : String} {r : EStateM.Result Stop State Value} {s : Stop}
    {st : State} : toCondition construct r = .error s st ↔ r = .error s st ∨
      ∃ v, r = .ok v st ∧ v.asBool? = none ∧
        s = .raised { kind := .nonBoolCondition construct v.typeName } := by
  cases r with
  | error s' st' => simp [toCondition]
  | ok v st' => cases v <;> simp [toCondition, Value.asBool?, and_comm, eq_comm]

theorem evalCondition_run (sub : Evaluator) (it : Interpreter) (e : FrameId) (i : ExprId)
    (construct : String) (st : State) :
    evalCondition sub it e i construct st = toCondition construct (sub it e i st) := by
  cases hr : sub it e i st with
  | error s st' => exact bind_of_error hr _
  | ok v st' =>
    refine (bind_of_ok hr _).trans ?_
    cases v <;> rfl

section Node
variable (fuel : Nat) (sub : Evaluator) {it : Interpreter} (e : FrameId) {i : ExprId}

theorem evalNode_literal {l : Literal} (h : it.arena.arena.node? i = some (.literal l)) :
    evalNode fuel sub it e i = pure (.ofLiteral l) := by
  simp [evalNode, h, EvalM.require]

theorem evalNode_ident {n : Name} (h : it.arena.arena.node? i = some (.ident n)) (st : State) :
    evalNode fuel sub it e i st = .ok ((st.store.resolve? e n).getD .null) st := by
  simp only [evalNode, h, EvalM.require, pure_bind]
  rfl

theorem evalNode_print {j : ExprId} (h : it.arena.arena.node? i = some (.print j)) :
    evalNode fuel sub it e i = (do
      let v ← sub it e j
      EvalM.println (v.render it.names)
      pure v) := by
  simp [evalNode, h, EvalM.require]

theorem evalNode_binary {op : Operator} {j k : ExprId}
    (h : it.arena.arena.node? i = some (.binary op j k)) :
    evalNode fuel sub it e i = (do
      let l ← sub it e j
      let r ← sub it e k
      EvalM.ofExcept (op.eval l r)) := by
  simp [evalNode, h, EvalM.require]

theorem evalNode_ifElse {j k : ExprId} {no : Option ExprId}
    (h : it.arena.arena.node? i = some (.ifElse j k no)) :
    evalNode fuel sub it e i = (do
      if ← evalCondition sub it e j "if" then sub it e k
      else match no with
        | some no => sub it e no
        | none => pure .null) := by
  rw [evalNode, h]
  rfl

theorem evalNode_loop {j k : ExprId} (h : it.arena.arena.node? i = some (.loop j k)) :
    evalNode fuel sub it e i = evalLoop sub it e j k fuel .null 0 := by
  simp [evalNode, h, EvalM.require]

theorem evalNode_seq {j k : ExprId} (h : it.arena.arena.node? i = some (.seq j k)) :
    evalNode fuel sub it e i = (do
      let _ ← sub it e j
      sub it e k) := by
  simp [evalNode, h, EvalM.require]

theorem evalNode_declare {n : Name} {j : ExprId}
    (h : it.arena.arena.node? i = some (.declare n j)) :
    evalNode fuel sub it e i = (do
      let v ← sub it e j
      it.declare e n v
      pure v) := by
  simp [evalNode, h, EvalM.require]

theorem evalNode_assign {n : Name} {j : ExprId}
    (h : it.arena.arena.node? i = some (.assign n j)) :
    evalNode fuel sub it e i = (do
      let v ← sub it e j
      it.assign e n v
      pure v) := by
  simp [evalNode, h, EvalM.require]

theorem evalNode_function {span : Span} {body : ExprId} {params : List Name}
    (h : it.arena.arena.node? i = some (.function span body))
    (hp : it.arena.arena.params? span = some params) :
    evalNode fuel sub it e i = EvalM.lift (State.newClosure params body it.arena e) := by
  simp [evalNode, h, hp, EvalM.require]

/-- The callee of a call is evaluated before its argument list is looked up. -/
theorem evalNode_callee {callee : ExprId} {span : Span}
    (h : it.arena.arena.node? i = some (.call callee span)) :
    evalNode fuel sub it e i = (do
      match ← sub it e callee with
      | .closure c =>
        let ids ← EvalM.require (it.arena.arena.args? span)
        let args ← ids.mapM (sub it e)
        apply sub it c args
      | v => EvalM.raise (.notCallable v.typeName)) := by
  rw [evalNode, h]
  rfl

theorem evalNode_call {callee : ExprId} {span : Span} {ids : List ExprId}
    (h : it.arena.arena.node? i = some (.call callee span))
    (ha : it.arena.arena.args? span = some ids) :
    evalNode fuel sub it e i = (do
      match ← sub it e callee with
      | .closure c =>
        let args ← ids.mapM (sub it e)
        apply sub it c args
      | v => EvalM.raise (.notCallable v.typeName)) := by
  rw [evalNode_callee fuel sub e h, ha]
  rfl

end Node

/-- The state in which the parameters of a closure get bound: one span more in the trace, and one
frame more inside the captured one. -/
def opened (st : State) (it : Interpreter) (c : Closure) (args : List Value) : State :=
  (st.log (.apply args.length it.depth)).child c.env

theorem get?_opened (st : State) (it : Interpreter) (c : Closure) (args : List Value) (n : Name) :
    (opened st it c args).store.get? st.store.size n = none := by
  rw [opened, State.store_child, Store.get?_push, State.store_log, Store.get?, Store.frame?, Store.size]
  simp

/-- The interpreter that runs the body of a closure. -/
def callee (it : Interpreter) (c : Closure) : Interpreter :=
  { it with arena := c.arena, depth := it.depth + 1 }

theorem apply_arity (sub : Evaluator) (it : Interpreter) {c : Closure} {args : List Value}
    (h : args.length ≠ c.arity) (st : State) :
    apply sub it c args st = .error (.raised { kind := .arityMismatch c.arity args.length })
      (st.log (.apply args.length it.depth)) := by
  have hlog : EvalM.log (.apply args.length it.depth) st =
    .ok () (st.log (.apply args.length it.depth)) := rfl
  rw [apply, bind_of_ok hlog, if_neg h]
  rfl

theorem apply_run (sub : Evaluator) (it : Interpreter) {c : Closure} {args : List Value}
    (h : args.length = c.arity) (st : State) :
    apply sub it c args st =
      (do
        it.bindParams st.store.size (c.params.zip args)
        EvalM.noting (fun _ => "in call to " ++ c.signature it.names)
          (sub (it.callee c) st.store.size c.body)) (opened st it c args) := by
  have hlog : EvalM.log (.apply args.length it.depth) st =
    .ok () (st.log (.apply args.length it.depth)) := rfl
  have hchild : EvalM.lift (State.onStore (Store.child c.env)) (st.log (.apply args.length it.depth)) =
    .ok st.store.size (opened st it c args) := rfl
  rw [apply, bind_of_ok hlog, if_pos h, bind_of_ok hchild]
  rfl

end Interpreter
end Treewalk
