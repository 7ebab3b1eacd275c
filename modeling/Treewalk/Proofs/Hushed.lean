import Treewalk.Proofs.PrintedText

/-! Hushed code: the same arena, in which a print has become a copy of what it prints.
A program comes to an end exactly if its hushed copy does, and then to the same end, output apart. The
two differ in fuel, since a print costs some, so they are compared by their courses. -/
namespace Treewalk

namespace Arena

/-- Where a chain of prints leads. Only links to earlier nodes are followed. -/
def bare (a : Arena) (i : ExprId) : ExprId :=
  match a.node? i with
  | some (.print j) => if j < i then a.bare j else i
  | _ => i
termination_by i

variable {a : Arena} {i j : ExprId}

theorem bare_print (hn : a.node? i = some (.print j)) (hj : j < i) : a.bare i = a.bare j := by
  rw [bare, hn]
  exact if_pos hj

private theorem bare_eq_self (h : ∀ j < i, a.node? i ≠ some (.print j)) : a.bare i = i := by
  rw [bare]
  split
  next j hn => exact if_neg fun hj => h j hj hn
  next => rfl

/-- A node is its own end, or a print of an earlier node with the same end. -/
theorem bare_cases (a : Arena) (i : ExprId) :
    a.bare i = i ∨ ∃ j < i, a.node? i = some (.print j) ∧ a.bare i = a.bare j := by
  by_cases h : ∃ j < i, a.node? i = some (.print j)
  · obtain ⟨j, hj, hn⟩ := h
    exact .inr ⟨j, hj, hn, bare_print hn hj⟩
  · exact .inl (bare_eq_self fun j hj hn => h ⟨j, hj, hn⟩)

theorem bare_le (a : Arena) (i : ExprId) : a.bare i ≤ i := by
  induction i using Nat.strongRecOn with
  | ind i ih =>
    rcases a.bare_cases i with h | ⟨j, hj, -, h⟩
    · exact Nat.le_of_eq h
    · exact h ▸ Nat.le_trans (ih j hj) (Nat.le_of_lt hj)

theorem bare_bare (a : Arena) (i : ExprId) : a.bare (a.bare i) = a.bare i := by
  induction i using Nat.strongRecOn with
  | ind i ih =>
    rcases a.bare_cases i with h | ⟨j, hj, -, h⟩
    · rw [h, h]
    · rw [h, ih j hj]

/-- The arena with the end of its chain at every node. -/
def hush (a : Arena) : Arena :=
  { a with nodes := a.nodes.mapIdx fun i n => (a.node? (a.bare i)).getD n }

theorem node?_hush (a : Arena) (i : ExprId) : a.hush.node? i = a.node? (a.bare i) := by
  have hmap : a.hush.node? i = (a.node? i).map fun n => (a.node? (a.bare i)).getD n :=
    Array.getElem?_mapIdx
  rw [hmap]
  cases hn : a.node? i with
  | none => rw [bare_eq_self (by simp [hn]), hn, Option.map_none]
  | some n =>
    obtain ⟨m, hm⟩ := node?_isSome (Nat.lt_of_le_of_lt (a.bare_le i) (lt_size hn))
    rw [hm, Option.map_some, Option.getD_some]

private theorem node?_hush_of_bare (h : a.bare i = i) : a.hush.node? i = a.node? i := by
  rw [node?_hush, h]

theorem node?_hush_of_some {n : Node} (hn : a.node? i = some n) (h : ∀ j, n ≠ .print j) :
    a.hush.node? i = some n := by
  rw [node?_hush_of_bare (bare_eq_self fun j _ hj => h j (Option.some.inj (hn.symm.trans hj))), hn]

theorem node?_hush_print (hn : a.node? i = some (.print j)) (hj : j < i) :
    a.hush.node? i = a.hush.node? j := by
  rw [node?_hush, node?_hush, bare_print hn hj]

@[simp] theorem size_hush (a : Arena) : a.hush.size = a.size := Array.size_mapIdx

end Arena

def SharedArena.hush (a : SharedArena) : SharedArena := { a with arena := a.arena.hush }

def Closure.hush (c : Closure) : Closure := { c with arena := c.arena.hush }

namespace Value

def hush : Value → Value
  | bool b => bool b
  | int n => int n
  | null => null
  | closure c => closure c.hush

@[simp] theorem typeName_hush (v : Value) : v.hush.typeName = v.typeName := by cases v <;> rfl
@[simp] theorem asInt?_hush (v : Value) : v.hush.asInt? = v.asInt? := by cases v <;> rfl
@[simp] theorem render_hush (v : Value) (names : Interner) : v.hush.render names = v.render names := by
  cases v <;> rfl

theorem equals_hush (v w : Value) : v.hush.equals w.hush = v.equals w := by
  cases v <;> cases w <;> rfl

private theorem hush_of_scalar {v : Value} (h : v.asClosure? = none) : v.hush = v := by
  cases v with
  | closure c => cases h
  | _ => rfl

private theorem hush_eq_bool_iff {v : Value} {b : Bool} : v.hush = bool b ↔ v = bool b := by
  cases v <;> simp [hush]

end Value

private theorem Operator.eval_hush (op : Operator) (l r : Value) : op.eval l.hush r.hush = op.eval l r := by
  rw [eval, eval, Value.asInt?_hush, Value.asInt?_hush, Value.typeName_hush, Value.typeName_hush,
    Value.equals_hush]

namespace Store

def hush (s : Store) : Store :=
  { frames := s.frames.map fun f => { f with bindings := f.bindings.map fun _ v => v.hush } }

private theorem frame?_hush (s : Store) (e : FrameId) : s.hush.frame? e =
    (s.frame? e).map fun f => { f with bindings := f.bindings.map fun _ v => v.hush } :=
  Array.getElem?_map

@[simp] theorem size_hush (s : Store) : s.hush.size = s.size := Array.size_map

theorem get?_hush (s : Store) (e : FrameId) (n : Name) :
    s.hush.get? e n = (s.get? e n).map Value.hush := by
  rw [get?, get?, frame?_hush]
  cases s.frame? e with
  | none => rfl
  | some f => exact Std.ExtTreeMap.getElem?_map

@[simp] theorem binds_hush (s : Store) (e : FrameId) (n : Name) : s.hush.binds e n = s.binds e n := by
  rw [binds_eq_isSome_get?, binds_eq_isSome_get?, get?_hush, Option.isSome_map]

@[simp] theorem outer?_hush (s : Store) (e : FrameId) : s.hush.outer? e = s.outer? e := by
  rw [outer?, outer?, frame?_hush]
  cases s.frame? e <;> rfl

@[simp] theorem owner?_hush (s : Store) (e : FrameId) (n : Name) :
    s.hush.owner? e n = s.owner? e n := by
  induction e using Nat.strongRecOn with
  | ind e ih =>
    rw [owner?_eq s.hush, owner?_eq s, binds_hush, outer?_hush]
    cases ho : s.outer? e with
    | none => rfl
    | some o => exact congrArg (if s.binds e n then some e else ·) (ih o (lt_of_outer? ho))

@[simp] theorem global_hush (s : Store) (e : FrameId) : s.hush.global e = s.global e := by
  induction e using Nat.strongRecOn with
  | ind e ih =>
    rw [global_eq s.hush, global_eq s, outer?_hush]
    cases ho : s.outer? e with
    | none => rfl
    | some o => exact ih o (lt_of_outer? ho)

private theorem resolve?_hush (s : Store) (e : FrameId) (n : Name) :
    s.hush.resolve? e n = (s.resolve? e n).map Value.hush := by
  rw [resolve?, resolve?, owner?_hush]
  cases s.owner? e n with
  | none => rfl
  | some o => exact s.get?_hush o n

private theorem hush_bind (s : Store) (e : FrameId) (n : Name) (v : Value) :
    (s.bind e n v).hush = s.hush.bind e n v.hush := by
  apply eq_of_frame?_eq
  intro f
  rw [frame?_hush, frame?_bind, frame?_bind, frame?_hush]
  by_cases he : e = f
  · rw [if_pos he, if_pos he, Option.map_map, Option.map_map]
    congr 1
    funext g
    have hmap : (g.bindings.insert n v).map (fun _ w => w.hush) =
        (g.bindings.map fun _ w => w.hush).insert n v.hush := by
      apply Std.ExtTreeMap.ext_getElem?
      intro m
      rw [Std.ExtTreeMap.getElem?_map, Std.ExtTreeMap.getElem?_insert, Std.ExtTreeMap.getElem?_insert,
        Std.ExtTreeMap.getElem?_map]
      split <;> rfl
    exact congrArg (fun b => ({ g with bindings := b } : Frame)) hmap
  · rw [if_neg he, if_neg he]

theorem hush_push (o : Option FrameId) (s : Store) :
    (push { outer := o } s).2.hush = (push { outer := o } s.hush).2 := by
  apply eq_of_frame?_eq
  intro f
  rw [frame?_hush, frame?_push, frame?_push, frame?_hush, size_hush]
  split
  · have hempty : (∅ : Std.ExtTreeMap Name Value).map (fun _ v => v.hush) = ∅ := by
      apply Std.ExtTreeMap.ext_getElem?
      simp
    exact congrArg (fun b => some ({ bindings := b, outer := o } : Frame)) hempty
  · rfl

end Store

namespace State

/-- The state with hushed values, and with a channel that drops all it is given. -/
def hush (st : State) : State := { st with store := st.store.hush, channel := ⟨.silent, ""⟩ }

private theorem hush_log (st : State) (t : TraceEntry) : (st.log t).hush = st.hush.log t := rfl

private theorem hush_bind (st : State) (e : FrameId) (n : Name) (v : Value) :
    (st.bind e n v).hush = st.hush.bind e n v.hush :=
  congrArg (fun s => ({ st with store := s, channel := ⟨.silent, ""⟩ } : State))
    (st.store.hush_bind e n v)

private theorem hush_child (st : State) (e : FrameId) : (st.child e).hush = st.hush.child e :=
  congrArg (fun s => ({ st with store := s, channel := ⟨.silent, ""⟩ } : State))
    (st.store.hush_push (some e))

end State

def Interpreter.hush (it : Interpreter) : Interpreter := { it with arena := it.arena.hush }

/-- The same end with hushed values and a hushed state. -/
def EvalM.hush {α : Type} (f : α → α) :
    EStateM.Result Stop State α → EStateM.Result Stop State α
  | .ok a st => .ok (f a) st.hush
  | .error s st => .error s st.hush

namespace Effect

def hush : Effect → Effect
  | give v => give v.hush
  | trace v entry => trace v.hush entry
  | print v line => print v.hush line
  | bind v e n entry => bind v.hush e n entry
  | make params body arena env => make params body arena.hush env
  | refuse kind => refuse kind
  | fault => fault

private theorem run_hush (x : Effect) (st : State) :
    x.hush.run st.hush = EvalM.hush Value.hush (x.run st) := by
  cases x with
  | bind v e n entry =>
    cases entry with
    | none => exact congrArg (EStateM.Result.ok v.hush) (st.hush_bind e n v).symm
    | some t => exact congrArg (EStateM.Result.ok v.hush) ((st.log t).hush_bind e n v).symm
  | _ => rfl

end Effect

private theorem Interpreter.opened_hush (st : State) (it : Interpreter) (c : Closure) (args : List Value) :
    opened st.hush it.hush c.hush (args.map Value.hush) = (opened st it c args).hush := by
  rw [opened, opened, State.hush_child, State.hush_log, List.length_map]
  rfl

private theorem Interpreter.bindParams_hush (it : Interpreter) (e : FrameId) (bindings : List (Name × Value))
    (st : State) : it.hush.bindParams e (bindings.map (Prod.map id Value.hush)) st.hush =
      EvalM.hush id (it.bindParams e bindings st) := by
  have hmap := it.bindParams_map (fun st e n => st.store.binds_hush e n) State.hush_bind e bindings st
  refine Eq.trans hmap ?_
  cases it.bindParams e bindings st <;> rfl

/-- Nodes turn to their operands by the number of values so far and by bools. -/
theorem Node.operand?_hush (n : Node) (vs : List Value) :
    n.operand? (vs.map Value.hush) = n.operand? vs := by
  cases n with
  | loop cond body =>
    have hlast : (vs.map Value.hush).getLast? = some (.bool true) ↔ vs.getLast? = some (.bool true) := by
      simp [List.getLast?_map, Value.hush_eq_bool_iff]
    simp only [operand?, List.length_map, hlast]
  | ifElse cond yes no =>
    cases vs with
    | nil => rfl
    | cons v rest =>
      cases rest with
      | nil => cases v <;> rfl
      | cons =>
        cases v with
        | bool b => cases b <;> rfl
        | _ => rfl
  | binary | seq =>
    cases vs with
    | nil => rfl
    | cons v rest => cases rest <;> rfl
  | _ => cases vs <;> rfl

namespace Activity
open Interpreter

def hush : Activity → Activity
  | eval it e i => eval it.hush e i
  | call it callee args => call it.hush callee.hush (args.map Value.hush)

/-- A hushed copy of an activity that is about the very same node, wherever that is. -/
inductive Shadow : Activity → Activity → Prop where
  | eval {it : Interpreter} {e : FrameId} {i k : ExprId}
      (h : it.hush.arena.arena.node? k = it.arena.arena.node? i) :
      Shadow (eval it e i) (eval it.hush e k)
  | call (it : Interpreter) (callee : Value) (args : List Value) :
      Shadow (call it callee args) (call it callee args).hush

private theorem nodePart?_hush (it : Interpreter) (e : FrameId) (n : Node) (vs : List Value) :
    nodePart? it.hush e n (vs.map Value.hush) = (nodePart? it e n vs).map hush := by
  have hoperand : ((n.operand? (vs.map Value.hush)).map (eval it.hush e)) =
      ((n.operand? vs).map (eval it e)).map hush := by
    rw [Node.operand?_hush, Option.map_map]
    rfl
  cases n with
  | call f span =>
    cases vs with
    | nil => exact hoperand
    | cons v args =>
      cases v with
      | closure c =>
        change (it.arena.arena.args? span).bind _ = ((it.arena.arena.args? span).bind _).map hush
        cases it.arena.arena.args? span with
        | none => rfl
        | some ids =>
          simp only [Option.bind_some, List.length_map]
          split
          · rfl
          · rw [Option.map_map]
            rfl
      | _ => exact hoperand
  | _ => exact hoperand

private theorem nodeEffect_hush (it : Interpreter) (e : FrameId) (n : Node) (vs : List Value) (s : Store) :
    nodeEffect it.hush e n (vs.map Value.hush) s.hush = (nodeEffect it e n vs s).hush := by
  cases n with
  | literal l => cases l <;> rfl
  | ident x =>
    change Effect.give ((s.hush.resolve? e x).getD .null) = .give ((s.resolve? e x).getD .null).hush
    rw [Store.resolve?_hush]
    cases s.resolve? e x <;> rfl
  | print j =>
    rcases vs with _ | ⟨v, _ | ⟨_, _⟩⟩
    · rfl
    · exact congrArg (Effect.print v.hush) (v.render_hush it.names)
    · rfl
  | binary op j k =>
    rcases vs with _ | ⟨l, _ | ⟨r, _ | ⟨_, _⟩⟩⟩
    · rfl
    · rfl
    · simp only [nodeEffect, List.map_cons, List.map_nil, Operator.eval_hush]
      cases hr : op.eval l r with
      | ok v => exact congrArg Effect.give (Value.hush_of_scalar (Operator.asClosure?_eval hr)).symm
      | error kind => rfl
    · rfl
  | ifElse j k no =>
    rcases vs with _ | ⟨v, _ | ⟨_, _ | ⟨_, _⟩⟩⟩
    · rfl
    all_goals cases v <;> rfl
  | loop j k =>
    simp only [nodeEffect, List.getLast?_map, List.length_map, ← List.map_dropLast]
    cases vs.getLast? with
    | none => rfl
    | some v =>
      cases v with
      | bool b =>
        change Effect.trace ((vs.dropLast.getLast?.map Value.hush).getD .null) _ =
          .trace (vs.dropLast.getLast?.getD .null).hush _
        cases vs.dropLast.getLast? <;> rfl
      | _ => rfl
  | seq j k => rcases vs with _ | ⟨_, _ | ⟨_, _ | ⟨_, _⟩⟩⟩ <;> rfl
  | declare x j =>
    rcases vs with _ | ⟨v, _ | ⟨_, _⟩⟩
    · rfl
    · simp only [nodeEffect, List.map_cons, List.map_nil, Store.binds_hush]
      split <;> rfl
    · rfl
  | assign x j =>
    rcases vs with _ | ⟨v, _ | ⟨_, _⟩⟩
    · rfl
    · simp only [nodeEffect, List.map_cons, List.map_nil, Store.owner?_hush, Store.global_hush]
      cases s.owner? e x <;> rfl
    · rfl
  | function span body =>
    have hparams : it.hush.arena.arena.params? span = it.arena.arena.params? span := rfl
    simp only [nodeEffect, hparams]
    cases it.arena.arena.params? span <;> rfl
  | call f span =>
    cases vs with
    | nil => rfl
    | cons v args =>
      cases v with
      | closure c =>
        have hargs : it.hush.arena.arena.args? span = it.arena.arena.args? span := rfl
        simp only [nodeEffect, List.map_cons, Value.hush, hargs, List.getLast?_map]
        cases it.arena.arena.args? span with
        | none => rfl
        | some ids => cases args.getLast? <;> rfl
      | _ => cases args <;> rfl

section Shadow
variable {A B : Activity} (h : A.Shadow B)
include h

theorem Shadow.part? (st : State) (vs : List Value) :
    B.part? st.hush (vs.map Value.hush) = (A.part? st vs).map hush := by
  cases h with
  | @eval it e i k h =>
    rw [Activity.part?, Activity.part?, h]
    cases it.arena.arena.node? i with
    | none => rfl
    | some n => exact nodePart?_hush it e n vs
  | call it callee args =>
    cases callee with
    | closure c =>
      cases vs with
      | nil =>
        exact congrArg (fun f => some (Activity.eval (it.callee c).hush f c.body)) st.store.size_hush
      | cons => rfl
    | _ => rfl

private theorem Shadow.part?_of_some {C : Activity} {st : State} {vs : List Value}
    (hC : A.part? st vs = some C) : B.part? st.hush (vs.map Value.hush) = some C.hush := by
  rw [h.part?, hC, Option.map_some]

private theorem Shadow.part?_eq_none_iff {st : State} {vs : List Value} :
    B.part? st.hush (vs.map Value.hush) = none ↔ A.part? st vs = none := by
  rw [h.part?, Option.map_eq_none_iff]

theorem Shadow.effect (vs : List Value) (s : Store) :
    B.effect (vs.map Value.hush) s.hush = (A.effect vs s).hush := by
  cases h with
  | @eval it e i k h =>
    rw [Activity.effect, Activity.effect, h]
    cases it.arena.arena.node? i with
    | none => rfl
    | some n => exact nodeEffect_hush it e n vs s
  | call it callee args =>
    change Effect.give ((vs.map Value.hush).getLast?.getD .null) = .give (vs.getLast?.getD .null).hush
    rw [List.getLast?_map]
    cases vs.getLast? <;> rfl

private theorem Shadow.run_effect (vs : List Value) (st : State) :
    (B.effect (vs.map Value.hush) st.hush.store).run st.hush =
      EvalM.hush Value.hush ((A.effect vs st.store).run st) := by
  rw [← Effect.run_hush, ← h.effect]
  rfl

theorem Shadow.enter (st : State) : B.enter st.hush = EvalM.hush id (A.enter st) := by
  cases h with
  | eval => rfl
  | call it callee args =>
    cases callee with
    | closure c =>
      by_cases hl : args.length = c.arity
      · have hl' : (args.map Value.hush).length = c.hush.arity := by rwa [List.length_map]
        have hzip : c.hush.params.zip (args.map Value.hush) =
            (c.params.zip args).map (Prod.map id Value.hush) := List.zip_map_right ..
        rw [enter_closure hl, ← bindParams_hush, ← opened_hush, ← hzip, ← st.store.size_hush]
        exact enter_closure hl' st.hush
      · have hl' : (args.map Value.hush).length ≠ c.hush.arity := by rwa [List.length_map]
        rw [hush, Value.hush, enter_arity hl', enter_arity hl, List.length_map]
        rfl
    | _ => rfl

theorem Shadow.pass (s : Stop) : B.pass s = A.pass s := by
  cases h with
  | eval => rfl
  | call it callee args =>
    cases callee with
    | closure c => cases s <;> rfl
    | _ => rfl

end Shadow

/-- The activity at the end of a chain of prints. -/
def bare : Activity → Activity
  | eval it e i => eval it e (it.arena.arena.bare i)
  | call it callee args => call it callee args

private theorem bare_shadow (A : Activity) : A.bare.Shadow A.hush := by
  cases A with
  | eval it e i => exact .eval (it.arena.arena.node?_hush i)
  | call it callee args => exact .call it callee args

/-- An activity is about the same node when it is hushed, or about a print of an earlier one. -/
theorem shadow_or_print (A : Activity) : A.Shadow A.hush ∨ ∃ it e i j, A = eval it e i ∧ j < i ∧
    it.arena.arena.node? i = some (.print j) := by
  cases A with
  | eval it e i =>
    rcases it.arena.arena.bare_cases i with h | ⟨j, hj, hn, -⟩
    · exact .inl (.eval (Arena.node?_hush_of_bare h))
    · exact .inr ⟨it, e, i, j, rfl, hj, hn⟩
  | call it callee args => exact .inl (.call it callee args)

section Chain
variable {it : Interpreter} {e : FrameId} {i j : ExprId} {st : State}
  {r : EStateM.Result Stop State Value}

/-- Evaluation looks at what stands at a node, not at its number. -/
theorem ends_of_node?_eq (h : it.arena.arena.node? i = it.arena.arena.node? j)
    (hend : (eval it e i).Ends st r) : (eval it e j).Ends st r := by
  have hrule (n : Nat) : evalNode n (Interpreter.eval n) it e i =
      evalNode n (Interpreter.eval n) it e j := by
    rw [evalNode, evalNode, h]
  exact evaluates_iff_evalNode.mpr ((evaluates_iff_of_rule hrule).mp hend)

private theorem hush_ends_of_print (hn : it.arena.arena.node? i = some (.print j)) (hj : j < i)
    (hend : (eval it.hush e j).Ends st r) : (eval it.hush e i).Ends st r := by
  have hsame : it.hush.arena.arena.node? j = it.hush.arena.arena.node? i :=
    (Arena.node?_hush_print hn hj).symm
  exact ends_of_node?_eq hsame hend

private theorem evaluates_of_bare (h : it.Evaluates e (it.arena.arena.bare i) st r) :
    ∃ r', it.Evaluates e i st r' ∧ EvalM.hush Value.hush r' = EvalM.hush Value.hush r := by
  induction i using Nat.strongRecOn with
  | ind i ih =>
    rcases it.arena.arena.bare_cases i with hb | ⟨j, hj, hn, hb⟩
    · exact ⟨r, hb ▸ h, rfl⟩
    · obtain ⟨r', hend, hr'⟩ := ih j hj (hb ▸ h)
      cases r' with
      | ok v st' => exact ⟨_, (evaluates_print_iff hn).mpr ⟨st', hend, rfl⟩, hr'⟩
      | error s st' =>
        refine ⟨_, (evaluates_iff_of_rule fun n => evalNode_print n _ e hn).mpr ?_, hr'⟩
        exact EvalM.Ends.bind_error hend

/-- What the end of a chain of prints comes to, its beginning comes to, output apart. -/
theorem ends_of_bare {A : Activity} (h : A.bare.Ends st r) :
    ∃ r', A.Ends st r' ∧ EvalM.hush Value.hush r' = EvalM.hush Value.hush r := by
  cases A with
  | eval it e i => exact evaluates_of_bare h
  | call it callee args => exact ⟨r, h, rfl⟩

end Chain

/-- How far hushed copies of an activity get. In hushed code, a print that has its value is done. -/
private def Status.Hushed (A : Activity) (st : State) : Status → Prop
  | .parts vs st₁ =>
    (∀ B, A.Shadow B → ∃ log, B.Course st.hush (.parts (vs.map Value.hush) st₁.hush) log) ∧
    ∀ it e i j, A = eval it e i → it.arena.arena.node? i = some (.print j) →
      vs = [] ∧ st₁ = st ∨ ∃ v, vs = [v] ∧ (eval it.hush e j).Ends st.hush (.ok v.hush st₁.hush)
  | .ended r => A.hush.Ends st.hush (EvalM.hush Value.hush r)

/-- Whatever an activity comes to, it comes to in hushed code too. What is no print has a copy that
takes the same course; a print has none, and its operand stands in. -/
private theorem Course.hushed {A : Activity} {st : State} {status : Status} {log : List Record}
    (h : A.Course st status log) : status.Hushed A st := by
  induction h with
  | @refuse A st s st₁ h =>
    cases A with
    | eval => cases h
    | call it callee args =>
      have h' := (Shadow.call it callee args).enter st
      rw [h] at h'
      exact ends_iff_course.mpr ⟨_, .refuse h'⟩
  | @enter A st st₁ h =>
    refine ⟨fun B hB => ?_, ?_⟩
    · have h' := hB.enter st
      rw [h] at h'
      exact ⟨_, .enter h'⟩
    · rintro it e i j rfl -
      cases h
      exact .inl ⟨rfl, rfl⟩
  | @part A B st vs st₁ v st₂ log log' _ hB _ ih ihB =>
    refine ⟨fun C hC => ?_, ?_⟩
    · obtain ⟨log₁, hcourse⟩ := ih.1 C hC
      obtain ⟨log₂, hpart⟩ := ends_iff_course.mp ihB
      rw [List.map_append]
      exact ⟨_, hcourse.part (hC.part?_of_some hB) hpart⟩
    · rintro it e i j rfl hn
      rw [part?_eval hn] at hB
      rcases ih.2 it e i j rfl hn with ⟨rfl, rfl⟩ | ⟨w, rfl, -⟩
      · cases hB
        exact .inr ⟨v, rfl, ihB⟩
      · cases hB
  | @stop A B st vs st₁ s st₂ log log' _ hB _ ih ihB =>
    rcases A.shadow_or_print with hA | ⟨it, e, i, j, rfl, hj, hn⟩
    · obtain ⟨log₁, hcourse⟩ := ih.1 _ hA
      obtain ⟨log₂, hpart⟩ := ends_iff_course.mp ihB
      have hstop := hcourse.stop (hA.part?_of_some hB) hpart
      rw [hA.pass] at hstop
      exact ends_iff_course.mpr ⟨_, hstop⟩
    · rw [part?_eval hn] at hB
      rcases ih.2 it e i j rfl hn with ⟨rfl, rfl⟩ | ⟨w, rfl, -⟩
      · cases hB
        exact hush_ends_of_print hn hj ihB
      · cases hB
  | @finish A st vs st₁ log _ hB ih =>
    rcases A.shadow_or_print with hA | ⟨it, e, i, j, rfl, hj, hn⟩
    · obtain ⟨log₁, hcourse⟩ := ih.1 _ hA
      have hfinish := hcourse.finish (hA.part?_eq_none_iff.mpr hB)
      rw [hA.run_effect] at hfinish
      exact ends_iff_course.mpr ⟨_, hfinish⟩
    · rw [part?_eval hn] at hB
      rcases ih.2 it e i j rfl hn with ⟨rfl, rfl⟩ | ⟨w, rfl, hend⟩
      · cases hB
      · rw [effect_eval hn]
        exact hush_ends_of_print hn hj hend

/-- How far an activity gets of which a hushed copy has got so far. -/
private def Status.Sounded (A : Activity) (st : State) : Status → Prop
  | .parts ws s => ∃ vs st₁ log, ws = vs.map Value.hush ∧ s = st₁.hush ∧ A.Course st (.parts vs st₁) log
  | .ended r' => ∃ r, r' = EvalM.hush Value.hush r ∧ A.Ends st r

private theorem Shadow.sound_part {A B C : Activity} (h : A.Shadow B) {st st₁ : State} {vs : List Value}
    {r' : EStateM.Result Stop State Value} (hC : B.part? st.hush (vs.map Value.hush) = some C)
    (hsound : ∀ {D : Activity} {st' : State}, D.Shadow C → st₁.hush = st'.hush →
      (Status.ended r').Sounded D st') :
    ∃ r, r' = EvalM.hush Value.hush r ∧ ∃ D, A.part? st vs = some D ∧
      ∃ log, D.Course st₁ (.ended r) log := by
  rw [h.part?, Option.map_eq_some_iff] at hC
  obtain ⟨D, hD, rfl⟩ := hC
  obtain ⟨r₁, rfl, hbare⟩ := hsound D.bare_shadow rfl
  obtain ⟨r, hend, hr⟩ := ends_of_bare hbare
  exact ⟨r, hr.symm, D, hD, ends_iff_course.mp hend⟩

/-- Whatever a hushed copy of an activity comes to, the activity comes to. A part of the copy is
about the end of a chain of prints, which `sound_part` climbs up again. -/
private theorem Course.sounded {B : Activity} {s : State} {status : Status} {log : List Record}
    (h : B.Course s status log) :
    ∀ {A : Activity} {st : State}, A.Shadow B → s = st.hush → status.Sounded A st := by
  induction h with
  | @refuse B s x s₁ h =>
    rintro A st hA rfl
    rw [hA.enter] at h
    cases he : A.enter st with
    | ok u st₁ =>
      rw [he] at h
      cases h
    | error y st₁ =>
      rw [he] at h
      cases h
      exact ⟨.error x st₁, rfl, ends_iff_course.mpr ⟨_, .refuse he⟩⟩
  | @enter B s s₁ h =>
    rintro A st hA rfl
    rw [hA.enter] at h
    cases he : A.enter st with
    | ok u st₁ =>
      rw [he] at h
      cases h
      exact ⟨[], st₁, [], rfl, rfl, .enter he⟩
    | error y st₁ =>
      rw [he] at h
      cases h
  | @part B C s ws s₁ w s₂ log log' _ hC _ ih ihC =>
    rintro A st hA rfl
    obtain ⟨vs, st₁, log₁, rfl, rfl, hcourse⟩ := ih hA rfl
    obtain ⟨r, hr, D, hD, log₂, hpart⟩ := hA.sound_part hC ihC
    cases r with
    | error x st₂ => cases hr
    | ok v st₂ =>
      cases hr
      exact ⟨vs ++ [v], st₂, _, by simp, rfl, hcourse.part hD hpart⟩
  | @stop B C s ws s₁ x s₂ log log' _ hC _ ih ihC =>
    rintro A st hA rfl
    obtain ⟨vs, st₁, log₁, rfl, rfl, hcourse⟩ := ih hA rfl
    obtain ⟨r, hr, D, hD, log₂, hpart⟩ := hA.sound_part hC ihC
    cases r with
    | ok v st₂ => cases hr
    | error y st₂ =>
      cases hr
      rw [hA.pass]
      exact ⟨.error (A.pass x) st₂, rfl, ends_iff_course.mpr ⟨_, hcourse.stop hD hpart⟩⟩
  | @finish B s ws s₁ log _ hC ih =>
    rintro A st hA rfl
    obtain ⟨vs, st₁, log₁, rfl, rfl, hcourse⟩ := ih hA rfl
    rw [hA.run_effect]
    exact ⟨_, rfl, ends_iff_course.mpr ⟨_, hcourse.finish (hA.part?_eq_none_iff.mp hC)⟩⟩

/-- Hushing changes no end but the output. -/
theorem ends_hush_iff {A : Activity} {st : State} {r : EStateM.Result Stop State Value} :
    A.hush.Ends st.hush r ↔ ∃ r', A.Ends st r' ∧ r = EvalM.hush Value.hush r' := by
  constructor
  · intro h
    obtain ⟨log, hlog⟩ := ends_iff_course.mp h
    obtain ⟨r₁, rfl, hbare⟩ := hlog.sounded A.bare_shadow rfl
    obtain ⟨r', hend, hr'⟩ := ends_of_bare hbare
    exact ⟨r', hend, hr'.symm⟩
  · rintro ⟨r', h, rfl⟩
    obtain ⟨log, hlog⟩ := ends_iff_course.mp h
    exact hlog.hushed

end Activity
end Treewalk
