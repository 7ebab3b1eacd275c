import Treewalk.Proofs.Ends
import Treewalk.Proofs.LexicalScope
import Treewalk.Proofs.NoFault

/-! Code without loops and calls always comes to an end.
A loop may make any number of rounds, and a call may lead to any function. Every other node turns to its
operands at most once each, and they have smaller ids. So the id of a node bounds how deeply its evaluation
nests, however many nodes share it. Bodies of functions do not count, since a function node does not
evaluate its body. -/
namespace Treewalk
namespace Arena
variable {a : Arena} {i j : ExprId} {n : Node}

theorem Within.of_operand {k : ExprId} {fs : List ExprId} (hn : a.node? i = some n)
    (hj : j ∈ a.operands n) (h : a.Within j k fs) : a.Within i k fs := by
  induction h with
  | root => exact Within.root.operand hn hj
  | operand _ hp hk ih => exact ih.operand hp hk
  | body _ hp ih => exact ih.body hp

/-- A node from which no loop and no call can be reached without entering the body of a function. -/
def Straight (a : Arena) (i : ExprId) : Prop :=
  ∀ j n, a.Within i j [] → a.node? j = some n →
    (∀ cond body, n ≠ .loop cond body) ∧ ∀ callee args, n ≠ .call callee args

theorem Straight.operand (h : a.Straight i) (hn : a.node? i = some n) (hj : j ∈ a.operands n) :
    a.Straight j := fun k m hk hm => h k m (hk.of_operand hn hj) hm

/-- A set of nodes that has the operands of its members, but no loop and no call, is straight code. -/
theorem straight_of_closed (nodes : List ExprId) (hi : i ∈ nodes)
    (h : ∀ j ∈ nodes, ∃ n, a.node? j = some n ∧ (∀ cond body, n ≠ .loop cond body) ∧
      (∀ callee args, n ≠ .call callee args) ∧ ∀ k ∈ a.operands n, k ∈ nodes) : a.Straight i := by
  have hclosed : ∀ j fs, a.Within i j fs → fs = [] → j ∈ nodes := by
    intro j fs hw hfs
    induction hw with
    | root => exact hi
    | operand _ hp hj ih =>
      obtain ⟨n, hn, -, -, hops⟩ := h _ (ih hfs)
      obtain rfl := Option.some.inj (hn.symm.trans hp)
      exact hops _ hj
    | body => cases hfs
  intro j n hw hn
  obtain ⟨m, hm, hloop, hcall, -⟩ := h j (hclosed j [] hw rfl)
  obtain rfl := Option.some.inj (hm.symm.trans hn)
  exact ⟨hloop, hcall⟩

end Arena

namespace EvalM
variable {α β : Type}

/-- An action that never runs out of fuel, wherever it starts. -/
def Halts (m : EvalM α) : Prop := ∀ st, Finished (m st)

private theorem halts_pure (x : α) : Halts (pure x) := fun _ => trivial

theorem Halts.bind {m : EvalM α} {f : α → EvalM β} (hm : Halts m) (hf : ∀ x, Halts (f x)) :
    Halts (m >>= f) := by
  intro st
  have hfirst := hm st
  cases hr : m st with
  | ok x st' =>
    rw [bind_of_ok hr]
    exact hf x st'
  | error s st' =>
    rw [hr] at hfirst
    rw [bind_of_error hr]
    exact finished_error_iff.mpr (finished_error_iff.mp hfirst)

end EvalM

namespace Interpreter
open EvalM
variable {it : Interpreter} {e : FrameId} {i : ExprId}

private theorem halts_condition {sub : Evaluator} (h : Halts (sub it e i)) (construct : String) :
    Halts (evalCondition sub it e i construct) := by
  refine h.bind fun v => ?_
  cases v with
  | bool b => exact halts_pure b
  | _ => exact fun _ => trivial

private theorem halts_declare (it : Interpreter) (e : FrameId) (n : Name) (v : Value) :
    Halts (it.declare e n v) := by
  intro st
  rw [declare_run]
  split <;> trivial

private theorem halts_assign (it : Interpreter) (e : FrameId) (n : Name) (v : Value) :
    Halts (it.assign e n v) := by
  intro st
  rw [assign_run]
  trivial

private theorem halts_node {fuel : Nat} {sub : Evaluator} (hstraight : it.arena.arena.Straight i)
    (hsub : ∀ n, it.arena.arena.node? i = some n →
      ∀ j ∈ it.arena.arena.operands n, Halts (sub it e j)) :
    Halts (evalNode fuel sub it e i) := by
  cases hn : it.arena.arena.node? i with
  | none =>
    rw [evalNode, hn]
    exact fun _ => trivial
  | some n =>
    have hbelow := hsub n hn
    cases n with
    | literal l =>
      rw [evalNode_literal fuel sub e hn]
      exact halts_pure _
    | ident x =>
      intro st
      rw [evalNode_ident fuel sub e hn]
      trivial
    | print j =>
      rw [evalNode_print fuel sub e hn]
      exact (hbelow j (by simp)).bind fun v _ => trivial
    | binary op j k =>
      rw [evalNode_binary fuel sub e hn]
      refine (hbelow j (by simp)).bind fun l => (hbelow k (by simp)).bind fun r => ?_
      cases op.eval l r with
      | ok v => exact halts_pure v
      | error kind => exact fun _ => trivial
    | ifElse j k no =>
      rw [evalNode_ifElse fuel sub e hn]
      refine (halts_condition (hbelow j (by simp)) "if").bind fun b => ?_
      cases b with
      | true => exact hbelow k (by simp)
      | false =>
        cases no with
        | none => exact halts_pure _
        | some l => exact hbelow l (by simp)
    | loop j k => exact absurd rfl ((hstraight i _ .root hn).1 j k)
    | seq j k =>
      rw [evalNode_seq fuel sub e hn]
      exact (hbelow j (by simp)).bind fun _ => hbelow k (by simp)
    | declare x j =>
      rw [evalNode_declare fuel sub e hn]
      refine (hbelow j (by simp)).bind fun v => ?_
      exact (it.halts_declare e x v).bind fun _ => halts_pure v
    | assign x j =>
      rw [evalNode_assign fuel sub e hn]
      refine (hbelow j (by simp)).bind fun v => ?_
      exact (it.halts_assign e x v).bind fun _ => halts_pure v
    | function span body =>
      cases hp : it.arena.arena.params? span with
      | none =>
        simp only [evalNode, hn, hp, EvalM.require, pure_bind]
        exact fun _ => trivial
      | some params =>
        rw [evalNode_function fuel sub e hn hp]
        exact fun _ => trivial
    | call f span => exact absurd rfl ((hstraight i _ .root hn).2 f span)

/-- Straight code halts with any fuel beyond its id. The fuel goes down by one from a node to its operands,
and the id by one at least. -/
theorem halts_eval (ha : it.arena.arena.WellFormed) (hstraight : it.arena.arena.Straight i) {fuel : Nat}
    (hi : i < fuel) : Halts (it.eval fuel e i) := by
  induction fuel generalizing i with
  | zero => exact absurd hi (Nat.not_lt_zero i)
  | succ fuel ih =>
    refine halts_node hstraight fun n hn j hj => ih (hstraight.operand hn hj) ?_
    have hlt : j < i := ha.child_lt hn j (Arena.mem_children_of_mem_operands hj)
    exact Nat.lt_of_lt_of_le hlt (Nat.le_of_lt_succ hi)

end Interpreter

/-- From a node from which no loop and no call can be reached outside the bodies of functions, evaluation
always comes to a value or to an error, and does so with any fuel beyond the id of the node. That searches
outward end is no more than the links say: as in every well-formed store, `Store.WellFormed.outer?_eq_link?`,
those that are followed are those that are stored. In the store that is left they lead from every frame to
a global one, and the searches for names and for global frames pass along them. -/
theorem straight_code_always_ends (it : Interpreter) (e : FrameId) (i : ExprId) (st : State)
    (ha : it.arena.arena.WellFormed) (hi : i < it.arena.arena.size)
    (hstraight : it.arena.arena.Straight i) (hs : st.store.WellFormed) (he : e < st.store.size) :
    ∃ r, it.Evaluates e i st r ∧ (∀ fuel, i < fuel → it.eval fuel e i st = r) ∧
      ∃ st', ((∃ v, r = .ok v st') ∨ ∃ x, r = .error (.raised x) st') ∧
        (∀ f, st.store.outer? f = st.store.link? f ∧ st'.store.outer? f = st'.store.link? f) ∧
        ∀ f < st'.store.size, ∃ path, st'.store.Chain f path ∧
          path.getLast? = some (st'.store.global f) ∧
          ∀ n, st'.store.owner? f n = path.find? (st'.store.binds · n) := by
  have hend : EvalM.Finished (it.eval (i + 1) e i st) :=
    Interpreter.halts_eval ha hstraight (Nat.lt_succ_self i) st
  have hsafe := Discipline.unrestricted.keptBy_eval (i + 1) it e i st ⟨ha, hi, he, hs, trivial, trivial⟩
  refine ⟨it.eval (i + 1) e i st, ⟨hend, i + 1, rfl⟩, fun fuel hfuel => ?_, ?_⟩
  · rcases Interpreter.eval_below hfuel it e i st with ⟨st', hout⟩ | heq
    · rw [hout] at hend
      exact hend.elim
    · exact heq.symm
  · have hlinks {s : Store} (h : s.WellFormed) (f : FrameId) : st.store.outer? f = st.store.link? f ∧
        s.outer? f = s.link? f := ⟨hs.outer?_eq_link? f, h.outer?_eq_link? f⟩
    cases hr : it.eval (i + 1) e i st with
    | ok v st' =>
      have hkept := (hsafe.ok hr).1.store
      exact ⟨st', .inl ⟨v, rfl⟩, hlinks hkept, fun _ hf => hkept.search hf⟩
    | error s st' =>
      rw [hr] at hend
      obtain ⟨hkept, hfault⟩ := hsafe.error hr
      cases s with
      | raised x => exact ⟨st', .inr ⟨x, rfl⟩, hlinks hkept.store, fun _ hf => hkept.store.search hf⟩
      | fault => exact absurd rfl hfault
      | outOfFuel => exact hend.elim

/-- The calls that build `var f = (g; g)`, where both places of `g` have the one node for
`function() { while (true) { true } }`. -/
def endlessBodyCalls : List BuildCall :=
  [.literal (.bool true), .loop 0 0, .function [] 1, .seq 2 2, .declare "f" 3]

/-- The code above ends with the function as its value, the endless loop being inside the body. -/
theorem endless_body_is_not_entered :
    let b := (Builder.replay endlessBodyCalls { names := .empty } []).1
    let it : Interpreter := { names := b.names, arena := { id := 0, arena := b.arena } }
    it.arena.arena.node? 1 = some (.loop 0 0) ∧
      ∃ c st', it.Evaluates 0 4 (State.fresh .buffer) (.ok (.closure c) st') ∧ c.body = 1 := by
  intro b it
  have hbuilt := ((Built.new .empty).replay endlessBodyCalls).wellFormed
  have hstraight : it.arena.arena.Straight 4 := by
    refine Arena.straight_of_closed [4, 3, 2] (by simp) fun j hj => ?_
    simp only [List.mem_cons, List.not_mem_nil, or_false] at hj
    rcases hj with rfl | rfl | rfl
    · exact ⟨.declare ⟨1⟩ 3, by decide +kernel, by simp⟩
    · exact ⟨.seq 2 2, by decide +kernel, by simp⟩
    · exact ⟨.function ⟨0, 0⟩ 1, by decide +kernel, by simp⟩
  have hvalue : ((Run.split (it.eval 5 0 4 (State.fresh .buffer))).1.toOption.bind Value.asClosure?).map
      Closure.body = some 1 := by decide +kernel
  obtain ⟨r, hr, hfuel, st', ⟨v, rfl⟩ | ⟨x, rfl⟩, -⟩ := straight_code_always_ends it 0 4
    (State.fresh .buffer) hbuilt.1 (hbuilt.2 4 (by decide +kernel)) hstraight
    (State.wellFormed_fresh .buffer) (by decide)
  · rw [hfuel 5 (by decide)] at hvalue
    cases v with
    | closure c => exact ⟨by decide +kernel, c, st', hr, Option.some.inj hvalue⟩
    | _ => cases hvalue
  · rw [hfuel 5 (by decide)] at hvalue
    cases hvalue

end Treewalk
