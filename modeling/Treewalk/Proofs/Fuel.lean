import Treewalk.Proofs.EvalRules

/-! More fuel never changes an answer.
A run that ends with some fuel ends in the same way with more, so that the end of a run is one thing
and running forever is to run out of every fuel. -/
namespace Treewalk
namespace EvalM
variable {α β : Type}

/-- Whatever `m` does without running out of fuel, `m'` does as well. -/
def Below (m m' : EvalM α) : Prop := ∀ st, (∃ st', m st = .error .outOfFuel st') ∨ m st = m' st

theorem Below.refl (m : EvalM α) : Below m m := fun _ => .inr rfl

theorem Below.bind {m m' : EvalM α} {f f' : α → EvalM β} (hm : Below m m')
    (hf : ∀ a, Below (f a) (f' a)) : Below (m >>= f) (m' >>= f') := by
  intro st
  rcases hm st with ⟨st', hout⟩ | heq
  · exact .inl ⟨st', bind_of_error hout f⟩
  · cases hr : m st with
    | error s st' =>
      exact .inr ((bind_of_error hr f).trans (bind_of_error (heq ▸ hr) f').symm)
    | ok a st' =>
      rw [bind_of_ok hr f, bind_of_ok (heq ▸ hr) f']
      exact hf a st'

theorem Below.noting {m m' : EvalM α} (hm : Below m m') (note : Unit → String) :
    Below (noting note m) (noting note m') := by
  intro st
  rcases hm st with ⟨st', hout⟩ | heq
  · exact .inl ⟨st', noting_outOfFuel hout note⟩
  · exact .inr (by simp [EvalM.noting, heq])

theorem Below.mapM {f f' : α → EvalM β} (hf : ∀ a, Below (f a) (f' a)) (xs : List α) :
    Below (xs.mapM f) (xs.mapM f') := by
  induction xs with
  | nil => exact .refl _
  | cons x xs ih =>
    rw [List.mapM_cons, List.mapM_cons]
    exact (hf x).bind fun _ => ih.bind fun _ => .refl _

end EvalM

namespace Interpreter
open EvalM

def EvaluatorBelow (sub sub' : Evaluator) : Prop := ∀ it e i, Below (sub it e i) (sub' it e i)

section Rules
variable {sub sub' : Evaluator} (hsub : EvaluatorBelow sub sub') {fuel fuel' : Nat}
  (hfuel : fuel ≤ fuel') (it : Interpreter) (e : FrameId)
include hsub

theorem below_condition (i : ExprId) (construct : String) :
    Below (evalCondition sub it e i construct) (evalCondition sub' it e i construct) :=
  (hsub it e i).bind fun _ => .refl _

theorem below_apply (c : Closure) (args : List Value) :
    Below (apply sub it c args) (apply sub' it c args) := by
  refine .bind (.refl _) fun _ => ?_
  split
  · refine .bind (.refl _) fun frame => .bind (.refl _) fun _ => ?_
    exact (hsub _ frame c.body).noting _
  · exact .refl _

include hfuel

theorem below_loop (i j : ExprId) (last : Value) (rounds : Nat) :
    Below (evalLoop sub it e i j fuel last rounds) (evalLoop sub' it e i j fuel' last rounds) := by
  induction fuel generalizing fuel' last rounds with
  | zero => exact fun st => .inl ⟨st, rfl⟩
  | succ fuel ih =>
    obtain ⟨fuel', rfl⟩ : ∃ n, fuel' = n + 1 := ⟨fuel' - 1, by omega⟩
    refine .bind (below_condition hsub it e i "while") fun b => ?_
    split
    · exact (hsub it e j).bind fun v => ih (by omega) v (rounds + 1)
    · exact .refl _

private theorem below_node (i : ExprId) :
    Below (evalNode fuel sub it e i) (evalNode fuel' sub' it e i) := by
  refine .bind (.refl _) fun n => ?_
  cases n with
  | literal | ident | function => exact .refl _
  | print j => exact (hsub it e j).bind fun _ => .refl _
  | binary op j k => exact (hsub it e j).bind fun _ => (hsub it e k).bind fun _ => .refl _
  | ifElse j k no =>
    refine .bind (below_condition hsub it e j "if") fun b => ?_
    split
    · exact hsub it e k
    · cases no with
      | none => exact .refl _
      | some l => exact hsub it e l
  | loop j k => exact below_loop hsub hfuel it e j k .null 0
  | seq j k => exact (hsub it e j).bind fun _ => hsub it e k
  | declare n j | assign n j => exact (hsub it e j).bind fun _ => .refl _
  | call callee span =>
    refine (hsub it e callee).bind fun v => ?_
    cases v with
    | closure c =>
      refine .bind (.refl _) fun ids => .bind (.mapM (hsub it e) ids) fun args => ?_
      exact below_apply hsub it c args
    | _ => exact .refl _

end Rules

theorem eval_below {fuel fuel' : Nat} (h : fuel ≤ fuel') :
    EvaluatorBelow (eval fuel) (eval fuel') := by
  induction fuel generalizing fuel' with
  | zero => exact fun _ _ _ st => .inl ⟨st, rfl⟩
  | succ fuel ih =>
    obtain ⟨fuel', rfl⟩ : ∃ n, fuel' = n + 1 := ⟨fuel' - 1, by omega⟩
    intro it e i
    exact below_node (ih (Nat.le_of_succ_le_succ h)) (Nat.le_of_succ_le_succ h) it e i

theorem evaluate_below {fuel fuel' : Nat} (h : fuel ≤ fuel') :
    EvaluatorBelow (evaluate fuel) (evaluate fuel') :=
  fun it e i => .bind (.refl _) fun _ => eval_below h it e i

end Interpreter

/-- A run that has ended is the same with more fuel. -/
theorem Run.ofNode_eq_of_le {names : Interner} {arena : SharedArena} {root : ExprId} {sink : Sink}
    {fuel fuel' : Nat} (h : fuel ≤ fuel')
    (hend : (ofNode names arena root sink (Interpreter.evaluate fuel)).outcome ≠ .error .outOfFuel) :
    ofNode names arena root sink (Interpreter.evaluate fuel') =
      ofNode names arena root sink (Interpreter.evaluate fuel) := by
  rw [ofNode_eq] at hend
  rw [ofNode_eq, ofNode_eq]
  rcases Interpreter.evaluate_below h { names, arena } 0 root (State.fresh sink) with ⟨st, hout⟩ | heq
  · exact absurd (by rw [hout]; rfl) hend
  · rw [heq]

end Treewalk
