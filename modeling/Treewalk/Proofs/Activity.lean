import Treewalk.Proofs.CallRules

/-! What an evaluator is busy with, and where errors come from.
An activity begins others and waits for them; to enter the body of a function is one way to do so. An
error is raised by one activity, and passes out through all that are waiting. -/
namespace Treewalk

/-- What an evaluator can be busy with: a node in a frame, or a function and its arguments. -/
inductive Activity where
  | eval (it : Interpreter) (e : FrameId) (i : ExprId)
  | call (it : Interpreter) (callee : Value) (args : List Value)

/-- The operand with which a node begins. Loops are apart, since they begin again and again. -/
def Node.first? : Node → Option ExprId
  | print j | binary _ j _ | ifElse j _ _ | seq j _ | declare _ j | assign _ j | call j _ => some j
  | literal _ | ident _ | loop _ _ | function _ _ => none

namespace Interpreter

/-- Whole rounds of a loop, from state to state. -/
inductive Rounds (it : Interpreter) (e : FrameId) (cond body : ExprId) (st : State) :
    State → Prop where
  | none : Rounds it e cond body st st
  | round {st₁ st₂ st₃ : State} {v : Value} (h : Rounds it e cond body st st₁)
      (hc : it.Evaluates e cond st₁ (.ok (.bool true) st₂))
      (hb : it.Evaluates e body st₂ (.ok v st₃)) : Rounds it e cond body st st₃

end Interpreter

namespace Activity
open EvalM Interpreter

def names : Activity → Interner
  | eval it _ _ | call it _ _ => it.names

def run : Activity → Nat → EvalM Value
  | eval it e i, n => it.eval n e i
  | call it callee args, n => it.call n callee args

/-- Carrying out one activity from `st`, the evaluator comes to begin another one in `st'`, without
entering the body of a function. -/
inductive Begins : Activity → State → Activity → State → Prop where
  | first {it : Interpreter} {e i j n st} (hn : it.arena.arena.node? i = some n)
      (hj : n.first? = some j) : Begins (.eval it e i) st (.eval it e j) st
  | right {it : Interpreter} {e i op j k st v st₁}
      (hn : it.arena.arena.node? i = some (.binary op j k))
      (hj : it.Evaluates e j st (.ok v st₁)) : Begins (.eval it e i) st (.eval it e k) st₁
  | yes {it : Interpreter} {e i j k no st st₁}
      (hn : it.arena.arena.node? i = some (.ifElse j k no))
      (hj : it.Evaluates e j st (.ok (.bool true) st₁)) :
      Begins (.eval it e i) st (.eval it e k) st₁
  | no {it : Interpreter} {e i j k l st st₁}
      (hn : it.arena.arena.node? i = some (.ifElse j k (some l)))
      (hj : it.Evaluates e j st (.ok (.bool false) st₁)) :
      Begins (.eval it e i) st (.eval it e l) st₁
  | condition {it : Interpreter} {e i j k st st₁}
      (hn : it.arena.arena.node? i = some (.loop j k)) (hr : it.Rounds e j k st st₁) :
      Begins (.eval it e i) st (.eval it e j) st₁
  | round {it : Interpreter} {e i j k st st₁ st₂}
      (hn : it.arena.arena.node? i = some (.loop j k)) (hr : it.Rounds e j k st st₁)
      (hj : it.Evaluates e j st₁ (.ok (.bool true) st₂)) :
      Begins (.eval it e i) st (.eval it e k) st₂
  | second {it : Interpreter} {e i j k st v st₁} (hn : it.arena.arena.node? i = some (.seq j k))
      (hj : it.Evaluates e j st (.ok v st₁)) : Begins (.eval it e i) st (.eval it e k) st₁
  | argument {it : Interpreter} {e i f span before j after st c st₁ vs st₂}
      (hn : it.arena.arena.node? i = some (.call f span))
      (ha : it.arena.arena.args? span = some (before ++ j :: after))
      (hf : it.Evaluates e f st (.ok (.closure c) st₁))
      (hb : it.EvaluatesAll e before st₁ (.ok vs st₂)) :
      Begins (.eval it e i) st (.eval it e j) st₂
  | call {it : Interpreter} {e i f span args st c st₁ vs st₂}
      (hn : it.arena.arena.node? i = some (.call f span))
      (ha : it.arena.arena.args? span = some args)
      (hf : it.Evaluates e f st (.ok (.closure c) st₁))
      (hb : it.EvaluatesAll e args st₁ (.ok vs st₂)) :
      Begins (.eval it e i) st (.call it (.closure c) vs) st₂

/-- Carrying out one activity from `st`, the evaluator comes to be busy with another one in `st'`. The
functions whose bodies it has entered on the way and not left are listed, the innermost first. -/
inductive Open : Activity → State → List Closure → Activity → State → Prop where
  | self (A : Activity) (st : State) : Open A st [] A st
  | part {A B C : Activity} {st st₁ st₂ trail} (h : A.Begins st B st₁)
      (k : Open B st₁ trail C st₂) : Open A st trail C st₂
  | body {it : Interpreter} {c args st st₁ trail B st₂} (hl : args.length = c.arity)
      (hp : it.bindParams st.store.size (c.params.zip args) (opened st it c args) = .ok () st₁)
      (k : Open (.eval (it.callee c) st.store.size c.body) st₁ trail B st₂) :
      Open (.call it (.closure c) args) st (trail ++ [c]) B st₂

/-- Carrying out an activity from `st`, the evaluator raises an error by the rule of that activity
itself, in the state `st'`. -/
inductive Raises : Activity → State → ErrorKind → State → Prop where
  | operator {it : Interpreter} {e i op j k st l st₁ r st₂ kind}
      (hn : it.arena.arena.node? i = some (.binary op j k)) (hj : it.Evaluates e j st (.ok l st₁))
      (hk : it.Evaluates e k st₁ (.ok r st₂)) (hop : op.eval l r = .error kind) :
      Raises (.eval it e i) st kind st₂
  | ifCondition {it : Interpreter} {e i j k no st v st₁}
      (hn : it.arena.arena.node? i = some (.ifElse j k no))
      (hj : it.Evaluates e j st (.ok v st₁)) (hv : v.asBool? = none) :
      Raises (.eval it e i) st (.nonBoolCondition "if" v.typeName) st₁
  | loopCondition {it : Interpreter} {e i j k st st₁ v st₂}
      (hn : it.arena.arena.node? i = some (.loop j k)) (hr : it.Rounds e j k st st₁)
      (hj : it.Evaluates e j st₁ (.ok v st₂)) (hv : v.asBool? = none) :
      Raises (.eval it e i) st (.nonBoolCondition "while" v.typeName) st₂
  | declare {it : Interpreter} {e i x j st v st₁}
      (hn : it.arena.arena.node? i = some (.declare x j)) (hj : it.Evaluates e j st (.ok v st₁))
      (hb : st₁.store.binds e x = true) :
      Raises (.eval it e i) st (.duplicateDeclaration (it.names.lookup x)) st₁
  | callee {it : Interpreter} {e i f span st v st₁}
      (hn : it.arena.arena.node? i = some (.call f span)) (hf : it.Evaluates e f st (.ok v st₁))
      (hv : v.asClosure? = none) : Raises (.eval it e i) st (.notCallable v.typeName) st₁
  | notCallable (it : Interpreter) {v : Value} (args : List Value) (st : State)
      (hv : v.asClosure? = none) : Raises (.call it v args) st (.notCallable v.typeName) st
  | arity (it : Interpreter) {c : Closure} {args : List Value} (st : State)
      (hl : args.length ≠ c.arity) :
      Raises (.call it (.closure c) args) st (.arityMismatch c.arity args.length)
        (st.log (.apply args.length it.depth))
  | parameter {it : Interpreter} {c args before b after st st₁} (hl : args.length = c.arity)
      (hz : c.params.zip args = before ++ b :: after)
      (hp : it.bindParams st.store.size before (opened st it c args) = .ok () st₁)
      (hb : st₁.store.binds st.store.size b.1 = true) :
      Raises (.call it (.closure c) args) st (.duplicateDeclaration (it.names.lookup b.1)) st₁

/-! Outward: an error that one activity raises ends those that wait for it. -/

def Ends (A : Activity) (st : State) (r : EStateM.Result Stop State Value) : Prop :=
  EvalM.Ends A.run st r

section Outward
variable {it : Interpreter} {e : FrameId} {i j k : ExprId} {st st₁ st' : State} {x : EvalError}

private theorem rounds_then {r : EStateM.Result Stop State Value} (h : it.Rounds e j k st st₁)
    (hr : ∀ last rounds, EvalM.Ends (fun n => evalLoop (Interpreter.eval n) it e j k n last rounds)
      st₁ r) (last : Value) (rounds : Nat) :
    EvalM.Ends (fun n => evalLoop (Interpreter.eval n) it e j k n last rounds) st r := by
  induction h generalizing last rounds with
  | none => exact hr last rounds
  | @round st₁ st₂ st₃ v _ hc hb ih =>
    refine ih (fun last rounds => ends_loop_iff.mpr ?_) last rounds
    have hrest := it.steady_loop e j k v (rounds + 1)
    have hbody : Steady fun n => it.eval n e k >>= fun v =>
        evalLoop (Interpreter.eval n) it e j k n v (rounds + 1) :=
      (it.steady_eval e k).bind fun v => it.steady_loop e j k v (rounds + 1)
    apply (ends_condition "while" hc).bind_ok (it.steady_condition e j "while") hbody
    exact hb.bind_ok (it.steady_eval e k) hrest (hr v (rounds + 1))

private theorem first_fails {n : Node} (hn : it.arena.arena.node? i = some n)
    (hj : n.first? = some j) (h : it.Evaluates e j st (.error (.raised x) st')) :
    it.Evaluates e i st (.error (.raised x) st') := by
  cases n with
  | literal | ident | loop | function => cases hj
  | print =>
    cases hj
    exact (evaluates_iff_of_rule fun n => evalNode_print n _ e hn).mpr h.bind_error
  | binary =>
    cases hj
    exact (evaluates_iff_of_rule fun n => evalNode_binary n _ e hn).mpr h.bind_error
  | ifElse =>
    cases hj
    exact (evaluates_iff_of_rule fun n => evalNode_ifElse n _ e hn).mpr
      (ends_condition "if" h).bind_error
  | seq =>
    cases hj
    exact (evaluates_iff_of_rule fun n => evalNode_seq n _ e hn).mpr h.bind_error
  | declare =>
    cases hj
    exact (evaluates_iff_of_rule fun n => evalNode_declare n _ e hn).mpr h.bind_error
  | assign =>
    cases hj
    exact (evaluates_iff_of_rule fun n => evalNode_assign n _ e hn).mpr h.bind_error
  | call =>
    cases hj
    exact (evaluates_iff_of_rule fun n => evalNode_callee n _ e hn).mpr h.bind_error

private theorem steady_right {it : Interpreter} {e : FrameId} {k : ExprId} (op : Operator) (l : Value) :
    Steady fun n => it.eval n e k >>= fun r => EvalM.ofExcept (op.eval l r) :=
  (it.steady_eval e k).bind fun r => steady_const (EvalM.ofExcept (op.eval l r))

private theorem argument_fails {before after : List ExprId} {vs : List Value}
    (hb : it.EvaluatesAll e before st (.ok vs st₁)) {s : Stop}
    (h : it.Evaluates e j st₁ (.error s st')) :
    it.EvaluatesAll e (before ++ j :: after) st (.error s st') := by
  induction before generalizing st vs with
  | nil =>
    cases hb
    exact .stop h
  | cons i before ih =>
    cases hb with
    | cons hi hb => exact .later hi (ih hb)

/-- An error passes out unchanged through every activity that began the one it comes from. -/
theorem Begins.fails {A B : Activity} (h : A.Begins st B st₁)
    (hB : B.Ends st₁ (.error (.raised x) st')) : A.Ends st (.error (.raised x) st') := by
  cases h with
  | first hn hj => exact first_fails hn hj hB
  | right hn hj =>
    exact (evaluates_iff_of_rule fun n => evalNode_binary n _ _ hn).mpr <|
      hj.bind_ok (steady_eval _ _ _) (steady_right _ _) hB.bind_error
  | yes hn hj =>
    exact (evaluates_iff_of_rule fun n => evalNode_ifElse n _ _ hn).mpr <|
      (ends_condition "if" hj).bind_ok (steady_condition _ _ _ _) (steady_eval _ _ _) hB
  | no hn hj =>
    exact (evaluates_iff_of_rule fun n => evalNode_ifElse n _ _ hn).mpr <|
      (ends_condition "if" hj).bind_ok (steady_condition _ _ _ _) (steady_eval _ _ _) hB
  | condition hn hr =>
    refine (evaluates_iff_of_rule fun n => evalNode_loop n _ _ hn).mpr ?_
    refine rounds_then hr (fun last rounds => ?_) .null 0
    exact ends_loop_iff.mpr (ends_condition "while" hB).bind_error
  | round hn hr hj =>
    refine (evaluates_iff_of_rule fun n => evalNode_loop n _ _ hn).mpr ?_
    refine rounds_then hr (fun last rounds => ends_loop_iff.mpr ?_) .null 0
    refine (ends_condition "while" hj).bind_ok (steady_condition _ _ _ _) ?_ hB.bind_error
    exact (steady_eval _ _ _).bind fun v => steady_loop _ _ _ _ v _
  | second hn hj =>
    exact (evaluates_iff_of_rule fun n => evalNode_seq n _ _ hn).mpr <|
      hj.bind_ok (steady_eval _ _ _) (steady_eval _ _ _) hB
  | argument hn ha hf hb => exact (evaluates_call_iff hn ha).mpr (.args hf (argument_fails hb hB))
  | call hn ha hf hb => exact (evaluates_call_iff hn ha).mpr (.call hf hb hB)

private theorem ends_raise {α : Type} (kind : ErrorKind) :
    EvalM.Ends (fun _ => (EvalM.raise kind : EvalM α)) st (.error (.raised { kind }) st) :=
  ends_const.mpr ⟨trivial, rfl⟩

/-- An activity that raises an error comes to an end with it, and no note. -/
theorem Raises.fails {A : Activity} {kind : ErrorKind} (h : A.Raises st kind st') :
    A.Ends st (.error (.raised { kind }) st') := by
  cases h with
  | operator hn hj hk hop =>
    refine (evaluates_iff_of_rule fun n => evalNode_binary n _ _ hn).mpr ?_
    refine hj.bind_ok (steady_eval _ _ _) (steady_right _ _) ?_
    refine hk.bind_ok (steady_eval _ _ _) (steady_const _) ?_
    rw [hop]
    exact ends_raise kind
  | ifCondition hn hj hv =>
    refine (evaluates_iff_of_rule fun n => evalNode_ifElse n _ _ hn).mpr ?_
    have hcond := ends_condition "if" hj
    rw [toCondition_eq_error_iff.mpr (.inr ⟨_, rfl, hv, rfl⟩)] at hcond
    exact hcond.bind_error
  | loopCondition hn hr hj hv =>
    refine (evaluates_iff_of_rule fun n => evalNode_loop n _ _ hn).mpr ?_
    have hcond := ends_condition "while" hj
    rw [toCondition_eq_error_iff.mpr (.inr ⟨_, rfl, hv, rfl⟩)] at hcond
    exact rounds_then hr (fun last rounds => ends_loop_iff.mpr hcond.bind_error) .null 0
  | @declare it e i x j st v st₁ hn hj hb =>
    refine (evaluates_iff_of_rule fun n => evalNode_declare n _ _ hn).mpr ?_
    refine hj.bind_ok (steady_eval _ _ _) (steady_const _) ?_
    have hrun := it.declare_run e x v st'
    rw [if_pos hb] at hrun
    exact ends_const.mpr ⟨trivial, bind_of_error hrun _⟩
  | @callee it e i f span st v st₁ hn hf hv =>
    refine (evaluates_iff_of_rule fun n => evalNode_callee n _ _ hn).mpr ?_
    obtain ⟨_, n, hrun⟩ := hf
    refine ⟨trivial, n, (bind_of_ok hrun _).trans ?_⟩
    cases v with
    | closure c => cases hv
    | _ => rfl
  | @notCallable it v args st hv =>
    cases v with
    | closure c => cases hv
    | _ => exact ends_raise _
  | arity it st hl => exact ⟨trivial, 0, apply_arity _ it hl st⟩
  | @parameter it c args before b after st st₁ hl hz hp hb =>
    have hrun := EvalM.declare_run st.store.size b.1 b.2 (it.names.lookup b.1) st'
    rw [if_pos hb] at hrun
    have hall : it.bindParams st.store.size (c.params.zip args) (opened st it c args) =
        .error (.raised { kind := .duplicateDeclaration (it.names.lookup b.1) }) st' := by
      rw [hz, bindParams_append, bind_of_ok hp]
      exact bind_of_error hrun _
    exact ⟨trivial, 0, (apply_run _ it hl st).trans (bind_of_error hall _)⟩

/-- The error with one note for each function of a trail. -/
def trailed (names : Interner) (kind : ErrorKind) (trail : List Closure) : EvalError :=
  { kind, notes := (trail.map fun c => "in call to " ++ c.signature names).toArray }

theorem trailed_concat (names : Interner) (kind : ErrorKind) (trail : List Closure) (c : Closure) :
    trailed names kind (trail ++ [c]) =
      (trailed names kind trail).addNote ("in call to " ++ c.signature names) := by
  simp [trailed, EvalError.addNote]

theorem Begins.names_eq {A B : Activity} (h : A.Begins st B st₁) : B.names = A.names := by
  cases h <;> rfl

/-- An error passes out through all that is open, and gets a note from each body that it leaves. -/
theorem Open.fails {A B : Activity} {trail : List Closure} {kind : ErrorKind}
    (h : A.Open st trail B st₁) (hB : B.Raises st₁ kind st') :
    A.Ends st (.error (.raised (trailed A.names kind trail)) st') := by
  induction h with
  | self => exact hB.fails
  | part h _ ih => exact h.names_eq ▸ h.fails (ih hB)
  | @body it c args st _ trail _ _ hl hp _ ih =>
    obtain ⟨_, n, hn⟩ := ih hB
    refine ⟨trivial, n, ?_⟩
    rw [trailed_concat]
    exact (apply_run _ it hl st).trans ((bind_of_ok hp _).trans (EvalM.noting_raised hn _))

end Outward
end Activity
end Treewalk
