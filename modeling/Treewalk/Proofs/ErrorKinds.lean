import Treewalk.Proofs.ErrorTrail

/-! What errors say is true.
Whatever ends with an error came to be busy with something that raised it, and the data of the error fit
the rule by which it was raised. Assignments raise nothing. -/
namespace Treewalk

namespace Operator

inductive Fails (op : Operator) (l r : Value) : ErrorKind → Prop where
  | operands (hop : op ≠ .eq) (h : ¬ (l.typeName = "int" ∧ r.typeName = "int")) :
      Fails op l r (.invalidOperands op l.typeName r.typeName)
  | zero (hop : op = .div ∨ op = .mod) : Fails op l r (.divisionByZero op)
  | overflow (hop : op = .add ∨ op = .sub ∨ op = .mul ∨ op = .div) :
      Fails op l r (.integerOverflow op)

private theorem error_of_checked {op : Operator} {n : Int} {kind : ErrorKind}
    (h : op.checked n = .error kind) : kind = .integerOverflow op := by
  rw [checked] at h
  split at h <;> cases h
  rfl

private theorem fails_of_evalInts {op : Operator} {a b : Int64} {l r : Value} {kind : ErrorKind}
    (h : op.evalInts a b = .error kind) : op.Fails l r kind := by
  cases op with
  | add | sub | mul =>
    obtain rfl := error_of_checked h
    exact .overflow (by simp)
  | div =>
    simp only [evalInts] at h
    split at h
    · cases h
      exact .zero (.inl rfl)
    · obtain rfl := error_of_checked h
      exact .overflow (by simp)
  | mod =>
    simp only [evalInts] at h
    split at h <;> cases h
    exact .zero (.inr rfl)
  | gt | ge | lt | le | eq => cases h

theorem fails_of_eval {op : Operator} {l r : Value} {kind : ErrorKind}
    (h : op.eval l r = .error kind) : op.Fails l r kind := by
  rw [eval] at h
  split at h
  · rename_i hop
    split at h
    · exact fails_of_evalInts h
    · rename_i hints
      cases h
      refine .operands (by simpa [requiresInts] using hop) ?_
      rintro ⟨hl, hr⟩
      cases l <;> cases r <;> simp_all [Value.typeName, Value.asInt?]
  · cases h

end Operator

namespace Activity

/-- What an error of each kind is entitled to say, if it was raised by this activity. -/
def Justifies (origin : Activity) : ErrorKind → Prop
  | .nonBoolCondition construct got => (construct = "if" ∨ construct = "while") ∧ got ≠ "bool"
  | .invalidOperands op left right => op ≠ .eq ∧ ¬ (left = "int" ∧ right = "int")
  | .notCallable got => got ≠ "function"
  | .divisionByZero op => op = .div ∨ op = .mod
  | .integerOverflow op => op = .add ∨ op = .sub ∨ op = .mul ∨ op = .div
  | .arityMismatch expected got => expected ≠ got
  | .duplicateDeclaration text =>
    (∃ it e i x j, origin = .eval it e i ∧ it.arena.arena.node? i = some (.declare x j) ∧
      text = it.names.lookup x) ∨
    (∃ it c args x, origin = .call it (.closure c) args ∧ 2 ≤ c.params.count x ∧
      text = it.names.lookup x)
  | .unknownOperator _ => False

private theorem Justifies.of_fails {origin : Activity} {op : Operator} {l r : Value} {kind : ErrorKind}
    (h : op.Fails l r kind) : origin.Justifies kind := by
  cases h with
  | operands hop h => exact ⟨hop, h⟩
  | zero hop => exact hop
  | overflow hop => exact hop

private theorem typeName_ne_bool {v : Value} (h : v.asBool? = none) : v.typeName ≠ "bool" := by
  cases v with
  | bool b => cases h
  | _ => simp [Value.typeName]

private theorem typeName_ne_function {v : Value} (h : v.asClosure? = none) :
    v.typeName ≠ "function" := by
  cases v with
  | closure c => cases h
  | _ => simp [Value.typeName]

open Interpreter in
private theorem mem_of_binds_opened {it : Interpreter} {c : Closure} {args : List Value}
    {before : List (Name × Value)} {st st₁ : State} {x : Name}
    (hp : it.bindParams st.store.size before (opened st it c args) = .ok () st₁)
    (hb : st₁.store.binds st.store.size x = true) : x ∈ before.map Prod.fst := by
  obtain rfl : (opened st it c args).bindAll st.store.size before = st₁ := by
    rcases it.bindParams_run st.store.size before (opened st it c args) with h | ⟨_, _, _, _, _, _, h⟩
    · exact (EStateM.Result.ok.inj (h.symm.trans hp)).2
    · rw [hp] at h
      cases h
  have hnew : (opened st it c args).store.binds st.store.size x = false := by
    rw [Store.binds_eq_isSome_get?, get?_opened, Option.isSome_none]
  rw [State.store_bindAll, Store.binds_bindAll_iff, hnew] at hb
  rcases hb with ⟨_, hmem, _⟩ | hb
  · exact hmem
  · cases hb

private theorem two_le_count {params : List Name} {args : List Value} {before after : List (Name × Value)}
    {b : Name × Value} (hl : args.length = params.length)
    (hz : params.zip args = before ++ b :: after) (hmem : b.1 ∈ before.map Prod.fst) :
    2 ≤ params.count b.1 := by
  have hparams : params = before.map Prod.fst ++ b.1 :: after.map Prod.fst := by
    rw [← List.map_fst_zip (Nat.le_of_eq hl.symm), hz, List.map_append, List.map_cons]
  rw [hparams, List.count_append, List.count_cons_self]
  have hbefore := List.count_pos_iff.mpr hmem
  omega

/-- Each rule that raises an error fills it with what it found. -/
theorem Raises.justifies {A : Activity} {st st' : State} {kind : ErrorKind}
    (h : A.Raises st kind st') : A.Justifies kind := by
  cases h with
  | operator hn hj hk hop => exact .of_fails (Operator.fails_of_eval hop)
  | ifCondition hn hj hv => exact ⟨.inl rfl, typeName_ne_bool hv⟩
  | loopCondition hn hr hj hv => exact ⟨.inr rfl, typeName_ne_bool hv⟩
  | declare hn hj hb => exact .inl ⟨_, _, _, _, _, rfl, hn, rfl⟩
  | callee hn hf hv => exact typeName_ne_function hv
  | notCallable it args st hv => exact typeName_ne_function hv
  | arity it st hl => exact Ne.symm hl
  | parameter hl hz hp hb =>
    exact .inr ⟨_, _, _, _, rfl, two_le_count hl hz (mem_of_binds_opened hp hb), rfl⟩

theorem Open.names_eq {A B : Activity} {st st₁ : State} {trail : List Closure}
    (h : A.Open st trail B st₁) : B.names = A.names := by
  induction h with
  | self => rfl
  | part h _ ih => exact ih.trans h.names_eq
  | body _ _ _ ih => exact ih

end Activity

/-- An assignment fails only if its operand does, and then with the same error. -/
theorem Interpreter.assign_error_iff {it : Interpreter} {e : FrameId} {i j : ExprId} {x : Name}
    {st st' : State} {s : Stop} (hn : it.arena.arena.node? i = some (.assign x j)) :
    it.Evaluates e i st (.error s st') ↔ it.Evaluates e j st (.error s st') := by
  rw [evaluates_iff_of_rule fun n => evalNode_assign n (eval n) e hn]
  refine (EvalM.ends_bind (f := fun _ v => it.assign e x v >>= fun _ => pure v) (it.steady_eval e j)
    fun v => EvalM.steady_const _).trans ?_
  constructor
  · rintro (⟨s', st₁, ⟨⟩, h⟩ | ⟨v, st₁, _, h⟩)
    · exact h
    · have hok := (EvalM.ends_const.mp h).2
      rw [bind_of_ok (assign_run it e x v st₁)] at hok
      cases hok
  · intro h
    exact .inl ⟨s, st', rfl, h⟩

/-- Whenever an evaluation or a call ends with an error, something it had come to be busy with raised an
error of that kind, and the kind and its data are among those that this origin can justify; in
particular no unknown operator is reported, and a duplicate declaration names a declared variable or a
repeated parameter. An assignment node raises no error of its own. -/
theorem errors_are_justified :
    (∀ (A : Activity) (st : State) (x : EvalError) (st' : State),
      A.Ends st (.error (.raised x) st') →
      ∃ trail origin st₀, A.Open st trail origin st₀ ∧ origin.names = A.names ∧
        origin.Ends st₀ (.error (.raised { kind := x.kind }) st') ∧ origin.Justifies x.kind) ∧
    (∀ (it : Interpreter) (e : FrameId) (i j : ExprId) (n : Name) (st : State) (s : Stop) (st' : State),
      it.arena.arena.node? i = some (.assign n j) →
      (it.Evaluates e i st (.error s st') ↔ it.Evaluates e j st (.error s st'))) := by
  constructor
  · intro A st x st' h
    obtain ⟨trail, origin, st₀, hopen, hraise, _⟩ := Activity.traced_of_ends h
    exact ⟨trail, origin, st₀, hopen, hopen.names_eq, hraise.fails, hraise.justifies⟩
  · intro it e i j n st s st' hn
    exact Interpreter.assign_error_iff hn

/-- The calls that build `y = (function(x, x) { null })(null, null)`. -/
def repeatedParameterCalls : List BuildCall :=
  [.literal .null, .function ["x", "x"] 0, .call 1 [0, 0], .assign "y" 2]

theorem repeated_parameter_is_justified :
    let b := (Builder.replay repeatedParameterCalls { names := .empty } []).1
    let it : Interpreter := { names := b.names, arena := { id := 0, arena := b.arena } }
    let st := State.fresh .buffer
    let x : EvalError := { kind := .duplicateDeclaration "x" }
    ∃ st', it.Evaluates 0 2 st (.error (.raised x) st') ∧
      ∃ trail origin st₀, (Activity.eval it 0 3).Open st trail origin st₀ ∧
        origin.Justifies (.duplicateDeclaration "x") := by
  intro b it st x
  have hend : (Run.split (it.eval 4 0 3 st)).1 = .error (.raised x) := by decide +kernel
  obtain ⟨st', hassign⟩ : ∃ st', it.Evaluates 0 3 st (.error (.raised x) st') := by
    cases hr : it.eval 4 0 3 st with
    | ok v st' =>
      rw [hr] at hend
      cases hend
    | error s st' =>
      rw [hr] at hend
      cases hend
      exact ⟨st', trivial, 4, hr⟩
  obtain ⟨trail, origin, st₀, hopen, _, _, hjust⟩ :=
    errors_are_justified.1 (.eval it 0 3) st x st' hassign
  have hcall := (errors_are_justified.2 it 0 3 2 ⟨2⟩ st _ st' (by decide +kernel)).mp hassign
  exact ⟨st', hcall, trail, origin, st₀, hopen, hjust⟩

end Treewalk
