import Treewalk.Proofs.Activity

/-! The notes of an error are the calls that were open when it was raised.
Every error of a run is followed inwards to the activity that raised it, along the bodies of functions
that had been entered and not left. -/
namespace Treewalk
namespace Activity
open EvalM Interpreter

/-- An error whose origin is open from `A`, with the notes of the functions on the way there. -/
def Traced (A : Activity) (st : State) (x : EvalError) (st' : State) : Prop :=
  ∃ trail origin st₀, A.Open st trail origin st₀ ∧ origin.Raises st₀ x.kind st' ∧
    x = trailed A.names x.kind trail

def TracedBy (n : Nat) : Prop :=
  ∀ {it : Interpreter} {e : FrameId} {i : ExprId} {st st' : State} {x : EvalError},
    it.eval n e i st = .error (.raised x) st' → (eval it e i).Traced st x st'

variable {A B : Activity} {it : Interpreter} {e : FrameId} {i j k : ExprId} {st st₁ st' : State}
  {x : EvalError} {n : Nat}

theorem Raises.traced {kind : ErrorKind} (h : A.Raises st kind st') : A.Traced st { kind } st' :=
  ⟨[], A, st, .self A st, h, rfl⟩

theorem Begins.traced (h : A.Begins st B st₁) (hB : B.Traced st₁ x st') : A.Traced st x st' := by
  obtain ⟨trail, origin, st₀, hopen, hraise, hx⟩ := hB
  exact ⟨trail, origin, st₀, .part h hopen, hraise, h.names_eq ▸ hx⟩

/-- The body of a function adds its note. -/
theorem traced_body {c : Closure} {args : List Value} (hl : args.length = c.arity)
    (hp : it.bindParams st.store.size (c.params.zip args) (opened st it c args) = .ok () st₁)
    (h : (eval (it.callee c) st.store.size c.body).Traced st₁ x st') :
    (call it (.closure c) args).Traced st (x.addNote ("in call to " ++ c.signature it.names)) st' := by
  obtain ⟨trail, origin, st₀, hopen, hraise, hx⟩ := h
  refine ⟨trail ++ [c], origin, st₀, .body hl hp hopen, hraise, ?_⟩
  rw [trailed_concat]
  exact congrArg (EvalError.addNote · _) hx

private theorem evaluates_ok {v : Value} (h : it.eval n e i st = .ok v st') :
    it.Evaluates e i st (.ok v st') := ⟨trivial, n, h⟩

private theorem ok_of_condition {construct : String} {b : Bool}
    (h : evalCondition (Interpreter.eval n) it e j construct st = .ok b st') :
    it.Evaluates e j st (.ok (.bool b) st') := by
  rw [evalCondition_run, toCondition_eq_ok_iff] at h
  exact evaluates_ok h

private theorem error_of_condition {construct : String}
    (h : evalCondition (Interpreter.eval n) it e j construct st = .error (.raised x) st') :
    it.eval n e j st = .error (.raised x) st' ∨
      ∃ v, it.Evaluates e j st (.ok v st') ∧ v.asBool? = none ∧
        x = { kind := .nonBoolCondition construct v.typeName } := by
  rw [evalCondition_run, toCondition_eq_error_iff] at h
  rcases h with h | ⟨v, hv, hnot, hx⟩
  · exact .inl h
  · exact .inr ⟨v, evaluates_ok hv, hnot, Stop.raised.inj hx⟩

/-- An error of a loop comes up after whole rounds, in the condition or in the body. -/
private theorem traced_loop (ih : TracedBy n) (hn : it.arena.arena.node? i = some (.loop j k))
    {fuel rounds : Nat} {last : Value} (hr : it.Rounds e j k st st₁)
    (h : evalLoop (Interpreter.eval n) it e j k fuel last rounds st₁ = .error (.raised x) st') :
    (eval it e i).Traced st x st' := by
  induction fuel generalizing last rounds st₁ with
  | zero => cases h
  | succ fuel hfuel =>
    rcases error_of_bind h with h | ⟨b, st₂, hc, h⟩
    · rcases error_of_condition h with h | ⟨v, hv, hnot, rfl⟩
      · exact (Begins.condition hn hr).traced (ih h)
      · exact (Raises.loopCondition hn hr hv hnot).traced
    · cases b with
      | false => cases h
      | true =>
        rcases error_of_bind h with h | ⟨v, st₃, hv, h⟩
        · exact (Begins.round hn hr (ok_of_condition hc)).traced (ih h)
        · exact hfuel (hr.round (ok_of_condition hc) (evaluates_ok hv)) h

private theorem error_of_args {ids : List ExprId} {s : Stop}
    (h : ids.mapM (it.eval n e) st = .error s st') :
    ∃ before j after vs st₁, ids = before ++ j :: after ∧
      it.EvaluatesAll e before st (.ok vs st₁) ∧ it.eval n e j st₁ = .error s st' := by
  induction ids generalizing st with
  | nil => cases h
  | cons i ids ih =>
    rw [List.mapM_cons] at h
    rcases error_of_bind h with h | ⟨v, st₁, hv, h⟩
    · exact ⟨[], i, ids, [], st, rfl, .nil st, h⟩
    · rcases error_of_bind h with h | ⟨vs, st₂, _, h⟩
      · obtain ⟨before, j, after, vs, st₂, rfl, hb, hj⟩ := ih h
        exact ⟨i :: before, j, after, v :: vs, st₂, rfl, .cons (evaluates_ok hv) hb, hj⟩
      · cases h

private theorem traced_apply (ih : TracedBy n) {c : Closure} {args : List Value}
    (h : apply (Interpreter.eval n) it c args st = .error (.raised x) st') :
    (call it (.closure c) args).Traced st x st' := by
  by_cases hl : args.length = c.arity
  · rw [apply_run _ it hl] at h
    rcases it.bindParams_run st.store.size (c.params.zip args) (opened st it c args) with
      hp | ⟨before, b, after, hz, hp, hb, herr⟩
    · rw [bind_of_ok hp] at h
      obtain ⟨y, rfl, hy⟩ := error_of_noting h
      exact traced_body hl hp (ih hy)
    · rw [bind_of_error herr] at h
      cases h
      exact (Raises.parameter hl hz hp hb).traced
  · rw [apply_arity _ it hl] at h
    cases h
    exact (Raises.arity it st hl).traced

private theorem traced_call (ih : TracedBy n) {callee : Value} {args : List Value}
    (h : it.call n callee args st = .error (.raised x) st') :
    (call it callee args).Traced st x st' := by
  cases callee with
  | closure c => exact traced_apply ih h
  | _ =>
    cases h
    exact (Raises.notCallable it args _ rfl).traced

private theorem traced_callNode (ih : TracedBy n) {f : ExprId} {span : Span}
    (hn : it.arena.arena.node? i = some (.call f span))
    (h : evalNode n (Interpreter.eval n) it e i st = .error (.raised x) st') :
    (eval it e i).Traced st x st' := by
  rw [evalNode_callee n _ e hn] at h
  rcases error_of_bind h with h | ⟨v, st₁, hf, h⟩
  · exact (Begins.first hn rfl).traced (ih h)
  · cases v with
    | closure c =>
      cases ha : it.arena.arena.args? span with
      | none =>
        rw [ha] at h
        cases h
      | some ids =>
        rw [ha] at h
        rcases error_of_bind (m := ids.mapM (it.eval n e)) h with h | ⟨vs, st₂, hvs, h⟩
        · obtain ⟨before, j, after, vs, st₂, rfl, hb, hj⟩ := error_of_args h
          exact (Begins.argument hn ha (evaluates_ok hf) hb).traced (ih hj)
        · have hall := ends_args_iff.mp ⟨finished_ok vs st₂, n, hvs⟩
          exact (Begins.call hn ha (evaluates_ok hf) hall).traced (traced_apply ih h)
    | _ =>
      cases h
      exact (Raises.callee hn (evaluates_ok hf) rfl).traced

private theorem traced_node (ih : TracedBy n)
    (h : evalNode n (Interpreter.eval n) it e i st = .error (.raised x) st') :
    (eval it e i).Traced st x st' := by
  cases hn : it.arena.arena.node? i with
  | none =>
    rw [evalNode, hn] at h
    cases h
  | some node =>
    cases node with
    | literal l =>
      rw [evalNode_literal n _ e hn] at h
      cases h
    | ident name =>
      rw [evalNode_ident n _ e hn] at h
      cases h
    | print j =>
      rw [evalNode_print n _ e hn] at h
      rcases error_of_bind h with h | ⟨v, st₁, _, h⟩
      · exact (Begins.first hn rfl).traced (ih h)
      · cases h
    | binary op j k =>
      rw [evalNode_binary n _ e hn] at h
      rcases error_of_bind h with h | ⟨l, st₁, hl, h⟩
      · exact (Begins.first hn rfl).traced (ih h)
      · rcases error_of_bind h with h | ⟨r, st₂, hr, h⟩
        · exact (Begins.right hn (evaluates_ok hl)).traced (ih h)
        · cases hop : op.eval l r with
          | ok v =>
            rw [hop] at h
            cases h
          | error kind =>
            rw [hop] at h
            cases h
            exact (Raises.operator hn (evaluates_ok hl) (evaluates_ok hr) hop).traced
    | ifElse j k no =>
      rw [evalNode_ifElse n _ e hn] at h
      rcases error_of_bind h with h | ⟨b, st₁, hb, h⟩
      · rcases error_of_condition h with h | ⟨v, hv, hnot, rfl⟩
        · exact (Begins.first hn rfl).traced (ih h)
        · exact (Raises.ifCondition hn hv hnot).traced
      · cases b with
        | true => exact (Begins.yes hn (ok_of_condition hb)).traced (ih h)
        | false =>
          cases no with
          | none => cases h
          | some l => exact (Begins.no hn (ok_of_condition hb)).traced (ih h)
    | loop j k =>
      rw [evalNode_loop n _ e hn] at h
      exact traced_loop ih hn .none h
    | seq j k =>
      rw [evalNode_seq n _ e hn] at h
      rcases error_of_bind h with h | ⟨v, st₁, hv, h⟩
      · exact (Begins.first hn rfl).traced (ih h)
      · exact (Begins.second hn (evaluates_ok hv)).traced (ih h)
    | declare name j =>
      rw [evalNode_declare n _ e hn] at h
      rcases error_of_bind h with h | ⟨v, st₁, hv, h⟩
      · exact (Begins.first hn rfl).traced (ih h)
      · rcases error_of_bind h with h | ⟨_, st₂, _, h⟩
        · rw [Interpreter.declare_run] at h
          by_cases hb : st₁.store.binds e name = true
          · rw [if_pos hb] at h
            cases h
            exact (Raises.declare hn (evaluates_ok hv) hb).traced
          · rw [if_neg hb] at h
            cases h
        · cases h
    | assign name j =>
      rw [evalNode_assign n _ e hn] at h
      rcases error_of_bind h with h | ⟨v, st₁, hv, h⟩
      · exact (Begins.first hn rfl).traced (ih h)
      · rw [bind_of_ok (assign_run it e name v st₁)] at h
        cases h
    | function span body =>
      rw [evalNode, hn] at h
      rcases error_of_bind (m := EvalM.require (it.arena.arena.params? span)) h with h | ⟨_, _, _, h⟩
      · cases hp : it.arena.arena.params? span with
        | none =>
          rw [hp] at h
          cases h
        | some params =>
          rw [hp] at h
          cases h
      · cases h
    | call f span => exact traced_callNode ih hn h

private theorem tracedBy (n : Nat) : TracedBy n := by
  induction n with
  | zero =>
    intro it e i st st' x h
    cases h
  | succ n ih =>
    intro it e i st st' x h
    exact traced_node ih h

/-- Every error that ends an activity can be traced to its origin. -/
theorem traced_of_ends (h : A.Ends st (.error (.raised x) st')) : A.Traced st x st' := by
  obtain ⟨_, n, hn⟩ := h
  cases A with
  | eval it e i => exact tracedBy n hn
  | call it callee args => exact traced_call (tracedBy n) hn

end Activity

/-- An evaluation or a call ends with an error exactly if something it came to be busy with raised
one. The kind is the one raised there, and the notes are those of the functions whose bodies had been
entered and not left by then, the innermost first. -/
theorem error_notes_are_open_calls (A : Activity) (st : State) (x : EvalError) (st' : State) :
    A.Ends st (.error (.raised x) st') ↔
      ∃ trail origin st₀, A.Open st trail origin st₀ ∧ origin.Raises st₀ x.kind st' ∧
        x.notes.toList = trail.map fun c => "in call to " ++ c.signature A.names := by
  constructor
  · intro h
    obtain ⟨trail, origin, st₀, hopen, hraise, hx⟩ := Activity.traced_of_ends h
    exact ⟨trail, origin, st₀, hopen, hraise, congrArg (·.notes.toList) hx⟩
  · rintro ⟨trail, origin, st₀, hopen, hraise, hnotes⟩
    have hx : x = Activity.trailed A.names x.kind trail := by
      rw [Activity.trailed, ← hnotes]
    rw [hx]
    exact hopen.fails hraise

/-- A failing argument `1 / 0` inside the body of `function(x)` is not blamed on the `function()` that
it was meant for. -/
example :
    let calls : List BuildCall := [.literal (.int 1), .literal (.int 0), .binary .div 0 1, .ident "x",
      .function [] 3, .call 4 [2], .function ["x"] 5, .call 6 [0]]
    let b := (Builder.replay calls { names := .empty } []).1
    let it : Interpreter := { names := b.names, arena := { id := 0, arena := b.arena } }
    (Run.split (it.eval 9 0 7 (State.fresh .silent))).1 = .error (.raised
      { kind := .divisionByZero .div, notes := #["in call to function(x) \x7b...\x7d;"] }) := by
  decide +kernel

end Treewalk
