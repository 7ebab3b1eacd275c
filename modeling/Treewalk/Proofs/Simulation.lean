import Treewalk.Proofs.EvalRules

/-! Simulations: two runs side by side that take the same turns.
A simulation relates interpreters, states, names, frames, values and nodes of two runs. Its laws look
at one effect at a time; the theorems at the end are about whole runs with equal fuel. -/
namespace Treewalk

/-- Two nodes of one kind, with ids related by `C` and names by `N`. -/
inductive Node.Matching (a₁ a₂ : Arena) (C : ExprId → ExprId → Prop) (N : Name → Name → Prop) :
    Node → Node → Prop where
  | literal (l : Literal) : Matching a₁ a₂ C N (.literal l) (.literal l)
  | ident {n₁ n₂ : Name} (hn : N n₁ n₂) : Matching a₁ a₂ C N (.ident n₁) (.ident n₂)
  | print {j₁ j₂ : ExprId} (hj : C j₁ j₂) : Matching a₁ a₂ C N (.print j₁) (.print j₂)
  | binary (op : Operator) {j₁ j₂ k₁ k₂ : ExprId} (hj : C j₁ j₂) (hk : C k₁ k₂) :
      Matching a₁ a₂ C N (.binary op j₁ k₁) (.binary op j₂ k₂)
  | ifElse {j₁ j₂ k₁ k₂ : ExprId} {l₁ l₂ : Option ExprId} (hj : C j₁ j₂) (hk : C k₁ k₂)
      (hl : Option.Rel C l₁ l₂) : Matching a₁ a₂ C N (.ifElse j₁ k₁ l₁) (.ifElse j₂ k₂ l₂)
  | loop {j₁ j₂ k₁ k₂ : ExprId} (hj : C j₁ j₂) (hk : C k₁ k₂) :
      Matching a₁ a₂ C N (.loop j₁ k₁) (.loop j₂ k₂)
  | seq {j₁ j₂ k₁ k₂ : ExprId} (hj : C j₁ j₂) (hk : C k₁ k₂) :
      Matching a₁ a₂ C N (.seq j₁ k₁) (.seq j₂ k₂)
  | declare {n₁ n₂ : Name} {j₁ j₂ : ExprId} (hn : N n₁ n₂) (hj : C j₁ j₂) :
      Matching a₁ a₂ C N (.declare n₁ j₁) (.declare n₂ j₂)
  | assign {n₁ n₂ : Name} {j₁ j₂ : ExprId} (hn : N n₁ n₂) (hj : C j₁ j₂) :
      Matching a₁ a₂ C N (.assign n₁ j₁) (.assign n₂ j₂)
  | function {s₁ s₂ : Span} {j₁ j₂ : ExprId} {ps₁ ps₂ : List Name} (h₁ : a₁.params? s₁ = some ps₁)
      (h₂ : a₂.params? s₂ = some ps₂) (hps : List.Forall₂ N ps₁ ps₂) (hj : C j₁ j₂) :
      Matching a₁ a₂ C N (.function s₁ j₁) (.function s₂ j₂)
  | call {f₁ f₂ : ExprId} {s₁ s₂ : Span} {is₁ is₂ : List ExprId} (hf : C f₁ f₂)
      (h₁ : a₁.args? s₁ = some is₁) (h₂ : a₂.args? s₂ = some is₂) (his : List.Forall₂ C is₁ is₂) :
      Matching a₁ a₂ C N (.call f₁ s₁) (.call f₂ s₂)

structure Simulation where
  It : Interpreter → Interpreter → Prop
  St : State → State → Prop
  Nm : Name → Name → Prop
  Fr : FrameId → FrameId → Prop
  Val : Value → Value → Prop
  /-- Relates a node of one interpreter's arena to a node of the other's. -/
  Code : Interpreter → ExprId → Interpreter → ExprId → Prop
  it_of_code : ∀ {it₁ i₁ it₂ i₂}, Code it₁ i₁ it₂ i₂ → It it₁ it₂
  node : ∀ {it₁ i₁ it₂ i₂}, Code it₁ i₁ it₂ i₂ → ∃ n₁ n₂, it₁.arena.arena.node? i₁ = some n₁ ∧
    it₂.arena.arena.node? i₂ = some n₂ ∧ Node.Matching it₁.arena.arena it₂.arena.arena
      (fun j₁ j₂ => Code it₁ j₁ it₂ j₂) Nm n₁ n₂
  text : ∀ {it₁ it₂ n₁ n₂}, It it₁ it₂ → Nm n₁ n₂ → it₁.names.lookup n₁ = it₂.names.lookup n₂
  scalar : ∀ {v}, v.asClosure? = none → Val v v
  kind : ∀ {v w}, Val v w →
    (v = w ∧ v.asClosure? = none) ∨ ∃ c d, v = .closure c ∧ w = .closure d
  same : ∀ {c d c' d'}, Val (.closure c) (.closure d) → Val (.closure c') (.closure d') →
    (c.id = c'.id ↔ d.id = d'.id)
  params : ∀ {c d}, Val (.closure c) (.closure d) → List.Forall₂ Nm c.params d.params
  outer : ∀ {st₁ st₂ e₁ e₂}, St st₁ st₂ → Fr e₁ e₂ →
    Option.Rel Fr (st₁.store.outer? e₁) (st₂.store.outer? e₂)
  get : ∀ {st₁ st₂ e₁ e₂ n₁ n₂}, St st₁ st₂ → Fr e₁ e₂ → Nm n₁ n₂ →
    Option.Rel Val (st₁.store.get? e₁ n₁) (st₂.store.get? e₂ n₂)
  log : ∀ {st₁ st₂ t}, (∀ n d, t ≠ .apply n d) → St st₁ st₂ → St (st₁.log t) (st₂.log t)
  logApply : ∀ {it₁ it₂ st₁ st₂ n}, It it₁ it₂ → St st₁ st₂ →
    St (st₁.log (.apply n it₁.depth)) (st₂.log (.apply n it₂.depth))
  println : ∀ {st₁ st₂ line}, St st₁ st₂ → St (st₁.println line) (st₂.println line)
  bind : ∀ {st₁ st₂ e₁ e₂ n₁ n₂ v₁ v₂}, St st₁ st₂ → Fr e₁ e₂ → Nm n₁ n₂ → Val v₁ v₂ →
    St (st₁.bind e₁ n₁ v₁) (st₂.bind e₂ n₂ v₂)
  child : ∀ {st₁ st₂ c d}, St st₁ st₂ → Val (.closure c) (.closure d) →
    St (st₁.child c.env) (st₂.child d.env) ∧ Fr st₁.store.size st₂.store.size
  closure : ∀ {it₁ b₁ it₂ b₂ ps₁ ps₂ e₁ e₂ st₁ st₂}, Code it₁ b₁ it₂ b₂ →
    List.Forall₂ Nm ps₁ ps₂ → Fr e₁ e₂ → St st₁ st₂ →
    let made₁ := State.newClosure ps₁ b₁ it₁.arena e₁ st₁
    let made₂ := State.newClosure ps₂ b₂ it₂.arena e₂ st₂
    Val made₁.1 made₂.1 ∧ St made₁.2 made₂.2
  body : ∀ {it₁ it₂ c d}, It it₁ it₂ → Val (.closure c) (.closure d) →
    Code (it₁.callee c) c.body (it₂.callee d) d.body

namespace Simulation
variable {S : Simulation} {α β γ δ : Type}

private theorem option_cases {r : α → β → Prop} {x : Option α} {y : Option β}
    (h : Option.Rel r x y) : (x = none ∧ y = none) ∨ ∃ a b, x = some a ∧ y = some b ∧ r a b := by
  cases h with
  | none => exact .inl ⟨rfl, rfl⟩
  | some h => exact .inr ⟨_, _, rfl, rfl, h⟩

section Views
variable {it₁ it₂ : Interpreter} {st₁ st₂ : State} {e₁ e₂ : FrameId} {n₁ n₂ : Name}
  {v₁ v₂ w₁ w₂ : Value}

theorem binds_eq (hst : S.St st₁ st₂) (he : S.Fr e₁ e₂) (hn : S.Nm n₁ n₂) :
    st₁.store.binds e₁ n₁ = st₂.store.binds e₂ n₂ := by
  rw [Store.binds_eq_isSome_get?, Store.binds_eq_isSome_get?]
  rcases option_cases (S.get hst he hn) with ⟨h₁, h₂⟩ | ⟨v, w, h₁, h₂, _⟩
  · rw [h₁, h₂]
  · rw [h₁, h₂]
    rfl

theorem owner (hst : S.St st₁ st₂) (he : S.Fr e₁ e₂) (hn : S.Nm n₁ n₂) :
    Option.Rel S.Fr (st₁.store.owner? e₁ n₁) (st₂.store.owner? e₂ n₂) := by
  fun_induction st₁.store.owner? e₁ n₁ generalizing e₂ with
  | case1 e₁ hb =>
    rw [S.binds_eq hst he hn] at hb
    rw [Store.owner?_eq st₂.store, if_pos hb]
    exact .some he
  | case2 e₁ hb o₁ ho ih =>
    rw [S.binds_eq hst he hn] at hb
    rw [Store.owner?_eq st₂.store, if_neg hb]
    rcases option_cases (S.outer hst he) with ⟨h₁, _⟩ | ⟨p₁, p₂, h₁, h₂, hp⟩
    · rw [h₁] at ho
      cases ho
    · obtain rfl : p₁ = o₁ := Option.some.inj (h₁.symm.trans ho)
      rw [h₂]
      exact ih hp
  | case3 e₁ hb ho =>
    rw [S.binds_eq hst he hn] at hb
    rw [Store.owner?_eq st₂.store, if_neg hb]
    rcases option_cases (S.outer hst he) with ⟨_, h₂⟩ | ⟨p₁, p₂, h₁, _, _⟩
    · rw [h₂]
      exact .none
    · rw [h₁] at ho
      cases ho

theorem global (hst : S.St st₁ st₂) (he : S.Fr e₁ e₂) :
    S.Fr (st₁.store.global e₁) (st₂.store.global e₂) := by
  fun_induction st₁.store.global e₁ generalizing e₂ with
  | case1 e₁ o₁ ho ih =>
    rcases option_cases (S.outer hst he) with ⟨h₁, _⟩ | ⟨p₁, p₂, h₁, h₂, hp⟩
    · rw [h₁] at ho
      cases ho
    · obtain rfl : p₁ = o₁ := Option.some.inj (h₁.symm.trans ho)
      rw [Store.global_eq st₂.store, h₂]
      exact ih hp
  | case2 e₁ ho =>
    rcases option_cases (S.outer hst he) with ⟨_, h₂⟩ | ⟨p₁, p₂, h₁, _, _⟩
    · rw [Store.global_eq st₂.store, h₂]
      exact he
    · rw [h₁] at ho
      cases ho

theorem lookup (hst : S.St st₁ st₂) (he : S.Fr e₁ e₂) (hn : S.Nm n₁ n₂) :
    S.Val ((st₁.store.resolve? e₁ n₁).getD .null) ((st₂.store.resolve? e₂ n₂).getD .null) := by
  rw [Store.resolve?, Store.resolve?]
  rcases option_cases (S.owner hst he hn) with ⟨h₁, h₂⟩ | ⟨o₁, o₂, h₁, h₂, ho⟩
  · rw [h₁, h₂]
    exact S.scalar rfl
  · rw [h₁, h₂, Option.bind_some, Option.bind_some]
    rcases option_cases (S.get hst ho hn) with ⟨k₁, k₂⟩ | ⟨v, w, k₁, k₂, hv⟩
    · rw [k₁, k₂]
      exact S.scalar rfl
    · rw [k₁, k₂]
      exact hv

theorem typeName_eq (h : S.Val v₁ v₂) : v₁.typeName = v₂.typeName := by
  rcases S.kind h with ⟨rfl, _⟩ | ⟨c, d, rfl, rfl⟩
  · rfl
  · rfl

private theorem asInt?_eq (h : S.Val v₁ v₂) : v₁.asInt? = v₂.asInt? := by
  rcases S.kind h with ⟨rfl, _⟩ | ⟨c, d, rfl, rfl⟩
  · rfl
  · rfl

theorem texts_eq (hit : S.It it₁ it₂) {ps₁ ps₂ : List Name} (h : List.Forall₂ S.Nm ps₁ ps₂) :
    ps₁.map it₁.names.lookup = ps₂.map it₂.names.lookup := by
  induction h with
  | nil => rfl
  | cons hn _ ih => rw [List.map_cons, List.map_cons, S.text hit hn, ih]

private theorem signature_eq (hit : S.It it₁ it₂) {c d : Closure} (h : S.Val (.closure c) (.closure d)) :
    c.signature it₁.names = d.signature it₂.names := by
  rw [Closure.signature, Closure.signature, S.texts_eq hit (S.params h)]

theorem render_eq (hit : S.It it₁ it₂) (h : S.Val v₁ v₂) :
    v₁.render it₁.names = v₂.render it₂.names := by
  rcases S.kind h with ⟨rfl, hs⟩ | ⟨c, d, rfl, rfl⟩
  · cases v₁ with
    | closure c => cases hs
    | _ => rfl
  · exact S.signature_eq hit h

theorem equals_eq (hv : S.Val v₁ v₂) (hw : S.Val w₁ w₂) : v₁.equals w₁ = v₂.equals w₂ := by
  rcases S.kind hv with ⟨rfl, hs⟩ | ⟨c, d, rfl, rfl⟩
  · rcases S.kind hw with ⟨rfl, _⟩ | ⟨c', d', rfl, rfl⟩
    · rfl
    · cases v₁ with
      | closure c => cases hs
      | _ => rfl
  · rcases S.kind hw with ⟨rfl, hs⟩ | ⟨c', d', rfl, rfl⟩
    · cases w₁ with
      | closure c => cases hs
      | _ => rfl
    · exact Bool.eq_iff_iff.mpr (by simpa [Value.equals] using S.same hv hw)

private theorem operator_eq (op : Operator) (hv : S.Val v₁ v₂) (hw : S.Val w₁ w₂) :
    op.eval v₁ w₁ = op.eval v₂ w₂ := by
  rw [Operator.eval, Operator.eval, S.asInt?_eq hv, S.asInt?_eq hw, S.typeName_eq hv, S.typeName_eq hw, S.equals_eq hv hw]

end Views

/-- Two ends of one kind in related states: results related by `Q`, or one and the same stop that is no
fault. -/
def Matches (S : Simulation) (Q : α → β → Prop) :
    EStateM.Result Stop State α → EStateM.Result Stop State β → Prop
  | .ok x st₁, .ok y st₂ => Q x y ∧ S.St st₁ st₂
  | .error s st₁, .error t st₂ => (s = t ∧ s ≠ .fault) ∧ S.St st₁ st₂
  | _, _ => False

/-- From related states, `m₁` and `m₂` come to matching ends. -/
def Agree (S : Simulation) (Q : α → β → Prop) (m₁ : EvalM α) (m₂ : EvalM β) : Prop :=
  ∀ st₁ st₂, S.St st₁ st₂ → S.Matches Q (m₁ st₁) (m₂ st₂)

section Steps
variable {Q : α → β → Prop} {R : γ → δ → Prop}

private theorem agree_pure {x : α} {y : β} (h : Q x y) : S.Agree Q (pure x) (pure y) :=
  fun _ _ hst => ⟨h, hst⟩

private theorem agree_throw {s : Stop} (hs : s ≠ .fault) : S.Agree Q (throw s) (throw s) :=
  fun _ _ hst => ⟨⟨rfl, hs⟩, hst⟩

private theorem agree_raise (kind : ErrorKind) : S.Agree Q (EvalM.raise kind) (EvalM.raise kind) :=
  S.agree_throw (by simp)

theorem Matches.cases {r₁ : EStateM.Result Stop State α} {r₂ : EStateM.Result Stop State β}
    (h : S.Matches Q r₁ r₂) :
    (∃ x y st₁ st₂, r₁ = .ok x st₁ ∧ r₂ = .ok y st₂ ∧ Q x y ∧ S.St st₁ st₂) ∨
      ∃ s st₁ st₂, r₁ = .error s st₁ ∧ r₂ = .error s st₂ ∧ s ≠ .fault ∧ S.St st₁ st₂ := by
  cases r₁ with
  | ok x st₁ =>
    cases r₂ with
    | ok y st₂ => exact .inl ⟨x, y, st₁, st₂, rfl, rfl, h⟩
    | error s st₂ => exact h.elim
  | error s st₁ =>
    cases r₂ with
    | ok y st₂ => exact h.elim
    | error t st₂ =>
      obtain ⟨⟨rfl, hs⟩, hst⟩ := h
      exact .inr ⟨s, st₁, st₂, rfl, rfl, hs, hst⟩

/-- Where related values are equal, matching ends have one outcome. -/
theorem Matches.split {r₁ r₂ : EStateM.Result Stop State Value} (h : S.Matches S.Val r₁ r₂)
    (heq : ∀ {v w}, S.Val v w → v = w) :
    (Run.split r₁).1 = (Run.split r₂).1 ∧ S.St (Run.split r₁).2 (Run.split r₂).2 := by
  rcases h.cases with ⟨v, w, st₁, st₂, rfl, rfl, hv, hst⟩ | ⟨s, st₁, st₂, rfl, rfl, _, hst⟩
  · obtain rfl := heq hv
    exact ⟨rfl, hst⟩
  · exact ⟨rfl, hst⟩

theorem Agree.bind {m₁ : EvalM α} {m₂ : EvalM β} {f₁ : α → EvalM γ} {f₂ : β → EvalM δ}
    (hm : S.Agree Q m₁ m₂) (hf : ∀ x y, Q x y → S.Agree R (f₁ x) (f₂ y)) :
    S.Agree R (m₁ >>= f₁) (m₂ >>= f₂) := by
  intro st₁ st₂ hst
  rcases (hm st₁ st₂ hst).cases with ⟨x, y, st₁', st₂', h₁, h₂, hq, hst'⟩ |
    ⟨s, st₁', st₂', h₁, h₂, hs, hst'⟩
  · rw [bind_of_ok h₁, bind_of_ok h₂]
    exact hf x y hq st₁' st₂' hst'
  · rw [bind_of_error h₁, bind_of_error h₂]
    exact ⟨⟨rfl, hs⟩, hst'⟩

theorem Agree.noting {m₁ : EvalM α} {m₂ : EvalM β} (hm : S.Agree Q m₁ m₂)
    {note₁ note₂ : Unit → String} (hn : note₁ () = note₂ ()) :
    S.Agree Q (EvalM.noting note₁ m₁) (EvalM.noting note₂ m₂) := by
  intro st₁ st₂ hst
  rcases (hm st₁ st₂ hst).cases with ⟨x, y, st₁', st₂', h₁, h₂, hq, hst'⟩ |
    ⟨s, st₁', st₂', h₁, h₂, hs, hst'⟩
  · rw [EvalM.noting_ok h₁, EvalM.noting_ok h₂]
    exact ⟨hq, hst'⟩
  · cases s with
    | raised x =>
      rw [EvalM.noting_raised h₁, EvalM.noting_raised h₂, hn]
      exact ⟨⟨rfl, by simp⟩, hst'⟩
    | fault => exact absurd rfl hs
    | outOfFuel =>
      rw [EvalM.noting_outOfFuel h₁, EvalM.noting_outOfFuel h₂]
      exact ⟨⟨rfl, hs⟩, hst'⟩

theorem Agree.mapM {P : α → β → Prop} {f₁ : α → EvalM γ} {f₂ : β → EvalM δ}
    (hf : ∀ x y, P x y → S.Agree R (f₁ x) (f₂ y)) {xs : List α} {ys : List β}
    (h : List.Forall₂ P xs ys) : S.Agree (List.Forall₂ R) (xs.mapM f₁) (ys.mapM f₂) := by
  induction h with
  | nil => exact S.agree_pure .nil
  | cons hx _ ih =>
    rw [List.mapM_cons, List.mapM_cons]
    apply (hf _ _ hx).bind
    intro u v huv
    apply ih.bind
    intro us vs hs
    exact S.agree_pure (.cons huv hs)

private theorem agree_log {t : TraceEntry} (ht : ∀ n d, t ≠ .apply n d) :
    S.Agree (fun _ _ => True) (EvalM.log t) (EvalM.log t) :=
  fun _ _ hst => ⟨trivial, S.log ht hst⟩

end Steps
section Rules
variable {it₁ it₂ : Interpreter} {e₁ e₂ : FrameId}

private theorem agree_println (line : String) :
    S.Agree (fun _ _ => True) (EvalM.println line) (EvalM.println line) :=
  fun _ _ hst => ⟨trivial, S.println hst⟩

private theorem agree_declareIn {n₁ n₂ : Name} {v₁ v₂ : Value} {text₁ text₂ : String} (he : S.Fr e₁ e₂)
    (hn : S.Nm n₁ n₂) (hv : S.Val v₁ v₂) (ht : text₁ = text₂) :
    S.Agree (fun _ _ => True) (EvalM.declare e₁ n₁ v₁ text₁) (EvalM.declare e₂ n₂ v₂ text₂) := by
  intro st₁ st₂ hst
  rw [EvalM.declare_run, EvalM.declare_run, S.binds_eq hst he hn, ht]
  split
  · exact ⟨⟨rfl, by simp⟩, hst⟩
  · exact ⟨trivial, S.bind hst he hn hv⟩

private theorem agree_declare {n₁ n₂ : Name} {v₁ v₂ : Value} (hit : S.It it₁ it₂) (he : S.Fr e₁ e₂)
    (hn : S.Nm n₁ n₂) (hv : S.Val v₁ v₂) :
    S.Agree (fun _ _ => True) (it₁.declare e₁ n₁ v₁) (it₂.declare e₂ n₂ v₂) := by
  have ht := S.text hit hn
  unfold Interpreter.declare
  apply (S.agree_declareIn he hn hv ht).bind
  intro _ _ _
  rw [ht]
  exact S.agree_log (by simp)

/-- Related assignments write to related frames, and make a name global on both sides or on none. -/
theorem agree_assign {n₁ n₂ : Name} {v₁ v₂ : Value} (hit : S.It it₁ it₂) (he : S.Fr e₁ e₂)
    (hn : S.Nm n₁ n₂) (hv : S.Val v₁ v₂) :
    S.Agree (fun _ _ => True) (it₁.assign e₁ n₁ v₁) (it₂.assign e₂ n₂ v₂) := by
  intro st₁ st₂ hst
  rw [Interpreter.assign_run, Interpreter.assign_run]
  rcases option_cases (S.owner hst he hn) with ⟨h₁, h₂⟩ | ⟨o₁, o₂, h₁, h₂, ho⟩
  · rw [h₁, h₂, S.text hit hn]
    exact ⟨trivial, S.bind (S.log (by simp) hst) (S.global hst he) hn hv⟩
  · rw [h₁, h₂]
    exact ⟨trivial, S.bind hst ho hn hv⟩

private theorem agree_bindParams {ps₁ ps₂ : List Name} {vs₁ vs₂ : List Value} (hit : S.It it₁ it₂)
    (he : S.Fr e₁ e₂) (hps : List.Forall₂ S.Nm ps₁ ps₂) (hvs : List.Forall₂ S.Val vs₁ vs₂) :
    S.Agree (fun _ _ => True) (it₁.bindParams e₁ (ps₁.zip vs₁))
      (it₂.bindParams e₂ (ps₂.zip vs₂)) := by
  induction hps generalizing vs₁ vs₂ with
  | nil => exact S.agree_pure trivial
  | cons hn _ ih =>
    cases hvs with
    | nil => exact S.agree_pure trivial
    | cons hv hvs =>
      apply (S.agree_declareIn he hn hv (S.text hit hn)).bind
      intro _ _ _
      exact ih hvs

def EvaluatorsAgree (S : Simulation) (sub₁ sub₂ : Evaluator) : Prop :=
  ∀ {it₁ it₂ i₁ i₂ e₁ e₂}, S.Code it₁ i₁ it₂ i₂ → S.Fr e₁ e₂ →
    S.Agree S.Val (sub₁ it₁ e₁ i₁) (sub₂ it₂ e₂ i₂)

variable {sub₁ sub₂ : Evaluator} (hsub : S.EvaluatorsAgree sub₁ sub₂) (he : S.Fr e₁ e₂)
  {j₁ j₂ k₁ k₂ : ExprId}
include hsub

/-- Related closures applied to related arguments: equal arities, new frames side by side, and related
bodies in them. -/
theorem agree_apply (hit : S.It it₁ it₂) {c d : Closure} (hc : S.Val (.closure c) (.closure d))
    {args₁ args₂ : List Value} (ha : List.Forall₂ S.Val args₁ args₂) :
    S.Agree S.Val (Interpreter.apply sub₁ it₁ c args₁) (Interpreter.apply sub₂ it₂ d args₂) := by
  intro st₁ st₂ hst
  have hlen := ha.length_eq
  have harity : c.arity = d.arity := (S.params hc).length_eq
  have hlog := S.logApply (n := args₁.length) hit hst
  by_cases h : args₁.length = c.arity
  · obtain ⟨hchild, hfr⟩ := S.child hlog hc
    rw [Interpreter.apply_run sub₁ it₁ h, Interpreter.apply_run sub₂ it₂ (by omega)]
    rw [Interpreter.opened, Interpreter.opened, ← hlen]
    apply (S.agree_bindParams hit hfr (S.params hc) ha).bind ?_ _ _ hchild
    intro _ _ _
    exact (hsub (S.body hit hc) hfr).noting (by rw [S.signature_eq hit hc])
  · rw [Interpreter.apply_arity sub₁ it₁ h, Interpreter.apply_arity sub₂ it₂ (by omega), ← hlen,
      harity]
    exact ⟨⟨rfl, by simp⟩, hlog⟩

include he

private theorem agree_condition (hj : S.Code it₁ j₁ it₂ j₂) (construct : String) :
    S.Agree Eq (Interpreter.evalCondition sub₁ it₁ e₁ j₁ construct)
      (Interpreter.evalCondition sub₂ it₂ e₂ j₂ construct) := by
  apply (hsub hj he).bind
  intro v w hv
  rcases S.kind hv with ⟨rfl, _⟩ | ⟨c, d, rfl, rfl⟩
  · cases v with
    | bool b => exact S.agree_pure rfl
    | _ => exact S.agree_raise _
  · exact S.agree_raise _

private theorem agree_loop (hj : S.Code it₁ j₁ it₂ j₂) (hk : S.Code it₁ k₁ it₂ k₂) (fuel : Nat)
    {last₁ last₂ : Value} (hlast : S.Val last₁ last₂) (rounds : Nat) :
    S.Agree S.Val (Interpreter.evalLoop sub₁ it₁ e₁ j₁ k₁ fuel last₁ rounds)
      (Interpreter.evalLoop sub₂ it₂ e₂ j₂ k₂ fuel last₂ rounds) := by
  induction fuel generalizing last₁ last₂ rounds with
  | zero => exact S.agree_throw (by simp)
  | succ fuel ih =>
    apply (agree_condition hsub he hj "while").bind
    rintro b _ rfl
    split
    · apply (hsub hk he).bind
      intro v w hv
      exact ih hv (rounds + 1)
    · apply (S.agree_log (by simp)).bind
      intro _ _ _
      exact S.agree_pure hlast

private theorem agree_node (fuel : Nat) {i₁ i₂ : ExprId} (hi : S.Code it₁ i₁ it₂ i₂) :
    S.Agree S.Val (Interpreter.evalNode fuel sub₁ it₁ e₁ i₁)
      (Interpreter.evalNode fuel sub₂ it₂ e₂ i₂) := by
  have hit := S.it_of_code hi
  obtain ⟨m₁, m₂, h₁, h₂, hm⟩ := S.node hi
  cases hm with
  | literal l =>
    rw [Interpreter.evalNode_literal fuel sub₁ e₁ h₁, Interpreter.evalNode_literal fuel sub₂ e₂ h₂]
    exact S.agree_pure (S.scalar (by cases l <;> rfl))
  | ident hn =>
    intro st₁ st₂ hst
    rw [Interpreter.evalNode_ident fuel sub₁ e₁ h₁, Interpreter.evalNode_ident fuel sub₂ e₂ h₂]
    exact ⟨S.lookup hst he hn, hst⟩
  | print hj =>
    rw [Interpreter.evalNode_print fuel sub₁ e₁ h₁, Interpreter.evalNode_print fuel sub₂ e₂ h₂]
    apply (hsub hj he).bind
    intro v w hv
    rw [S.render_eq hit hv]
    exact (S.agree_println _).bind fun _ _ _ => S.agree_pure hv
  | binary op hj hk =>
    rw [Interpreter.evalNode_binary fuel sub₁ e₁ h₁, Interpreter.evalNode_binary fuel sub₂ e₂ h₂]
    apply (hsub hj he).bind
    intro v₁ v₂ hv
    apply (hsub hk he).bind
    intro w₁ w₂ hw
    rw [S.operator_eq op hv hw]
    cases hr : op.eval v₂ w₂ with
    | ok u => exact S.agree_pure (S.scalar (Operator.asClosure?_eval hr))
    | error kind => exact S.agree_raise kind
  | ifElse hj hk hl =>
    rw [Interpreter.evalNode_ifElse fuel sub₁ e₁ h₁, Interpreter.evalNode_ifElse fuel sub₂ e₂ h₂]
    apply (agree_condition hsub he hj "if").bind
    rintro b _ rfl
    split
    · exact hsub hk he
    · cases hl with
      | none => exact S.agree_pure (S.scalar rfl)
      | some hl => exact hsub hl he
  | loop hj hk =>
    rw [Interpreter.evalNode_loop fuel sub₁ e₁ h₁, Interpreter.evalNode_loop fuel sub₂ e₂ h₂]
    exact agree_loop hsub he hj hk fuel (S.scalar rfl) 0
  | seq hj hk =>
    rw [Interpreter.evalNode_seq fuel sub₁ e₁ h₁, Interpreter.evalNode_seq fuel sub₂ e₂ h₂]
    exact (hsub hj he).bind fun _ _ _ => hsub hk he
  | declare hn hj =>
    rw [Interpreter.evalNode_declare fuel sub₁ e₁ h₁, Interpreter.evalNode_declare fuel sub₂ e₂ h₂]
    apply (hsub hj he).bind
    intro v w hv
    exact (S.agree_declare hit he hn hv).bind fun _ _ _ => S.agree_pure hv
  | assign hn hj =>
    rw [Interpreter.evalNode_assign fuel sub₁ e₁ h₁, Interpreter.evalNode_assign fuel sub₂ e₂ h₂]
    apply (hsub hj he).bind
    intro v w hv
    exact (S.agree_assign hit he hn hv).bind fun _ _ _ => S.agree_pure hv
  | function hp₁ hp₂ hps hj =>
    intro st₁ st₂ hst
    rw [Interpreter.evalNode_function fuel sub₁ e₁ h₁ hp₁,
      Interpreter.evalNode_function fuel sub₂ e₂ h₂ hp₂]
    exact S.closure hj hps he hst
  | call hf ha₁ ha₂ his =>
    rw [Interpreter.evalNode_call fuel sub₁ e₁ h₁ ha₁, Interpreter.evalNode_call fuel sub₂ e₂ h₂ ha₂]
    apply (hsub hf he).bind
    intro v w hv
    rcases S.kind hv with ⟨rfl, hs⟩ | ⟨c, d, rfl, rfl⟩
    · cases v with
      | closure c => cases hs
      | _ => exact S.agree_raise _
    · apply (Agree.mapM (fun _ _ hx => hsub hx he) his).bind
      intro args₁ args₂ hargs
      exact agree_apply hsub hit hv hargs

end Rules

/-- Related nodes in related frames evaluate to matching ends with equal fuel. -/
theorem agree_eval (S : Simulation) (fuel : Nat) :
    S.EvaluatorsAgree (Interpreter.eval fuel) (Interpreter.eval fuel) := by
  induction fuel with
  | zero => exact fun _ _ => S.agree_throw (by simp)
  | succ fuel ih => exact fun hi he => agree_node ih he fuel hi

/-- Calls from outside agree as soon as callees and arguments do, whatever arenas the callers hold. -/
theorem agree_call (S : Simulation) (fuel : Nat) {it₁ it₂ : Interpreter} (hit : S.It it₁ it₂)
    {f₁ f₂ : Value} (hf : S.Val f₁ f₂) {args₁ args₂ : List Value}
    (ha : List.Forall₂ S.Val args₁ args₂) :
    S.Agree S.Val (it₁.call fuel f₁ args₁) (it₂.call fuel f₂ args₂) := by
  rcases S.kind hf with ⟨rfl, hs⟩ | ⟨c, d, rfl, rfl⟩
  · cases f₁ with
    | closure c => cases hs
    | _ => exact S.agree_raise _
  · exact agree_apply (S.agree_eval fuel) hit hf ha

private theorem agree_evaluate (S : Simulation) (fuel : Nat) :
    S.EvaluatorsAgree (Interpreter.evaluate fuel) (Interpreter.evaluate fuel) := by
  intro it₁ it₂ i₁ i₂ e₁ e₂ hi he
  exact (S.agree_log (by simp)).bind fun _ _ _ => S.agree_eval fuel hi he

/-- Whole runs from related roots end in related states, with related values or with the same stop. -/
theorem run_ends (S : Simulation) {t₁ t₂ : Interner} {a₁ a₂ : SharedArena} {i₁ i₂ : ExprId}
    {sink₁ sink₂ : Sink} (hi : S.Code { names := t₁, arena := a₁ } i₁ { names := t₂, arena := a₂ } i₂)
    (he : S.Fr 0 0) (hst : S.St (.fresh sink₁) (.fresh sink₂)) (fuel : Nat) :
    let r₁ := Run.ofNode t₁ a₁ i₁ sink₁ (Interpreter.evaluate fuel)
    let r₂ := Run.ofNode t₂ a₂ i₂ sink₂ (Interpreter.evaluate fuel)
    S.St r₁.state r₂.state ∧ ((∃ v w, r₁.outcome = .ok v ∧ r₂.outcome = .ok w ∧ S.Val v w) ∨
      ∃ s, s ≠ .fault ∧ r₁.outcome = .error s ∧ r₂.outcome = .error s) := by
  rw [Run.ofNode_eq, Run.ofNode_eq]
  rcases (S.agree_evaluate fuel hi he _ _ hst).cases with ⟨v, w, st₁, st₂, h₁, h₂, hv, hst'⟩ |
    ⟨s, st₁, st₂, h₁, h₂, hs, hst'⟩
  · rw [h₁, h₂]
    exact ⟨hst', .inl ⟨v, w, rfl, rfl, hv⟩⟩
  · rw [h₁, h₂]
    exact ⟨hst', .inr ⟨s, hs, rfl, rfl⟩⟩

end Simulation
end Treewalk
