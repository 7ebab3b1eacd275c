import Treewalk.Proofs.EvalRules

/-! Disciplines: properties that evaluation keeps, proved once over all nodes, loops and calls.
A discipline says what holds of states, of nodes in frames, of values, and of the way from one state
to the next. Its laws look at one effect at a time; the theorems at the end are about whole runs. -/
namespace Treewalk

/-- The ids below a node that are evaluated in the frame of the node itself. -/
@[simp]
def Arena.operands (a : Arena) : Node → List ExprId
  | .function _ _ => []
  | n => a.children n

theorem Arena.mem_children_of_mem_operands {a : Arena} {n : Node} {j : ExprId}
    (h : j ∈ a.operands n) : j ∈ a.children n := by
  cases n with
  | function => cases h
  | _ => exact h

structure Discipline where
  /-- Holds of every state on the way. -/
  Inv : State → Prop
  /-- Holds of a node that is to be evaluated in a frame. -/
  At : SharedArena → FrameId → ExprId → State → Prop
  /-- Holds of every value that is passed on. -/
  Val : State → Value → Prop
  /-- What an evaluation in a frame may make of a state. -/
  Step : FrameId → State → State → Prop
  refl : ∀ e st, Step e st st
  trans : ∀ {e st₁ st₂ st₃}, Step e st₁ st₂ → Step e st₂ st₃ → Step e st₁ st₃
  at_step : ∀ {a e f i st st'}, st.store.WellFormed → Step f st st' → At a e i st → At a e i st'
  val_step : ∀ {f v st st'}, st.store.WellFormed → Step f st st' → Val st v → Val st' v
  operand : ∀ {a e i st n}, At a e i st → a.arena.node? i = some n →
    ∀ j ∈ a.arena.operands n, At a e j st
  scalar : ∀ {st v}, v.asClosure? = none → Val st v
  lookup : ∀ {a e i st n v}, Inv st → At a e i st → st.store.resolve? e n = some v → Val st v
  log : ∀ {e st t}, (∀ n, t ≠ .globalCreated n) → Inv st → Inv (st.log t) ∧ Step e st (st.log t)
  println : ∀ {a e i j st line}, Inv st → At a e i st → a.arena.node? i = some (.print j) →
    Inv (st.println line) ∧ Step e st (st.println line)
  declare : ∀ {a e i st n v}, Inv st → At a e i st → Val st v → st.store.binds e n = false →
    Inv (st.bind e n v) ∧ Step e st (st.bind e n v)
  overwrite : ∀ {a e i st n v o}, Inv st → At a e i st → Val st v → st.store.owner? e n = some o →
    Inv (st.bind o n v) ∧ Step e st (st.bind o n v)
  introduce : ∀ {a e i st n v}, st.store.WellFormed → Inv st → At a e i st → Val st v →
    st.store.owner? e n = none →
    Inv (st.bind (st.store.global e) n v) ∧ Step e st (st.bind (st.store.global e) n v)
  closure : ∀ {a e i st span body params}, Inv st → At a e i st →
    a.arena.node? i = some (.function span body) → a.arena.params? span = some params →
    let made := State.newClosure params body a e st
    Inv made.2 ∧ Step e st made.2 ∧ Val made.2 made.1
  /-- Parameters may be bound only in part, when one is repeated. -/
  enter : ∀ {e st c args bindings}, st.store.WellFormed → Inv st → c.WellFormed st.store →
    Val st (.closure c) → (∀ v ∈ args, Val st v) → bindings <+: c.params.zip args →
    Inv ((st.child c.env).bindAll st.store.size bindings) ∧
      Step e st ((st.child c.env).bindAll st.store.size bindings)
  body : ∀ {st c args}, st.store.WellFormed → Inv st → c.WellFormed st.store → Val st (.closure c) →
    args.length = c.arity →
    At c.arena st.store.size c.body ((st.child c.env).bindAll st.store.size (c.params.zip args))
  /-- What the body of a call did in its own new frame, the call did in the frame of the caller. -/
  leave : ∀ {e f st₁ st₂ st₃}, st₁.store.size ≤ f → Step e st₁ st₂ → Step f st₂ st₃ → Step e st₁ st₃

namespace Discipline
variable {D : Discipline} {α β : Type}

/-- A node in a frame from which evaluation can start. -/
structure Ready (D : Discipline) (a : SharedArena) (e : FrameId) (i : ExprId) (st : State) :
    Prop where
  arena : a.arena.WellFormed
  node : i < a.arena.size
  frame : e < st.store.size
  store : st.store.WellFormed
  inv : D.Inv st
  at_node : D.At a e i st

/-- A state that evaluation in a frame can lead to. -/
structure Kept (D : Discipline) (e : FrameId) (st st' : State) : Prop where
  store : st'.store.WellFormed
  size : st.store.size ≤ st'.store.size
  inv : D.Inv st'
  step : D.Step e st st'

structure Good (D : Discipline) (v : Value) (st : State) : Prop where
  wf : v.WellFormed st.store
  val : D.Val st v

/-- However `m` ends from `st`, the state reached is kept; a result satisfies `Q`, and a stop is no
fault. -/
def Keeps (D : Discipline) (e : FrameId) (st : State) (m : EvalM α) (Q : α → State → Prop) : Prop :=
  match m st with
  | .ok a st' => D.Kept e st st' ∧ Q a st'
  | .error s st' => D.Kept e st st' ∧ s ≠ .fault

theorem Kept.trans {e : FrameId} {st₁ st₂ st₃ : State} (h : D.Kept e st₁ st₂)
    (k : D.Kept e st₂ st₃) : D.Kept e st₁ st₃ :=
  ⟨k.store, Nat.le_trans h.size k.size, k.inv, D.trans h.step k.step⟩

theorem Ready.kept {a : SharedArena} {e f : FrameId} {i : ExprId} {st st' : State}
    (h : D.Ready a e i st) (k : D.Kept f st st') : D.Ready a e i st' :=
  ⟨h.arena, h.node, Nat.lt_of_lt_of_le h.frame k.size, k.store, k.inv,
    D.at_step h.store k.step h.at_node⟩

theorem Good.kept {f : FrameId} {v : Value} {st st' : State} (h : D.Good v st)
    (hs : st.store.WellFormed) (k : D.Kept f st st') : D.Good v st' :=
  ⟨h.wf.mono k.size, D.val_step hs k.step h.val⟩

private theorem good_scalar (st : State) {v : Value} (h : v.asClosure? = none) : D.Good v st :=
  ⟨Value.wellFormed_of_scalar _ h, D.scalar h⟩

theorem Ready.operand {a : SharedArena} {e : FrameId} {i j : ExprId} {st : State} {n : Node}
    (h : D.Ready a e i st) (hn : a.arena.node? i = some n) (hj : j ∈ a.arena.operands n) :
    D.Ready a e j st where
  arena := h.arena
  node := Nat.lt_trans (h.arena.child_lt hn j (Arena.mem_children_of_mem_operands hj)) h.node
  frame := h.frame
  store := h.store
  inv := h.inv
  at_node := D.operand h.at_node hn j hj

theorem Ready.same {a : SharedArena} {e : FrameId} {i : ExprId} {st : State}
    (h : D.Ready a e i st) : D.Kept e st st :=
  ⟨h.store, Nat.le_refl _, h.inv, D.refl e st⟩

private theorem kept_log (e : FrameId) {st : State} {t : TraceEntry} (ht : ∀ n, t ≠ .globalCreated n)
    (hs : st.store.WellFormed) (hi : D.Inv st) : D.Kept e st (st.log t) :=
  ⟨hs, Nat.le_refl _, (D.log (e := e) ht hi).1, (D.log ht hi).2⟩

private theorem kept_println {a : SharedArena} {e : FrameId} {i j : ExprId} {st : State}
    (h : D.Ready a e i st) (hn : a.arena.node? i = some (.print j)) (line : String) :
    D.Kept e st (st.println line) :=
  have hprint := D.println h.inv h.at_node hn
  ⟨h.store, Nat.le_refl _, hprint.1, hprint.2⟩

private theorem keeps_pure {e : FrameId} {st : State} {x : α} {Q : α → State → Prop}
    (hs : D.Kept e st st) (hq : Q x st) : D.Keeps e st (pure x) Q := ⟨hs, hq⟩

private theorem keeps_raise {e : FrameId} {st : State} {kind : ErrorKind} {Q : α → State → Prop}
    (hs : D.Kept e st st) : D.Keeps e st (EvalM.raise kind) Q := ⟨hs, by simp⟩

private theorem keeps_of_ok {e : FrameId} {st st' : State} {m : EvalM α} {x : α} {Q : α → State → Prop}
    (hm : m st = .ok x st') (hk : D.Kept e st st') (hq : Q x st') : D.Keeps e st m Q := by
  rw [Keeps, hm]
  exact ⟨hk, hq⟩

private theorem keeps_of_error {e : FrameId} {st st' : State} {m : EvalM α} {s : Stop}
    {Q : α → State → Prop} (hm : m st = .error s st') (hk : D.Kept e st st') (hs : s ≠ .fault) :
    D.Keeps e st m Q := by
  rw [Keeps, hm]
  exact ⟨hk, hs⟩

theorem Keeps.ok {e : FrameId} {st st' : State} {m : EvalM α} {x : α} {Q : α → State → Prop}
    (h : D.Keeps e st m Q) (hm : m st = .ok x st') : D.Kept e st st' ∧ Q x st' := by
  rw [Keeps, hm] at h
  exact h

theorem Keeps.error {e : FrameId} {st st' : State} {m : EvalM α} {s : Stop} {Q : α → State → Prop}
    (h : D.Keeps e st m Q) (hm : m st = .error s st') : D.Kept e st st' ∧ s ≠ .fault := by
  rw [Keeps, hm] at h
  exact h

theorem Keeps.bind {e : FrameId} {st : State} {m : EvalM α} {f : α → EvalM β}
    {Q : α → State → Prop} {R : β → State → Prop} (hm : D.Keeps e st m Q)
    (hf : ∀ x st', D.Kept e st st' → Q x st' → D.Keeps e st' (f x) R) :
    D.Keeps e st (m >>= f) R := by
  cases hr : m st with
  | error s st' =>
    obtain ⟨hk, hs⟩ := hm.error hr
    exact keeps_of_error (bind_of_error hr f) hk hs
  | ok x st' =>
    obtain ⟨hk, hq⟩ := hm.ok hr
    have hrun := bind_of_ok hr f
    cases hx : f x st' with
    | error s st'' =>
      obtain ⟨hk', hs⟩ := (hf x st' hk hq).error hx
      exact keeps_of_error (hrun.trans hx) (hk.trans hk') hs
    | ok y st'' =>
      obtain ⟨hk', hy⟩ := (hf x st' hk hq).ok hx
      exact keeps_of_ok (hrun.trans hx) (hk.trans hk') hy

theorem Keeps.noting {e : FrameId} {st : State} {m : EvalM α} {Q : α → State → Prop}
    (hm : D.Keeps e st m Q) (note : Unit → String) : D.Keeps e st (EvalM.noting note m) Q := by
  cases hr : m st with
  | ok x st' =>
    obtain ⟨hk, hq⟩ := hm.ok hr
    exact keeps_of_ok (EvalM.noting_ok hr note) hk hq
  | error s st' =>
    obtain ⟨hk, hs⟩ := hm.error hr
    cases s with
    | raised x => exact keeps_of_error (EvalM.noting_raised hr note) hk (by simp)
    | fault => exact absurd rfl hs
    | outOfFuel => exact keeps_of_error (EvalM.noting_outOfFuel hr note) hk hs

/-- An action that goes on as another one in a frame of its own. -/
theorem Keeps.leave {e f : FrameId} {st st₁ : State} {m m' : EvalM α} {Q : α → State → Prop}
    (hk : D.Kept e st st₁) (hf : st.store.size ≤ f) (hm : D.Keeps f st₁ m Q)
    (hrun : m' st = m st₁) : D.Keeps e st m' Q := by
  have out {st₂ : State} (hk₂ : D.Kept f st₁ st₂) : D.Kept e st st₂ :=
    ⟨hk₂.store, Nat.le_trans hk.size hk₂.size, hk₂.inv, D.leave hf hk.step hk₂.step⟩
  cases hr : m st₁ with
  | ok x st₂ =>
    obtain ⟨hk₂, hq⟩ := hm.ok hr
    exact keeps_of_ok (hrun.trans hr) (out hk₂) hq
  | error s st₂ =>
    obtain ⟨hk₂, hs⟩ := hm.error hr
    exact keeps_of_error (hrun.trans hr) (out hk₂) hs

private theorem keeps_declare {it : Interpreter} {e : FrameId} {st : State} {i : ExprId} {n : Name}
    {v : Value} (h : D.Ready it.arena e i st) (hv : D.Good v st) :
    D.Keeps e st (it.declare e n v) fun _ _ => True := by
  have hrun := it.declare_run e n v st
  by_cases hb : st.store.binds e n = true
  · rw [if_pos hb] at hrun
    exact keeps_of_error hrun h.same (by simp)
  · rw [if_neg hb] at hrun
    obtain ⟨hinv, hstep⟩ := D.declare h.inv h.at_node hv.val (Bool.eq_false_iff.mpr hb)
    have hk : D.Kept e st (st.bind e n v) :=
      ⟨h.store.bind e n hv.wf, Nat.le_of_eq (Store.size_bind ..).symm, hinv, hstep⟩
    exact keeps_of_ok hrun (hk.trans (kept_log e (by simp) hk.store hinv)) trivial

private theorem keeps_assign {it : Interpreter} {e : FrameId} {st : State} {i : ExprId} {n : Name}
    {v : Value} (h : D.Ready it.arena e i st) (hv : D.Good v st) :
    D.Keeps e st (it.assign e n v) fun _ _ => True := by
  have hrun := it.assign_run e n v st
  cases ho : st.store.owner? e n with
  | some o =>
    rw [ho] at hrun
    obtain ⟨hinv, hstep⟩ := D.overwrite h.inv h.at_node hv.val ho
    exact keeps_of_ok hrun ⟨h.store.bind o n hv.wf, Nat.le_of_eq (Store.size_bind ..).symm, hinv,
      hstep⟩ trivial
  | none =>
    rw [ho] at hrun
    have hk : D.Kept e st (st.log (.undeclaredAssigned (it.names.lookup n))) :=
      kept_log e (by simp) h.store h.inv
    have hr := h.kept hk
    obtain ⟨hinv, hstep⟩ := D.introduce hr.store hr.inv hr.at_node (hv.kept h.store hk).val ho
    exact keeps_of_ok hrun ⟨h.store.bind _ n hv.wf, Nat.le_of_eq (Store.size_bind ..).symm, hinv,
      D.trans hk.step hstep⟩ trivial

def KeptBy (D : Discipline) (sub : Evaluator) : Prop :=
  ∀ it e i st, D.Ready it.arena e i st → D.Keeps e st (sub it e i) D.Good

section Rules
variable {sub : Evaluator} (hsub : D.KeptBy sub) {it : Interpreter} {e : FrameId} {st : State}
include hsub

private theorem keeps_condition {i : ExprId} {construct : String} (h : D.Ready it.arena e i st) :
    D.Keeps e st (Interpreter.evalCondition sub it e i construct) fun _ _ => True := by
  apply (hsub it e i st h).bind
  intro v st' hk _
  have hr := (h.kept hk).same
  cases v with
  | bool b => exact keeps_pure hr trivial
  | _ => exact keeps_raise hr

private theorem keeps_loop {i j : ExprId} (fuel : Nat) (last : Value) (rounds : Nat)
    (hi : D.Ready it.arena e i st) (hj : D.Ready it.arena e j st) (hl : D.Good last st) :
    D.Keeps e st (Interpreter.evalLoop sub it e i j fuel last rounds) D.Good := by
  induction fuel generalizing last rounds st with
  | zero => exact keeps_of_error rfl hi.same (by simp)
  | succ fuel ih =>
    apply (keeps_condition hsub hi).bind
    intro b st₁ hk₁ _
    cases b with
    | true =>
      apply (hsub it e j st₁ (hj.kept hk₁)).bind
      intro v st₂ hk₂ hv
      exact ih v (rounds + 1) ((hi.kept hk₁).kept hk₂) ((hj.kept hk₁).kept hk₂) hv
    | false =>
      have hk : D.Kept e st₁ (st₁.log (.loopFinished rounds)) :=
        kept_log e (by simp) hk₁.store hk₁.inv
      exact keeps_of_ok rfl hk ((hl.kept hi.store hk₁).kept hk₁.store hk)

private theorem keeps_args {ids : List ExprId} (h : ∀ i ∈ ids, D.Ready it.arena e i st)
    (hs : D.Kept e st st) :
    D.Keeps e st (ids.mapM (sub it e)) fun vs st' => ∀ v ∈ vs, D.Good v st' := by
  induction ids generalizing st with
  | nil => exact keeps_pure hs (by simp)
  | cons i ids ih =>
    rw [List.mapM_cons]
    apply (hsub it e i st (h i (List.mem_cons_self ..))).bind
    intro v st₁ hk₁ hv
    have hr₁ := (h i (List.mem_cons_self ..)).kept hk₁
    apply (ih (fun j hj => (h j (List.mem_cons_of_mem i hj)).kept hk₁) hr₁.same).bind
    intro vs st₂ hk₂ hvs
    refine keeps_pure (hr₁.kept hk₂).same ?_
    intro w hw
    rcases List.mem_cons.mp hw with rfl | hw
    · exact hv.kept hk₁.store hk₂
    · exact hvs w hw

/-- A call keeps the discipline in the frame of any caller. -/
theorem keeps_apply {c : Closure} {args : List Value} (hs : st.store.WellFormed) (hi : D.Inv st)
    (hc : D.Good (.closure c) st) (ha : ∀ v ∈ args, D.Good v st) :
    D.Keeps e st (Interpreter.apply sub it c args) D.Good := by
  have hlog : D.Kept e st (st.log (.apply args.length it.depth)) := kept_log e (by simp) hs hi
  have hc' := hc.kept hs hlog
  have hwf := hc'.wf c rfl
  have bound {bindings : List (Name × Value)} (hb : bindings <+: c.params.zip args) :
      D.Kept e st ((Interpreter.opened st it c args).bindAll st.store.size bindings) := by
    obtain ⟨hinv, hstep⟩ := D.enter (e := e) hlog.store hlog.inv hwf hc'.val
      (fun v hv => ((ha v hv).kept hs hlog).val) hb
    refine ⟨?_, ?_, hinv, D.trans hlog.step hstep⟩
    · apply (hs.push fun f hf => ?_).bindAll
      · intro b hmem
        have hv := (List.of_mem_zip (hb.subset hmem)).2
        exact (ha b.2 hv).wf.mono (by rw [Store.size_push]; omega)
      · cases hf
        exact hwf.env
    · simp [Interpreter.opened, Store.size_push]
  by_cases hl : args.length = c.arity
  · have hrun := Interpreter.apply_run sub it hl st
    rcases it.bindParams_run st.store.size (c.params.zip args) (Interpreter.opened st it c args) with
      hp | ⟨before, b, after, hsplit, _, _, hp⟩
    · have hk := bound (List.prefix_refl _)
      have hready : D.Ready (it.callee c).arena st.store.size c.body
          ((Interpreter.opened st it c args).bindAll st.store.size (c.params.zip args)) :=
        ⟨hwf.arena, hwf.body, by simp [Interpreter.opened, Store.size_push], hk.store, hk.inv,
          D.body hlog.store hlog.inv hwf hc'.val hl⟩
      have hbody := (hsub (it.callee c) st.store.size c.body _ hready).noting
        fun _ => "in call to " ++ c.signature it.names
      exact hbody.leave hk (Nat.le_refl _) (hrun.trans (bind_of_ok hp _))
    · exact keeps_of_error (hrun.trans (bind_of_error hp _)) (bound ⟨b :: after, hsplit.symm⟩)
        (by simp)
  · exact keeps_of_error (Interpreter.apply_arity sub it hl st) hlog (by simp)

private theorem keeps_node (fuel : Nat) {i : ExprId} (h : D.Ready it.arena e i st) :
    D.Keeps e st (Interpreter.evalNode fuel sub it e i) D.Good := by
  obtain ⟨n, hn⟩ := Arena.node?_isSome h.node
  have below (j : ExprId) (hj : j ∈ it.arena.arena.operands n) := h.operand hn hj
  cases n with
  | literal l =>
    rw [Interpreter.evalNode_literal fuel sub e hn]
    exact keeps_pure h.same (good_scalar st (by cases l <;> rfl))
  | ident n =>
    have hrun := Interpreter.evalNode_ident fuel sub e hn st
    refine keeps_of_ok hrun h.same ?_
    cases hv : st.store.resolve? e n with
    | none => exact good_scalar st rfl
    | some v =>
      obtain ⟨o, _, hg⟩ := Store.resolve?_eq_some hv
      exact ⟨h.store.value hg, D.lookup h.inv h.at_node hv⟩
  | print j =>
    rw [Interpreter.evalNode_print fuel sub e hn]
    have hj := below j (by simp)
    apply (hsub it e j st hj).bind
    intro v st₁ hk hv
    have hk' := kept_println (h.kept hk) hn (v.render it.names)
    exact keeps_of_ok rfl hk' (hv.kept hk.store hk')
  | binary op j k =>
    rw [Interpreter.evalNode_binary fuel sub e hn]
    have hj := below j (by simp)
    have hk := below k (by simp)
    apply (hsub it e j st hj).bind
    intro l st₁ hk₁ _
    apply (hsub it e k st₁ (hk.kept hk₁)).bind
    intro r st₂ hk₂ _
    have hs := ((h.kept hk₁).kept hk₂).same
    cases hop : op.eval l r with
    | error kind => exact keeps_raise hs
    | ok v => exact keeps_pure hs (good_scalar st₂ (Operator.asClosure?_eval hop))
  | ifElse j k no =>
    rw [Interpreter.evalNode_ifElse fuel sub e hn]
    have hj := below j (by simp)
    have hk := below k (by simp)
    apply (keeps_condition hsub hj).bind
    intro b st₁ hk₁ _
    cases b with
    | true => exact hsub it e k st₁ (hk.kept hk₁)
    | false =>
      cases no with
      | none => exact keeps_pure (h.kept hk₁).same (good_scalar st₁ rfl)
      | some l =>
        have hl := below l (by simp)
        exact hsub it e l st₁ (hl.kept hk₁)
  | loop j k =>
    rw [Interpreter.evalNode_loop fuel sub e hn]
    have hj := below j (by simp)
    have hk := below k (by simp)
    exact keeps_loop hsub fuel .null 0 hj hk (good_scalar st rfl)
  | seq j k =>
    rw [Interpreter.evalNode_seq fuel sub e hn]
    have hj := below j (by simp)
    have hk := below k (by simp)
    apply (hsub it e j st hj).bind
    intro _ st₁ hk₁ _
    exact hsub it e k st₁ (hk.kept hk₁)
  | declare n j =>
    rw [Interpreter.evalNode_declare fuel sub e hn]
    have hj := below j (by simp)
    apply (hsub it e j st hj).bind
    intro v st₁ hk₁ hv
    have hr := h.kept hk₁
    apply (keeps_declare hr hv).bind
    intro _ st₂ hk₂ _
    exact keeps_pure (hr.kept hk₂).same (hv.kept hr.store hk₂)
  | assign n j =>
    rw [Interpreter.evalNode_assign fuel sub e hn]
    have hj := below j (by simp)
    apply (hsub it e j st hj).bind
    intro v st₁ hk₁ hv
    have hr := h.kept hk₁
    apply (keeps_assign hr hv).bind
    intro _ st₂ hk₂ _
    exact keeps_pure (hr.kept hk₂).same (hv.kept hr.store hk₂)
  | function span body =>
    obtain ⟨params, hp⟩ := h.arena.params? hn
    rw [Interpreter.evalNode_function fuel sub e hn hp]
    obtain ⟨hinv, hstep, hval⟩ := D.closure h.inv h.at_node hn hp
    have hbody : body < i := h.arena.child_lt hn body (by simp)
    refine keeps_of_ok rfl ⟨h.store, Nat.le_refl _, hinv, hstep⟩ ⟨?_, hval⟩
    rintro c ⟨⟩
    exact ⟨h.arena, Nat.lt_trans hbody h.node, h.frame⟩
  | call callee span =>
    obtain ⟨ids, hids⟩ := h.arena.args? hn
    rw [Interpreter.evalNode_call fuel sub e hn hids]
    have hc := below callee (by simp)
    apply (hsub it e callee st hc).bind
    intro v st₁ hk₁ hv
    have hr := h.kept hk₁
    cases v with
    | closure c =>
      have hargs (j : ExprId) (hj : j ∈ ids) : D.Ready it.arena e j st₁ :=
        (below j (by simp [hids, hj])).kept hk₁
      apply (keeps_args hsub hargs hr.same).bind
      intro args st₂ hk₂ hgood
      exact keeps_apply hsub hk₂.store hk₂.inv (hv.kept hr.store hk₂) hgood
    | _ => exact keeps_raise hr.same

end Rules

/-- Evaluation keeps every discipline, with any fuel and however it ends. -/
theorem keptBy_eval (D : Discipline) (fuel : Nat) : D.KeptBy (Interpreter.eval fuel) := by
  induction fuel with
  | zero =>
    intro it e i st h
    exact keeps_of_error rfl h.same (by simp)
  | succ fuel ih =>
    intro it e i st h
    exact keeps_node ih fuel h

/-- So does a call from outside, which runs in no frame of its own. -/
theorem keeps_call (D : Discipline) (fuel : Nat) (it : Interpreter) (e : FrameId) {st : State}
    {callee : Value} {args : List Value} (hs : st.store.WellFormed) (hi : D.Inv st)
    (hc : D.Good callee st) (ha : ∀ v ∈ args, D.Good v st) :
    D.Keeps e st (it.call fuel callee args) D.Good := by
  have hsame : D.Kept e st st := ⟨hs, Nat.le_refl _, hi, D.refl e st⟩
  cases callee with
  | closure c => exact keeps_apply (D.keptBy_eval fuel) hs hi hc ha
  | _ => exact keeps_raise hsame

/-- What is kept holds of the state that is split off at the end of a run. -/
theorem Keeps.split {e : FrameId} {st : State} {m : EvalM α} {Q : α → State → Prop}
    (h : D.Keeps e st m Q) :
    D.Kept e st (Run.split (m st)).2 ∧
      ∀ x, (Run.split (m st)).1 = .ok x → Q x (Run.split (m st)).2 := by
  cases hr : m st with
  | ok x st' =>
    obtain ⟨hk, hq⟩ := h.ok hr
    refine ⟨hk, ?_⟩
    rintro _ ⟨⟩
    exact hq
  | error s st' =>
    obtain ⟨hk, _⟩ := h.error hr
    exact ⟨hk, by rintro _ ⟨⟩⟩

/-- A whole run in a new global frame keeps a discipline that holds at its start. -/
theorem keeps_run (D : Discipline) (fuel : Nat) (names : Interner) {arena : SharedArena}
    {root : ExprId} (sink : Sink) (ha : arena.arena.WellFormed) (hr : root < arena.arena.size)
    (hi : D.Inv (State.fresh sink)) (hat : D.At arena 0 root (State.fresh sink)) :
    let r := Run.ofNode names arena root sink (Interpreter.evaluate fuel)
    D.Kept 0 (State.fresh sink) r.state ∧ ∀ v, r.outcome = .ok v → D.Good v r.state := by
  have hstart : D.Ready arena 0 root (State.fresh sink) :=
    ⟨ha, hr, Nat.zero_lt_one, State.wellFormed_fresh sink, hi, hat⟩
  have hlog : D.Keeps 0 (State.fresh sink) (EvalM.log .evaluate) fun _ _ => True :=
    keeps_of_ok rfl (kept_log 0 (by simp) hstart.store hi) trivial
  exact (hlog.bind fun _ st' hk _ =>
    D.keptBy_eval fuel { names, arena } 0 root st' (hstart.kept hk)).split

end Discipline
end Treewalk
