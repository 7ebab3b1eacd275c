import Treewalk.Proofs.Parts

/-! The course of an activity: it enters, carries out its parts one after the other, and finishes. The
courses of an activity are exactly its runs, and each comes with the chronicle of everything that came to
an end on the way. -/
namespace Treewalk
namespace Activity
open Interpreter

/-- How far an activity has got. -/
inductive Status where
  /-- Its parts so far have come to these values, and to this state. -/
  | parts (vs : List Value) (st : State)
  | ended (r : EStateM.Result Stop State Value)

/-- An activity that has come to an end, and that end. -/
abbrev Record := Activity × EStateM.Result Stop State Value

theorem filterMap_concat {α : Type} (f : Record → Option α) (log : List Record) (x : Record) :
    (log ++ [x]).filterMap f = log.filterMap f ++ (f x).toList := by
  rw [List.filterMap_append]
  cases hx : f x <;> simp [hx]

/-- Carried out from `st`, an activity gets as far as a status says. The chronicle records all that has
come to an end on the way, in the order of the ends. -/
inductive Course : Activity → (st : State) → Status → (chronicle : List Record) → Prop where
  | refuse {A : Activity} {st s st₁} (h : A.enter st = .error s st₁) :
      Course A st (.ended (.error s st₁)) [(A, .error s st₁)]
  | enter {A : Activity} {st st₁} (h : A.enter st = .ok () st₁) : Course A st (.parts [] st₁) []
  | part {A B : Activity} {st vs st₁ v st₂ log log'} (h : Course A st (.parts vs st₁) log)
      (hB : A.part? st vs = some B) (k : Course B st₁ (.ended (.ok v st₂)) log') :
      Course A st (.parts (vs ++ [v]) st₂) (log ++ log')
  | stop {A B : Activity} {st vs st₁ s st₂ log log'} (h : Course A st (.parts vs st₁) log)
      (hB : A.part? st vs = some B) (k : Course B st₁ (.ended (.error s st₂)) log') :
      Course A st (.ended (.error (A.pass s) st₂)) (log ++ log' ++ [(A, .error (A.pass s) st₂)])
  | finish {A : Activity} {st vs st₁ log} (h : Course A st (.parts vs st₁) log)
      (hB : A.part? st vs = none) :
      Course A st (.ended ((A.effect vs st₁.store).run st₁))
        (log ++ [(A, (A.effect vs st₁.store).run st₁)])

/-- Carry out the parts from those that came to `vs` on, with fuel `n` for each, and finish; `k` bounds
the number of steps. -/
def drive (A : Activity) (start : State) (n : Nat) : (k : Nat) → (vs : List Value) → EvalM Value
  | 0, _ => throw .outOfFuel
  | k + 1, vs => fun st =>
    match A.part? start vs with
    | some B =>
      match B.run n st with
      | .ok v st' => drive A start n k (vs ++ [v]) st'
      | .error s st' => .error (A.pass s) st'
    | none => (A.effect vs st.store).run st

section Drive
variable {A B : Activity} {start st st' : State} {n k : Nat} {vs : List Value}

private theorem drive_ok {v : Value} (hB : A.part? start vs = some B) (h : B.run n st = .ok v st') :
    A.drive start n (k + 1) vs st = A.drive start n k (vs ++ [v]) st' := by
  simp [drive, hB, h]

private theorem drive_error {s : Stop} (hB : A.part? start vs = some B) (h : B.run n st = .error s st') :
    A.drive start n (k + 1) vs st = .error (A.pass s) st' := by
  simp [drive, hB, h]

private theorem drive_finish {x : Effect} (hB : A.part? start vs = none) (hx : A.effect vs st.store = x) :
    A.drive start n (k + 1) vs st = x.run st := by
  simp [drive, hB, hx]

end Drive

section Node
variable {it : Interpreter} {e : FrameId} {i : ExprId} {node : Node} {start : State} {n : Nat}

private theorem drive_part (hn : it.arena.arena.node? i = some node) {B : Activity} {k : Nat}
    {vs : List Value} {st : State} {f : Value → EvalM Value} (hB : nodePart? it e node vs = some B)
    (hf : ∀ v st', (eval it e i).drive start n k (vs ++ [v]) st' = f v st') :
    (eval it e i).drive start n (k + 1) vs st = (B.run n >>= f) st := by
  have hB' := (part?_eval hn start vs).trans hB
  cases hr : B.run n st with
  | ok v st' => rw [drive_ok hB' hr, hf, bind_of_ok hr]
  | error s st' =>
    rw [drive_error hB' hr, bind_of_error hr]
    rfl

private theorem drive_operand (hn : it.arena.arena.node? i = some node) {j : ExprId} {k : Nat}
    {vs : List Value} {st : State} {f : Value → EvalM Value}
    (hj : nodePart? it e node vs = some (eval it e j))
    (hf : ∀ v st', (eval it e i).drive start n k (vs ++ [v]) st' = f v st') :
    (eval it e i).drive start n (k + 1) vs st = (it.eval n e j >>= f) st := drive_part hn hj hf

private theorem drive_end (hn : it.arena.arena.node? i = some node) {k : Nat} {vs : List Value}
    {st : State} {x : Effect} (hB : nodePart? it e node vs = none)
    (hx : nodeEffect it e node vs st.store = x) :
    (eval it e i).drive start n (k + 1) vs st = x.run st :=
  drive_finish ((part?_eval hn start vs).trans hB) ((effect_eval hn vs st.store).trans hx)

private theorem drive_last (hn : it.arena.arena.node? i = some node) {B : Activity} {k : Nat}
    {vs : List Value} {st : State} (hB : nodePart? it e node vs = some B)
    (hpart : ∀ v, nodePart? it e node (vs ++ [v]) = none)
    (hlast : ∀ v s, nodeEffect it e node (vs ++ [v]) s = .give v) :
    (eval it e i).drive start n (k + 2) vs st = B.run n st := by
  rw [drive_part (f := pure) hn hB, bind_pure]
  intro v st'
  exact drive_end hn (hpart v) (hlast v st'.store)

private theorem drive_print {j : ExprId} (hn : it.arena.arena.node? i = some (.print j)) (k : Nat)
    (st : State) : (eval it e i).drive start n (k + 2) [] st =
      evalNode n (Interpreter.eval n) it e i st := by
  rw [evalNode_print n _ e hn]
  apply drive_operand hn rfl
  intro v st'
  exact drive_end hn rfl (x := .print v (v.render it.names)) rfl

private theorem drive_binary {op : Operator} {j l : ExprId}
    (hn : it.arena.arena.node? i = some (.binary op j l)) (k : Nat) (st : State) :
    (eval it e i).drive start n (k + 3) [] st = evalNode n (Interpreter.eval n) it e i st := by
  rw [evalNode_binary n _ e hn]
  apply drive_operand hn rfl
  intro v st₁
  apply drive_operand hn rfl
  intro w st₂
  cases hop : op.eval v w with
  | ok u => exact drive_end (x := .give u) hn rfl (by simp [nodeEffect, hop])
  | error kind => exact drive_end (x := .refuse kind) hn rfl (by simp [nodeEffect, hop])

private theorem drive_ifElse {j l : ExprId} {no : Option ExprId}
    (hn : it.arena.arena.node? i = some (.ifElse j l no)) (k : Nat) (st : State) :
    (eval it e i).drive start n (k + 3) [] st = evalNode n (Interpreter.eval n) it e i st := by
  rw [evalNode_ifElse n _ e hn, evalCondition, bind_assoc]
  apply drive_operand hn rfl
  intro v st₁
  cases v with
  | bool b =>
    cases b with
    | true => exact drive_last (B := eval it e l) hn rfl (fun _ => rfl) fun _ _ => rfl
    | false =>
      cases no with
      | none => exact drive_end (x := .give .null) hn rfl rfl
      | some m => exact drive_last (B := eval it e m) hn rfl (fun _ => rfl) fun _ _ => rfl
  | _ =>
    rw [drive_end hn rfl rfl]
    rfl

private theorem drive_seq {j l : ExprId} (hn : it.arena.arena.node? i = some (.seq j l)) (k : Nat)
    (st : State) : (eval it e i).drive start n (k + 3) [] st =
      evalNode n (Interpreter.eval n) it e i st := by
  rw [evalNode_seq n _ e hn]
  apply drive_operand hn rfl
  intro v st₁
  exact drive_last (B := eval it e l) hn rfl (fun _ => rfl) fun _ _ => rfl

private theorem drive_declare {x : Name} {j : ExprId}
    (hn : it.arena.arena.node? i = some (.declare x j)) (k : Nat) (st : State) :
    (eval it e i).drive start n (k + 2) [] st = evalNode n (Interpreter.eval n) it e i st := by
  rw [evalNode_declare n _ e hn]
  apply drive_operand hn rfl
  intro v st₁
  have hrun := declare_run it e x v st₁
  by_cases hb : st₁.store.binds e x = true
  · rw [bind_of_error (hrun.trans (if_pos hb))]
    exact drive_end (x := .refuse (.duplicateDeclaration (it.names.lookup x))) hn rfl (if_pos hb)
  · rw [bind_of_ok (hrun.trans (if_neg hb))]
    exact drive_end (x := .bind v e x (some (.declared (it.names.lookup x)))) hn rfl (if_neg hb)

private theorem drive_assign {x : Name} {j : ExprId}
    (hn : it.arena.arena.node? i = some (.assign x j)) (k : Nat) (st : State) :
    (eval it e i).drive start n (k + 2) [] st = evalNode n (Interpreter.eval n) it e i st := by
  rw [evalNode_assign n _ e hn]
  apply drive_operand hn rfl
  intro v st₁
  rw [bind_of_ok (assign_run it e x v st₁)]
  cases ho : st₁.store.owner? e x with
  | some o => exact drive_end (x := .bind v o x none) hn rfl (by simp [nodeEffect, ho])
  | none =>
    exact drive_end (x := .bind v (st₁.store.global e) x (some (.undeclaredAssigned _))) hn rfl
      (by simp [nodeEffect, ho])

/-- Every round of a loop takes two steps: after an even number of them comes the condition. -/
private theorem drive_loop {j l : ExprId} (hn : it.arena.arena.node? i = some (.loop j l)) (m : Nat)
    {vs : List Value} (hvs : vs.length % 2 = 0) (st : State) :
    (eval it e i).drive start n (2 * m) vs st =
      evalLoop (Interpreter.eval n) it e j l m (vs.getLast?.getD .null) (vs.length / 2) st := by
  induction m generalizing vs st with
  | zero => rfl
  | succ m ih =>
    rw [show 2 * (m + 1) = 2 * m + 1 + 1 by omega, evalLoop, evalCondition, bind_assoc]
    apply drive_operand hn (by simp [nodePart?, Node.operand?, hvs])
    intro v st₁
    have hodd : (vs.length + 1) % 2 ≠ 0 := by omega
    cases v with
    | bool b =>
      cases b with
      | true =>
        simp only [pure_bind, if_true]
        apply drive_operand hn (by simp [nodePart?, Node.operand?, hodd])
        intro w st₂
        have hlength : (vs ++ [Value.bool true] ++ [w]).length = vs.length + 2 := by simp
        have hrounds : (vs.length + 2) / 2 = vs.length / 2 + 1 := by omega
        rw [ih (by omega), List.getLast?_concat, hlength, hrounds]
        rfl
      | false =>
        have hrounds : (vs.length + 1) / 2 = vs.length / 2 := by omega
        exact drive_end (x := .trace (vs.getLast?.getD .null) (.loopFinished (vs.length / 2))) hn
          (by simp [nodePart?, Node.operand?, hodd]) (by simp [nodeEffect, hrounds])
    | _ =>
      rw [drive_end hn (by simp [nodePart?, Node.operand?, hodd]) rfl]
      simp only [nodeEffect, List.getLast?_concat]
      rfl

private theorem drive_args {f : ExprId} {span : Span}
    (hn : it.arena.arena.node? i = some (.call f span)) {c : Closure} {after : List ExprId} :
    ∀ (before : List ExprId) {vs : List Value} {k : Nat} (st : State),
      it.arena.arena.args? span = some (before ++ after) → vs.length = before.length →
      after.length + 2 ≤ k →
      (eval it e i).drive start n k (.closure c :: vs) st =
        (after.mapM (it.eval n e) >>= fun ws => it.call n (.closure c) (vs ++ ws)) st := by
  induction after with
  | nil =>
    intro before vs k st ha hvs hk
    obtain ⟨k, rfl⟩ : ∃ m, k = m + 2 := ⟨k - 2, by simp at hk; omega⟩
    rw [List.mapM_nil, pure_bind, List.append_nil]
    refine drive_last (B := call it (.closure c) vs) hn ?_ ?_ ?_
    · simp [nodePart?, ha, hvs]
    · intro v
      simp [nodePart?, ha, hvs]
    · intro v s
      simp [nodeEffect, ha]
  | cons j after ih =>
    intro before vs k st ha hvs hk
    obtain ⟨k, rfl⟩ : ∃ m, k = m + 1 := ⟨k - 1, by simp at hk; omega⟩
    rw [List.mapM_cons, bind_assoc]
    apply drive_operand hn
    · simp [nodePart?, ha, hvs]
    · intro v st'
      have hsplit : it.arena.arena.args? span = some ((before ++ [j]) ++ after) := by simpa using ha
      refine (ih _ st' hsplit (by simp [hvs]) (by simp at hk; omega)).trans ?_
      simp [List.append_assoc]

private theorem drive_call {f : ExprId} {span : Span}
    (hn : it.arena.arena.node? i = some (.call f span)) {k : Nat}
    (hk : ∀ ids, it.arena.arena.args? span = some ids → ids.length + 2 ≤ k) (hk₁ : 1 ≤ k)
    (st : State) :
    (eval it e i).drive start n (k + 1) [] st = evalNode n (Interpreter.eval n) it e i st := by
  rw [evalNode_callee n _ e hn]
  apply drive_operand hn rfl
  intro v st₁
  obtain ⟨m, rfl⟩ : ∃ m, k = m + 1 := ⟨k - 1, by omega⟩
  cases v with
  | closure c =>
    cases ha : it.arena.arena.args? span with
    | none => exact drive_end (x := .fault) hn (by simp [nodePart?, ha]) (by simp [nodeEffect, ha])
    | some ids => exact drive_args hn [] st₁ ha rfl (hk ids ha)
  | _ =>
    rw [drive_end hn rfl rfl]
    rfl

/-- Driving a node through its parts does what its rule does, if there are steps enough. A loop has as
many rounds as the rule has fuel for. -/
theorem exists_drive_eq_evalNode (it : Interpreter) (e : FrameId) (i : ExprId) (start : State)
    {n m : Nat} (hm : m ≤ 2 * n) :
    ∃ k, m ≤ k ∧ ∀ st, (eval it e i).drive start n k [] st =
      evalNode n (Interpreter.eval n) it e i st := by
  cases hn : it.arena.arena.node? i with
  | none =>
    refine ⟨m + 1, by omega, fun st => ?_⟩
    rw [drive_finish (x := .fault) (by simp [part?, hn]) (by simp [effect, hn]), evalNode, hn]
    rfl
  | some node =>
    cases node with
    | literal l =>
      refine ⟨m + 1, by omega, fun st => ?_⟩
      rw [evalNode_literal n _ e hn]
      exact drive_end (x := .give (.ofLiteral l)) hn rfl rfl
    | ident x =>
      refine ⟨m + 1, by omega, fun st => ?_⟩
      rw [evalNode_ident n _ e hn]
      exact drive_end (x := .give _) hn rfl rfl
    | function span body =>
      refine ⟨m + 1, by omega, fun st => ?_⟩
      cases hp : it.arena.arena.params? span with
      | none =>
        rw [drive_end (x := .fault) hn rfl (by simp [nodeEffect, hp])]
        simp only [evalNode, hn, hp, EvalM.require, pure_bind]
        rfl
      | some params =>
        rw [evalNode_function n _ e hn hp]
        exact drive_end (x := .make params body it.arena e) hn rfl (by simp [nodeEffect, hp])
    | print j => exact ⟨m + 2, by omega, drive_print hn m⟩
    | binary op j l => exact ⟨m + 3, by omega, drive_binary hn m⟩
    | ifElse j l no => exact ⟨m + 3, by omega, drive_ifElse hn m⟩
    | loop j l =>
      refine ⟨2 * n, hm, fun st => ?_⟩
      rw [evalNode_loop n _ e hn]
      exact drive_loop hn n rfl st
    | seq j l => exact ⟨m + 3, by omega, drive_seq hn m⟩
    | declare x j => exact ⟨m + 2, by omega, drive_declare hn m⟩
    | assign x j => exact ⟨m + 2, by omega, drive_assign hn m⟩
    | call f span =>
      refine ⟨m + ((it.arena.arena.args? span).getD []).length + 3, by omega, ?_⟩
      apply drive_call hn
      · intro ids ha
        simp [ha]
      · omega

end Node

private theorem drive_body (it : Interpreter) (c : Closure) (args : List Value) (n k : Nat)
    (start st : State) :
    (call it (.closure c) args).drive start n (k + 2) [] st =
      EvalM.noting (fun _ => "in call to " ++ c.signature it.names)
        ((it.callee c).eval n start.store.size c.body) st := by
  have hbody : (call it (.closure c) args).part? start [] =
    some (eval (it.callee c) start.store.size c.body) := rfl
  cases hr : (it.callee c).eval n start.store.size c.body st with
  | ok v st' =>
    rw [drive_ok hbody hr, drive_finish rfl rfl, EvalM.noting_ok hr]
    rfl
  | error s st' =>
    rw [drive_error hbody hr]
    cases s with
    | raised x => rw [EvalM.noting_raised hr, pass]
    | outOfFuel => rw [EvalM.noting_outOfFuel hr, pass]; simp
    | fault => simp [EvalM.noting, hr, pass]

theorem drive_eq_call (it : Interpreter) (callee : Value) (args : List Value) (n k : Nat) (st : State) :
    ((call it callee args).enter >>= fun _ => (call it callee args).drive st n (k + 2) []) st =
      it.call n callee args st := by
  cases callee with
  | closure c =>
    by_cases hl : args.length = c.arity
    · refine Eq.trans ?_ (apply_run (Interpreter.eval n) it hl st).symm
      cases hp : it.bindParams st.store.size (c.params.zip args) (opened st it c args) with
      | error s st₁ =>
        exact (bind_of_error ((enter_closure hl st).trans hp) _).trans (bind_of_error hp _).symm
      | ok _ st₁ =>
        refine (bind_of_ok ((enter_closure hl st).trans hp) _).trans ?_
        rw [bind_of_ok hp]
        exact drive_body it c args n k st st₁
    · refine (bind_of_error (enter_arity hl st) _).trans ?_
      exact (apply_arity (Interpreter.eval n) it hl st).symm
  | _ => rfl

/-! Courses and runs are the same. -/

/-- The fuel with which an activity gives fuel `n` to each of its parts. -/
private def fuelFor : Activity → Nat → Nat
  | eval _ _ _, n => n + 1
  | call _ _ _, n => n

private theorem exists_drive_eq_run (A : Activity) (start : State) {n m : Nat} (hm : m ≤ 2 * n) :
    ∃ k, m ≤ k ∧ (A.enter >>= fun _ => A.drive start n k []) start = A.run (A.fuelFor n) start := by
  cases A with
  | eval it e i =>
    obtain ⟨k, hk, heq⟩ := exists_drive_eq_evalNode it e i start hm
    exact ⟨k, hk, heq start⟩
  | call it callee args => exact ⟨m + 2, by omega, drive_eq_call it callee args n m start⟩

/-- What can be driven to an end from some point has a course to that end. -/
private theorem course_of_drive {A : Activity} {start : State} {n : Nat}
    (hparts : ∀ vs B st, A.part? start vs = some B → EvalM.Finished (B.run n st) →
      ∃ log, B.Course st (.ended (B.run n st)) log) :
    ∀ {k : Nat} {vs : List Value} {st : State} {log : List Record}, A.Course start (.parts vs st) log →
      EvalM.Finished (A.drive start n k vs st) →
      ∃ log', A.Course start (.ended (A.drive start n k vs st)) log' := by
  intro k
  induction k with
  | zero =>
    intro vs st log h hend
    exact hend.elim
  | succ k ih =>
    intro vs st log h hend
    cases hB : A.part? start vs with
    | none =>
      rw [drive_finish hB rfl]
      exact ⟨_, h.finish hB⟩
    | some B =>
      cases hr : B.run n st with
      | ok v st' =>
        rw [drive_ok hB hr] at hend ⊢
        obtain ⟨log', hcourse⟩ := hparts vs B st hB (by rw [hr]; trivial)
        rw [hr] at hcourse
        exact ih (h.part hB hcourse) hend
      | error s st' =>
        rw [drive_error hB hr] at hend ⊢
        have hs : s ≠ .outOfFuel := mt pass_eq_outOfFuel_iff.mpr (EvalM.finished_error_iff.mp hend)
        obtain ⟨log', hcourse⟩ := hparts vs B st hB (by rw [hr]; exact EvalM.finished_error_iff.mpr hs)
        rw [hr] at hcourse
        exact ⟨_, h.stop hB hcourse⟩

private theorem course_of_parts {A : Activity} {n : Nat} {st : State}
    (hparts : ∀ vs B st', A.part? st vs = some B → EvalM.Finished (B.run n st') →
      ∃ log, B.Course st' (.ended (B.run n st')) log)
    (hend : EvalM.Finished (A.run (A.fuelFor n) st)) :
    ∃ log, A.Course st (.ended (A.run (A.fuelFor n) st)) log := by
  obtain ⟨k, _, heq⟩ := exists_drive_eq_run A st (Nat.zero_le (2 * n))
  rw [← heq] at hend ⊢
  cases he : A.enter st with
  | error s st₁ =>
    rw [bind_of_error he]
    exact ⟨_, .refuse he⟩
  | ok _ st₁ =>
    rw [bind_of_ok he] at hend ⊢
    exact course_of_drive hparts (.enter he) hend

private theorem course_of_run (n : Nat) (A : Activity) (st : State)
    (hend : EvalM.Finished (A.run n st)) : ∃ log, A.Course st (.ended (A.run n st)) log := by
  have hcall (n : Nat) (heval : ∀ it e i st, EvalM.Finished ((eval it e i).run n st) →
      ∃ log, (eval it e i).Course st (.ended ((eval it e i).run n st)) log) (it callee args st) :
      EvalM.Finished ((call it callee args).run n st) →
      ∃ log, (call it callee args).Course st (.ended ((call it callee args).run n st)) log := by
    apply course_of_parts
    intro vs B st' hB
    obtain ⟨c, -, rfl⟩ := part?_call hB
    exact heval (it.callee c) st.store.size c.body st'
  have heval : ∀ it e i st, EvalM.Finished ((eval it e i).run n st) →
      ∃ log, (eval it e i).Course st (.ended ((eval it e i).run n st)) log := by
    clear hend
    induction n with
    | zero =>
      intro it e i st hend
      exact hend.elim
    | succ n ih =>
      intro it e i st
      apply course_of_parts (n := n)
      intro vs B st' _
      cases B with
      | eval it' e' j => exact ih it' e' j st'
      | call it' callee args => exact hcall n ih it' callee args st'
  cases A with
  | eval it e i => exact heval it e i st hend
  | call it callee args => exact hcall n heval it callee args st hend

/-- What a course says of runs: with fuel enough, they get to the same status. -/
private def Status.Reached (A : Activity) (st : State) : Status → Prop
  | .parts vs st₁ => ∃ N, ∀ n, N ≤ n → ∀ k,
    (A.enter >>= fun _ => A.drive st n (vs.length + k) []) st = A.drive st n k vs st₁
  | .ended r => A.Ends st r

theorem steady_run (A : Activity) : EvalM.Steady A.run := by
  cases A with
  | eval it e i => exact it.steady_eval e i
  | call it callee args => exact it.steady_call callee args

private theorem Status.Reached.ends {A : Activity} {st st₁ : State} {vs : List Value}
    (h : (Status.parts vs st₁).Reached A st) {r : EStateM.Result Stop State Value}
    (hr : EvalM.Finished r) {M : Nat} (hlast : ∀ n, M ≤ n → ∀ k, A.drive st n (k + 1) vs st₁ = r) :
    A.Ends st r := by
  obtain ⟨N, hN⟩ := h
  obtain ⟨k, hk, heq⟩ := exists_drive_eq_run A st
    (show vs.length + 1 ≤ 2 * (N + M + (vs.length + 1)) by omega)
  obtain ⟨k, rfl⟩ : ∃ m, k = vs.length + (m + 1) := ⟨k - vs.length - 1, by omega⟩
  refine ⟨hr, A.fuelFor (N + M + (vs.length + 1)), ?_⟩
  rw [← heq, hN _ (by omega)]
  exact hlast _ (by omega) k

private theorem Course.reached {A : Activity} {st : State} {status : Status} {log : List Record}
    (h : A.Course st status log) : status.Reached A st := by
  induction h with
  | @refuse A st s st₁ h =>
    obtain ⟨k, _, heq⟩ := exists_drive_eq_run A st (Nat.zero_le (2 * 0))
    refine ⟨?_, A.fuelFor 0, heq.symm.trans (bind_of_error h _)⟩
    obtain ⟨_, x, rfl⟩ := entered_of_error h
    trivial
  | enter h =>
    refine ⟨0, fun n _ k => ?_⟩
    rw [bind_of_ok h]
    simp
  | @part A B st vs st₁ v st₂ log log' _ hB _ ih ihB =>
    obtain ⟨N, hN⟩ := ih
    obtain ⟨M, hM⟩ := EvalM.Ends.eventually B.steady_run ihB
    refine ⟨max N M, fun n hn k => ?_⟩
    rw [← drive_ok hB (hM n (by omega)), ← hN n (by omega), List.length_append, List.length_singleton,
      Nat.add_right_comm, Nat.add_assoc]
  | @stop A B st vs st₁ s st₂ log log' _ hB _ ih ihB =>
    obtain ⟨M, hM⟩ := EvalM.Ends.eventually B.steady_run ihB
    refine ih.ends (M := M) ?_ fun n hn k => drive_error hB (hM n hn)
    exact EvalM.finished_error_iff.mpr (mt pass_eq_outOfFuel_iff.mp (EvalM.finished_error_iff.mp ihB.1))
  | @finish A st vs st₁ log _ hB ih =>
    exact ih.ends (M := 0) (Effect.finished_run _ _) fun n _ k => drive_finish hB rfl

/-- The ends of an activity are those that a course leads to. -/
theorem ends_iff_course {A : Activity} {st : State} {r : EStateM.Result Stop State Value} :
    A.Ends st r ↔ ∃ log, A.Course st (.ended r) log := by
  constructor
  · rintro ⟨hr, n, rfl⟩
    exact course_of_run n A st hr
  · rintro ⟨log, h⟩
    exact h.reached

end Activity
end Treewalk
