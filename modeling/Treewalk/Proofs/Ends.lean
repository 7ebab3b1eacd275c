import Treewalk.Proofs.Fuel

/-! The ends of runs, without a word about fuel.
A steady family of actions has at most one end from each state, and what ends is put together from what
its parts end with. Running forever is to have no end. -/
namespace Treewalk
namespace EvalM
variable {α β : Type}

/-- A result that came about before the fuel was used up. -/
def Finished : EStateM.Result Stop State α → Prop
  | .error .outOfFuel _ => False
  | _ => True

/-- An action for each amount of fuel, of which those with more fuel do what those with less do. -/
def Steady (m : Nat → EvalM α) : Prop := ∀ n k, n ≤ k → Below (m n) (m k)

/-- With fuel enough, `m` comes from `st` to the end `r`. -/
def Ends (m : Nat → EvalM α) (st : State) (r : EStateM.Result Stop State α) : Prop :=
  Finished r ∧ ∃ n, m n st = r

variable {m : Nat → EvalM α} {f : Nat → α → EvalM β} {st st' : State}
  {r : EStateM.Result Stop State α}

theorem finished_ok (x : α) (st : State) : Finished (.ok x st) := trivial

theorem finished_error_iff {s : Stop} :
    Finished (.error s st : EStateM.Result Stop State α) ↔ s ≠ .outOfFuel := by
  cases s <;> simp [Finished]

theorem steady_const (m : EvalM α) : Steady fun _ => m := fun _ _ _ => .refl m

theorem Steady.bind (hm : Steady m) (hf : ∀ x, Steady (f · x)) : Steady fun n => m n >>= f n :=
  fun n k h => (hm n k h).bind fun x => hf x n k h

theorem Steady.mapM {f : Nat → α → EvalM β} (hf : ∀ x, Steady (f · x)) (xs : List α) :
    Steady fun n => xs.mapM (f n) :=
  fun n k h => .mapM (fun x => hf x n k h) xs

theorem Steady.foldlM {f : Nat → β → α → EvalM β} (hf : ∀ y x, Steady (f · y x)) (xs : List α)
    (y : β) : Steady fun n => xs.foldlM (f n) y := by
  induction xs generalizing y with
  | nil => exact steady_const _
  | cons x xs ih =>
    simp only [List.foldlM_cons]
    exact (hf y x).bind ih

theorem Ends.eventually (hm : Steady m) (h : Ends m st r) : ∃ n, ∀ k, n ≤ k → m k st = r := by
  obtain ⟨hr, n, hn⟩ := h
  refine ⟨n, fun k hk => ?_⟩
  rcases hm n k hk st with ⟨st', hout⟩ | heq
  · rw [← hn, hout] at hr
    exact hr.elim
  · rw [← heq, hn]

theorem Ends.unique (hm : Steady m) {r' : EStateM.Result Stop State α} (h : Ends m st r)
    (h' : Ends m st r') : r = r' := by
  obtain ⟨n, hn⟩ := h.eventually hm
  obtain ⟨k, hk⟩ := h'.eventually hm
  rw [← hn (max n k) (Nat.le_max_left n k), hk (max n k) (Nat.le_max_right n k)]

theorem outOfFuel_of_not_ends (h : ¬ ∃ r, Ends m st r) (n : Nat) :
    ∃ st', m n st = .error .outOfFuel st' := by
  cases hr : m n st with
  | ok x st' => exact absurd ⟨.ok x st', trivial, n, hr⟩ h
  | error s st' =>
    by_cases hs : s = .outOfFuel
    · exact ⟨st', by rw [hs]⟩
    · exact absurd ⟨.error s st', finished_error_iff.mpr hs, n, hr⟩ h

theorem ends_const {m : EvalM α} : Ends (fun _ => m) st r ↔ Finished r ∧ m st = r :=
  ⟨fun ⟨hr, _, h⟩ => ⟨hr, h⟩, fun ⟨hr, h⟩ => ⟨hr, 0, h⟩⟩

theorem Ends.bind_error {s : Stop} (h : Ends m st (.error s st')) :
    Ends (fun n => m n >>= f n) st (.error s st') := by
  obtain ⟨hr, n, hn⟩ := h
  exact ⟨finished_error_iff.mpr (finished_error_iff.mp hr), n, bind_of_error hn _⟩

theorem Ends.bind_ok (hm : Steady m) {x : α} (hf : Steady (f · x))
    {r : EStateM.Result Stop State β} (h : Ends m st (.ok x st')) (k : Ends (f · x) st' r) :
    Ends (fun n => m n >>= f n) st r := by
  obtain ⟨n, hn⟩ := h.eventually hm
  obtain ⟨l, hl⟩ := k.eventually hf
  have hfirst := bind_of_ok (hn _ (Nat.le_max_left n l)) (f (max n l))
  exact ⟨k.1, max n l, hfirst.trans (hl _ (Nat.le_max_right n l))⟩

/-- One action after another: the first one stops early, or the second goes on from where it ended. -/
theorem ends_bind (hm : Steady m) (hf : ∀ x, Steady (f · x)) {r : EStateM.Result Stop State β} :
    Ends (fun n => m n >>= f n) st r ↔
      (∃ s st', r = .error s st' ∧ Ends m st (.error s st')) ∨
      ∃ x st', Ends m st (.ok x st') ∧ Ends (f · x) st' r := by
  constructor
  · rintro ⟨hr, n, hn⟩
    cases hx : m n st with
    | error s st' =>
      obtain rfl := (bind_of_error hx (f n)).symm.trans hn
      exact .inl ⟨s, st', rfl, finished_error_iff.mpr (finished_error_iff.mp hr), n, hx⟩
    | ok x st' =>
      exact .inr ⟨x, st', ⟨trivial, n, hx⟩, hr, n, (bind_of_ok hx (f n)).symm.trans hn⟩
  · rintro (⟨s, st', rfl, h⟩ | ⟨x, st', h, k⟩)
    · exact h.bind_error
    · exact h.bind_ok hm (hf x) k

/-- Families that keep up with each other have the same ends. -/
theorem Ends.mono {m m' : Nat → EvalM α} (h : Ends m st r) (hm : ∀ n, ∃ k, Below (m n) (m' k)) :
    Ends m' st r := by
  obtain ⟨hr, n, hn⟩ := h
  obtain ⟨k, hk⟩ := hm n
  rcases hk st with ⟨st', hout⟩ | heq
  · rw [← hn, hout] at hr
    exact hr.elim
  · exact ⟨hr, k, by rw [← heq, hn]⟩

end EvalM

theorem Run.finished_iff_split {r : EStateM.Result Stop State Value} :
    EvalM.Finished r ↔ (split r).1 ≠ .error .outOfFuel := by
  cases r with
  | ok v st => simp [EvalM.Finished, split]
  | error s st => simp [EvalM.finished_error_iff, split]

namespace Interpreter
open EvalM

theorem steady_eval (it : Interpreter) (e : FrameId) (i : ExprId) : Steady fun n => it.eval n e i :=
  fun _ _ h => eval_below h it e i

theorem steady_call (it : Interpreter) (callee : Value) (args : List Value) :
    Steady fun n => it.call n callee args := by
  intro n k h
  cases callee with
  | closure c => exact below_apply (eval_below h) it c args
  | _ => exact .refl _

def Evaluates (it : Interpreter) (e : FrameId) (i : ExprId) (st : State)
    (r : EStateM.Result Stop State Value) : Prop := Ends (fun n => it.eval n e i) st r

theorem evaluates_of_outcome {it : Interpreter} {n : Nat} {e : FrameId} {i : ExprId} {st : State}
    {x : Except Stop Value} (h : (Run.split (it.eval n e i st)).1 = x) (hx : x ≠ .error .outOfFuel) :
    it.Evaluates e i st (it.eval n e i st) := ⟨Run.finished_iff_split.mpr (h ▸ hx), n, rfl⟩

def Calls (it : Interpreter) (callee : Value) (args : List Value) (st : State)
    (r : EStateM.Result Stop State Value) : Prop := Ends (fun n => it.call n callee args) st r

theorem steady_condition (it : Interpreter) (e : FrameId) (i : ExprId) (construct : String) :
    Steady fun n => evalCondition (eval n) it e i construct :=
  fun _ _ h => below_condition (eval_below h) it e i construct

theorem ends_condition_iff {it : Interpreter} {e : FrameId} {i : ExprId} {construct : String} {st : State}
    {r : EStateM.Result Stop State Bool} :
    Ends (fun n => evalCondition (eval n) it e i construct) st r ↔
      ∃ q, it.Evaluates e i st q ∧ toCondition construct q = r := by
  constructor
  · rintro ⟨hr, n, hn⟩
    have hrun := (evalCondition_run (eval n) it e i construct st).symm.trans hn
    rw [← hrun] at hr
    refine ⟨it.eval n e i st, ⟨?_, n, rfl⟩, hrun⟩
    cases hq : it.eval n e i st with
    | ok v st' => trivial
    | error s st' =>
      rw [hq] at hr
      exact finished_error_iff.mpr (finished_error_iff.mp hr)
  · rintro ⟨q, ⟨hq, n, hn⟩, rfl⟩
    refine ⟨?_, n, (evalCondition_run _ it e i construct st).trans (congrArg _ hn)⟩
    cases q with
    | ok v st' => cases v <;> trivial
    | error s st' => exact finished_error_iff.mpr (finished_error_iff.mp hq)

theorem ends_condition {it : Interpreter} {e : FrameId} {i : ExprId} {st : State} (construct : String)
    {r : EStateM.Result Stop State Value} (h : it.Evaluates e i st r) :
    Ends (fun n => evalCondition (eval n) it e i construct) st (toCondition construct r) :=
  ends_condition_iff.mpr ⟨r, h, rfl⟩

theorem steady_loop (it : Interpreter) (e : FrameId) (i j : ExprId) (last : Value) (rounds : Nat) :
    Steady fun n => evalLoop (eval n) it e i j n last rounds :=
  fun _ _ h => below_loop (eval_below h) h it e i j last rounds

/-- One round of a loop and the rest of it, all with the same fuel. -/
def loopRound (it : Interpreter) (e : FrameId) (i j : ExprId) (last : Value) (rounds n : Nat) :
    EvalM Value := do
  if ← evalCondition (eval n) it e i "while" then
    let last ← it.eval n e j
    evalLoop (eval n) it e i j n last (rounds + 1)
  else
    EvalM.log (.loopFinished rounds)
    pure last

/-- A loop ends as it does when its first round is unrolled. The round itself takes a unit of the
loop's fuel, so each family lags behind the other by one. -/
theorem ends_loop_iff {it : Interpreter} {e : FrameId} {i j : ExprId} {last : Value} {rounds : Nat}
    {st : State} {r : EStateM.Result Stop State Value} :
    Ends (fun n => evalLoop (eval n) it e i j n last rounds) st r ↔
      Ends (it.loopRound e i j last rounds) st r := by
  constructor
  · intro h
    refine h.mono fun n => ?_
    cases n with
    | zero => exact ⟨0, fun st => .inl ⟨st, rfl⟩⟩
    | succ n =>
      refine ⟨n + 1, .bind (.refl _) fun b => ?_⟩
      split
      · refine .bind (.refl _) fun v => ?_
        exact below_loop (eval_below (Nat.le_refl _)) (Nat.le_succ n) it e i j v (rounds + 1)
      · exact .refl _
  · intro h
    refine h.mono fun n => ⟨n + 1, ?_⟩
    have hsub := eval_below (Nat.le_succ n)
    refine .bind (below_condition hsub it e i "while") fun b => ?_
    split
    · refine .bind (hsub it e j) fun v => ?_
      exact below_loop hsub (Nat.le_refl n) it e i j v (rounds + 1)
    · exact .refl _

/-- A node ends as its rule does. -/
theorem evaluates_iff_evalNode {it : Interpreter} {e : FrameId} {i : ExprId} {st : State}
    {r : EStateM.Result Stop State Value} :
    it.Evaluates e i st r ↔ Ends (fun n => evalNode n (eval n) it e i) st r := by
  constructor
  · rintro ⟨hr, n, hn⟩
    cases n with
    | zero =>
      subst hn
      exact hr.elim
    | succ n => exact ⟨hr, n, hn⟩
  · rintro ⟨hr, n, hn⟩
    exact ⟨hr, n + 1, hn⟩

theorem evaluates_iff_of_rule {it : Interpreter} {e : FrameId} {i : ExprId} {st : State}
    {r : EStateM.Result Stop State Value} {m : Nat → EvalM Value}
    (hm : ∀ n, evalNode n (eval n) it e i = m n) : it.Evaluates e i st r ↔ Ends m st r := by
  rw [evaluates_iff_evalNode, funext hm]

variable {it : Interpreter} {e : FrameId} {st : State}

/-- A node that does one thing with the value of its operand comes to a value by way of the operand. -/
theorem evaluates_then_iff {i j : ExprId} {f : Value → EvalM Value} {v : Value} {st' : State}
    (hf : ∀ n, evalNode n (eval n) it e i = it.eval n e j >>= f) :
    it.Evaluates e i st (.ok v st') ↔
      ∃ w st₁, it.Evaluates e j st (.ok w st₁) ∧ f w st₁ = .ok v st' := by
  rw [evaluates_iff_of_rule hf, ends_bind (it.steady_eval e j) fun w => steady_const (f w)]
  constructor
  · rintro (⟨s, st₁, hr, _⟩ | ⟨w, st₁, hj, hw⟩)
    · cases hr
    · exact ⟨w, st₁, hj, (ends_const.mp hw).2⟩
  · rintro ⟨w, st₁, hj, hw⟩
    exact .inr ⟨w, st₁, hj, ends_const.mpr ⟨trivial, hw⟩⟩

/-- A print node comes to a value exactly if its operand does, and then it has printed that value. -/
theorem evaluates_print_iff {i j : ExprId} {v : Value} {st' : State}
    (hn : it.arena.arena.node? i = some (.print j)) :
    it.Evaluates e i st (.ok v st') ↔
      ∃ st₁, it.Evaluates e j st (.ok v st₁) ∧ st' = st₁.println (v.render it.names) := by
  rw [evaluates_then_iff fun n => evalNode_print n (eval n) e hn]
  constructor
  · rintro ⟨w, st₁, hj, hw⟩
    cases hw
    exact ⟨st₁, hj, rfl⟩
  · rintro ⟨st₁, hj, rfl⟩
    exact ⟨v, st₁, hj, rfl⟩

/-- A sequence node ends with its first operand, if that stops early, and otherwise as its second does
from there. -/
theorem evaluates_seq_iff {i j k : ExprId} {r : EStateM.Result Stop State Value}
    (hn : it.arena.arena.node? i = some (.seq j k)) :
    it.Evaluates e i st r ↔
      (∃ s st', r = .error s st' ∧ it.Evaluates e j st (.error s st')) ∨
      ∃ v st', it.Evaluates e j st (.ok v st') ∧ it.Evaluates e k st' r := by
  rw [evaluates_iff_of_rule fun n => evalNode_seq n (eval n) e hn]
  exact ends_bind (it.steady_eval e j) fun _ => it.steady_eval e k

/-- Nodes evaluated in order in one frame: all of them to values, or up to the first that stops. -/
inductive EvaluatesAll (it : Interpreter) (e : FrameId) :
    List ExprId → State → EStateM.Result Stop State (List Value) → Prop where
  | nil (st : State) : EvaluatesAll it e [] st (.ok [] st)
  | cons {i : ExprId} {is : List ExprId} {st st₁ st₂ : State} {v : Value} {vs : List Value}
      (h : it.Evaluates e i st (.ok v st₁)) (k : EvaluatesAll it e is st₁ (.ok vs st₂)) :
      EvaluatesAll it e (i :: is) st (.ok (v :: vs) st₂)
  | stop {i : ExprId} {is : List ExprId} {st st' : State} {s : Stop}
      (h : it.Evaluates e i st (.error s st')) : EvaluatesAll it e (i :: is) st (.error s st')
  | later {i : ExprId} {is : List ExprId} {st st₁ st₂ : State} {v : Value} {s : Stop}
      (h : it.Evaluates e i st (.ok v st₁)) (k : EvaluatesAll it e is st₁ (.error s st₂)) :
      EvaluatesAll it e (i :: is) st (.error s st₂)

theorem steady_args (it : Interpreter) (e : FrameId) (ids : List ExprId) :
    Steady fun n => ids.mapM (it.eval n e) := .mapM (it.steady_eval e) ids

theorem ends_args_iff {ids : List ExprId} {r : EStateM.Result Stop State (List Value)} :
    Ends (fun n => ids.mapM (it.eval n e)) st r ↔ it.EvaluatesAll e ids st r := by
  induction ids generalizing st r with
  | nil =>
    constructor
    · rintro ⟨_, n, rfl⟩
      exact .nil st
    · rintro ⟨⟩
      exact ⟨trivial, 0, rfl⟩
  | cons i is ih =>
    have hpure (v : Value) (vs : List Value) : Steady fun _ => (pure (v :: vs) : EvalM _) :=
      steady_const _
    have hcons : (fun n => (i :: is).mapM (it.eval n e)) = fun n => it.eval n e i >>= fun v =>
        is.mapM (it.eval n e) >>= fun vs => pure (v :: vs) := by
      funext n
      rw [List.mapM_cons]
    rw [hcons, ends_bind (it.steady_eval e i) fun v => (it.steady_args e is).bind (hpure v)]
    constructor
    · rintro (⟨s, st', rfl, h⟩ | ⟨v, st₁, h, k⟩)
      · exact .stop h
      · rcases (ends_bind (it.steady_args e is) (hpure v)).mp k with
          ⟨s, st₂, rfl, hs⟩ | ⟨vs, st₂, hvs, hend⟩
        · exact .later h (ih.mp hs)
        · obtain ⟨_, rfl⟩ := ends_const.mp hend
          exact .cons h (ih.mp hvs)
    · rintro (_ | ⟨h, k⟩ | h | ⟨h, k⟩)
      · refine .inr ⟨_, _, h, (ends_bind (it.steady_args e is) (hpure _)).mpr (.inr ?_)⟩
        exact ⟨_, _, ih.mpr k, ends_const.mpr ⟨finished_ok _ _, rfl⟩⟩
      · exact .inl ⟨_, _, rfl, h⟩
      · exact .inr ⟨_, _, h, (ih.mpr k).bind_error⟩

end Interpreter
end Treewalk
