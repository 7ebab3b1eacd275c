import Treewalk.Proofs.Ends

/-! Unrolling the first round of a loop.
The value of a loop is carried from round to round, and is null only if there is no round at all. So a
condition that guards the body and then the loop itself does what the loop does, but it forgets the value
of a round that turns out to be the only one. -/
namespace Treewalk
namespace Interpreter
open EvalM

/-- How a loop ends, when the value so far is `last`: after some whole rounds, the condition is false or
no bool, or the condition or the body stops early. -/
inductive EvaluatesLoop (it : Interpreter) (e : FrameId) (cond body : ExprId) :
    (last : Value) → State → (rounds : Nat) → EStateM.Result Stop State Value → Prop where
  | done {last : Value} {st st' : State} (hc : it.Evaluates e cond st (.ok (.bool false) st')) :
      EvaluatesLoop it e cond body last st 0 (.ok last st')
  | refused {last v : Value} {st st' : State} (hc : it.Evaluates e cond st (.ok v st'))
      (hv : v.asBool? = none) : EvaluatesLoop it e cond body last st 0
        (.error (.raised { kind := .nonBoolCondition "while" v.typeName }) st')
  | stopped {last : Value} {st st' : State} {s : Stop} (hc : it.Evaluates e cond st (.error s st')) :
      EvaluatesLoop it e cond body last st 0 (.error s st')
  | inside {last : Value} {st st₁ st' : State} {s : Stop}
      (hc : it.Evaluates e cond st (.ok (.bool true) st₁))
      (hb : it.Evaluates e body st₁ (.error s st')) :
      EvaluatesLoop it e cond body last st 0 (.error s st')
  | round {last v : Value} {st st₁ st₂ : State} {k : Nat} {r : EStateM.Result Stop State Value}
      (hc : it.Evaluates e cond st (.ok (.bool true) st₁)) (hb : it.Evaluates e body st₁ (.ok v st₂))
      (h : EvaluatesLoop it e cond body v st₂ k r) : EvaluatesLoop it e cond body last st (k + 1) r

/-- A loop that comes to a value traces how many rounds it has made. -/
def finishLoop (rounds : Nat) : EStateM.Result Stop State Value → EStateM.Result Stop State Value
  | .ok v st => .ok v (st.log (.loopFinished rounds))
  | .error s st => .error s st

variable {it : Interpreter} {e : FrameId} {st : State} {r : EStateM.Result Stop State Value}

private theorem ends_condition_ok_iff (construct : String) {i : ExprId} {b : Bool} {st' : State} :
    Ends (fun n => evalCondition (eval n) it e i construct) st (.ok b st') ↔
      it.Evaluates e i st (.ok (.bool b) st') := by
  simp [ends_condition_iff, toCondition_eq_ok_iff]

private theorem ends_condition_error_iff (construct : String) {i : ExprId} {s : Stop} {st' : State} :
    Ends (fun n => evalCondition (eval n) it e i construct) st (.error s st') ↔
      it.Evaluates e i st (.error s st') ∨ ∃ v, it.Evaluates e i st (.ok v st') ∧ v.asBool? = none ∧
        s = .raised { kind := .nonBoolCondition construct v.typeName } := by
  simp only [ends_condition_iff, toCondition_eq_error_iff]
  constructor
  · rintro ⟨q, hq, rfl | ⟨v, rfl, hv, hs⟩⟩
    · exact .inl hq
    · exact .inr ⟨v, hq, hv, hs⟩
  · rintro (h | ⟨v, h, hv, hs⟩)
    · exact ⟨_, h, .inl rfl⟩
    · exact ⟨_, h, .inr ⟨v, rfl, hv, hs⟩⟩

private theorem evaluatesLoop_of_run {i j : ExprId} {n m rounds : Nat} {last : Value}
    (hr : Finished r) (h : evalLoop (eval n) it e i j m last rounds st = r) :
    ∃ k q, it.EvaluatesLoop e i j last st k q ∧ r = finishLoop (rounds + k) q := by
  induction m generalizing last rounds st with
  | zero =>
    subst h
    exact hr.elim
  | succ m ih =>
    rw [evalLoop] at h
    cases hc : evalCondition (eval n) it e i "while" st with
    | error s st' =>
      obtain rfl := (bind_of_error hc _).symm.trans h
      have hend : Ends (fun n => evalCondition (eval n) it e i "while") st (.error s st') :=
        ⟨finished_error_iff.mpr (finished_error_iff.mp hr), n, hc⟩
      rcases (ends_condition_error_iff "while").mp hend with hstop | ⟨v, hv, hnot, rfl⟩
      · exact ⟨0, _, .stopped hstop, rfl⟩
      · exact ⟨0, _, .refused hv hnot, rfl⟩
    | ok b st₁ =>
      rw [bind_of_ok hc] at h
      have hcond := (ends_condition_ok_iff "while").mp ⟨finished_ok b st₁, n, hc⟩
      cases b with
      | false => exact ⟨0, _, .done hcond, h.symm⟩
      | true =>
        rw [if_pos rfl] at h
        cases hb : it.eval n e j st₁ with
        | error s st' =>
          obtain rfl := (bind_of_error hb _).symm.trans h
          exact ⟨0, _, .inside hcond ⟨hr, n, hb⟩, rfl⟩
        | ok v st₂ =>
          rw [bind_of_ok hb] at h
          obtain ⟨k, q, hloop, rfl⟩ := ih h
          refine ⟨k + 1, q, .round hcond ⟨trivial, n, hb⟩ hloop, ?_⟩
          rw [Nat.add_assoc, Nat.add_comm 1 k]

private theorem EvaluatesLoop.ends {i j : ExprId} {last : Value} {k : Nat}
    (h : it.EvaluatesLoop e i j last st k r) (rounds : Nat) :
    Ends (fun n => evalLoop (eval n) it e i j n last rounds) st (finishLoop (rounds + k) r) := by
  have hbody (rounds : Nat) : Steady fun n => it.eval n e j >>= fun v =>
      evalLoop (eval n) it e i j n v (rounds + 1) :=
    (it.steady_eval e j).bind fun v => it.steady_loop e i j v (rounds + 1)
  induction h generalizing rounds with
  | done hc =>
    have hcond := (ends_condition_ok_iff "while").mpr hc
    refine ends_loop_iff.mpr (hcond.bind_ok (it.steady_condition e i "while") (steady_const _) ?_)
    exact ends_const.mpr ⟨trivial, rfl⟩
  | refused hc hv =>
    exact ends_loop_iff.mpr ((ends_condition_error_iff "while").mpr (.inr ⟨_, hc, hv, rfl⟩)).bind_error
  | stopped hc => exact ends_loop_iff.mpr ((ends_condition_error_iff "while").mpr (.inl hc)).bind_error
  | inside hc hb =>
    have hcond := (ends_condition_ok_iff "while").mpr hc
    refine ends_loop_iff.mpr (hcond.bind_ok (it.steady_condition e i "while") (hbody rounds) ?_)
    exact hb.bind_error
  | @round _ v _ _ _ k _ hc hb _ ih =>
    have hcond := (ends_condition_ok_iff "while").mpr hc
    refine ends_loop_iff.mpr (hcond.bind_ok (it.steady_condition e i "while") (hbody rounds) ?_)
    refine hb.bind_ok (it.steady_eval e j) (it.steady_loop e i j v (rounds + 1)) ?_
    have hrest := ih (rounds + 1)
    rwa [Nat.add_assoc, Nat.add_comm 1 k] at hrest

/-- A loop node ends as its rounds do. -/
theorem evaluates_loop_iff {w i j : ExprId} (hw : it.arena.arena.node? w = some (.loop i j)) :
    it.Evaluates e w st r ↔ ∃ k q, it.EvaluatesLoop e i j .null st k q ∧ r = finishLoop k q := by
  rw [evaluates_iff_of_rule fun n => evalNode_loop n (eval n) e hw]
  constructor
  · rintro ⟨hr, n, hn⟩
    simpa using evaluatesLoop_of_run hr hn
  · rintro ⟨k, q, h, rfl⟩
    simpa using h.ends 0

/-- A condition without an alternative ends with the condition, if that fails or is no bool, and
otherwise with what it guards or with null. -/
theorem evaluates_ifThen_iff {u i j : ExprId}
    (hu : it.arena.arena.node? u = some (.ifElse i j none)) :
    it.Evaluates e u st r ↔
      (∃ s st', r = .error s st' ∧
        Ends (fun n => evalCondition (eval n) it e i "if") st (.error s st')) ∨
      (∃ st', it.Evaluates e i st (.ok (.bool true) st') ∧ it.Evaluates e j st' r) ∨
      ∃ st', it.Evaluates e i st (.ok (.bool false) st') ∧ r = .ok .null st' := by
  have hbranch (b : Bool) : Steady fun n => if b then it.eval n e j else pure .null := by
    cases b with
    | true => exact it.steady_eval e j
    | false => exact steady_const _
  rw [evaluates_iff_of_rule fun n => evalNode_ifElse n (eval n) e hu]
  refine (ends_bind (it.steady_condition e i "if") hbranch).trans (or_congr_right ?_)
  constructor
  · rintro ⟨b, st', hb, h⟩
    rw [ends_condition_ok_iff] at hb
    cases b with
    | true => exact .inl ⟨st', hb, h⟩
    | false => exact .inr ⟨st', hb, (ends_const.mp h).2.symm⟩
  · rintro (⟨st', hb, h⟩ | ⟨st', hb, rfl⟩)
    · exact ⟨true, st', (ends_condition_ok_iff "if").mpr hb, h⟩
    · exact ⟨false, st', (ends_condition_ok_iff "if").mpr hb, ends_const.mpr ⟨trivial, rfl⟩⟩

/-- The end of a loop that had another value at its start. Only a loop without rounds shows it. -/
def startingWith (last : Value) : Nat → EStateM.Result Stop State Value → EStateM.Result Stop State Value
  | 0, .ok _ st => .ok last st
  | _, r => r

private theorem EvaluatesLoop.startingWith {i j : ExprId} {v : Value} {k : Nat}
    (h : it.EvaluatesLoop e i j v st k r) (last : Value) :
    it.EvaluatesLoop e i j last st k (startingWith last k r) := by
  cases h with
  | done hc => exact .done hc
  | refused hc hv => exact .refused hc hv
  | stopped hc => exact .stopped hc
  | inside hc hb => exact .inside hc hb
  | round hc hb h => exact .round hc hb h

/-- The end of a loop, and that of its unrolled form. They differ in what the construct is called whose
first condition is no bool, in the number of rounds that is traced at the very end, and in the value if
there is one round only. -/
inductive Unrolled (it : Interpreter) (e : FrameId) (cond body : ExprId) (st : State) :
    EStateM.Result Stop State Value → EStateM.Result Stop State Value → Prop where
  | refused {v : Value} {st' : State} (hc : it.Evaluates e cond st (.ok v st'))
      (hv : v.asBool? = none) : Unrolled it e cond body st
        (.error (.raised { kind := .nonBoolCondition "while" v.typeName }) st')
        (.error (.raised { kind := .nonBoolCondition "if" v.typeName }) st')
  | failed (s : Stop) (st' : State) : Unrolled it e cond body st (.error s st') (.error s st')
  | never {st' : State} (hc : it.Evaluates e cond st (.ok (.bool false) st')) :
      Unrolled it e cond body st (.ok .null (st'.log (.loopFinished 0))) (.ok .null st')
  | once {v : Value} {st₁ st₂ st' : State} (hc : it.Evaluates e cond st (.ok (.bool true) st₁))
      (hb : it.Evaluates e body st₁ (.ok v st₂))
      (hd : it.Evaluates e cond st₂ (.ok (.bool false) st')) : Unrolled it e cond body st
        (.ok v (st'.log (.loopFinished 1))) (.ok .null (st'.log (.loopFinished 0)))
  | again {k : Nat} {v : Value} {st' : State}
      (h : it.EvaluatesLoop e cond body .null st (k + 2) (.ok v st')) : Unrolled it e cond body st
        (.ok v (st'.log (.loopFinished (k + 2)))) (.ok v (st'.log (.loopFinished (k + 1))))

private theorem Unrolled.same_store {i j : ExprId} {r' : EStateM.Result Stop State Value}
    (h : it.Unrolled e i j st r r') : (Run.split r).2.store = (Run.split r').2.store ∧
      (Run.split r).2.channel = (Run.split r').2.channel := by
  cases h <;> exact ⟨rfl, rfl⟩

section Unroll
variable {w s u i j : ExprId} (hw : it.arena.arena.node? w = some (.loop i j))
  (hs : it.arena.arena.node? s = some (.seq j w))
  (hu : it.arena.arena.node? u = some (.ifElse i s none))
include hw hs hu

private theorem unrolled_of_loop {k : Nat} (h : it.EvaluatesLoop e i j .null st k r) :
    ∃ r', it.Evaluates e u st r' ∧ it.Unrolled e i j st (finishLoop k r) r' := by
  cases h with
  | done hc => exact ⟨_, (evaluates_ifThen_iff hu).mpr (.inr (.inr ⟨_, hc, rfl⟩)), .never hc⟩
  | refused hc hv =>
    have hend := (ends_condition_error_iff "if").mpr (.inr ⟨_, hc, hv, rfl⟩)
    exact ⟨_, (evaluates_ifThen_iff hu).mpr (.inl ⟨_, _, rfl, hend⟩), .refused hc hv⟩
  | stopped hc =>
    have hend := (ends_condition_error_iff "if").mpr (.inl hc)
    exact ⟨_, (evaluates_ifThen_iff hu).mpr (.inl ⟨_, _, rfl, hend⟩), .failed _ _⟩
  | inside hc hb =>
    have hseq := (evaluates_seq_iff hs).mpr (.inl ⟨_, _, rfl, hb⟩)
    exact ⟨_, (evaluates_ifThen_iff hu).mpr (.inr (.inl ⟨_, hc, hseq⟩)), .failed _ _⟩
  | @round _ v _ st₁ st₂ k _ hc hb h =>
    have hrest := (evaluates_loop_iff hw).mpr ⟨k, _, h.startingWith .null, rfl⟩
    have hseq := (evaluates_seq_iff hs).mpr (.inr ⟨v, st₂, hb, hrest⟩)
    refine ⟨_, (evaluates_ifThen_iff hu).mpr (.inr (.inl ⟨st₁, hc, hseq⟩)), ?_⟩
    cases r with
    | error x st' =>
      cases k with
      | zero => exact .failed x st'
      | succ k => exact .failed x st'
    | ok v' st' =>
      cases k with
      | zero =>
        cases h with
        | done hd => exact .once hc hb hd
      | succ k => exact .again (.round hc hb h)

private theorem loop_of_unrolled (h : it.Evaluates e u st r) : ∃ r', it.Evaluates e w st r' := by
  rcases (evaluates_ifThen_iff hu).mp h with ⟨x, st', rfl, hc⟩ | ⟨st₁, hc, h⟩ | ⟨st', hc, rfl⟩
  · rcases (ends_condition_error_iff "if").mp hc with hstop | ⟨v, hvalue, hv, rfl⟩
    · exact ⟨_, (evaluates_loop_iff hw).mpr ⟨0, _, .stopped hstop, rfl⟩⟩
    · exact ⟨_, (evaluates_loop_iff hw).mpr ⟨0, _, .refused hvalue hv, rfl⟩⟩
  · rcases (evaluates_seq_iff hs).mp h with ⟨x, st', rfl, hb⟩ | ⟨v, st₂, hb, h⟩
    · exact ⟨_, (evaluates_loop_iff hw).mpr ⟨0, _, .inside hc hb, rfl⟩⟩
    · obtain ⟨k, q, hloop, -⟩ := (evaluates_loop_iff hw).mp h
      exact ⟨_, (evaluates_loop_iff hw).mpr ⟨k + 1, _, .round hc hb (hloop.startingWith v), rfl⟩⟩
  · exact ⟨_, (evaluates_loop_iff hw).mpr ⟨0, _, .done hc, rfl⟩⟩

end Unroll
end Interpreter

/-- A loop and its unrolled form, which is the condition that guards the body and then the loop. Both run
forever; or both come to an end, with the same store and output, and with the same error or the same value
but for two cases. A first condition that is no bool is reported for the construct at hand. And when there
is exactly one round, the loop comes to the value of its body and the unrolled form to null. -/
theorem loop_agrees_with_unrolled (it : Interpreter) (e : FrameId) (w s u cond body : ExprId) (st : State)
    (hw : it.arena.arena.node? w = some (.loop cond body))
    (hs : it.arena.arena.node? s = some (.seq body w))
    (hu : it.arena.arena.node? u = some (.ifElse cond s none)) :
    (∀ fuel, (∃ st', it.eval fuel e w st = .error .outOfFuel st') ∧
      ∃ st', it.eval fuel e u st = .error .outOfFuel st') ∨
    ∃ r r', it.Evaluates e w st r ∧ it.Evaluates e u st r' ∧ it.Unrolled e cond body st r r' ∧
      (Run.split r).2.store = (Run.split r').2.store ∧
      (Run.split r).2.channel = (Run.split r').2.channel := by
  by_cases hend : ∃ r, it.Evaluates e w st r
  · obtain ⟨r, hr⟩ := hend
    obtain ⟨k, q, hloop, rfl⟩ := (Interpreter.evaluates_loop_iff hw).mp hr
    obtain ⟨r', hr', hun⟩ := Interpreter.unrolled_of_loop hw hs hu hloop
    exact .inr ⟨_, r', hr, hr', hun, hun.same_store⟩
  · have hend' : ¬ ∃ r, it.Evaluates e u st r := fun ⟨_, h⟩ =>
      hend (Interpreter.loop_of_unrolled hw hs hu h)
    exact .inl fun fuel =>
      ⟨EvalM.outOfFuel_of_not_ends hend fuel, EvalM.outOfFuel_of_not_ends hend' fuel⟩

/-- The calls that build `while (x) { x = false }` and its unrolled form. -/
def singleRoundCalls : List BuildCall :=
  [.ident "x", .literal (.bool false), .assign "x" 1, .loop 0 2, .seq 2 3, .ifElse 0 4 none]

/-- The loop above makes one round if `x` is true. It comes to the value of the assignment, and its
unrolled form to null. -/
theorem single_round_is_forgotten :
    let b := (Builder.replay singleRoundCalls { names := .empty } []).1
    let it : Interpreter := { names := b.names, arena := { id := 0, arena := b.arena } }
    let st := (State.fresh .buffer).bind 0 ⟨1⟩ (.bool true)
    ∃ r r', it.Evaluates 0 3 st r ∧ it.Evaluates 0 5 st r' ∧ it.Unrolled 0 0 2 st r r' ∧
      (Run.split r).1 = .ok (.bool false) ∧ (Run.split r').1 = .ok .null ∧
      (Run.split r).2.store.toList 0 = [(⟨1⟩, .bool false)] ∧
      (Run.split r').2.store.toList 0 = [(⟨1⟩, .bool false)] := by
  intro b it st
  have hloop : (Run.split (it.eval 6 0 3 st)).1 = .ok (.bool false) := by decide +kernel
  have hunrolled : (Run.split (it.eval 6 0 5 st)).1 = .ok .null := by decide +kernel
  have hstore : (Run.split (it.eval 6 0 3 st)).2.store.toList 0 = [(⟨1⟩, .bool false)] := by
    decide +kernel
  rcases loop_agrees_with_unrolled it 0 3 4 5 0 2 st (by decide +kernel) (by decide +kernel)
    (by decide +kernel) with hforever | ⟨r, r', hr, hr', hun, hsame, -⟩
  · obtain ⟨⟨st', hout⟩, -⟩ := hforever 6
    rw [hout] at hloop
    cases hloop
  · obtain rfl := hr.unique (it.steady_eval 0 3) (Interpreter.evaluates_of_outcome hloop (by simp))
    obtain rfl := hr'.unique (it.steady_eval 0 5) (Interpreter.evaluates_of_outcome hunrolled (by simp))
    exact ⟨_, _, hr, hr', hun, hloop, hunrolled, hstore, hsame ▸ hstore⟩

end Treewalk
