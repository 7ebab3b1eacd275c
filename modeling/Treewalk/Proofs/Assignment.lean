import Treewalk.Proofs.Discipline
import Treewalk.Proofs.Parts
import Treewalk.Proofs.Visibility

/-! Assignments and updates agree.
An assignment looks for the name first, and then updates it or declares it in the global frame. An update
walks outward once. Both write the same frame. And because an assignment looks first, no evaluation comes
to an update that has to make a global binding. -/
namespace Treewalk

namespace Store

/-- A name that cannot be found is free in the global frame, and that is where an update binds it. -/
theorem declare_global {s : Store} {e : FrameId} {n : Name} (h : s.resolve? e n = none) (v : Value) :
    s.declare (s.global e) n v = .ok () (s.update e n v) := by
  have ho : s.owner? e n = none := by
    rw [← Option.isNone_iff_eq_none, ← Option.not_isSome, ← isSome_resolve?, h]
    rfl
  rw [declare, if_neg (by simp [binds_global_of_owner?_eq_none ho]), update, ho, Option.getD_none]

end Store

/-- An update announces the global binding that it makes, and nothing else. -/
theorem State.trace_update (st : State) (e : FrameId) (n : Name) (v : Value) :
    (st.update e n v).trace =
      if (st.store.resolve? e n).isSome then st.trace else st.trace.push (.globalCreated n) := by
  rw [Store.isSome_resolve?, update]
  split <;> rfl

private theorem Interpreter.assign_store (it : Interpreter) (e : FrameId) (n : Name) (v : Value) (st : State) :
    ∃ st', it.assign e n v st = .ok () st' ∧ st'.store = st.store.update e n v := by
  refine ⟨_, it.assign_run e n v st, ?_⟩
  cases ho : st.store.owner? e n with
  | some o => simp [Store.update, ho]
  | none => simp [Store.update, ho]

/-- The trace has gone on, and not by an update that made a global binding. -/
def State.NoGlobalCreated (st st' : State) : Prop :=
  ∃ entries : Array TraceEntry, st'.trace = st.trace ++ entries ∧ ∀ n, .globalCreated n ∉ entries

namespace State.NoGlobalCreated
variable {st st₁ st₂ : State}

private theorem of_trace_eq (h : st₁.trace = st.trace) : NoGlobalCreated st st₁ := ⟨#[], by simp [h], by simp⟩

theorem trans (h : NoGlobalCreated st st₁) (h' : NoGlobalCreated st₁ st₂) : NoGlobalCreated st st₂ := by
  obtain ⟨entries, htrace, hnone⟩ := h
  obtain ⟨entries', htrace', hnone'⟩ := h'
  refine ⟨entries ++ entries', by rw [htrace', htrace, Array.append_assoc], fun n hn => ?_⟩
  exact (Array.mem_append.mp hn).elim (hnone n) (hnone' n)

theorem log {t : TraceEntry} (h : ∀ n, t ≠ .globalCreated n) : NoGlobalCreated st (st.log t) :=
  ⟨#[t], by simp [State.log], fun n hn => h n (Array.mem_singleton.mp hn).symm⟩

end State.NoGlobalCreated

/-- The trace as a discipline: no rule writes through an update that finds no binding. -/
def Discipline.lookingFirst : Discipline where
  Inv _ := True
  At _ _ _ _ := True
  Val _ _ := True
  Step _ st st' := st.NoGlobalCreated st'
  refl _ _ := .of_trace_eq rfl
  trans h k := h.trans k
  at_step _ _ _ := trivial
  val_step _ _ _ := trivial
  operand _ _ _ _ := trivial
  scalar _ := trivial
  lookup _ _ _ := trivial
  log ht _ := ⟨trivial, .log ht⟩
  println _ _ _ := ⟨trivial, .of_trace_eq rfl⟩
  declare _ _ _ _ := ⟨trivial, .of_trace_eq rfl⟩
  overwrite _ _ _ _ := ⟨trivial, .of_trace_eq rfl⟩
  introduce _ _ _ _ _ := ⟨trivial, .of_trace_eq rfl⟩
  closure _ _ _ _ := ⟨trivial, .of_trace_eq rfl, trivial⟩
  enter _ _ _ _ _ _ := ⟨trivial, .of_trace_eq rfl⟩
  body _ _ _ _ _ := trivial
  leave _ h k := h.trans k

/-- Whatever it is busy with and however long it goes on, the evaluator makes no global binding by an
update. -/
theorem Activity.noGlobalCreated (A : Activity) (fuel : Nat) {st : State} (hs : st.store.WellFormed)
    (hA : A.WellFormed st) : st.NoGlobalCreated (Run.split (A.run fuel st)).2 := by
  cases A with
  | eval it e i =>
    obtain ⟨ha, hi, he⟩ := hA
    have hkeeps := Discipline.lookingFirst.keptBy_eval fuel it e i st ⟨ha, hi, he, hs, trivial, trivial⟩
    exact hkeeps.split.1.step
  | call it callee args =>
    obtain ⟨hc, hargs⟩ := hA
    have hkeeps := Discipline.lookingFirst.keeps_call fuel it 0 hs trivial ⟨hc, trivial⟩
      fun v hv => ⟨hargs v hv, trivial⟩
    exact hkeeps.split.1.step

/-- An update walks outward by itself: it overwrites the name in the first frame that binds it, and binds
it in the frame where the links end. An assignment, which looks for the name and then updates it or
declares it in the global frame, succeeds and leaves the same store; where the name is not found, declaring
it cannot fail. An update announces it when it makes a global binding, and no evaluation or call traces
such an announcement. -/
theorem assignment_agrees_with_update :
    (∀ (s : Store) (e : FrameId) (n : Name) (v : Value), s.update e n v =
      if s.binds e n then s.bind e n v else
        match s.outer? e with
        | some o => s.update o n v
        | none => s.bind e n v) ∧
    (∀ (it : Interpreter) (e : FrameId) (n : Name) (v : Value) (st : State),
      ∃ st', it.assign e n v st = .ok () st' ∧ st'.store = st.store.update e n v) ∧
    (∀ (s : Store) (e : FrameId) (n : Name) (v : Value), s.resolve? e n = none →
      s.declare (s.global e) n v = .ok () (s.update e n v)) ∧
    (∀ (st : State) (e : FrameId) (n : Name) (v : Value), (st.update e n v).trace =
      if (st.store.resolve? e n).isSome then st.trace else st.trace.push (.globalCreated n)) ∧
    (∀ (A : Activity) (fuel : Nat) (st : State), st.store.WellFormed → A.WellFormed st →
      st.NoGlobalCreated (Run.split (A.run fuel st)).2) :=
  ⟨Store.update_eq, Interpreter.assign_store, fun _ _ _ v h => Store.declare_global h v,
    State.trace_update, fun A fuel _ hs hA => A.noGlobalCreated fuel hs hA⟩

/-- The calls that build `{ x = null; x = true }`. -/
def assignedTwiceCalls : List BuildCall :=
  [.literal .null, .assign "x" 0, .literal (.bool true), .assign "x" 2, .seq 1 3]

/-- In an inner frame, the first of two assignments makes a global binding and the second overwrites it.
Neither is announced as an update that made one. -/
theorem second_assignment_finds_the_first :
    let b := (Builder.replay assignedTwiceCalls { names := .empty } []).1
    let it : Interpreter := { names := b.names, arena := { id := 0, arena := b.arena } }
    let st := (State.fresh .buffer).child 0
    let st' := (Run.split (it.eval 4 1 4 st)).2
    st.store.declare (st.store.global 1) ⟨1⟩ .null = .ok () (st.store.update 1 ⟨1⟩ .null) ∧
      st.NoGlobalCreated st' ∧ st'.trace.toList = [.undeclaredAssigned "x"] ∧
      st'.store.toList 0 = [(⟨1⟩, .bool true)] := by
  intro b it st st'
  obtain ⟨ha, hids⟩ := ((Built.new .empty).replay assignedTwiceCalls).wellFormed
  have hs : st.store.WellFormed := (State.wellFormed_fresh .buffer).push (by rintro _ ⟨⟩; decide)
  obtain ⟨-, -, hdeclare, -, hrun⟩ := assignment_agrees_with_update
  refine ⟨hdeclare st.store 1 ⟨1⟩ .null (by decide), ?_, ?_, ?_⟩
  · exact hrun (.eval it 1 4) 4 st hs ⟨ha, hids 4 (by decide +kernel), by decide⟩
  · decide +kernel
  · decide +kernel

end Treewalk
