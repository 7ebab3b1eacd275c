import Treewalk.Proofs.Discipline

/-! No program makes the evaluator reach outside an arena.
Builders make well-formed arenas only, and evaluation over well-formed arenas and stores finds every
node and every list it asks for, and leaves a well-formed store behind. -/
namespace Treewalk

/-- The discipline that asks for nothing beyond well-formed stores, arenas and values. -/
def Discipline.unrestricted : Discipline where
  Inv _ := True
  At _ _ _ _ := True
  Val _ _ := True
  Step _ _ _ := True
  refl _ _ := trivial
  trans _ _ := trivial
  at_step _ _ _ := trivial
  val_step _ _ _ := trivial
  operand _ _ _ _ := trivial
  scalar _ := trivial
  lookup _ _ _ := trivial
  log _ _ := ⟨trivial, trivial⟩
  println _ _ _ := ⟨trivial, trivial⟩
  declare _ _ _ _ := ⟨trivial, trivial⟩
  overwrite _ _ _ _ := ⟨trivial, trivial⟩
  introduce _ _ _ _ _ := ⟨trivial, trivial⟩
  closure _ _ _ _ := ⟨trivial, trivial, trivial⟩
  enter _ _ _ _ _ _ := ⟨trivial, trivial⟩
  body _ _ _ _ _ := trivial
  leave _ _ _ := trivial

/-- The end of a run that stayed inside its arenas. The store is well formed and has lost no frame,
and the closure it may have returned can be run. -/
def SafeEnd (st : State) : EStateM.Result Stop State Value → Prop
  | .ok v st' => st'.store.WellFormed ∧ st.store.size ≤ st'.store.size ∧ v.WellFormed st'.store
  | .error s st' => st'.store.WellFormed ∧ st.store.size ≤ st'.store.size ∧ s ≠ .fault

private theorem safeEnd_of_keeps {D : Discipline} {e : FrameId} {st : State} {m : EvalM Value}
    (h : D.Keeps e st m D.Good) : SafeEnd st (m st) := by
  cases hr : m st with
  | ok v st' =>
    obtain ⟨hk, hv⟩ := h.ok hr
    exact ⟨hk.store, hk.size, hv.wf⟩
  | error s st' =>
    obtain ⟨hk, hs⟩ := h.error hr
    exact ⟨hk.store, hk.size, hs⟩

theorem safeEnd_eval {it : Interpreter} {e : FrameId} {i : ExprId} {st : State} (fuel : Nat)
    (hs : st.store.WellFormed) (ha : it.arena.arena.WellFormed) (hi : i < it.arena.arena.size)
    (he : e < st.store.size) : SafeEnd st (it.eval fuel e i st) :=
  safeEnd_of_keeps (Discipline.unrestricted.keptBy_eval fuel it e i st
    ⟨ha, hi, he, hs, trivial, trivial⟩)

theorem safeEnd_call {it : Interpreter} {callee : Value} {args : List Value} {st : State} (fuel : Nat)
    (hs : st.store.WellFormed) (hc : callee.WellFormed st.store)
    (ha : ∀ v ∈ args, v.WellFormed st.store) : SafeEnd st (it.call fuel callee args st) :=
  safeEnd_of_keeps (Discipline.unrestricted.keeps_call fuel it 0 hs trivial
    ⟨hc, trivial⟩ fun v hv => ⟨ha v hv, trivial⟩)

/-- Whatever is built is well formed, and no evaluation or call that starts from a well-formed
store, with any fuel, ever asks an arena for a node or a list that is not there. -/
theorem built_code_never_faults :
    (∀ b ids, Built b ids → b.arena.WellFormed ∧ ∀ i ∈ ids, i < b.arena.size) ∧
    (∀ (fuel : Nat) (it : Interpreter) (e : FrameId) (i : ExprId) (st : State),
      st.store.WellFormed → it.arena.arena.WellFormed → i < it.arena.arena.size →
      e < st.store.size → SafeEnd st (it.eval fuel e i st)) ∧
    (∀ (fuel : Nat) (it : Interpreter) (callee : Value) (args : List Value) (st : State),
      st.store.WellFormed → callee.WellFormed st.store → (∀ v ∈ args, v.WellFormed st.store) →
      SafeEnd st (it.call fuel callee args st)) := by
  refine ⟨fun b ids h => h.wellFormed, ?_, ?_⟩
  · intro fuel it e i st hs ha hi he
    exact safeEnd_eval fuel hs ha hi he
  · intro fuel it callee args st hs hc ha
    exact safeEnd_call fuel hs hc ha

/-- The calls that build `(function(x) { x })(true)`. -/
def identityCalls : List BuildCall :=
  [.ident "x", .function ["x"] 0, .literal (.bool true), .call 1 [2]]

theorem identity_call_never_faults :
    let b := (Builder.replay identityCalls { names := .empty } []).1
    let it : Interpreter := { names := b.names, arena := { id := 0, arena := b.arena } }
    let st : State := { store := (Store.newGlobal .empty).2, channel := { sink := .buffer } }
    let f : Closure := { id := 0, params := [⟨1⟩], body := 0, arena := it.arena, env := 0 }
    SafeEnd st (it.eval 3 0 3 st) ∧ SafeEnd st (it.call 3 (.closure f) [.closure f] st) := by
  intro b it st f
  have hb := built_code_never_faults.1 _ _ ((Built.new .empty).replay identityCalls)
  have hs : st.store.WellFormed := Store.WellFormed.empty.push (by simp)
  have hf : (Value.closure f).WellFormed st.store := by
    rintro c ⟨⟩
    exact ⟨hb.1, hb.2 0 (by decide +kernel), by decide⟩
  constructor
  · exact built_code_never_faults.2.1 3 it 0 3 st hs hb.1 (hb.2 3 (by decide +kernel)) (by decide)
  · exact built_code_never_faults.2.2 3 it (.closure f) [.closure f] st hs hf (by simpa using hf)

end Treewalk
