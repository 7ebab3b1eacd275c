import Treewalk.Proofs.Ends
import Treewalk.Proofs.Twins

/-! Call nodes and calls from outside obey the same rules.
A call node evaluates its callee and its arguments and then calls; and what a call does depends neither
on the arena of the caller nor on how deep the caller is nested. -/
namespace Treewalk
namespace Interpreter
open EvalM

variable {it : Interpreter} {e : FrameId} {st : State}

/-- How a call node may end: its callee stops, is no function, or is one; then an argument stops, or
they all have values, with which the function is called from the state so reached. -/
inductive EvaluatesCall (it : Interpreter) (e : FrameId) (callee : ExprId) (args : List ExprId)
    (st : State) : EStateM.Result Stop State Value → Prop where
  | callee {s : Stop} {st' : State} (h : it.Evaluates e callee st (.error s st')) :
      EvaluatesCall it e callee args st (.error s st')
  | notCallable {v : Value} {st₁ : State} (h : it.Evaluates e callee st (.ok v st₁))
      (hv : v.asClosure? = none) :
      EvaluatesCall it e callee args st (.error (.raised { kind := .notCallable v.typeName }) st₁)
  | args {c : Closure} {st₁ st₂ : State} {s : Stop}
      (h : it.Evaluates e callee st (.ok (.closure c) st₁))
      (ha : it.EvaluatesAll e args st₁ (.error s st₂)) :
      EvaluatesCall it e callee args st (.error s st₂)
  | call {c : Closure} {st₁ st₂ : State} {vs : List Value} {r : EStateM.Result Stop State Value}
      (h : it.Evaluates e callee st (.ok (.closure c) st₁))
      (ha : it.EvaluatesAll e args st₁ (.ok vs st₂)) (hc : it.Calls (.closure c) vs st₂ r) :
      EvaluatesCall it e callee args st r

/-- What a call node does with the value of its callee. -/
def applyCallee (it : Interpreter) (e : FrameId) (args : List ExprId) (n : Nat) :
    Value → EvalM Value
  | .closure c => args.mapM (it.eval n e) >>= fun vs => it.call n (.closure c) vs
  | v => EvalM.raise (.notCallable v.typeName)

private theorem applyCallee_scalar {v : Value} (hv : v.asClosure? = none) (args : List ExprId) :
    (it.applyCallee e args · v) = fun _ => EvalM.raise (.notCallable v.typeName) := by
  cases v with
  | closure c => cases hv
  | _ => rfl

private theorem steady_applyCallee (it : Interpreter) (e : FrameId) (args : List ExprId) (v : Value) :
    Steady (it.applyCallee e args · v) := by
  cases v with
  | closure c => exact (it.steady_args e args).bind fun vs => it.steady_call (.closure c) vs
  | _ => exact steady_const _

theorem evaluates_call_iff {i callee : ExprId} {span : Span} {args : List ExprId}
    (hn : it.arena.arena.node? i = some (.call callee span))
    (ha : it.arena.arena.args? span = some args) {r : EStateM.Result Stop State Value} :
    it.Evaluates e i st r ↔ it.EvaluatesCall e callee args st r := by
  rw [evaluates_iff_of_rule fun n => evalNode_call n (eval n) e hn ha]
  refine (ends_bind (f := it.applyCallee e args) (it.steady_eval e callee)
    (it.steady_applyCallee e args)).trans ?_
  constructor
  · rintro (⟨s, st', rfl, h⟩ | ⟨v, st₁, h, k⟩)
    · exact .callee h
    · cases hv : v.asClosure? with
      | none =>
        rw [applyCallee_scalar hv] at k
        obtain ⟨_, rfl⟩ := ends_const.mp k
        exact .notCallable h hv
      | some c =>
        obtain rfl : v = .closure c := by
          cases v <;> cases hv
          rfl
        rcases (ends_bind (it.steady_args e args) fun vs => it.steady_call (.closure c) vs).mp k with
          ⟨s, st₂, rfl, hargs⟩ | ⟨vs, st₂, hargs, hcall⟩
        · exact .args h (ends_args_iff.mp hargs)
        · exact .call h (ends_args_iff.mp hargs) hcall
  · rintro (h | ⟨h, hv⟩ | ⟨h, hargs⟩ | ⟨h, hargs, hcall⟩)
    · exact .inl ⟨_, _, rfl, h⟩
    · refine .inr ⟨_, _, h, ?_⟩
      rw [applyCallee_scalar hv]
      exact ends_const.mpr ⟨trivial, rfl⟩
    · exact .inr ⟨_, _, h, (ends_args_iff.mpr hargs).bind_error⟩
    · exact .inr ⟨_, _, h, (ends_args_iff.mpr hargs).bind_ok (it.steady_args e args)
        (it.steady_call (.closure _) _) hcall⟩

end Interpreter

def Surroundings.channelOnly : Surroundings where
  Depth _ _ := True
  Channels := Eq
  Traces _ _ := True
  deeper _ := trivial
  println line h := congrArg (·.println line) h
  log _ _ := trivial
  logApply _ _ _ := trivial

theorem Store.eq_of_frame?_eq {s s' : Store} (h : ∀ f, s.frame? f = s'.frame? f) : s = s' := by
  cases s with
  | mk frames =>
    cases s' with
    | mk frames' => exact congrArg Store.mk (Array.ext_getElem? h)

theorem Store.WellFormed.twins_self {st : State} (hs : st.store.WellFormed) :
    Twins .channelOnly (fun _ => True) st st where
  size := rfl
  new _ _ := trivial
  frame _ := rfl
  closed := ⟨fun _ _ => trivial, fun _ hg => (hs.value hg).runnable fun _ _ => trivial⟩
  next := rfl
  channel := rfl
  trace := trivial

/-- A call node evaluates the callee, refuses it if it is no function, evaluates the arguments from
left to right in the frame of the node, and then does what a call from outside does. And such a call
gives the same value or error, store and output to every caller with the same names, whatever its
arena and its depth. -/
theorem call_node_and_call_agree :
    (∀ (it : Interpreter) (e : FrameId) (i callee : ExprId) (span : Span) (st : State),
      it.arena.arena.WellFormed → it.arena.arena.node? i = some (.call callee span) →
      ∃ args, it.arena.arena.args? span = some args ∧
        ∀ r, it.Evaluates e i st r ↔ it.EvaluatesCall e callee args st r) ∧
    (∀ (it it' : Interpreter) (callee : Value) (args : List Value) (st : State) (fuel : Nat),
      it.names = it'.names → st.store.WellFormed → callee.WellFormed st.store →
      (∀ v ∈ args, v.WellFormed st.store) →
      let r := Run.split (it.call fuel callee args st)
      let r' := Run.split (it'.call fuel callee args st)
      r.1 = r'.1 ∧ r.2.store = r'.2.store ∧ r.2.nextClosure = r'.2.nextClosure ∧
        r.2.channel = r'.2.channel) := by
  constructor
  · intro it e i callee span st ha hn
    obtain ⟨args, hargs⟩ := ha.args? hn
    exact ⟨args, hargs, fun r => Interpreter.evaluates_call_iff hn hargs⟩
  · intro it it' callee args st fuel hnames hs hc ha r r'
    obtain ⟨hout, htwins⟩ := Surroundings.sameEnd_call fuel hnames trivial
      (hc.runnable fun _ _ => trivial) (fun v hv => (ha v hv).runnable fun _ _ => trivial)
      hs.twins_self
    exact ⟨hout, Store.eq_of_frame?_eq fun f => htwins.frame trivial, htwins.next, htwins.channel⟩

/-- The calls that build `(function(x) { x })(print(true))`. -/
def printedArgumentCalls : List BuildCall :=
  [.ident "x", .function ["x"] 0, .literal (.bool true), .print 2, .call 1 [3]]

/-- The call node above, and its function called by an interpreter without any code. -/
theorem printed_argument_call_agrees :
    let b := (Builder.replay printedArgumentCalls { names := .empty } []).1
    let it : Interpreter := { names := b.names, arena := { id := 0, arena := b.arena } }
    let bare : Interpreter := { names := b.names, arena := { id := 1, arena := .empty }, depth := 7 }
    let st := State.fresh .buffer
    let f : Closure := { id := 0, params := [⟨1⟩], body := 0, arena := it.arena, env := 0 }
    it.EvaluatesCall 0 1 [3] st (it.eval 3 0 4 st) ∧
      (Run.split (it.eval 3 0 4 st)).1 = .ok (.bool true) ∧
      (Run.split (bare.call 3 (.closure f) [.bool true] st)).1 =
        (Run.split (it.call 3 (.closure f) [.bool true] st)).1 := by
  intro b it bare st f
  obtain ⟨ha, hids⟩ := ((Built.new .empty).replay printedArgumentCalls).wellFormed
  have hend : (Run.split (it.eval 3 0 4 st)).1 = .ok (.bool true) := by decide +kernel
  have hfinished : it.Evaluates 0 4 st (it.eval 3 0 4 st) := by
    refine ⟨?_, 3, rfl⟩
    cases hr : it.eval 3 0 4 st with
    | ok v st' => trivial
    | error s st' =>
      rw [hr] at hend
      cases hend
  obtain ⟨args, hargs, hrule⟩ := call_node_and_call_agree.1 it 0 4 1 ⟨0, 1⟩ st ha (by decide +kernel)
  have hthree : it.arena.arena.args? ⟨0, 1⟩ = some [3] := by decide +kernel
  obtain rfl : args = [3] := Option.some.inj (hargs.symm.trans hthree)
  have hf : (Value.closure f).WellFormed st.store := by
    rintro c ⟨⟩
    exact ⟨ha, hids 0 (by decide +kernel), by decide⟩
  have hvalue : (Value.bool true).WellFormed st.store := Value.wellFormed_of_scalar _ rfl
  obtain ⟨hsame, _⟩ := call_node_and_call_agree.2 bare it (.closure f) [.bool true] st 3 rfl
    (State.wellFormed_fresh .buffer) hf (by simpa using hvalue)
  exact ⟨(hrule _).mp hfinished, hend, hsame⟩

end Treewalk
