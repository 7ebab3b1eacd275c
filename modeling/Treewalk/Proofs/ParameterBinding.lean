import Treewalk.Proofs.EvalRules
import Treewalk.Proofs.InternerTable
import Treewalk.Proofs.Region
import Mathlib.Data.List.Induction
import Mathlib.Data.List.Nodup

/-! Parameters are bound exactly, or not at all.
A call checks the number of arguments first and then binds parameters from left to right in a frame of its
own, up to the first that repeats an earlier one. Where it fails, nobody can see that it tried. -/
namespace Treewalk

namespace Store

/-- Distinct names that are bound in one frame are bound to their own values there, and all other names
as before. -/
theorem get?_bindAll {s : Store} {e : FrameId} (he : e < s.size) {bindings : List (Name × Value)}
    (hd : (bindings.map Prod.fst).Nodup) {n : Name} {v : Value} :
    (s.bindAll e bindings).get? e n = some v ↔
      (n, v) ∈ bindings ∨ (n ∉ bindings.map Prod.fst ∧ s.get? e n = some v) := by
  induction bindings generalizing s with
  | nil => simp [bindAll]
  | cons b bindings ih =>
    obtain ⟨hnew, hrest⟩ := List.nodup_cons.mp hd
    have hstep : s.bindAll e (b :: bindings) = (s.bind e b.1 b.2).bindAll e bindings := rfl
    have hget : (s.bind e b.1 b.2).get? e n = if b.1 = n then some b.2 else s.get? e n := by
      simp [get?_bind, he]
    rw [hstep, ih (by rwa [size_bind]) hrest, hget]
    by_cases hb : b.1 = n
    · subst hb
      have habsent : (b.1, v) ∉ bindings := fun h => hnew (List.mem_map.mpr ⟨_, h, rfl⟩)
      simp [hnew, habsent, Prod.ext_iff, eq_comm]
    · have hb' : ¬ n = b.1 := fun h => hb h.symm
      simp [hb, hb', Prod.ext_iff]

end Store

/-- Of bindings whose names are not distinct, the first that repeats the name of an earlier one. -/
theorem exists_first_repeated {bindings : List (Name × Value)} (h : ¬ (bindings.map Prod.fst).Nodup) :
    ∃ before b after, bindings = before ++ b :: after ∧ (before.map Prod.fst).Nodup ∧
      b.1 ∈ before.map Prod.fst := by
  induction bindings using List.reverseRecOn with
  | nil => simp at h
  | append_singleton bindings b ih =>
    by_cases hd : (bindings.map Prod.fst).Nodup
    · refine ⟨bindings, b, [], rfl, hd, ?_⟩
      by_contra hb
      apply h
      rw [List.map_append, List.map_singleton, ← List.concat_eq_append]
      exact List.Nodup.concat hb hd
    · obtain ⟨before, b', after, rfl, hbefore, hb'⟩ := ih hd
      exact ⟨before, b', after ++ [b], by simp, hbefore, hb'⟩

namespace Interpreter
variable {e : FrameId} {st : State}

/-- Distinct names that are free in a frame can all be bound there. -/
theorem bindParams_of_nodup (it : Interpreter) (bindings : List (Name × Value))
    (hd : (bindings.map Prod.fst).Nodup) (hfree : ∀ n, st.store.get? e n = none) :
    it.bindParams e bindings st = .ok () (st.bindAll e bindings) := by
  rcases it.bindParams_run e bindings st with hok | ⟨before, b, after, rfl, -, hb, -⟩
  · exact hok
  · rw [State.store_bindAll, Store.binds_bindAll_iff, Store.binds_eq_isSome_get?, hfree] at hb
    rcases hb with ⟨-, hmem, -⟩ | hb
    · rw [List.map_append, List.map_cons] at hd
      exact (List.disjoint_of_nodup_append hd hmem (List.mem_cons_self ..)).elim
    · cases hb

/-- The first name that repeats an earlier one is refused, when those before it have been bound. -/
theorem bindParams_of_repeated (it : Interpreter) (he : e < st.store.size)
    {before : List (Name × Value)} {b : Name × Value} (after : List (Name × Value))
    (hd : (before.map Prod.fst).Nodup) (hb : b.1 ∈ before.map Prod.fst)
    (hfree : ∀ n, st.store.get? e n = none) :
    it.bindParams e (before ++ b :: after) st = .error
      (.raised { kind := .duplicateDeclaration (it.names.lookup b.1) }) (st.bindAll e before) := by
  have hbound : (st.bindAll e before).store.binds e b.1 = true :=
    (Store.binds_bindAll_iff ..).mpr (.inl ⟨rfl, hb, he⟩)
  have hrun := EvalM.declare_run e b.1 b.2 (it.names.lookup b.1) (st.bindAll e before)
  rw [if_pos hbound] at hrun
  rw [bindParams_append, bind_of_ok (it.bindParams_of_nodup before hd hfree), bindParams_cons]
  exact bind_of_error hrun _

end Interpreter

/-- What was there before is as it was, and nothing has been printed. -/
structure State.Untouched (st st' : State) : Prop where
  frames : ∀ f < st.store.size, st'.store.frame? f = st.store.frame? f
  channel : st'.channel = st.channel

/-- One frame more, which lies in the frame that a closure has captured and binds each parameter to the
argument at its position, and nothing else. -/
structure State.Opens (st : State) (c : Closure) (args : List Value) (st' : State) : Prop where
  size : st'.store.size = st.store.size + 1
  others : ∀ f ≠ st.store.size, st'.store.frame? f = st.store.frame? f
  outer : st'.store.link? st.store.size = some c.env
  bound : ∀ n v, st'.store.get? st.store.size n = some v ↔
    ∃ i : Nat, c.params[i]? = some n ∧ args[i]? = some v
  channel : st'.channel = st.channel

namespace Interpreter
variable (it : Interpreter) (c : Closure) (args : List Value) (st : State)

theorem frame?_opened (bindings : List (Name × Value)) {f : FrameId} (hf : f ≠ st.store.size) :
    ((opened st it c args).bindAll st.store.size bindings).store.frame? f = st.store.frame? f := by
  rw [State.store_bindAll, Store.frame?_bindAll_of_ne _ hf.symm, opened, State.store_child,
    Store.frame?_push, State.store_log, if_neg hf]

private theorem untouched_opened (bindings : List (Name × Value)) :
    st.Untouched ((opened st it c args).bindAll st.store.size bindings) where
  frames _ hf := frame?_opened it c args st bindings (Nat.ne_of_lt hf)
  channel := rfl

private theorem size_opened : (opened st it c args).store.size = st.store.size + 1 := by
  rw [opened, State.store_child, Store.size_push, State.store_log]

private theorem lt_size_opened : st.store.size < (opened st it c args).store.size := by
  rw [size_opened]
  exact Nat.lt_succ_self _

private theorem opens_opened (hl : args.length = c.params.length) (hd : c.params.Nodup) :
    st.Opens c args ((opened st it c args).bindAll st.store.size (c.params.zip args)) where
  size := by rw [State.store_bindAll, Store.size_bindAll, size_opened]
  others _ hf := frame?_opened it c args st _ hf
  outer := by
    rw [State.store_bindAll, Store.link?_bindAll, opened, State.store_child, Store.link?_push,
      State.store_log, if_pos rfl]
  bound n v := by
    have hnames : (c.params.zip args).map Prod.fst = c.params := List.map_fst_zip (Nat.le_of_eq hl.symm)
    rw [State.store_bindAll, Store.get?_bindAll (lt_size_opened it c args st) (by rwa [hnames]), get?_opened,
      List.mem_iff_getElem?]
    simp [List.getElem?_zip_eq_some]
  channel := rfl

end Interpreter

/-- Applying a closure to values. If their number is not that of the parameters, that is the error,
whether or not parameters repeat. Otherwise, if a parameter repeats an earlier one, the first that does is
reported. In both cases the end is the same whatever evaluates bodies, so none is evaluated, and nothing
of before has changed. In all other cases the body is evaluated in a new frame inside the captured one, in
which each parameter is bound to its argument. -/
theorem parameters_bind_exactly_or_fail_cleanly (it : Interpreter) (c : Closure) (args : List Value)
    (st : State) :
    (args.length ≠ c.params.length → ∃ st', st.Untouched st' ∧ ∀ sub,
      Interpreter.apply sub it c args st =
        .error (.raised { kind := .arityMismatch c.params.length args.length }) st') ∧
    (args.length = c.params.length → ¬ c.params.Nodup → ∃ before n after st',
      c.params = before ++ n :: after ∧ before.Nodup ∧ n ∈ before ∧ st.Untouched st' ∧ ∀ sub,
      Interpreter.apply sub it c args st =
        .error (.raised { kind := .duplicateDeclaration (it.names.lookup n) }) st') ∧
    (args.length = c.params.length → c.params.Nodup → ∃ st', st.Opens c args st' ∧ ∀ sub,
      Interpreter.apply sub it c args st =
        EvalM.noting (fun _ => "in call to " ++ c.signature it.names)
          (sub (it.callee c) st.store.size c.body) st') := by
  have hfree := Interpreter.get?_opened st it c args
  have hnames (hl : args.length = c.params.length) : (c.params.zip args).map Prod.fst = c.params :=
    List.map_fst_zip (Nat.le_of_eq hl.symm)
  refine ⟨fun hl => ?_, fun hl hrep => ?_, fun hl hd => ?_⟩
  · refine ⟨st.log (.apply args.length it.depth), ⟨fun _ _ => rfl, rfl⟩, fun sub => ?_⟩
    exact Interpreter.apply_arity sub it hl st
  · rw [← hnames hl] at hrep
    obtain ⟨before, b, after, hsplit, hd, hb⟩ := exists_first_repeated hrep
    have hbind := it.bindParams_of_repeated (Interpreter.lt_size_opened it c args st) after hd hb hfree
    rw [← hsplit] at hbind
    refine ⟨before.map Prod.fst, b.1, after.map Prod.fst, _, ?_, hd, hb,
      Interpreter.untouched_opened it c args st before, fun sub => ?_⟩
    · rw [← hnames hl, hsplit, List.map_append, List.map_cons]
    · exact (Interpreter.apply_run sub it hl st).trans (bind_of_error hbind _)
  · have hbind := it.bindParams_of_nodup (c.params.zip args) (by rwa [hnames hl]) hfree
    refine ⟨_, Interpreter.opens_opened it c args st hl hd, fun sub => ?_⟩
    exact (Interpreter.apply_run sub it hl st).trans (bind_of_ok hbind _)

/-- Functions of the names `x` and `y` in a fresh global frame: one that repeats `x` is refused for its
arity before anything else, and then for `x`; one with both names finds them in a frame of its own. -/
theorem repeated_parameter_is_refused :
    let names := Interner.empty.internAll ["x", "y"]
    let it : Interpreter := { names, arena := { id := 0, arena := .empty } }
    let st := State.fresh .buffer
    let f (params : List Name) : Closure := { id := 0, params, body := 0, arena := it.arena, env := 0 }
    (∃ st', st.Untouched st' ∧ ∀ sub, Interpreter.apply sub it (f [⟨1⟩, ⟨1⟩]) [.null] st =
      .error (.raised { kind := .arityMismatch 2 1 }) st') ∧
    (∃ st', st.Untouched st' ∧ ∀ sub,
      Interpreter.apply sub it (f [⟨2⟩, ⟨1⟩, ⟨1⟩]) [.null, .null, .null] st =
        .error (.raised { kind := .duplicateDeclaration "x" }) st') ∧
    ∃ st', st.Opens (f [⟨2⟩, ⟨1⟩]) [.null, .bool true] st' ∧
      st'.store.get? 1 ⟨1⟩ = some (.bool true) := by
  intro names it st f
  obtain ⟨harity, -, -⟩ := parameters_bind_exactly_or_fail_cleanly it (f [⟨1⟩, ⟨1⟩]) [.null] st
  obtain ⟨-, hrepeated, -⟩ :=
    parameters_bind_exactly_or_fail_cleanly it (f [⟨2⟩, ⟨1⟩, ⟨1⟩]) [.null, .null, .null] st
  obtain ⟨-, -, hbound⟩ :=
    parameters_bind_exactly_or_fail_cleanly it (f [⟨2⟩, ⟨1⟩]) [.null, .bool true] st
  refine ⟨harity (by decide), ?_, ?_⟩
  · obtain ⟨before, n, after, st', hsplit, -, hmem, huntouched, hrun⟩ := hrepeated rfl (by decide)
    have htwice : 2 ≤ [(⟨2⟩ : Name), ⟨1⟩, ⟨1⟩].count n := by
      have hpos := List.count_pos_iff.mpr hmem
      rw [show [(⟨2⟩ : Name), ⟨1⟩, ⟨1⟩] = before ++ n :: after from hsplit, List.count_append,
        List.count_cons_self]
      omega
    obtain rfl : n = ⟨1⟩ := by
      rcases List.mem_cons.mp (List.count_pos_iff.mp (Nat.lt_of_lt_of_le Nat.two_pos htwice)) with
        rfl | hrest
      · exact absurd htwice (by decide)
      · simpa using hrest
    have htext : names.lookup ⟨1⟩ = "x" := by decide +kernel
    exact ⟨st', huntouched, htext ▸ hrun⟩
  · obtain ⟨st', hopens, -⟩ := hbound rfl (by decide)
    exact ⟨st', hopens, (hopens.bound ⟨1⟩ (.bool true)).mpr ⟨1, rfl, rfl⟩⟩

end Treewalk
