import Mathlib.Data.List.Nodup
import Treewalk.Proofs.HostActs
import Treewalk.Proofs.Provenance
import Treewalk.Proofs.Visibility

/-! Closures are equal exactly if they are one and the same.
Whatever a host does and has evaluated, each closure that is made is unlike all values there are by
then, and equal closures agree in everything. Values that are read, printed, stored, passed or returned
stay the values they were. -/
namespace Treewalk

namespace Value

theorem equals_equivalence : Equivalence fun v w : Value => v.equals w = true where
  refl v := by cases v <;> simp [equals]
  symm {v w} h := by cases v <;> cases w <;> simp_all [equals]
  trans {u v w} h k := by cases u <;> cases v <;> cases w <;> simp_all [equals]

private theorem equals_closure_of_older {c : Closure} {v : Value} (h : Activity.Older c.id v) :
    (closure c).equals v = false := by
  cases v with
  | closure d =>
    have hlt := h d rfl
    simp only [equals, beq_eq_false_iff_ne]
    omega
  | _ => rfl

def Among (cs : List Closure) (v : Value) : Prop := ∀ c, v = .closure c → c ∈ cs

private theorem among_scalar (cs : List Closure) (v : Value) (hv : v.asClosure? = none) : v.Among cs := by
  rintro c rfl
  cases hv

theorem Among.mono {cs ds : List Closure} {v : Value} (h : v.Among cs) (hsub : cs ⊆ ds) : v.Among ds :=
  fun c hc => hsub (h c hc)

end Value

/-! How values are handed on. -/

namespace Activity

theorem Entered.size_le {A : Activity} {st st₁ : State} (h : Entered st A st₁) :
    st.store.size ≤ st₁.store.size := by
  cases h with
  | stays => exact Nat.le_refl _
  | traced => exact Nat.le_refl _
  | bound it c args hb =>
    simp [Interpreter.opened, Store.size_push]

private theorem size_effect (x : Effect) (st : State) : (Run.split (x.run st)).2.store.size = st.store.size := by
  cases x with
  | bind v e n entry => cases entry <;> exact Store.size_bind _ _ _ _
  | _ => rfl

theorem Course.size_le {A : Activity} {st : State} {status : Status} {log : List Record}
    (h : A.Course st status log) : st.store.size ≤ status.state.store.size := by
  induction h with
  | refuse h => exact (entered_of_error h).1.size_le
  | enter h => exact (entered_of_ok h).size_le
  | part _ _ _ ih ihB => exact Nat.le_trans ih ihB
  | stop _ _ _ ih ihB => exact Nat.le_trans ih ihB
  | finish _ _ ih => exact Nat.le_trans ih (Nat.le_of_eq (size_effect _ _).symm)

/-- What a chronicle records did happen. -/
theorem Course.ends_of_mem {A : Activity} {st : State} {status : Status} {log : List Record}
    (h : A.Course st status log) : ∀ x ∈ log, ∃ st₀, x.1.Ends st₀ x.2 := by
  have hself {A : Activity} {st : State} {r log} (h : A.Course st (.ended r) log) :
      ∀ x ∈ [((A, r) : Record)], ∃ st₀, x.1.Ends st₀ x.2 := by
    rintro x hx
    obtain rfl := List.mem_singleton.mp hx
    exact ⟨st, ends_iff_course.mpr ⟨log, h⟩⟩
  induction h with
  | refuse h => exact hself (.refuse h)
  | enter => simp
  | part _ _ _ ih ihB => exact fun x hx => (List.mem_append.mp hx).elim (ih x) (ihB x)
  | stop h hB k ih ihB =>
    intro x hx
    rcases List.mem_append.mp hx with hx | hx
    · exact (List.mem_append.mp hx).elim (ih x) (ihB x)
    · exact hself (h.stop hB k) x hx
  | finish h hB ih =>
    exact fun x hx => (List.mem_append.mp hx).elim (ih x) (hself (h.finish hB) x)

end Activity

namespace Interpreter
open EvalM

variable {it : Interpreter} {e : FrameId} {i j : ExprId} {st st' : State} {v : Value} {n : Name}

theorem Evaluates.size_le {r : EStateM.Result Stop State Value} (h : it.Evaluates e i st r) :
    st.store.size ≤ (Run.split r).2.store.size := by
  obtain ⟨log, hlog⟩ := Activity.ends_iff_course (A := .eval it e i).mp h
  exact hlog.size_le

theorem evaluates_ident (hn : it.arena.arena.node? i = some (.ident n))
    (hv : st.store.resolve? e n = some v) : it.Evaluates e i st (.ok v st) := by
  have hrun := evalNode_ident 0 (eval 0) e hn st
  rw [hv] at hrun
  exact evaluates_iff_evalNode.mpr ⟨trivial, 0, hrun⟩

private theorem operand_of_declare (hn : it.arena.arena.node? i = some (.declare n j))
    (he : e < st.store.size) (h : it.Evaluates e i st (.ok v st')) :
    (∃ st₁, it.Evaluates e j st (.ok v st₁)) ∧ st'.store.resolve? e n = some v := by
  obtain ⟨w, st₁, hj, hw⟩ := (evaluates_then_iff fun m => evalNode_declare m (eval m) e hn).mp h
  have hrun := it.declare_run e n w st₁
  by_cases hb : st₁.store.binds e n = true
  · rw [bind_of_error (hrun.trans (if_pos hb))] at hw
    cases hw
  · rw [bind_of_ok (hrun.trans (if_neg hb))] at hw
    cases hw
    exact ⟨⟨st₁, hj⟩, Store.resolve?_bind_self (Nat.lt_of_lt_of_le he hj.size_le) n v⟩

private theorem operand_of_assign (hn : it.arena.arena.node? i = some (.assign n j))
    (he : e < st.store.size) (h : it.Evaluates e i st (.ok v st')) :
    (∃ st₁, it.Evaluates e j st (.ok v st₁)) ∧ st'.store.resolve? e n = some v := by
  obtain ⟨w, st₁, hj, hw⟩ := (evaluates_then_iff fun m => evalNode_assign m (eval m) e hn).mp h
  rw [bind_of_ok (it.assign_run e n w st₁)] at hw
  have hsize : e < st₁.store.size := Nat.lt_of_lt_of_le he hj.size_le
  have hupdate := Store.resolve?_update hsize n w
  unfold Store.update at hupdate
  cases ho : st₁.store.owner? e n with
  | some o =>
    rw [ho] at hw hupdate
    cases hw
    exact ⟨⟨st₁, hj⟩, hupdate⟩
  | none =>
    rw [ho] at hw hupdate
    cases hw
    exact ⟨⟨st₁, hj⟩, hupdate⟩

theorem get?_of_bindParams {bindings : List (Name × Value)} (he : e < st.store.size)
    (h : it.bindParams e bindings st = .ok () st') :
    (∀ m w, st.store.get? e m = some w → st'.store.get? e m = some w) ∧
      ∀ b ∈ bindings, st'.store.get? e b.1 = some b.2 := by
  induction bindings generalizing st with
  | nil =>
    cases h
    exact ⟨fun m w hw => hw, by simp⟩
  | cons b bindings ih =>
    have hrun := EvalM.declare_run e b.1 b.2 (it.names.lookup b.1) st
    rw [bindParams_cons] at h
    by_cases hb : st.store.binds e b.1 = true
    · rw [bind_of_error (hrun.trans (if_pos hb))] at h
      cases h
    · rw [bind_of_ok (hrun.trans (if_neg hb))] at h
      obtain ⟨hold, hnew⟩ := ih (by simpa using he) h
      constructor
      · intro m w hw
        apply hold m w
        have hne : b.1 ≠ m := by
          rintro rfl
          simp [Store.binds_eq_isSome_get?, hw] at hb
        simp [Store.get?_bind, hne, hw]
      · intro c hc
        rcases List.mem_cons.mp hc with rfl | hc
        · exact hold c.1 c.2 (by simp [Store.get?_bind, he])
        · exact hnew c hc

/-- A call that comes to a value has begun its body with the arguments as parameters, and comes to what
the body comes to. -/
theorem body_of_call {c : Closure} {args : List Value} (h : it.Calls (.closure c) args st (.ok v st')) :
    ∃ st₁, (∀ b ∈ c.params.zip args, st₁.store.resolve? st.store.size b.1 = some b.2) ∧
      (it.callee c).Evaluates st.store.size c.body st₁ (.ok v st') := by
  obtain ⟨_, m, hm⟩ := h
  by_cases hl : args.length = c.arity
  · have hrun := (apply_run (eval m) it hl st).symm.trans hm
    cases hp : it.bindParams st.store.size (c.params.zip args) (it.opened st c args) with
    | error s st₁ =>
      rw [bind_of_error hp] at hrun
      cases hrun
    | ok _ st₁ =>
      rw [bind_of_ok hp] at hrun
      have hsize : st.store.size < (it.opened st c args).store.size := by
        simp [opened, Store.size_push]
      refine ⟨st₁, fun b hb => Store.resolve?_of_get? ((get?_of_bindParams hsize hp).2 b hb), ?_⟩
      cases hr : (it.callee c).eval m st.store.size c.body st₁ with
      | ok w st₂ =>
        rw [noting_ok hr] at hrun
        cases hrun
        exact ⟨trivial, m, hr⟩
      | error s st₂ => cases s <;> simp [noting, hr] at hrun
  · cases (apply_arity (eval m) it hl st).symm.trans hm

/-- A function node comes to a new closure, and leaves the store as it is. -/
theorem made_of_function {span : Span} {body : ExprId}
    (hn : it.arena.arena.node? i = some (.function span body))
    (h : it.Evaluates e i st (.ok v st')) : (∃ c, v = .closure c) ∧ st'.store = st.store := by
  obtain ⟨_, m, hm⟩ := evaluates_iff_evalNode.mp h
  replace hm : evalNode m (eval m) it e i st = .ok v st' := hm
  cases hp : it.arena.arena.params? span with
  | none =>
    simp only [evalNode, hn, hp, require, pure_bind] at hm
    cases hm
  | some params =>
    rw [evalNode_function m _ e hn hp] at hm
    cases hm
    exact ⟨⟨_, rfl⟩, rfl⟩

end Interpreter

/-- What a host gets from an activity: the value it comes to, if there is one. -/
def Activity.gained : EStateM.Result Stop State Value → List Value
  | .ok v _ => [v]
  | .error _ _ => []

/-- A host at work, by acts of its own, by reading values and by having activities carried out. Kept of
it are the state, the values that the host has got hold of, and the closures that there have been, made by
the host or by function nodes, in their order. -/
inductive Hosting : State → (held : List Value) → (made : List Closure) → Prop where
  | new (sink : Sink) : Hosting (State.new sink) [] []
  | act {st held made} (a : HostAct) (h : Hosting st held made) (ha : ∀ v ∈ a.passed, v ∈ held) :
      Hosting (a.run st) ((a.made st).map .closure ++ held) (made ++ a.made st)
  | scalar {st held made} (v : Value) (hv : v.asClosure? = none) (h : Hosting st held made) :
      Hosting st (v :: held) made
  | get {st held made e n v} (h : Hosting st held made) (hv : st.store.get? e n = some v) :
      Hosting st (v :: held) made
  | resolve {st held made e n v} (h : Hosting st held made) (hv : st.store.resolve? e n = some v) :
      Hosting st (v :: held) made
  | perform {st held made r log} {A : Activity} (h : Hosting st held made)
      (hA : ∀ v ∈ A.values, v ∈ held) (k : A.Course st (.ended r) log) :
      Hosting (Run.split r).2 (Activity.gained r ++ held) (made ++ log.filterMap Activity.made?)

namespace Hosting
open Activity

/-- The closures that there have been are numbered from zero on, and there are no others. -/
structure Sound (st : State) (held : List Value) (made : List Closure) : Prop where
  numbered : Numbered 0 made st.nextClosure
  held : ∀ v ∈ held, v.Among made
  bound : st.store.All (·.Among made)

variable {st : State} {held : List Value} {made : List Closure}

theorem Sound.older (h : Sound st held made) {v : Value} (hv : v.Among made) :
    Older st.nextClosure v := fun c hc => (h.numbered.mem (hv c hc)).2

theorem Sound.eq_of_equals (h : Sound st held made) {c d : Closure} (hc : c ∈ made) (hd : d ∈ made)
    (heq : (Value.closure c).equals (.closure d) = true) : c = d :=
  List.inj_on_of_nodup_map h.numbered.nodup hc hd (by simpa [Value.equals] using heq)

theorem Sound.pairwise (h : Sound st held made) :
    made.Pairwise fun c d => (Value.closure c).equals (.closure d) = false :=
  (List.pairwise_map.mp h.numbered.nodup).imp fun hne => by simpa [Value.equals] using hne

/-- What a function node comes to on the course of an activity that a host has carried out is unlike
all that there was before it. -/
theorem Sound.unlike {A B : Activity} {v : Value} {st₁ : State} {status : Status}
    {before after : List Record} (h : Sound st held made) (hA : ∀ w ∈ A.values, w ∈ held)
    (k : A.Course st status (before ++ (B, .ok v st₁) :: after)) {span : Span} {body : ExprId}
    (hB : B.node? = some (.function span body)) :
    (∃ c, v = .closure c) ∧ ∃ st₀, B.Ends st₀ (.ok v st₁) ∧
      ∀ w, w ∈ held ∨ (∃ e n, st.store.get? e n = some w) ∨ (∃ c ∈ made, w = .closure c) ∨
        (∃ e n, st₀.store.get? e n = some w) ∨ (∃ C st₂, (C, .ok w st₂) ∈ before) →
        v.equals w = false := by
  have hmem : ((B, .ok v st₁) : Record) ∈ before ++ (B, .ok v st₁) :: after := by simp
  have hfresh := k.fresh (fun w hw => h.older (h.held w (hA w hw)))
    (h.bound.mono fun w hw => h.older hw)
  obtain ⟨st₀, hends⟩ := k.ends_of_mem _ hmem
  cases B with
  | call it callee args => cases hB
  | eval it e i =>
    obtain ⟨⟨c, rfl⟩, hstore⟩ := Interpreter.made_of_function hB hends
    have hmade : made? (eval it e i, .ok (.closure c) st₁) = some c := by
      simp [made?, node?, show it.arena.arena.node? i = _ from hB, Value.asClosure?]
    obtain ⟨hid, hbound⟩ := hfresh.new _ _ _ c hmem hmade
    obtain ⟨_, _, hbefore⟩ := List.pairwise_append.mp hfresh.unlike
    refine ⟨⟨c, rfl⟩, st₀, hends, fun w hw => Value.equals_closure_of_older ?_⟩
    have hold (hw : w.Among made) : Older c.id w := (h.older hw).mono hid
    rcases hw with hw | ⟨e, n, hw⟩ | ⟨d, hd, rfl⟩ | ⟨e, n, hw⟩ | ⟨C, st₂, hw⟩
    · exact hold (h.held w hw)
    · exact hold (h.bound e n w hw)
    · exact hold (by rintro _ ⟨⟩; exact hd)
    · exact hbound e n w (hstore ▸ hw)
    · exact hbefore _ hw _ (List.mem_cons_self ..) c hmade w st₂ rfl

theorem Sound.hold (h : Sound st held made) {v : Value} (hv : v.Among made) :
    Sound st (v :: held) made :=
  { h with held := List.forall_mem_cons.mpr ⟨hv, h.held⟩ }

theorem Sound.act (h : Sound st held made) (a : HostAct) (ha : ∀ v ∈ a.passed, v ∈ held) :
    Sound (a.run st) ((a.made st).map .closure ++ held) (made ++ a.made st) := by
  have hold {v : Value} (hv : v.Among made) : v.Among (made ++ a.made st) :=
    hv.mono (List.subset_append_left _ _)
  have hnumbered : Numbered st.nextClosure (a.made st) (a.run st).nextClosure := by
    refine ⟨?_, a.nextClosure_run st⟩
    cases a <;> rfl
  refine ⟨h.numbered.append hnumbered, ?_, ?_⟩
  · intro v hv
    rcases List.mem_append.mp hv with hv | hv
    · obtain ⟨c, hc, rfl⟩ := List.mem_map.mp hv
      rintro _ ⟨⟩
      exact List.mem_append_right _ hc
    · exact hold (h.held v hv)
  · exact HostAct.forall_get?_run (fun v hv => hold (h.held v (ha v hv)))
      (h.bound.mono fun v hv => hold hv)

theorem Sound.perform {A : Activity} {r : EStateM.Result Stop State Value} {log : List Record}
    (h : Sound st held made) (hA : ∀ v ∈ A.values, v ∈ held) (k : A.Course st (.ended r) log) :
    Sound (Run.split r).2 (gained r ++ held) (made ++ log.filterMap Activity.made?) := by
  have hold {v : Value} (hv : v.Among made) : v.Among (made ++ log.filterMap Activity.made?) :=
    hv.mono (List.subset_append_left _ _)
  have hends := (k.holds (Value.among_scalar _) (fun v hv => hold (h.held v (hA v hv)))
    (h.bound.mono fun v hv => hold hv) (by rintro c hc _ ⟨⟩; exact List.mem_append_right _ hc)).1
  have hnumbered := h.numbered.append k.numbered
  cases r with
  | ok v st' =>
    refine ⟨hnumbered, ?_, hends.2⟩
    exact List.forall_mem_cons.mpr ⟨hends.1, fun w hw => hold (h.held w hw)⟩
  | error s st' => exact ⟨hnumbered, fun w hw => hold (h.held w hw), hends⟩

theorem sound (h : Hosting st held made) : Sound st held made := by
  induction h with
  | new sink =>
    refine ⟨numbered_nil 0, by simp, ?_⟩
    intro e n v hv
    exact absurd (Store.get?_lt hv) (Nat.not_lt_zero e)
  | act a _ ha ih => exact ih.act a ha
  | scalar v hv _ ih => exact ih.hold (Value.among_scalar _ v hv)
  | @get st held made e n v _ hv ih => exact ih.hold (ih.bound e n v hv)
  | @resolve st held made e n v _ hv ih =>
    obtain ⟨o, _, ho⟩ := Store.resolve?_eq_some hv
    exact ih.hold (ih.bound o n v ho)
  | perform _ hA k ih => exact ih.perform hA k

end Hosting

/-- Values that are read, printed, stored, passed or returned stay the values they were. -/
structure ValuesHandedOn : Prop where
  /-- A name is read as the value it is bound to. -/
  read : ∀ {it : Interpreter} {e i n st v}, it.arena.arena.node? i = some (.ident n) →
    st.store.resolve? e n = some v → it.Evaluates e i st (.ok v st)
  /-- To print a value gives that value. -/
  print : ∀ {it : Interpreter} {e i j st v st'}, it.arena.arena.node? i = some (.print j) →
    it.Evaluates e i st (.ok v st') → ∃ st₁, it.Evaluates e j st (.ok v st₁)
  /-- A declaration and an assignment give the value that they store, and the name is read as that
  value then. -/
  declare : ∀ {it : Interpreter} {e i n j st v st'}, it.arena.arena.node? i = some (.declare n j) →
    e < st.store.size → it.Evaluates e i st (.ok v st') →
    (∃ st₁, it.Evaluates e j st (.ok v st₁)) ∧ st'.store.resolve? e n = some v
  assign : ∀ {it : Interpreter} {e i n j st v st'}, it.arena.arena.node? i = some (.assign n j) →
    e < st.store.size → it.Evaluates e i st (.ok v st') →
    (∃ st₁, it.Evaluates e j st (.ok v st₁)) ∧ st'.store.resolve? e n = some v
  /-- The values of the arguments are what the function is called with, and a call node gives what the
  call gives. -/
  pass : ∀ {it : Interpreter} {e i f span args st v st'}, it.arena.arena.node? i = some (.call f span) →
    it.arena.arena.args? span = some args → it.Evaluates e i st (.ok v st') →
    ∃ c st₁ vs st₂, it.Evaluates e f st (.ok (.closure c) st₁) ∧
      it.EvaluatesAll e args st₁ (.ok vs st₂) ∧ it.Calls (.closure c) vs st₂ (.ok v st')
  /-- In the body of a function its parameters are read as the arguments, and the call gives what the
  body gives. -/
  body : ∀ {it : Interpreter} {c : Closure} {args st v st'}, it.Calls (.closure c) args st (.ok v st') →
    ∃ st₁, (∀ b ∈ c.params.zip args, st₁.store.resolve? st.store.size b.1 = some b.2) ∧
      (it.callee c).Evaluates st.store.size c.body st₁ (.ok v st')
  /-- What a host declares or updates is read as the value it gave. -/
  hostDeclare : ∀ {s s' : Store} {e n v}, e < s.size → s.declare e n v = .ok () s' →
    s'.resolve? e n = some v
  hostUpdate : ∀ {s : Store} {e n v}, e < s.size → (s.update e n v).resolve? e n = some v

theorem values_handed_on : ValuesHandedOn where
  read hn hv := Interpreter.evaluates_ident hn hv
  print hn h := by
    obtain ⟨st₁, hj, _⟩ := (Interpreter.evaluates_print_iff hn).mp h
    exact ⟨st₁, hj⟩
  declare hn he h := Interpreter.operand_of_declare hn he h
  assign hn he h := Interpreter.operand_of_assign hn he h
  pass hn ha h := by
    cases (Interpreter.evaluates_call_iff hn ha).mp h with
    | call hf hargs hcall => exact ⟨_, _, _, _, hf, hargs, hcall⟩
  body h := Interpreter.body_of_call h
  hostDeclare {s s' e n v} he h := by
    rw [Store.declare] at h
    split at h
    · cases h
    · cases h
      exact Store.resolve?_bind_self he n v
  hostUpdate he := Store.resolve?_update he _ _

/-- Closure identity is sound. Equality is an equivalence. Whatever a host has done, equal closures that
are held or bound agree in all they consist of, and no two of the closures that have been made are equal.
Each time a function node is evaluated on the course of an activity, it comes to a closure that equals
none of the values there are by then: none that the host holds, none that is or was bound, none that has
been made, and none that an activity has come to on that course. And values stay what they are when they
are handed on. -/
theorem closure_identity_is_sound :
    (Equivalence fun v w : Value => v.equals w = true) ∧
    (∀ (st : State) (held : List Value) (made : List Closure), Hosting st held made →
      let present (v : Value) := v ∈ held ∨ ∃ e n, st.store.get? e n = some v
      (∀ c d, present (.closure c) → present (.closure d) →
        (Value.closure c).equals (.closure d) = true →
        c.params = d.params ∧ c.body = d.body ∧ c.arena = d.arena ∧ c.env = d.env) ∧
      (∀ c, present (.closure c) → c ∈ made) ∧
      (made.Pairwise fun c d => (Value.closure c).equals (.closure d) = false) ∧
      ∀ (A : Activity) (r : EStateM.Result Stop State Value), (∀ v ∈ A.values, v ∈ held) →
        A.Ends st r → (∃ log, A.Course st (.ended r) log) ∧
        ∀ before B v st₁ after, A.Course st (.ended r) (before ++ (B, .ok v st₁) :: after) →
          (∃ span body, B.node? = some (.function span body)) →
          (∃ c, v = .closure c) ∧ ∃ st₀, B.Ends st₀ (.ok v st₁) ∧
            ∀ w, present w ∨ (∃ c ∈ made, w = .closure c) ∨
              (∃ e n, st₀.store.get? e n = some w) ∨ (∃ C st₂, (C, .ok w st₂) ∈ before) →
              v.equals w = false) ∧
    ValuesHandedOn := by
  refine ⟨Value.equals_equivalence, ?_, values_handed_on⟩
  intro st held made h present
  have hsound := h.sound
  have hpresent {c : Closure} (hc : present (.closure c)) : c ∈ made := by
    rcases hc with hc | ⟨e, n, hc⟩
    · exact hsound.held _ hc c rfl
    · exact hsound.bound e n _ hc c rfl
  refine ⟨?_, fun c hc => hpresent hc, hsound.pairwise, ?_⟩
  · intro c d hc hd heq
    rw [hsound.eq_of_equals (hpresent hc) (hpresent hd) heq]
    exact ⟨rfl, rfl, rfl, rfl⟩
  · intro A r hA hends
    refine ⟨Activity.ends_iff_course.mp hends, ?_⟩
    rintro before B v st₁ after k ⟨span, body, hB⟩
    obtain ⟨hv, st₀, hends₀, hw⟩ := hsound.unlike hA k hB
    refine ⟨hv, st₀, hends₀, fun w h => hw w ?_⟩
    exact or_assoc.mp h

/-- The calls that build `var make = function() { function(x) { x } }; make() == make()`. -/
def twinClosureCalls : List BuildCall :=
  [.ident "x", .function ["x"] 0, .function [] 1, .declare "make" 2, .ident "make", .call 4 [],
    .call 4 [], .binary .eq 5 6, .seq 3 7]

/-- The function nodes above make three closures, two of them by the same node, and no two are equal, as
the program finds itself. A closure that the host makes afterwards equals none of them. -/
theorem twin_closures_are_unequal :
    let b := (Builder.replay twinClosureCalls { names := .empty } []).1
    let it : Interpreter := { names := b.names, arena := { id := 0, arena := b.arena } }
    let A := Activity.eval it 0 8
    let c : Closure := { id := 3, params := [], body := 0, arena := it.arena, env := 0 }
    ∃ st, A.Ends (State.fresh .buffer) (.ok (.bool false) st) ∧
      (∃ before B v st₁ after,
        A.Course (State.fresh .buffer) (.ended (.ok (.bool false) st))
          (before ++ (B, .ok v st₁) :: after) ∧
        (∃ span body, B.node? = some (.function span body)) ∧
        ∀ C w st₂, (C, .ok w st₂) ∈ before → v.equals w = false) ∧
      ∃ st' made, Hosting st' [.closure c, .bool false] (made ++ [c]) ∧ made.length = 3 ∧
        (made ++ [c]).Pairwise fun c d => (Value.closure c).equals (.closure d) = false := by
  intro b it A c
  have hend : (Run.split (it.eval 6 0 8 (State.fresh .buffer))).1 = .ok (.bool false) := by
    decide +kernel
  have hnext : (Run.split (it.eval 6 0 8 (State.fresh .buffer))).2.nextClosure = 3 := by decide +kernel
  cases hr : it.eval 6 0 8 (State.fresh .buffer) with
  | error s st =>
    rw [hr] at hend
    cases hend
  | ok v st =>
    rw [hr] at hend hnext
    cases hend
    have hends : A.Ends (State.fresh .buffer) (.ok (.bool false) st) := ⟨trivial, 6, hr⟩
    have hvalues : ∀ w ∈ A.values, w ∈ ([] : List Value) := by simp [A, Activity.values]
    have hstart : Hosting (State.fresh .buffer) [] [] :=
      .act .newGlobal (.new .buffer) (by simp [HostAct.passed])
    obtain ⟨_, _, _, hnow⟩ := closure_identity_is_sound.2.1 _ _ _ hstart
    obtain ⟨⟨log, hlog⟩, hfresh⟩ := hnow A _ hvalues hends
    have hlength : (log.filterMap Activity.made?).length = 3 := by
      have hnumbered : st.nextClosure = 0 + (log.filterMap Activity.made?).length := hlog.numbered.2
      rw [← hnext, ← Nat.zero_add (log.filterMap Activity.made?).length, ← hnumbered]
      rfl
    refine ⟨st, hends, ?_, ?_⟩
    · obtain ⟨d, hd⟩ := List.exists_mem_of_length_pos (show 0 < (log.filterMap Activity.made?).length by omega)
      obtain ⟨x, hx, hmade⟩ := List.mem_filterMap.mp hd
      obtain ⟨B, w, st₁, rfl, hB⟩ := Activity.exists_function_of_made? hmade
      obtain ⟨before, after, rfl⟩ := List.append_of_mem hx
      obtain ⟨_, _, _, hunlike⟩ := hfresh before B w st₁ after hlog hB
      refine ⟨before, B, w, st₁, after, hlog, hB, fun C u st₂ hu => hunlike u ?_⟩
      exact .inr (.inr (.inr ⟨C, st₂, hu⟩))
    · have hosting : Hosting st [.bool false] (log.filterMap Activity.made?) :=
        Hosting.perform hstart hvalues hlog
      have hmore := hosting.act (.closure [] 0 it.arena 0) (by simp [HostAct.passed])
      have hmade : HostAct.made st (.closure [] 0 it.arena 0) = [c] := by
        rw [HostAct.made, show st.nextClosure = 3 from hnext]
      rw [hmade] at hmore
      exact ⟨_, _, hmore, hlength, (closure_identity_is_sound.2.1 _ _ _ hmore).2.2.1⟩

end Treewalk
