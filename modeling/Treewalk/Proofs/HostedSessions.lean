import Treewalk.Session
import Treewalk.Proofs.ClosureIdentity
import Treewalk.Proofs.FrameGrowth
import Treewalk.Proofs.NoFault
import Treewalk.Proofs.ReadBack

/-! Sessions are hosts.
Whatever steps a session takes, it is at a state that hosts reach, its handles lead to frames and arenas
that are there, and the values it has stored are among those that a host has got hold of. -/
namespace Treewalk

namespace Program
open BuildM

private theorem performs_buildEntries (built : Array ExprId) (ts : List (Tree Nat)) (b : Builder)
    (known : List ExprId) (hbuilt : ∀ i ∈ built, i ∈ known) :
    Performs False (buildEntries built ts) b known (Tree.symbolsAll ts) fun built' ids =>
      ∀ i ∈ built', i ∈ ids := by
  induction ts generalizing built b known with
  | nil => exact performs_pure hbuilt
  | cons t ts ih =>
    refine (Tree.performs_build _ t False.elim b known ?_).bind fun i b₁ ids hsub hi => ih _ b₁ ids ?_
    · intro k b' ids hsub
      dsimp only
      cases hk : built[k]? with
      | none => exact performs_throw _
      | some i => exact performs_pure (hsub (hbuilt i (Array.mem_of_getElem? hk)))
    · intro j hj
      rcases Array.mem_push.mp hj with hj | rfl
      · exact hsub (hbuilt j hj)
      · exact hi

/-- Whatever a program shares, it is built by calls of a new builder, and its root is among the ids that
they return. -/
theorem built {p : Program} {names : Interner} {root : ExprId} {b : Builder}
    (h : p.build { names } = .ok root b) : ∃ ids, Built b ids ∧ root ∈ ids := by
  have hroot : Performs False p.build { names } [] (Tree.symbolsAll p.entries) fun i ids => i ∈ ids := by
    refine (performs_buildEntries #[] p.entries _ [] (by simp)).last fun built b' ids _ hbuilt => ?_
    cases hlast : built.back? with
    | none => exact performs_throw _
    | some i => exact performs_pure (hbuilt i (Array.mem_of_back? hlast))
  obtain ⟨ids, hcalls, hmem⟩ := hroot.ok h
  exact ⟨ids, ⟨names, hcalls⟩, hmem⟩

end Program

theorem Hosted.perform {st : State} (h : Hosted st) {A : Activity} (hA : A.WellFormed st) (fuel : Nat) :
    Hosted (Run.split (A.run fuel st)).2 := by
  cases A with
  | eval it e i => exact h.eval fuel hA.1 hA.2.1 hA.2.2
  | call it callee args => exact h.call fuel it hA.1 hA.2

private theorem Activity.safeEnd_run {st : State} {A : Activity} (hA : A.WellFormed st)
    (hst : st.store.WellFormed) (fuel : Nat) : SafeEnd st (A.run fuel st) := by
  cases A with
  | eval it e i => exact safeEnd_eval fuel hst hA.1 hA.2.1 hA.2.2
  | call it callee args => exact safeEnd_call fuel hst hA.1 hA.2

namespace Session

/-- A session at work, with values in hand beside those that it has stored. -/
structure Sound (s : Session) (inHand : List Value) : Prop where
  hosted : Hosted s.state
  hosting : ∃ held made, Hosting s.state held made ∧ ∀ v, v ∈ s.slots ∨ v ∈ inHand → v ∈ held
  value : ∀ v, v ∈ s.slots ∨ v ∈ inHand → v.WellFormed s.state.store
  env : ∀ e ∈ s.envs, e < s.state.store.size
  arena : ∀ a ∈ s.arenas, a.arena.WellFormed

variable {s : Session} {vs : List Value}

theorem Sound.subset (h : s.Sound vs) {ws : List Value} (hsub : ∀ v ∈ ws, v ∈ s.slots ∨ v ∈ vs) :
    s.Sound ws := by
  have hall (v : Value) (hv : v ∈ s.slots ∨ v ∈ ws) : v ∈ s.slots ∨ v ∈ vs := hv.elim .inl (hsub v)
  obtain ⟨held, made, hhosting, hheld⟩ := h.hosting
  exact { h with
    hosting := ⟨held, made, hhosting, fun v hv => hheld v (hall v hv)⟩
    value := fun v hv => h.value v (hall v hv) }

/-- The session goes on from another state, in which it has gained values. -/
theorem Sound.move (h : s.Sound vs) {st : State} (gained : List Value) (hosted : Hosted st)
    (hosting : ∀ {held made}, Hosting s.state held made → (∀ v ∈ vs, v ∈ held) →
      ∃ made', Hosting st (gained ++ held) made')
    (hsize : s.state.store.size ≤ st.store.size) (hgained : ∀ v ∈ gained, v.WellFormed st.store) :
    ({ s with state := st } : Session).Sound (gained ++ vs) := by
  obtain ⟨held, made, hhosting, hheld⟩ := h.hosting
  obtain ⟨made', hnext⟩ := hosting hhosting fun v hv => hheld v (.inr hv)
  refine ⟨hosted, ⟨_, made', hnext, fun v hv => ?_⟩, fun v hv => ?_,
    fun e he => Nat.lt_of_lt_of_le (h.env e he) hsize, h.arena⟩
  · rcases hv with hv | hv
    · exact List.mem_append_right _ (hheld v (.inl hv))
    · rcases List.mem_append.mp hv with hv | hv
      · exact List.mem_append_left _ hv
      · exact List.mem_append_right _ (hheld v (.inr hv))
  · rcases hv with hv | hv
    · exact (h.value v (.inl hv)).mono hsize
    · rcases List.mem_append.mp hv with hv | hv
      · exact hgained v hv
      · exact (h.value v (.inr hv)).mono hsize

/-- A value that can be read or made without changing the state is taken in hand. -/
theorem Sound.gain (h : s.Sound vs) {v : Value} (hv : v.WellFormed s.state.store)
    (hosting : ∀ {held made}, Hosting s.state held made → Hosting s.state (v :: held) made) :
    s.Sound (v :: vs) :=
  h.move [v] h.hosted (fun hh _ => ⟨_, hosting hh⟩) (Nat.le_refl _)
    (List.forall_mem_singleton.mpr hv)

theorem Sound.scalar (h : s.Sound vs) {v : Value} (hv : v.asClosure? = none) : s.Sound (v :: vs) :=
  h.gain (Value.wellFormed_of_scalar _ hv) (.scalar v hv)

theorem Sound.act (h : s.Sound vs) (a : HostAct) (ha : a.InPlace s.state)
    (hp : ∀ v ∈ a.passed, v ∈ vs) :
    ({ s with state := a.run s.state } : Session).Sound ((a.made s.state).map .closure ++ vs) := by
  refine h.move _ (.act a h.hosted ha) (fun hh hheld => ⟨_, hh.act a fun v hv => hheld v (hp v hv)⟩)
    (a.size_le_run _) fun v hv => ?_
  obtain ⟨c, hc, rfl⟩ := List.mem_map.mp hv
  cases a with
  | closure params body arena env =>
    obtain rfl := List.mem_singleton.mp hc
    rintro _ ⟨⟩
    exact ⟨ha.1, ha.2.1, ha.2.2⟩
  | _ => cases hc

theorem Sound.perform (h : s.Sound vs) {A : Activity} (hA : A.WellFormed s.state)
    (hp : ∀ v ∈ A.values, v ∈ vs) {fuel : Nat} {r : EStateM.Result Stop State Value}
    (hr : A.run fuel s.state = r) (hfinished : EvalM.Finished r) :
    ({ s with state := (Run.split r).2 } : Session).Sound (Activity.gained r ++ vs) := by
  obtain ⟨log, hcourse⟩ := Activity.ends_iff_course.mp ⟨hfinished, fuel, hr⟩
  have hsafe : SafeEnd s.state r := hr ▸ Activity.safeEnd_run hA h.hosted.wellFormed fuel
  have hhosted : Hosted (Run.split r).2 := hr ▸ h.hosted.perform hA fuel
  have hhosting {held : List Value} {made : List Closure} (hh : Hosting s.state held made)
      (hheld : ∀ v ∈ vs, v ∈ held) :
      ∃ made', Hosting (Run.split r).2 (Activity.gained r ++ held) made' :=
    ⟨_, hh.perform (fun v hv => hheld v (hp v hv)) hcourse⟩
  cases r with
  | ok v st =>
    exact h.move [v] hhosted hhosting hsafe.2.1 (List.forall_mem_singleton.mpr hsafe.2.2)
  | error x st => exact h.move [] hhosted hhosting hsafe.2.1 (by simp)

variable {α β : Type}

/-- However `m` ends, unless it runs out of fuel, a result satisfies `Q` and an error leaves the session
sound. -/
def Keeps (s : Session) (m : SessionM α) (Q : α → Session → Prop) : Prop :=
  match m s with
  | .ok a s' => Q a s'
  | .error x s' => x ≠ .stop .outOfFuel → s'.Sound []

theorem Keeps.bind {m : SessionM α} {f : α → SessionM β} {Q : α → Session → Prop}
    {R : β → Session → Prop} (hm : s.Keeps m Q) (hf : ∀ a s', Q a s' → s'.Keeps (f a) R) :
    s.Keeps (m >>= f) R := by
  unfold Keeps at hm
  cases hr : m s with
  | ok a s' =>
    rw [hr] at hm
    rw [Keeps, bind_of_ok hr]
    exact hf a s' hm
  | error x s' =>
    rw [hr] at hm
    rw [Keeps, bind_of_error hr]
    exact hm

theorem Sound.clear (h : s.Sound vs) : s.Sound [] := h.subset (by simp)

theorem Sound.named (h : s.Sound vs) (names : Interner) : ({ s with names } : Session).Sound vs :=
  ⟨h.hosted, h.hosting, h.value, h.env, h.arena⟩

private theorem keeps_get (s : Session) : s.Keeps get fun t s' => s = t ∧ s = s' := ⟨rfl, rfl⟩

private theorem keeps_require (h : s.Sound vs) (x : Option α) :
    s.Keeps (require x) fun a s' => s = s' ∧ x = some a := by
  cases x with
  | none => exact fun _ => h.clear
  | some a => exact ⟨rfl, rfl⟩

private theorem keeps_arena (h : s.Sound vs) (k : Nat) :
    s.Keeps (arena k) fun a s' => s = s' ∧ s.arenas[k]? = some a := keeps_require h s.arenas[k]?

private theorem keeps_env (h : s.Sound vs) (k : Nat) :
    s.Keeps (env k) fun e s' => s = s' ∧ e < s.state.store.size := by
  have hrun : env k s = require s.envs[k]? s := rfl
  rw [Keeps, hrun]
  cases hk : s.envs[k]? with
  | none => exact fun _ => h.clear
  | some e => exact ⟨rfl, h.env e (Array.mem_of_getElem? hk)⟩

private theorem keeps_operand (h : s.Sound vs) (x : Operand) :
    s.Keeps (operand x) fun v s' => s = s' ∧ s.Sound (v :: vs) := by
  cases x with
  | literal l => exact ⟨rfl, h.scalar (by cases l <;> rfl)⟩
  | slot k =>
    refine ⟨rfl, ?_⟩
    cases hk : s.slots[k]? with
    | none => exact h.scalar rfl
    | some v =>
      refine h.subset fun w hw => ?_
      rcases List.mem_cons.mp hw with rfl | hw
      · exact .inl (Array.mem_of_getElem? hk)
      · exact .inr hw

private theorem keeps_operands (h : s.Sound vs) (xs : List Operand) :
    s.Keeps (xs.mapM operand) fun ws s' => s = s' ∧ s.Sound (ws ++ vs) := by
  induction xs generalizing vs with
  | nil => exact ⟨rfl, h⟩
  | cons x xs ih =>
    rw [List.mapM_cons]
    refine (keeps_operand h x).bind ?_
    rintro v _ ⟨rfl, hv⟩
    refine (ih hv).bind ?_
    rintro ws _ ⟨rfl, hws⟩
    exact ⟨rfl, hws.subset fun w hw => .inr (by simpa [or_comm, or_left_comm, or_assoc] using hw)⟩

private theorem keeps_intern (s : Session) (text : String) :
    s.Keeps (intern text) fun _ s' => ∃ names, s' = { s with names } := ⟨_, rfl⟩

private theorem keeps_interns (s : Session) (texts : List String) :
    s.Keeps (texts.mapM intern) fun _ s' => ∃ names, s' = { s with names } := by
  induction texts generalizing s with
  | nil => exact ⟨s.names, rfl⟩
  | cons text texts ih =>
    rw [List.mapM_cons]
    refine (keeps_intern s text).bind ?_
    rintro n _ ⟨names, rfl⟩
    refine (ih _).bind ?_
    rintro ns _ ⟨names', rfl⟩
    exact ⟨names', rfl⟩

private theorem keeps_activity (h : s.Sound vs) {A : Activity} (hA : A.WellFormed s.state)
    (hp : ∀ v ∈ A.values, v ∈ vs) (fuel : Nat) :
    s.Keeps (onEval (A.run fuel)) fun v s' => s'.Sound [v] := by
  unfold Keeps onEval
  cases hr : A.run fuel s.state with
  | ok v st => exact (h.perform hA hp hr trivial).subset (by simp [Activity.gained])
  | error x st =>
    intro hx
    refine (h.perform hA hp hr (EvalM.finished_error_iff.mpr ?_)).clear
    rintro rfl
    exact hx rfl

private theorem keeps_build (h : s.Sound vs) (p : Program) :
    s.Keeps (build p) fun r s' =>
      s'.Sound vs ∧ r.1.arena.WellFormed ∧ r.2 < r.1.arena.size := by
  unfold Keeps build
  cases hp : p.build { names := s.names } with
  | error x b => exact fun _ => (h.named b.names).clear
  | ok root b =>
    obtain ⟨ids, hbuilt, hroot⟩ := Program.built hp
    obtain ⟨ha, hids⟩ := hbuilt.wellFormed
    refine ⟨{ h.named b.names with arena := fun a hmem => ?_ }, ha, hids root hroot⟩
    rcases Array.mem_push.mp hmem with hmem | rfl
    · exact h.arena a hmem
    · exact ha

def answered : Answer → List Value
  | .value v => [v]
  | _ => []

/-- The nodes that a request names are in their arena, as those that a builder returned are. -/
def InPlace (s : Session) : Step → Prop
  | .evalAt a i _ | .closure _ a i _ => ∀ arena, s.arenas[a]? = some arena → i < arena.arena.size
  | _ => True

private theorem keeps_eval (h : s.Sound vs) {it : Interpreter} {e : FrameId} {i : ExprId}
    (ha : it.arena.arena.WellFormed) (hi : i < it.arena.arena.size) (he : e < s.state.store.size)
    (fuel : Nat) : s.Keeps (onEval (it.eval fuel e i)) fun v s' => s'.Sound [v] :=
  keeps_activity (A := .eval it e i) h ⟨ha, hi, he⟩ (by simp [Activity.values]) fuel

private theorem keeps_evalProgram (h : s.Sound vs) (program : Program) (k : Nat) (fuel : Nat) :
    s.Keeps (evalProgram fuel program k) fun v s' => s'.Sound [v] := by
  refine (keeps_build h program).bind ?_
  rintro ⟨arena, root⟩ s₁ ⟨h₁, ha, hroot⟩
  refine (keeps_env h₁ k).bind ?_
  rintro e _ ⟨rfl, he⟩
  have hlog := h₁.act (.attend s₁.state.channel (s₁.state.trace.push .evaluate)) trivial
    (by simp [HostAct.passed])
  exact keeps_eval hlog ha hroot he fuel

private theorem keeps_evalAt (h : s.Sound vs) {a : Nat} {i : ExprId} {k : Nat}
    (hr : s.InPlace (.evalAt a i k)) (fuel : Nat) :
    s.Keeps (do
      let arena ← arena a
      let e ← env k
      let it : Interpreter := { names := (← get).names, arena }
      return .value (← onEval (it.eval fuel e i))) fun x s' => s'.Sound (answered x) := by
  refine (keeps_arena h a).bind ?_
  rintro arena _ ⟨rfl, ha⟩
  refine (keeps_env h k).bind ?_
  rintro e _ ⟨rfl, he⟩
  refine (keeps_get s).bind ?_
  rintro _ _ ⟨rfl, rfl⟩
  have hplace := h.arena arena (Array.mem_of_getElem? ha)
  exact (keeps_eval h hplace (hr arena ha) he fuel).bind fun v s' hv => hv

private theorem keeps_call (h : s.Sound vs) (callee : Operand) (args : List Operand) (fuel : Nat) :
    s.Keeps (do
      let callee ← operand callee
      let args ← args.mapM operand
      let s ← get
      let it : Interpreter := { names := s.names, arena := { id := s.arenas.size, arena := .empty } }
      return .value (← onEval (it.call fuel callee args))) fun x s' => s'.Sound (answered x) := by
  refine (keeps_operand h callee).bind ?_
  rintro f _ ⟨rfl, hf⟩
  refine (keeps_operands hf args).bind ?_
  rintro ws _ ⟨rfl, hws⟩
  refine (keeps_get s).bind ?_
  rintro _ _ ⟨rfl, rfl⟩
  have hactivity (it : Interpreter) : s.Keeps (onEval (it.call fuel f ws)) fun v s' => s'.Sound [v] := by
    refine keeps_activity (A := .call it f ws) hws ⟨?_, fun v hv => ?_⟩ ?_ fuel
    · exact hws.value f (.inr (by simp))
    · exact hws.value v (.inr (List.mem_append_left _ hv))
    · simp +contextual [Activity.values]
  exact (hactivity _).bind fun v s' hv => hv

private theorem keeps_addEnv (h : s.Sound vs) {e : FrameId} (he : e < s.state.store.size) :
    s.Keeps (addEnv e) fun x s' => s'.Sound (answered x) := by
  refine { h.clear with env := fun f hf => ?_ }
  rcases Array.mem_push.mp hf with hf | rfl
  · exact h.env f hf
  · exact he

private theorem sound_found (h : s.Sound vs) {x : Option Value}
    (hv : ∀ v, x = some v → s.Sound [v]) : s.Sound (answered (found x)) := by
  cases x with
  | none => exact h.clear
  | some v => exact hv v rfl

private theorem sound_descend (h : s.Sound vs) {e : FrameId} (he : e < s.state.store.size)
    (count : Nat) :
    let (inner, st) := State.onStore (Store.descend e count) s.state
    ({ s with state := st } : Session).Sound vs ∧ inner < st.store.size := by
  induction count generalizing s e with
  | zero => exact ⟨h, he⟩
  | succ count ih =>
    have hchild := h.act (.child e) he (by simp [HostAct.passed])
    exact ih hchild (Store.lt_size_push ..)

theorem keeps_perform (h : s.Sound vs) (request : Step) (hr : s.InPlace request) :
    s.Keeps (perform request) fun x s' => s'.Sound (answered x) := by
  cases request with
  | eval program k => exact (keeps_evalProgram h program k Interpreter.ampleFuel).bind fun v s' hv => hv
  | evalAt a i k => exact keeps_evalAt h hr Interpreter.ampleFuel
  | call callee args => exact keeps_call h callee args Interpreter.ampleFuel
  | closure params a i k =>
    refine (keeps_interns s params).bind ?_
    rintro ns _ ⟨names, rfl⟩
    refine (keeps_arena (h.named names) a).bind ?_
    rintro arena _ ⟨rfl, ha⟩
    refine (keeps_env (h.named names) k).bind ?_
    rintro e _ ⟨rfl, he⟩
    have hplace := h.arena arena (Array.mem_of_getElem? ha)
    exact ((h.named names).act (.closure ns i arena e) ⟨hplace, hr arena ha, he⟩
      (by simp [HostAct.passed])).subset (by simp [HostAct.made, answered])
  | binary symbol left right =>
    refine (keeps_operand h left).bind ?_
    rintro l _ ⟨rfl, hl⟩
    refine (keeps_operand hl right).bind ?_
    rintro r _ ⟨rfl, hlr⟩
    cases hop : Operator.ofSymbol? symbol with
    | none => exact fun _ => h.clear
    | some op =>
      have hvalue : s.Keeps (onEval (EvalM.ofExcept (op.eval l r))) fun v s' => s'.Sound [v] := by
        cases hv : op.eval l r with
        | error kind => exact fun _ => h.clear
        | ok v => exact h.clear.scalar (Operator.asClosure?_eval hv)
      exact hvalue.bind fun v s' hv => hv
  | newGlobal =>
    have hnew := h.act .newGlobal trivial (by simp [HostAct.passed])
    exact keeps_addEnv hnew (Store.lt_size_push ..)
  | child k =>
    refine (keeps_env h k).bind ?_
    rintro e _ ⟨rfl, he⟩
    have hchild := h.act (.child e) he (by simp [HostAct.passed])
    exact keeps_addEnv hchild (Store.lt_size_push ..)
  | descend k count =>
    refine (keeps_env h k).bind ?_
    rintro e _ ⟨rfl, he⟩
    obtain ⟨hinner, hlt⟩ := sound_descend h he count
    exact keeps_addEnv hinner hlt
  | aliasOf k =>
    refine (keeps_env h k).bind ?_
    rintro e _ ⟨rfl, he⟩
    exact keeps_addEnv h he
  | globalOf k =>
    refine (keeps_env h k).bind ?_
    rintro e _ ⟨rfl, he⟩
    exact keeps_addEnv h (Nat.lt_of_le_of_lt (Store.global_le _ e) he)
  | captured x =>
    refine (keeps_operand h x).bind ?_
    rintro v _ ⟨rfl, hv⟩
    cases v with
    | closure c => exact keeps_addEnv h (hv.value _ (.inr (List.mem_cons_self ..)) c rfl).env
    | _ => exact h.clear
  | declare k name x =>
    refine (keeps_env h k).bind ?_
    rintro e _ ⟨rfl, he⟩
    refine (keeps_intern _ name).bind ?_
    rintro n _ ⟨names, rfl⟩
    refine (keeps_operand (h.named names) x).bind ?_
    rintro v _ ⟨rfl, hv⟩
    have hplace := hv.value v (.inr (List.mem_cons_self ..))
    have hdeclare := (hv.act (.declare e n v) hplace (by simp [HostAct.passed])).clear
    unfold Keeps
    dsimp only
    cases hd : s.state.store.declare e n v with
    | error x store => exact fun _ => hv.clear
    | ok u store =>
      have hrun : (HostAct.declare e n v).run s.state = { s.state with store } := by
        rw [HostAct.run, hd]
      rw [hrun] at hdeclare
      exact hdeclare
  | update k name x =>
    refine (keeps_env h k).bind ?_
    rintro e _ ⟨rfl, he⟩
    refine (keeps_intern _ name).bind ?_
    rintro n _ ⟨names, rfl⟩
    refine (keeps_operand (h.named names) x).bind ?_
    rintro v _ ⟨rfl, hv⟩
    have hplace := hv.value v (.inr (List.mem_cons_self ..))
    exact (hv.act (.update e n v) hplace (by simp [HostAct.passed])).clear
  | resolve k name =>
    refine (keeps_env h k).bind ?_
    rintro e _ ⟨rfl, he⟩
    refine (keeps_intern _ name).bind ?_
    rintro n _ ⟨names, rfl⟩
    refine sound_found (h.named names) fun v hv => ?_
    obtain ⟨o, -, ho⟩ := Store.resolve?_eq_some hv
    exact (h.named names).clear.gain (h.hosted.wellFormed.value ho) (.resolve · hv)
  | get k name =>
    refine (keeps_env h k).bind ?_
    rintro e _ ⟨rfl, he⟩
    refine (keeps_intern _ name).bind ?_
    rintro n _ ⟨names, rfl⟩
    refine sound_found (h.named names) fun v hv => ?_
    exact (h.named names).clear.gain (h.hosted.wellFormed.value hv) (.get · hv)
  | output | names => exact h.clear
  | clear =>
    exact (h.act (.attend s.state.channel.clear s.state.trace) trivial (by simp [HostAct.passed])).clear
  | isGlobal k | count k | frame k | debugFrame k | debugScope k =>
    refine (keeps_env h k).bind ?_
    rintro e _ ⟨rfl, he⟩
    exact h.clear
  | sameFrame j k =>
    refine (keeps_env h j).bind ?_
    rintro e _ ⟨rfl, -⟩
    refine (keeps_env h k).bind ?_
    rintro f _ ⟨rfl, -⟩
    exact h.clear
  | equals x y =>
    refine (keeps_operand h x).bind ?_
    rintro v _ ⟨rfl, -⟩
    refine (keeps_operand h y).bind ?_
    rintro w _ ⟨rfl, -⟩
    exact h.clear
  | inspect x | render x | debugValue x =>
    refine (keeps_operand h x).bind ?_
    rintro v _ ⟨rfl, -⟩
    exact h.clear
  | describe x =>
    refine (keeps_operand h x).bind ?_
    rintro v _ ⟨rfl, -⟩
    cases v <;> exact h.clear

theorem Sound.store (h : s.Sound vs) {v : Value} (hv : s.Sound [v]) :
    ({ s with slots := s.slots.push v } : Session).Sound [] := by
  have hall (w : Value) (hw : w ∈ s.slots.push v ∨ w ∈ ([] : List Value)) :
      w ∈ s.slots ∨ w ∈ [v] := by
    rcases Array.mem_push.mp (hw.resolve_right (by simp)) with hw | rfl
    · exact .inl hw
    · exact .inr (List.mem_singleton_self w)
  obtain ⟨held, made, hhosting, hheld⟩ := hv.hosting
  exact ⟨h.hosted, ⟨held, made, hhosting, fun w hw => hheld w (hall w hw)⟩,
    fun w hw => hv.value w (hall w hw), h.env, h.arena⟩

/-- A step that does not run out of fuel leaves the session sound. -/
theorem Sound.step (h : s.Sound []) (request : Step) (hr : s.InPlace request)
    (hfuel : (s.step request).1.answer ≠ .error (.stop .outOfFuel)) :
    (s.step request).2.Sound [] := by
  have hstart := h.act (.attend s.state.channel #[]) trivial (by simp [HostAct.passed])
  have hkept := keeps_perform hstart request (by cases request <;> exact hr)
  unfold Keeps at hkept
  unfold Session.step at hfuel ⊢
  dsimp only [HostAct.run] at hkept
  dsimp only at hfuel ⊢
  generalize Session.perform request _ = r at hkept hfuel ⊢
  cases r with
  | ok x s' =>
    dsimp only at hkept ⊢
    refine hkept.store ?_
    cases x with
    | value v => exact hkept
    | _ => exact hkept.clear.scalar rfl
  | error x s' =>
    have hs' := hkept fun hx => hfuel (congrArg Except.error hx)
    exact hs'.store (hs'.scalar rfl)

/-- Sessions after any steps that name nodes of their arenas and do not run out of fuel. -/
inductive Reached : Session → Prop where
  | new (sink : Sink) : Reached (Session.new sink)
  | step {s : Session} (request : Step) (h : Reached s) (hr : s.InPlace request)
      (hfuel : (s.step request).1.answer ≠ .error (.stop .outOfFuel)) : Reached (s.step request).2

private theorem sound_new (sink : Sink) : (Session.new sink).Sound [] := by
  have hslots : (Session.new sink).slots = #[] := rfl
  have harenas : (Session.new sink).arenas = #[] := rfl
  have henvs : (Session.new sink).envs = #[0] := rfl
  refine ⟨.act .newGlobal (.new sink) trivial,
    ⟨[], [], .act .newGlobal (.new sink) (by simp [HostAct.passed]), ?_⟩, ?_, ?_, ?_⟩
  · simp [hslots]
  · simp [hslots]
  · simp only [henvs, List.mem_toArray, List.mem_singleton]
    rintro e rfl
    exact Nat.zero_lt_one
  · simp [harenas]

/-- Whatever steps a session has taken, hosts reach its state, and the values that it has stored are among
those that a host gets hold of. Its frames, arenas and values are what evaluations and calls ask for. -/
theorem Reached.sound (h : Reached s) : s.Sound [] := by
  induction h with
  | new sink => exact sound_new sink
  | step request _ hr hfuel ih => exact ih.step request hr hfuel

/-- Searches from the frames that a session has handles to pass along chains of stored links. -/
theorem Reached.search (h : Reached s) {e : FrameId} (he : e ∈ s.envs) :
    ∃ path, s.state.store.Chain e path ∧ path.getLast? = some (s.state.store.global e) ∧
      ∀ n, s.state.store.owner? e n = path.find? (s.state.store.binds · n) :=
  h.sound.hosted.wellFormed.search (h.sound.env e he)

/-- Equal closures that a session has stored agree in everything. -/
theorem Reached.eq_of_equals (h : Reached s) {c d : Closure} (hc : .closure c ∈ s.slots)
    (hd : .closure d ∈ s.slots) (heq : (Value.closure c).equals (.closure d) = true) : c = d := by
  obtain ⟨held, made, hhosting, hheld⟩ := h.sound.hosting
  have hamong {f : Closure} (hf : .closure f ∈ s.slots) : f ∈ made :=
    hhosting.sound.held _ (hheld _ (.inl hf)) f rfl
  exact hhosting.sound.eq_of_equals (hamong hc) (hamong hd) heq

end Session
end Treewalk
