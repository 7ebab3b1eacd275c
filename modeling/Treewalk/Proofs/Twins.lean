import Treewalk.Proofs.Region
import Treewalk.Proofs.Simulation

/-! Twin runs: the same code in the same frames, with other things around it.
The surroundings of a run are its nesting depth, its channel and its trace; and of the store only the
frames of one region have to be the same. Twins come to the same end. -/
namespace Treewalk

/-- How the surroundings of two runs are related, and stay related. -/
structure Surroundings where
  Depth : Nat → Nat → Prop
  Channels : Channel → Channel → Prop
  Traces : Array TraceEntry → Array TraceEntry → Prop
  deeper : ∀ {d₁ d₂}, Depth d₁ d₂ → Depth (d₁ + 1) (d₂ + 1)
  println : ∀ {c₁ c₂} (line : String), Channels c₁ c₂ → Channels (c₁.println line) (c₂.println line)
  log : ∀ {t₁ t₂ x}, (∀ n d, x ≠ .apply n d) → Traces t₁ t₂ → Traces (t₁.push x) (t₂.push x)
  logApply : ∀ {t₁ t₂ d₁ d₂} (n : Nat), Depth d₁ d₂ → Traces t₁ t₂ →
    Traces (t₁.push (.apply n d₁)) (t₂.push (.apply n d₂))

/-- A value that is no closure, or one that can be run and whose captured frame lies in the region. -/
def Value.Runnable (A : FrameId → Prop) (v : Value) : Prop :=
  ∀ c, v = .closure c → c.arena.arena.WellFormed ∧ c.body < c.arena.arena.size ∧ A c.env

theorem Value.runnable_of_scalar {A : FrameId → Prop} {v : Value} (h : v.asClosure? = none) :
    v.Runnable A := by
  rintro c rfl
  cases h

theorem Value.WellFormed.runnable {v : Value} {s : Store} (h : v.WellFormed s) {A : FrameId → Prop}
    (hA : v.Inside A) : v.Runnable A :=
  fun c hc => ⟨(h c hc).arena, (h c hc).body, hA c hc⟩

/-- States that differ in their surroundings and outside the region `A`, to which every frame still to
come belongs. -/
structure Twins (U : Surroundings) (A : FrameId → Prop) (st₁ st₂ : State) : Prop where
  size : st₁.store.size = st₂.store.size
  new : ∀ f, st₁.store.size ≤ f → A f
  frame : ∀ {f}, A f → st₁.store.frame? f = st₂.store.frame? f
  closed : st₁.store.Closed A (Value.Runnable A)
  next : st₁.nextClosure = st₂.nextClosure
  channel : U.Channels st₁.channel st₂.channel
  trace : U.Traces st₁.trace st₂.trace

namespace Twins
variable {U : Surroundings} {A : FrameId → Prop} {st₁ st₂ : State}

private theorem link?_eq (h : Twins U A st₁ st₂) {f : FrameId} (hf : A f) :
    st₁.store.link? f = st₂.store.link? f := by
  rw [Store.link?, Store.link?, h.frame hf]

private theorem get?_eq (h : Twins U A st₁ st₂) {f : FrameId} (hf : A f) (n : Name) :
    st₁.store.get? f n = st₂.store.get? f n := by
  rw [Store.get?, Store.get?, h.frame hf]

theorem bind (h : Twins U A st₁ st₂) (e : FrameId) (n : Name) {v : Value} (hv : v.Runnable A) :
    Twins U A (st₁.bind e n v) (st₂.bind e n v) where
  size := by simp [h.size]
  new f hf := h.new f (by simpa using hf)
  frame hf := by rw [State.store_bind, State.store_bind, Store.frame?_bind, Store.frame?_bind, h.frame hf]
  closed := h.closed.bind e n hv
  next := h.next
  channel := h.channel
  trace := h.trace

theorem child (h : Twins U A st₁ st₂) {e : FrameId} (he : A e) :
    Twins U A (st₁.child e) (st₂.child e) where
  size := by simp [Store.size_push, h.size]
  new f hf := h.new f (Nat.le_of_succ_le (by simpa [Store.size_push] using hf))
  frame hf := by
    rw [State.store_child, State.store_child, Store.frame?_push, Store.frame?_push, h.size, h.frame hf]
  closed := h.closed.child he
  next := h.next
  channel := h.channel
  trace := h.trace

end Twins

/-- The names that stand at a node: its own one, or those of its parameter list. -/
def Arena.namesAt (a : Arena) : Node → List Name
  | .ident x | .declare x _ | .assign x _ => [x]
  | .function span _ => (a.params? span).getD []
  | _ => []

theorem Arena.WellFormed.matching_self {a : Arena} (ha : a.WellFormed) {i : ExprId} {n : Node}
    (hn : a.node? i = some n) {C : ExprId → ExprId → Prop} (hC : ∀ j ∈ a.children n, C j j)
    {N : Name → Name → Prop} (hN : ∀ x ∈ a.namesAt n, N x x) : Node.Matching a a C N n n := by
  cases n with
  | literal l => exact .literal l
  | ident x => exact .ident (hN x (by simp [namesAt]))
  | print j => exact .print (hC j (by simp))
  | binary op j k => exact .binary op (hC j (by simp)) (hC k (by simp))
  | ifElse j k no =>
    refine .ifElse (hC j (by simp)) (hC k (by simp)) ?_
    cases no with
    | none => exact .none
    | some l => exact .some (hC l (by simp))
  | loop j k => exact .loop (hC j (by simp)) (hC k (by simp))
  | seq j k => exact .seq (hC j (by simp)) (hC k (by simp))
  | declare x j => exact .declare (hN x (by simp [namesAt])) (hC j (by simp))
  | assign x j => exact .assign (hN x (by simp [namesAt])) (hC j (by simp))
  | function span j =>
    obtain ⟨ps, hp⟩ := ha.params? hn
    refine .function hp hp (List.forall₂_same.mpr fun x hx => hN x ?_) (hC j (by simp))
    simpa [namesAt, hp] using hx
  | call f span =>
    obtain ⟨is, his⟩ := ha.args? hn
    refine .call (hC f (by simp)) his his (List.forall₂_same.mpr fun j hj => hC j ?_)
    simp [his, hj]

namespace Surroundings
variable {U : Surroundings} {A : FrameId → Prop}

/-- The simulation of a run by its twin: ids, names, frames and values are the same on both sides. -/
def simulation (U : Surroundings) (A : FrameId → Prop) : Simulation where
  It it₁ it₂ := it₁.names = it₂.names ∧ U.Depth it₁.depth it₂.depth
  St := Twins U A
  Nm := Eq
  Fr e₁ e₂ := e₁ = e₂ ∧ A e₁
  Val v w := v = w ∧ v.Runnable A
  Code it₁ i₁ it₂ i₂ := (it₁.names = it₂.names ∧ U.Depth it₁.depth it₂.depth) ∧
    it₁.arena = it₂.arena ∧ i₁ = i₂ ∧ it₁.arena.arena.WellFormed ∧ i₁ < it₁.arena.arena.size
  it_of_code h := h.1
  node := by
    rintro it₁ i it₂ _ ⟨hit, harena, rfl, ha, hi⟩
    obtain ⟨n, hn⟩ := Arena.node?_isSome hi
    refine ⟨n, n, hn, harena ▸ hn, ?_⟩
    rw [← harena]
    refine ha.matching_self hn (fun j hj => ⟨hit, rfl, rfl, ha, ?_⟩) fun _ _ => rfl
    exact Nat.lt_trans (ha.child_lt hn j hj) hi
  text := by
    rintro it₁ it₂ n _ ⟨hnames, _⟩ rfl
    rw [hnames]
  scalar h := ⟨rfl, Value.runnable_of_scalar h⟩
  kind := by
    rintro v _ ⟨rfl, _⟩
    cases v with
    | closure c => exact .inr ⟨c, c, rfl, rfl⟩
    | _ => exact .inl ⟨rfl, rfl⟩
  same := by
    rintro c _ c' _ ⟨⟨⟩, _⟩ ⟨⟨⟩, _⟩
    exact Iff.rfl
  params := by
    rintro c _ ⟨⟨⟩, _⟩
    exact List.forall₂_same.mpr fun _ _ => rfl
  outer := by
    rintro st₁ st₂ e _ hst ⟨rfl, he⟩
    rw [Store.outer?_eq, Store.outer?_eq, ← hst.link?_eq he, ← Store.outer?_eq]
    cases ho : st₁.store.outer? e with
    | none => exact .none
    | some o => exact .some ⟨rfl, hst.closed.outer? he ho⟩
  get := by
    rintro st₁ st₂ e _ n _ hst ⟨rfl, he⟩ rfl
    rw [← hst.get?_eq he]
    cases hg : st₁.store.get? e n with
    | none => exact .none
    | some v => exact .some ⟨rfl, hst.closed.value he hg⟩
  log ht hst := { hst with trace := U.log ht hst.trace }
  logApply hit hst := { hst with trace := U.logApply _ hit.2 hst.trace }
  println hst := { hst with channel := U.println _ hst.channel }
  bind := by
    rintro st₁ st₂ e _ n _ v _ hst ⟨rfl, _⟩ rfl ⟨rfl, hv⟩
    exact hst.bind e n hv
  child := by
    rintro st₁ st₂ c _ hst ⟨⟨⟩, hc⟩
    exact ⟨hst.child (hc c rfl).2.2, hst.size, hst.new _ (Nat.le_refl _)⟩
  closure := by
    rintro it₁ b it₂ _ ps₁ ps₂ e _ st₁ st₂ ⟨_, harena, rfl, ha, hb⟩ hps ⟨rfl, he⟩ hst
    obtain rfl : ps₁ = ps₂ := List.forall₂_eq_eq_eq ▸ hps
    refine ⟨⟨?_, ?_⟩, { hst with next := congrArg (· + 1) hst.next }⟩
    · simp [State.newClosure, harena, hst.next]
    · rintro c ⟨⟩
      exact ⟨ha, hb, he⟩
  body := by
    rintro it₁ it₂ c _ ⟨hnames, hdepth⟩ ⟨⟨⟩, hc⟩
    exact ⟨⟨hnames, U.deeper hdepth⟩, rfl, rfl, (hc c rfl).1, (hc c rfl).2.1⟩

/-- Two ends with the same outcome, in states that are twins. -/
def SameEnd (U : Surroundings) (A : FrameId → Prop) (r₁ r₂ : EStateM.Result Stop State Value) :
    Prop :=
  (Run.split r₁).1 = (Run.split r₂).1 ∧ Twins U A (Run.split r₁).2 (Run.split r₂).2

private theorem sameEnd_of_matches {r₁ r₂ : EStateM.Result Stop State Value}
    (h : (U.simulation A).Matches (U.simulation A).Val r₁ r₂) : U.SameEnd A r₁ r₂ :=
  h.split fun hv => hv.1

/-- Evaluating one node in twin states comes to the same end, with any fuel. -/
theorem sameEnd_eval (fuel : Nat) {it₁ it₂ : Interpreter} (hnames : it₁.names = it₂.names)
    (hdepth : U.Depth it₁.depth it₂.depth) (harena : it₁.arena = it₂.arena)
    (ha : it₁.arena.arena.WellFormed) {i : ExprId} (hi : i < it₁.arena.arena.size) {e : FrameId}
    (he : A e) {st₁ st₂ : State} (hst : Twins U A st₁ st₂) :
    U.SameEnd A (it₁.eval fuel e i st₁) (it₂.eval fuel e i st₂) :=
  sameEnd_of_matches <|
    (U.simulation A).agree_eval fuel ⟨⟨hnames, hdepth⟩, harena, rfl, ha, hi⟩ ⟨rfl, he⟩ _ _ hst

/-- So does calling one function in them, from whatever arenas. -/
theorem sameEnd_call (fuel : Nat) {it₁ it₂ : Interpreter} (hnames : it₁.names = it₂.names)
    (hdepth : U.Depth it₁.depth it₂.depth) {callee : Value} (hc : callee.Runnable A)
    {args : List Value} (ha : ∀ v ∈ args, v.Runnable A) {st₁ st₂ : State}
    (hst : Twins U A st₁ st₂) :
    U.SameEnd A (it₁.call fuel callee args st₁) (it₂.call fuel callee args st₂) :=
  sameEnd_of_matches <|
    (U.simulation A).agree_call fuel ⟨hnames, hdepth⟩ ⟨rfl, hc⟩
      (List.forall₂_same.mpr fun v hv => ⟨rfl, ha v hv⟩) _ _ hst

end Surroundings
end Treewalk
