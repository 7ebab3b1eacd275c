import Treewalk.Proofs.Confinement

/-! A name that the code does not mention has no part in evaluation.
It may be bound in any frame and to anything; code that never spells it, and reaches no closure that
does, runs as if it were not there, and leaves its bindings as they are. -/
namespace Treewalk

inductive Arena.Mentions (a : Arena) (x : Name) : ExprId → Prop where
  | here {i : ExprId} {n : Node} (hi : a.node? i = some n) (hx : x ∈ a.namesAt n) : Mentions a x i
  | child {i j : ExprId} {n : Node} (hi : a.node? i = some n) (hj : j ∈ a.children n)
      (h : Mentions a x j) : Mentions a x i

/-- Children come before their parents, so only nodes up to a node can mention a name for it. -/
theorem Arena.WellFormed.not_mentions {a : Arena} (ha : a.WellFormed) {x : Name} {i : ExprId}
    (h : ∀ j ≤ i, ∀ n ∈ a.node? j, x ∉ a.namesAt n) : ¬ a.Mentions x i := by
  intro hx
  induction hx with
  | @here i n hi hx => exact h i (Nat.le_refl i) n hi hx
  | @child i j n hi hj _ ih =>
    have hlt : j < i := ha.child_lt hi j hj
    exact ih fun k hk => h k (Nat.le_trans hk (Nat.le_of_lt hlt))

/-- A name is a parameter of a closure or stands in its body. -/
def Closure.Mentions (c : Closure) (x : Name) : Prop :=
  x ∈ c.params ∨ c.arena.arena.Mentions x c.body

/-- A value that is no closure, or one that can be run and does not mention `x`. -/
def Value.Silent (x : Name) (v : Value) : Prop :=
  v.Runnable (fun _ => True) ∧ ∀ c, v = .closure c → ¬ c.Mentions x

private theorem Value.silent_of_scalar {x : Name} {v : Value} (h : v.asClosure? = none) : v.Silent x := by
  refine ⟨Value.runnable_of_scalar h, ?_⟩
  rintro c rfl
  cases h

namespace Store

/-- Stores of the same shape that agree on every name but `x`. -/
structure SameBut (x : Name) (s₁ s₂ : Store) : Prop where
  size : s₁.size = s₂.size
  link : ∀ f, s₁.link? f = s₂.link? f
  get : ∀ f n, n ≠ x → s₁.get? f n = s₂.get? f n

variable {x : Name} {s s₁ s₂ : Store}

theorem SameBut.bind (h : SameBut x s₁ s₂) (e : FrameId) (n : Name) (v : Value) :
    SameBut x (s₁.bind e n v) (s₂.bind e n v) where
  size := by rw [size_bind, size_bind, h.size]
  link f := by rw [link?_bind, link?_bind, h.link]
  get f m hm := by rw [get?_bind, get?_bind, h.size, h.get f m hm]

theorem SameBut.push (h : SameBut x s₁ s₂) (o : Option FrameId) :
    SameBut x (push { outer := o } s₁).2 (push { outer := o } s₂).2 where
  size := by rw [size_push, size_push, h.size]
  link f := by rw [link?_push, link?_push, h.size, h.link]
  get f m hm := by rw [get?_push, get?_push, h.get f m hm]

private theorem get?_bind_of_ne (s : Store) (e f : FrameId) {n m : Name} (h : n ≠ m) (v : Value) :
    (s.bind e n v).get? f m = s.get? f m := by
  rw [get?_bind, if_neg fun hall => h hall.2.1]

end Store

/-- The states of two runs that began in `old₁` and `old₂`. They differ in what `x` is bound to, and
there in nothing else than they did before. -/
structure SameBut (x : Name) (old₁ old₂ st₁ st₂ : State) : Prop where
  stores : st₁.store.SameBut x st₂.store
  silent : ∀ f n v, n ≠ x → st₁.store.get? f n = some v → v.Silent x
  left₁ : ∀ f, st₁.store.get? f x = old₁.store.get? f x
  left₂ : ∀ f, st₂.store.get? f x = old₂.store.get? f x
  next : st₁.nextClosure = st₂.nextClosure
  channel : (Surroundings.since old₁ old₂).Channels st₁.channel st₂.channel
  trace : (Surroundings.since old₁ old₂).Traces st₁.trace st₂.trace

namespace SameBut
variable {x : Name} {old₁ old₂ st₁ st₂ : State}

theorem bind (h : SameBut x old₁ old₂ st₁ st₂) (e : FrameId) {n : Name} (hn : n ≠ x) {v : Value}
    (hv : v.Silent x) : SameBut x old₁ old₂ (st₁.bind e n v) (st₂.bind e n v) where
  stores := h.stores.bind e n v
  silent f m w hm hw := by
    rw [State.store_bind, Store.get?_bind] at hw
    split at hw
    · cases hw
      exact hv
    · exact h.silent f m w hm hw
  left₁ f := (st₁.store.get?_bind_of_ne e f hn v).trans (h.left₁ f)
  left₂ f := (st₂.store.get?_bind_of_ne e f hn v).trans (h.left₂ f)
  next := h.next
  channel := h.channel
  trace := h.trace

theorem child (h : SameBut x old₁ old₂ st₁ st₂) (e : FrameId) :
    SameBut x old₁ old₂ (st₁.child e) (st₂.child e) where
  stores := h.stores.push (some e)
  silent f n v hn hv := h.silent f n v hn (by rwa [State.store_child, Store.get?_push] at hv)
  left₁ f := (Store.get?_push (some e) st₁.store f x).trans (h.left₁ f)
  left₂ f := (Store.get?_push (some e) st₂.store f x).trans (h.left₂ f)
  next := h.next
  channel := h.channel
  trace := h.trace

end SameBut

/-- The simulation of a run by one from a state in which `x` is bound otherwise. -/
def Simulation.unmentioned (x : Name) (old₁ old₂ : State) : Simulation where
  It it₁ it₂ := it₁.names = it₂.names ∧ it₁.depth = it₂.depth
  St := SameBut x old₁ old₂
  Nm n₁ n₂ := n₁ = n₂ ∧ n₁ ≠ x
  Fr := Eq
  Val v w := v = w ∧ v.Silent x
  Code it₁ i₁ it₂ i₂ := it₁ = it₂ ∧ i₁ = i₂ ∧ it₁.arena.arena.WellFormed ∧
    i₁ < it₁.arena.arena.size ∧ ¬ it₁.arena.arena.Mentions x i₁
  it_of_code := by
    rintro it _ _ _ ⟨rfl, _⟩
    exact ⟨rfl, rfl⟩
  node := by
    rintro it i _ _ ⟨rfl, rfl, ha, hi, hx⟩
    obtain ⟨n, hn⟩ := Arena.node?_isSome hi
    refine ⟨n, n, hn, hn, ha.matching_self hn (fun j hj => ?_) fun y hy => ⟨rfl, ?_⟩⟩
    · exact ⟨rfl, rfl, ha, Nat.lt_trans (ha.child_lt hn j hj) hi, fun h => hx (.child hn hj h)⟩
    · rintro rfl
      exact hx (.here hn hy)
  text := by
    rintro it₁ it₂ n _ ⟨hnames, _⟩ ⟨rfl, _⟩
    rw [hnames]
  scalar h := ⟨rfl, Value.silent_of_scalar h⟩
  kind := by
    rintro v _ ⟨rfl, _⟩
    cases v with
    | closure c => exact .inr ⟨c, c, rfl, rfl⟩
    | _ => exact .inl ⟨rfl, rfl⟩
  same := by
    rintro c _ c' _ ⟨⟨⟩, _⟩ ⟨⟨⟩, _⟩
    exact Iff.rfl
  params := by
    rintro c _ ⟨⟨⟩, _, hc⟩
    refine List.forall₂_same.mpr fun n hn => ⟨rfl, ?_⟩
    rintro rfl
    exact hc c rfl (.inl hn)
  outer := by
    rintro st₁ st₂ e _ hst rfl
    rw [Store.outer?_eq, Store.outer?_eq, hst.stores.link]
    cases (st₂.store.link? e).filter (· < e) with
    | none => exact .none
    | some o => exact .some rfl
  get := by
    rintro st₁ st₂ e _ n _ hst rfl ⟨rfl, hn⟩
    rw [← hst.stores.get e n hn]
    cases hg : st₁.store.get? e n with
    | none => exact .none
    | some v => exact .some ⟨rfl, hst.silent e n v hn hg⟩
  log ht hst := { hst with trace := (Surroundings.since old₁ old₂).log ht hst.trace }
  logApply hit hst := { hst with trace := (Surroundings.since old₁ old₂).logApply _ hit.2 hst.trace }
  println hst := { hst with channel := (Surroundings.since old₁ old₂).println _ hst.channel }
  bind := by
    rintro st₁ st₂ e _ n _ v _ hst rfl ⟨rfl, hn⟩ ⟨rfl, hv⟩
    exact hst.bind e hn hv
  child := by
    rintro st₁ st₂ c _ hst ⟨⟨⟩, _⟩
    exact ⟨hst.child c.env, hst.stores.size⟩
  closure := by
    rintro it b _ _ ps₁ ps₂ e _ st₁ st₂ ⟨rfl, rfl, ha, hb, hx⟩ hps rfl hst
    obtain ⟨rfl, hparams⟩ : ps₁ = ps₂ ∧ x ∉ ps₁ := by
      induction hps with
      | nil => exact ⟨rfl, List.not_mem_nil⟩
      | cons hn _ ih =>
        obtain ⟨rfl, hne⟩ := hn
        exact ⟨congrArg _ ih.1, List.not_mem_cons_of_ne_of_not_mem hne.symm ih.2⟩
    refine ⟨⟨?_, ?_, ?_⟩, { hst with next := congrArg (· + 1) hst.next }⟩
    · simp [State.newClosure, hst.next]
    · rintro c ⟨⟩
      exact ⟨ha, hb, trivial⟩
    · rintro c ⟨⟩ (hp | hbody)
      · exact hparams hp
      · exact hx hbody
  body := by
    rintro it₁ it₂ c _ ⟨hnames, hdepth⟩ ⟨⟨⟩, hrun, hc⟩
    refine ⟨?_, rfl, (hrun c rfl).1, (hrun c rfl).2.1, fun h => hc c rfl (.inr h)⟩
    rw [Interpreter.callee, Interpreter.callee, hnames, hdepth]

/-- Take two states of the same shape that agree on all names but `x`, and code that does not mention
`x`, nor does any closure bound to another name. Evaluation comes to the same outcome in both, prints
and traces the same, and leaves states that agree on all names but `x`. In each of them `x` is bound in
the old frames as it was before, and in no new frame. -/
theorem unmentioned_name_is_inert (fuel : Nat) (it : Interpreter) (e : FrameId) (i : ExprId)
    (x : Name) (st₁ st₂ : State) (hs : st₁.store.WellFormed) (ha : it.arena.arena.WellFormed)
    (hi : i < it.arena.arena.size) (hsame : st₁.store.SameBut x st₂.store)
    (hnext : st₁.nextClosure = st₂.nextClosure) (hx : ¬ it.arena.arena.Mentions x i)
    (hclosures : ∀ f n c, n ≠ x → st₁.store.get? f n = some (.closure c) → ¬ c.Mentions x) :
    let r₁ := Run.split (it.eval fuel e i st₁)
    let r₂ := Run.split (it.eval fuel e i st₂)
    r₁.1 = r₂.1 ∧ SameEffects st₁ r₁.2 st₂ r₂.2 ∧ r₁.2.nextClosure = r₂.2.nextClosure ∧
      r₁.2.store.SameBut x r₂.2.store ∧
      (∀ f < st₁.store.size, r₁.2.store.get? f x = st₁.store.get? f x ∧
        r₂.2.store.get? f x = st₂.store.get? f x) ∧
      ∀ f, st₁.store.size ≤ f → r₁.2.store.get? f x = none ∧ r₂.2.store.get? f x = none := by
  intro r₁ r₂
  have hstart : SameBut x st₁ st₂ st₁ st₂ := {
    stores := hsame
    silent f n v hn hv := by
      refine ⟨(hs.value hv).runnable fun _ _ => trivial, ?_⟩
      rintro c rfl
      exact hclosures f n c hn hv
    left₁ _ := rfl
    left₂ _ := rfl
    next := hnext
    channel := ⟨[], rfl, rfl⟩
    trace := ⟨#[], by simp, by simp⟩ }
  let S := Simulation.unmentioned x st₁ st₂
  have hcode : S.Code it i it i := ⟨rfl, rfl, ha, hi, hx⟩
  have hframe : S.Fr e e := rfl
  obtain ⟨hout, hst⟩ := (S.agree_eval fuel hcode hframe st₁ st₂ hstart).split fun hv => hv.1
  refine ⟨hout, ⟨hst.channel, hst.trace⟩, hst.next, hst.stores,
    fun f _ => ⟨hst.left₁ f, hst.left₂ f⟩, fun f hf => ?_⟩
  rw [hst.left₁ f, hst.left₂ f]
  exact ⟨Store.get?_eq_none_of_le hf x, Store.get?_eq_none_of_le (hsame.size ▸ hf) x⟩

/-- The calls that build `var z = y`, `f(2)` and `function(x) { x }`. -/
def bystanderCalls : List BuildCall :=
  [.ident "y", .declare "z" 0, .ident "f", .literal (.int 2), .call 2 [3], .ident "x",
    .function ["x"] 5]

/-- `f(2)` with `f` bound to `function(y) { var z = y }` runs the same whether or not a function that
uses `x` is bound to `x`, and does not touch that binding. -/
theorem bystander_function_is_inert :
    let b := (Builder.replay bystanderCalls { names := .empty } []).1
    let it : Interpreter := { names := b.names, arena := { id := 0, arena := b.arena } }
    let f : Closure := { id := 0, params := [⟨1⟩], body := 1, arena := it.arena, env := 0 }
    let g : Closure := { id := 1, params := [⟨4⟩], body := 5, arena := it.arena, env := 0 }
    let without := { (State.fresh .buffer).bind 0 ⟨3⟩ (.closure f) with nextClosure := 2 }
    let st := without.bind 0 ⟨4⟩ (.closure g)
    let r := Run.split (it.eval 4 0 4 st)
    let r' := Run.split (it.eval 4 0 4 without)
    r.1 = .ok (.int 2) ∧ r.1 = r'.1 ∧ SameEffects st r.2 without r'.2 ∧
      r.2.store.get? 0 ⟨4⟩ = st.store.get? 0 ⟨4⟩ ∧ r.2.store.get? 1 ⟨4⟩ = none ∧
      r.2.store.toList 1 = [(⟨1⟩, .int 2), (⟨2⟩, .int 2)] := by
  intro b it f g without st r r'
  obtain ⟨ha, hids⟩ := ((Built.new .empty).replay bystanderCalls).wellFormed
  have hf : (Value.closure f).WellFormed (State.fresh .buffer).store := by
    rintro c ⟨⟩
    exact ⟨ha, hids 1 (by decide +kernel), by decide⟩
  have hg : (Value.closure g).WellFormed without.store := by
    rintro c ⟨⟩
    exact ⟨ha, hids 5 (by decide +kernel), by decide⟩
  have hs : st.store.WellFormed := ((State.wellFormed_fresh .buffer).bind 0 ⟨3⟩ hf).bind 0 ⟨4⟩ hg
  have hsame : st.store.SameBut ⟨4⟩ without.store :=
    ⟨Store.size_bind .., fun h => Store.link?_bind .., fun h n hn =>
      Store.get?_bind_of_ne _ 0 h hn.symm _⟩
  have hquiet : ¬ it.arena.arena.Mentions ⟨4⟩ 4 := ha.not_mentions (by decide +kernel)
  have hclosures : ∀ h n c, n ≠ ⟨4⟩ → st.store.get? h n = some (.closure c) → ¬ c.Mentions ⟨4⟩ := by
    intro h n c hn hc
    rw [hsame.get h n hn] at hc
    have hbound : without.store.get? h n = if 0 = h ∧ (⟨3⟩ : Name) = n ∧ h < 1 then
        some (.closure f) else (State.fresh .buffer).store.get? h n := Store.get?_bind ..
    rw [hbound, State.get?_fresh] at hc
    split at hc
    · obtain rfl : f = c := by simpa using hc
      rintro (hp | hbody)
      · exact absurd hp (by decide)
      · exact ha.not_mentions (by decide +kernel) hbody
    · cases hc
  obtain ⟨hout, heffects, -, -, hold, hnew⟩ := unmentioned_name_is_inert 4 it 0 4 ⟨4⟩ st without hs ha
    (hids 4 (by decide +kernel)) hsame rfl hquiet hclosures
  refine ⟨?_, hout, heffects, (hold 0 (by decide)).1, (hnew 1 (by decide)).1, ?_⟩
  · decide +kernel
  · decide +kernel

end Treewalk
