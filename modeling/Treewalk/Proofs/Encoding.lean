import Treewalk.Proofs.Fuel
import Treewalk.Proofs.Simulation
import Treewalk.Proofs.Unfolding

/-! The meaning of a program is the meaning of its tree.
Two encodings of one tree run side by side: frames and closures get the same numbers, names differ but
spell the same texts, and the bodies of closures stand for the same code. -/
namespace Treewalk

/-- What two runs show of their ends, with `R` telling which values of the first stand for which of
the second. -/
structure Run.Alike (r₁ r₂ : Run) (R : Value → Value → Prop) : Prop where
  kind : ∀ {v w}, R v w → v.typeName = w.typeName
  rendering : ∀ {v w}, R v w → v.render r₁.names = w.render r₂.names
  equals : ∀ {v w v' w'}, R v w → R v' w' → v.equals v' = w.equals w'
  outcome : (∃ v w, r₁.outcome = .ok v ∧ r₂.outcome = .ok w ∧ R v w) ∨
    ∃ x, r₁.outcome = .error (.raised x) ∧ r₂.outcome = .error (.raised x)
  output : r₁.state.channel.captured = r₂.state.channel.captured
  trace : r₁.state.trace = r₂.state.trace
  texts : ∀ s, (∃ v, (s, v) ∈ r₁.globals) ↔ ∃ w, (s, w) ∈ r₂.globals
  globals : ∀ {s v w}, (s, v) ∈ r₁.globals → (s, w) ∈ r₂.globals → R v w

/-- A program as the evaluator takes it: an interner, an arena with names of that interner, and a root
in it. -/
structure Encoding where
  names : Interner
  arena : SharedArena
  root : ExprId
  made : names.Made
  wellFormed : arena.arena.WellFormed
  named : arena.arena.NamedBy names
  root_lt : root < arena.arena.size

namespace Encoding

noncomputable def tree (p : Encoding) : Code :=
  (p.wellFormed.unfolds p.named p.root_lt).choose

private theorem unfolds_tree (p : Encoding) : p.arena.arena.Unfolds p.names p.root p.tree :=
  (p.wellFormed.unfolds p.named p.root_lt).choose_spec

private theorem tree_eq {p : Encoding} {c : Code} (h : p.arena.arena.Unfolds p.names p.root c) :
    p.tree = c := p.unfolds_tree.unique h

/-- A run in a fresh global frame that keeps its output in a buffer. -/
def run (p : Encoding) (fuel : Nat) : Run :=
  Run.ofNode p.names p.arena p.root .buffer (Interpreter.evaluate fuel)

private theorem names_run (p : Encoding) (fuel : Nat) : (p.run fuel).names = p.names := by
  rw [run, Run.ofNode_eq]

private theorem globalFrame_run (p : Encoding) (fuel : Nat) : (p.run fuel).globalFrame = 0 := by
  rw [run, Run.ofNode_eq]

variable {t₁ t₂ : Interner}

/-- Two names that were given out for one text. -/
def SameText (t₁ t₂ : Interner) (n₁ n₂ : Name) : Prop := ∃ s, t₁.Spells n₁ s ∧ t₂.Spells n₂ s

/-- Two nodes that stand for one tree. -/
def SameCode (t₁ t₂ : Interner) (a₁ : Arena) (i₁ : ExprId) (a₂ : Arena) (i₂ : ExprId) : Prop :=
  ∃ c, a₁.Unfolds t₁ i₁ c ∧ a₂.Unfolds t₂ i₂ c

/-- Equal scalars, or closures that differ at most in how their code is encoded. -/
inductive SameValue (t₁ t₂ : Interner) : Value → Value → Prop where
  | scalar {v : Value} (h : v.asClosure? = none) : SameValue t₁ t₂ v v
  | closure {c d : Closure} (hid : c.id = d.id) (henv : c.env = d.env)
      (hparams : List.Forall₂ (SameText t₁ t₂) c.params d.params)
      (hbody : SameCode t₁ t₂ c.arena.arena c.body d.arena.arena d.body) :
      SameValue t₁ t₂ (.closure c) (.closure d)

/-- Every frame binds the same texts on both sides, to values of the same meaning. -/
structure SameState (t₁ t₂ : Interner) (st₁ st₂ : State) : Prop where
  size : st₁.store.size = st₂.store.size
  link : ∀ e, st₁.store.link? e = st₂.store.link? e
  get : ∀ {e n₁ n₂}, SameText t₁ t₂ n₁ n₂ →
    Option.Rel (SameValue t₁ t₂) (st₁.store.get? e n₁) (st₂.store.get? e n₂)
  left : ∀ {e n₁ v}, st₁.store.get? e n₁ = some v → ∃ n₂, SameText t₁ t₂ n₁ n₂
  right : ∀ {e n₂ v}, st₂.store.get? e n₂ = some v → ∃ n₁, SameText t₁ t₂ n₁ n₂
  next : st₁.nextClosure = st₂.nextClosure
  channel : st₁.channel = st₂.channel
  trace : st₁.trace = st₂.trace

theorem SameText.eq_iff (h₁ : t₁.Consistent) (h₂ : t₂.Consistent) {n₁ n₂ m₁ m₂ : Name}
    (hn : SameText t₁ t₂ n₁ n₂) (hm : SameText t₁ t₂ m₁ m₂) : n₁ = m₁ ↔ n₂ = m₂ := by
  obtain ⟨s, hn₁, hn₂⟩ := hn
  obtain ⟨r, hm₁, hm₂⟩ := hm
  constructor
  · rintro rfl
    obtain rfl := Option.some.inj (hn₁.symm.trans hm₁)
    exact h₂.name_unique hn₂ hm₂
  · rintro rfl
    obtain rfl := Option.some.inj (hn₂.symm.trans hm₂)
    exact h₁.name_unique hn₁ hm₁

theorem SameState.bind (h₁ : t₁.Consistent) (h₂ : t₂.Consistent) {st₁ st₂ : State}
    (h : SameState t₁ t₂ st₁ st₂) (e : FrameId) {n₁ n₂ : Name} {v₁ v₂ : Value}
    (hn : SameText t₁ t₂ n₁ n₂) (hv : SameValue t₁ t₂ v₁ v₂) :
    SameState t₁ t₂ (st₁.bind e n₁ v₁) (st₂.bind e n₂ v₂) where
  size := by simp [h.size]
  link f := by simp [Store.link?_bind, h.link]
  get {f m₁ m₂} hm := by
    simp only [State.store_bind, Store.get?_bind, h.size, hn.eq_iff h₁ h₂ hm]
    split
    · exact .some hv
    · exact h.get hm
  left {f m₁ w} hg := by
    rw [State.store_bind, Store.get?_bind] at hg
    split at hg
    · rename_i hm
      exact hm.2.1 ▸ ⟨n₂, hn⟩
    · exact h.left hg
  right {f m₂ w} hg := by
    rw [State.store_bind, Store.get?_bind] at hg
    split at hg
    · rename_i hm
      exact hm.2.1 ▸ ⟨n₁, hn⟩
    · exact h.right hg
  next := h.next
  channel := h.channel
  trace := h.trace

theorem SameState.child {st₁ st₂ : State} (h : SameState t₁ t₂ st₁ st₂) (e : FrameId) :
    SameState t₁ t₂ (st₁.child e) (st₂.child e) where
  size := by simp [Store.size_push, h.size]
  link f := by simp [Store.link?_push, h.size, h.link]
  get {f n₁ n₂} hn := by
    rw [State.store_child, State.store_child, Store.get?_push, Store.get?_push]
    exact h.get hn
  left {f n₁ v} hg := h.left (by rwa [State.store_child, Store.get?_push] at hg)
  right {f n₂ v} hg := h.right (by rwa [State.store_child, Store.get?_push] at hg)
  next := h.next
  channel := h.channel
  trace := h.trace

private theorem sameText_of_spells {ps₁ ps₂ : List Name} {ss : List String}
    (h₁ : List.Forall₂ t₁.Spells ps₁ ss) (h₂ : List.Forall₂ t₂.Spells ps₂ ss) :
    List.Forall₂ (SameText t₁ t₂) ps₁ ps₂ := by
  induction h₁ generalizing ps₂ with
  | nil =>
    cases h₂
    exact .nil
  | cons hn _ ih =>
    cases h₂ with
    | cons hm h₂ => exact .cons ⟨_, hn, hm⟩ (ih h₂)

/-- Nodes of one tree are of one kind, and so are those below them. -/
theorem matching {a₁ a₂ : Arena} {i₁ i₂ : ExprId} {C : ExprId → ExprId → Prop}
    (hC : ∀ {j₁ j₂}, SameCode t₁ t₂ a₁ j₁ a₂ j₂ → C j₁ j₂) (h : SameCode t₁ t₂ a₁ i₁ a₂ i₂) :
    ∃ n₁ n₂, a₁.node? i₁ = some n₁ ∧ a₂.node? i₂ = some n₂ ∧
      Node.Matching a₁ a₂ C (SameText t₁ t₂) n₁ n₂ := by
  obtain ⟨c, h₁, h₂⟩ := h
  cases h₁ with
  | literal hi =>
    cases h₂ with
    | literal hi' => exact ⟨_, _, hi, hi', .literal _⟩
  | ident hi hn =>
    cases h₂ with
    | ident hi' hn' => exact ⟨_, _, hi, hi', .ident ⟨_, hn, hn'⟩⟩
  | print hi hj =>
    cases h₂ with
    | print hi' hj' => exact ⟨_, _, hi, hi', .print (hC ⟨_, hj, hj'⟩)⟩
  | binary hi hj hk =>
    cases h₂ with
    | binary hi' hj' hk' => exact ⟨_, _, hi, hi', .binary _ (hC ⟨_, hj, hj'⟩) (hC ⟨_, hk, hk'⟩)⟩
  | ifThen hi hj hk =>
    cases h₂ with
    | ifThen hi' hj' hk' =>
      exact ⟨_, _, hi, hi', .ifElse (hC ⟨_, hj, hj'⟩) (hC ⟨_, hk, hk'⟩) .none⟩
  | ifElse hi hj hk hl =>
    cases h₂ with
    | ifElse hi' hj' hk' hl' =>
      exact ⟨_, _, hi, hi', .ifElse (hC ⟨_, hj, hj'⟩) (hC ⟨_, hk, hk'⟩) (.some (hC ⟨_, hl, hl'⟩))⟩
  | loop hi hj hk =>
    cases h₂ with
    | loop hi' hj' hk' => exact ⟨_, _, hi, hi', .loop (hC ⟨_, hj, hj'⟩) (hC ⟨_, hk, hk'⟩)⟩
  | seq hi hj hk =>
    cases h₂ with
    | seq hi' hj' hk' => exact ⟨_, _, hi, hi', .seq (hC ⟨_, hj, hj'⟩) (hC ⟨_, hk, hk'⟩)⟩
  | declare hi hn hj =>
    cases h₂ with
    | declare hi' hn' hj' => exact ⟨_, _, hi, hi', .declare ⟨_, hn, hn'⟩ (hC ⟨_, hj, hj'⟩)⟩
  | assign hi hn hj =>
    cases h₂ with
    | assign hi' hn' hj' => exact ⟨_, _, hi, hi', .assign ⟨_, hn, hn'⟩ (hC ⟨_, hj, hj'⟩)⟩
  | function hi hp hs hj =>
    cases h₂ with
    | function hi' hp' hs' hj' =>
      exact ⟨_, _, hi, hi', .function hp hp' (sameText_of_spells hs hs') (hC ⟨_, hj, hj'⟩)⟩
  | call hi hf ha hlen his =>
    cases h₂ with
    | call hi' hf' ha' hlen' his' =>
      refine ⟨_, _, hi, hi', .call (hC ⟨_, hf, hf'⟩) ha ha' ?_⟩
      refine List.forall₂_iff_get.mpr ⟨hlen.trans hlen'.symm, fun k hk hk' => hC ?_⟩
      have hc := List.getElem?_eq_getElem (hlen ▸ hk)
      exact ⟨_, his (List.getElem?_eq_getElem hk) hc, his' (List.getElem?_eq_getElem hk') hc⟩

/-- The simulation of one encoding by another. -/
def simulation (h₁ : t₁.Consistent) (h₂ : t₂.Consistent) : Simulation where
  It it₁ it₂ := it₁.names = t₁ ∧ it₂.names = t₂ ∧ it₁.depth = it₂.depth
  St := SameState t₁ t₂
  Nm := SameText t₁ t₂
  Fr := Eq
  Val := SameValue t₁ t₂
  Code it₁ i₁ it₂ i₂ := (it₁.names = t₁ ∧ it₂.names = t₂ ∧ it₁.depth = it₂.depth) ∧
    SameCode t₁ t₂ it₁.arena.arena i₁ it₂.arena.arena i₂
  it_of_code h := h.1
  node h := matching (fun hj => ⟨h.1, hj⟩) h.2
  text := by
    rintro it₁ it₂ n₁ n₂ ⟨rfl, rfl, _⟩ ⟨s, hn₁, hn₂⟩
    rw [hn₁.lookup, hn₂.lookup]
  scalar h := .scalar h
  kind h := by
    cases h with
    | scalar h => exact .inl ⟨rfl, h⟩
    | closure => exact .inr ⟨_, _, rfl, rfl⟩
  same hc hd := by
    cases hc with
    | scalar h => cases h
    | closure hid =>
      cases hd with
      | scalar h => cases h
      | closure hid' => rw [hid, hid']
  params h := by
    cases h with
    | scalar h => cases h
    | closure _ _ hparams _ => exact hparams
  outer := by
    rintro st₁ st₂ e _ hst rfl
    rw [Store.outer?_eq, Store.outer?_eq, hst.link]
    cases (st₂.store.link? e).filter (· < e) with
    | none => exact .none
    | some o => exact .some rfl
  get := by
    rintro st₁ st₂ e _ n₁ n₂ hst rfl hn
    exact hst.get hn
  log _ hst := { hst with trace := by simp [State.log, hst.trace] }
  logApply hit hst := { hst with trace := by simp [State.log, hst.trace, hit.2.2] }
  println hst := { hst with channel := by simp [State.println, hst.channel] }
  bind := by
    rintro st₁ st₂ e _ n₁ n₂ v₁ v₂ hst rfl hn hv
    exact hst.bind h₁ h₂ e hn hv
  child hst hc := by
    cases hc with
    | scalar h => cases h
    | closure _ henv _ _ =>
      rw [henv]
      exact ⟨hst.child _, hst.size⟩
  closure := by
    rintro it₁ b₁ it₂ b₂ ps₁ ps₂ e _ st₁ st₂ hb hps rfl hst
    exact ⟨.closure hst.next rfl hps hb.2, { hst with next := by simp [State.newClosure, hst.next] }⟩
  body := by
    rintro it₁ it₂ c d ⟨hn₁, hn₂, hdepth⟩ hc
    cases hc with
    | scalar h => cases h
    | closure _ _ _ hbody => exact ⟨⟨hn₁, hn₂, congrArg (· + 1) hdepth⟩, hbody⟩

theorem sameState_fresh (sink : Sink) : SameState t₁ t₂ (.fresh sink) (.fresh sink) where
  size := rfl
  link _ := rfl
  get _ := by
    rw [State.get?_fresh, State.get?_fresh]
    exact .none
  left hg := by
    rw [State.get?_fresh] at hg
    cases hg
  right hg := by
    rw [State.get?_fresh] at hg
    cases hg
  next := rfl
  channel := rfl
  trace := rfl

private theorem SameText.lookup_eq {n₁ n₂ : Name} (h : SameText t₁ t₂ n₁ n₂) :
    t₁.lookup n₁ = t₂.lookup n₂ := by
  obtain ⟨s, h₁, h₂⟩ := h
  rw [h₁.lookup, h₂.lookup]

theorem SameState.texts {st₁ st₂ : State} (h : SameState t₁ t₂ st₁ st₂) (e : FrameId) (s : String) :
    (∃ v, (s, v) ∈ st₁.frame t₁ e) ↔ ∃ w, (s, w) ∈ st₂.frame t₂ e := by
  constructor
  · rintro ⟨v, hv⟩
    obtain ⟨n₁, rfl, hg⟩ := State.mem_frame_iff.mp hv
    obtain ⟨n₂, hn⟩ := h.left hg
    have hr := h.get (e := e) hn
    rw [hg] at hr
    cases hw : st₂.store.get? e n₂ with
    | none => rw [hw] at hr; cases hr
    | some w => exact ⟨w, State.mem_frame_iff.mpr ⟨n₂, hn.lookup_eq.symm, hw⟩⟩
  · rintro ⟨w, hw⟩
    obtain ⟨n₂, rfl, hg⟩ := State.mem_frame_iff.mp hw
    obtain ⟨n₁, hn⟩ := h.right hg
    have hr := h.get (e := e) hn
    rw [hg] at hr
    cases hv : st₁.store.get? e n₁ with
    | none => rw [hv] at hr; cases hr
    | some v => exact ⟨v, State.mem_frame_iff.mpr ⟨n₁, hn.lookup_eq, hv⟩⟩

theorem SameState.values {st₁ st₂ : State} (h : SameState t₁ t₂ st₁ st₂) {e : FrameId} {s : String}
    {v w : Value} (hv : (s, v) ∈ st₁.frame t₁ e) (hw : (s, w) ∈ st₂.frame t₂ e) :
    SameValue t₁ t₂ v w := by
  obtain ⟨n₁, hs₁, hg₁⟩ := State.mem_frame_iff.mp hv
  obtain ⟨n₂, hs₂, hg₂⟩ := State.mem_frame_iff.mp hw
  obtain ⟨_, r₁, hr₁, _⟩ := h.left hg₁
  obtain ⟨_, r₂, _, hr₂⟩ := h.right hg₂
  obtain rfl : r₁ = s := hr₁.lookup.symm.trans hs₁
  obtain rfl : r₂ = r₁ := hr₂.lookup.symm.trans hs₂
  have hr := h.get (e := e) ⟨r₂, hr₁, hr₂⟩
  rw [hg₁, hg₂] at hr
  cases hr with
  | some hvw => exact hvw

/-- Runs that end in related states, with related values or the same error, look alike. -/
theorem alike_of_sameState {p q : Encoding} {fuel : Nat}
    (hst : SameState p.names q.names (p.run fuel).state (q.run fuel).state)
    (hout : (∃ v w, (p.run fuel).outcome = .ok v ∧ (q.run fuel).outcome = .ok w ∧
        SameValue p.names q.names v w) ∨
      ∃ x, (p.run fuel).outcome = .error (.raised x) ∧ (q.run fuel).outcome = .error (.raised x)) :
    (p.run fuel).Alike (q.run fuel) (SameValue p.names q.names) := by
  let S := simulation p.made.consistent q.made.consistent
  have hit : S.It { names := p.names, arena := p.arena } { names := q.names, arena := q.arena } :=
    ⟨rfl, rfl, rfl⟩
  constructor
  · exact fun hv => S.typeName_eq hv
  · intro v w hv
    have hr := S.render_eq hit hv
    rwa [names_run, names_run]
  · exact fun hv hw => S.equals_eq hv hw
  · exact hout
  · rw [hst.channel]
  · exact hst.trace
  · rw [Run.globals, Run.globals, names_run, names_run, globalFrame_run, globalFrame_run]
    exact hst.texts 0
  · rw [Run.globals, Run.globals, names_run, names_run, globalFrame_run, globalFrame_run]
    exact hst.values

/-- With equal fuel, encodings of one tree both run out of it or come to ends that look alike. -/
theorem outOfFuel_or_alike {p q : Encoding} (h : p.tree = q.tree) (fuel : Nat) :
    ((p.run fuel).outcome = .error .outOfFuel ∧ (q.run fuel).outcome = .error .outOfFuel) ∨
      (p.run fuel).Alike (q.run fuel) (SameValue p.names q.names) := by
  let S := simulation p.made.consistent q.made.consistent
  have hcode : S.Code { names := p.names, arena := p.arena } p.root
      { names := q.names, arena := q.arena } q.root :=
    ⟨⟨rfl, rfl, rfl⟩, p.tree, p.unfolds_tree, h ▸ q.unfolds_tree⟩
  obtain ⟨hst, hout⟩ := S.run_ends hcode rfl (sameState_fresh .buffer) fuel
  rcases hout with hok | ⟨s, hs, h₁, h₂⟩
  · exact .inr (alike_of_sameState hst (.inl hok))
  · cases s with
    | raised x => exact .inr (alike_of_sameState hst (.inr ⟨x, h₁, h₂⟩))
    | fault => exact absurd rfl hs
    | outOfFuel => exact .inl ⟨h₁, h₂⟩

/-- Encodings of one tree have one meaning: both run forever, or both come to an end, and then the
ends look alike and stay the same with more fuel. -/
theorem meaning_depends_only_on_tree (p q : Encoding) (h : p.tree = q.tree) :
    (∀ fuel, (p.run fuel).outcome = .error .outOfFuel ∧ (q.run fuel).outcome = .error .outOfFuel) ∨
      ∃ n R, (p.run n).Alike (q.run n) R ∧
        ∀ fuel, n ≤ fuel → p.run fuel = p.run n ∧ q.run fuel = q.run n := by
  by_cases hever : ∀ fuel, (p.run fuel).outcome = .error .outOfFuel ∧
      (q.run fuel).outcome = .error .outOfFuel
  · exact .inl hever
  · obtain ⟨n, hn⟩ := not_forall.mp hever
    have halike := (outOfFuel_or_alike h n).resolve_left hn
    refine .inr ⟨n, _, halike, ?_⟩
    intro fuel hle
    rcases halike.outcome with ⟨v, w, hv, hw, _⟩ | ⟨x, hx, hy⟩
    · exact ⟨Run.ofNode_eq_of_le hle (by rw [← run, hv]; simp),
        Run.ofNode_eq_of_le hle (by rw [← run, hw]; simp)⟩
    · exact ⟨Run.ofNode_eq_of_le hle (by rw [← run, hx]; simp),
        Run.ofNode_eq_of_le hle (by rw [← run, hy]; simp)⟩

/-- The tree of `f = function(x) { x == x }`. -/
def selfComparison : Code :=
  .assign "f" (.function ["x"] (.binary .eq (.ident "x") (.ident "x")))

private theorem unfolds_selfComparison {a : Arena} {t : Interner} {f x : Name} {s : Span}
    {i j k l m : ExprId} (hf : t.Spells f "f") (hx : t.Spells x "x")
    (hi : a.node? i = some (.assign f j)) (hj : a.node? j = some (.function s k))
    (hs : a.params? s = some [x]) (hk : a.node? k = some (.binary .eq l m))
    (hl : a.node? l = some (.ident x)) (hm : a.node? m = some (.ident x)) :
    a.Unfolds t i selfComparison :=
  .assign hi hf (.function hj hs (.cons hx .nil) (.binary hk (.ident hl hx) (.ident hm hx)))

/-- Its encoding node by node. -/
def plain : Encoding where
  names := ((Interner.empty.intern "x").2.intern "f").2
  arena := {
    id := 0
    arena := (Builder.replay [.ident "x", .ident "x", .binary .eq 0 1, .function ["x"] 2,
      .assign "f" 3] { names := ((Interner.empty.intern "x").2.intern "f").2 } []).1.arena }
  root := 4
  made := .intern "f" (.intern "x" .empty)
  wellFormed := ((Built.new _).replay _).wellFormed.1
  named := ⟨by decide +kernel, by decide +kernel⟩
  root_lt := by decide +kernel

/-- Its encoding behind a node of no use, with one node for both sides of the comparison, and with the
texts interned in another order. -/
def renumbered : Encoding where
  names := ((Interner.empty.intern "f").2.intern "x").2
  arena := {
    id := 1
    arena := (Builder.replay [.literal .null, .ident "x", .binary .eq 1 1, .function ["x"] 2,
      .assign "f" 3] { names := ((Interner.empty.intern "f").2.intern "x").2 } []).1.arena }
  root := 4
  made := .intern "x" (.intern "f" .empty)
  wellFormed := ((Built.new _).replay _).wellFormed.1
  named := ⟨by decide +kernel, by decide +kernel⟩
  root_lt := by decide +kernel

theorem renumbered_program_looks_alike :
    plain.tree = renumbered.tree ∧ ∃ n R, (plain.run n).Alike (renumbered.run n) R := by
  have hplain : plain.tree = selfComparison := by
    apply tree_eq
    apply unfolds_selfComparison (f := ⟨2⟩) (x := ⟨1⟩) (s := ⟨0, 1⟩) (j := 3) (k := 2) (l := 0)
      (m := 1) <;> decide +kernel
  have hrenumbered : renumbered.tree = selfComparison := by
    apply tree_eq
    apply unfolds_selfComparison (f := ⟨1⟩) (x := ⟨2⟩) (s := ⟨0, 1⟩) (j := 3) (k := 2) (l := 1)
      (m := 1) <;> decide +kernel
  have h : plain.tree = renumbered.tree := hplain.trans hrenumbered.symm
  refine ⟨h, ?_⟩
  rcases meaning_depends_only_on_tree plain renumbered h with hout | ⟨n, R, halike, _⟩
  · exact absurd (hout 2).1 (by decide +kernel)
  · exact ⟨n, R, halike⟩

end Encoding
end Treewalk
