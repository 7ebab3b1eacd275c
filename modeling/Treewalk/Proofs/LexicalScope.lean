import Treewalk.Proofs.FrameGrowth

/-! Scoping is lexical: the chain of frames behind a closure follows the nesting of functions in the
program text, wherever the closure was made, stored, passed or called from. -/
namespace Treewalk
namespace Arena

/-- A node of the program at `root`, with the function nodes around it, innermost first. -/
inductive Within (a : Arena) (root : ExprId) : ExprId → List ExprId → Prop where
  | root : Within a root root []
  | operand {p j : ExprId} {fs : List ExprId} {n : Node} (h : Within a root p fs)
      (hn : a.node? p = some n) (hj : j ∈ a.operands n) : Within a root j fs
  | body {p j : ExprId} {fs : List ExprId} {span : Span} (h : Within a root p fs)
      (hn : a.node? p = some (.function span j)) : Within a root j (p :: fs)

/-- In the program at `root`, no node has two parents. -/
def Unshared (a : Arena) (root : ExprId) : Prop :=
  ∀ {p q j : ExprId} {fs gs : List ExprId} {m n : Node}, a.Within root p fs → a.Within root q gs →
    a.node? p = some m → a.node? q = some n → j ∈ a.children m → j ∈ a.children n → p = q

/-- The parameters of a function node; other nodes have none. -/
def paramsOf (a : Arena) (p : ExprId) : List Name :=
  match a.node? p with
  | some (.function span _) => (a.params? span).getD []
  | _ => []

variable {a : Arena} {root : ExprId}

private theorem Within.le_root (ha : a.WellFormed) {j : ExprId} {fs : List ExprId}
    (h : a.Within root j fs) : j ≤ root := by
  induction h with
  | root => exact Nat.le_refl root
  | operand h hn hj ih =>
    exact Nat.le_trans (Nat.le_of_lt (ha.child_lt hn _ (mem_children_of_mem_operands hj))) ih
  | body h hn ih => exact Nat.le_trans (Nat.le_of_lt (ha.child_lt hn _ (by simp))) ih

private theorem root_not_below (ha : a.WellFormed) {p : ExprId} {fs : List ExprId} {n : Node}
    (h : a.Within root p fs) (hn : a.node? p = some n) : root ∉ a.children n := fun hr =>
  Nat.lt_irrefl root (Nat.lt_of_lt_of_le (ha.child_lt hn root hr) (h.le_root ha))

/-- Without sharing, the functions around a node are determined by the node. -/
theorem Within.unique (ha : a.WellFormed) (hu : a.Unshared root) {j : ExprId} {fs gs : List ExprId}
    (h : a.Within root j fs) (k : a.Within root j gs) : fs = gs := by
  induction h generalizing gs with
  | root =>
    cases k with
    | root => rfl
    | operand k hn hj => exact absurd (mem_children_of_mem_operands hj) (root_not_below ha k hn)
    | body k hn => exact absurd (by simp) (root_not_below ha k hn)
  | @operand p j fs n h hn hj ih =>
    have hc := mem_children_of_mem_operands hj
    cases k with
    | root => exact absurd hc (root_not_below ha h hn)
    | operand k hm hk =>
      obtain rfl := hu h k hn hm hc (mem_children_of_mem_operands hk)
      exact ih k
    | body k hm =>
      obtain rfl := hu h k hn hm hc (by simp)
      rw [hn] at hm
      cases hm
      cases hj
  | @body p j fs span h hn ih =>
    cases k with
    | root => exact absurd (by simp) (root_not_below ha h hn)
    | operand k hm hk =>
      obtain rfl := hu h k hn hm (by simp) (mem_children_of_mem_operands hk)
      rw [hn] at hm
      cases hm
      cases hk
    | body k hm =>
      obtain rfl := hu h k hn hm (List.mem_singleton_self j) (List.mem_singleton_self j)
      rw [ih k]

/-- A check for programs without sharing: no two nodes of the arena have an id below them in common. -/
theorem unshared_of_pairwise
    (h : a.nodes.toList.Pairwise fun m n => ∀ j ∈ a.children m, j ∉ a.children n)
    (root : ExprId) : a.Unshared root := by
  have apart {p q j : ExprId} {m n : Node} (hp : a.node? p = some m) (hq : a.node? q = some n)
      (hlt : p < q) (hm : j ∈ a.children m) : j ∉ a.children n := by
    obtain ⟨hps, rfl⟩ := Array.getElem?_eq_some_iff.mp hp
    obtain ⟨hqs, rfl⟩ := Array.getElem?_eq_some_iff.mp hq
    exact List.pairwise_iff_getElem.mp h p q hps hqs hlt j hm
  intro p q j fs gs m n _ _ hp hq hm hn
  rcases Nat.lt_trichotomy p q with hlt | heq | hgt
  · exact absurd hn (apart hp hq hlt hm)
  · exact heq
  · exact absurd hm (apart hq hp hgt hn)

end Arena

/-- A frame for code inside the functions `fs`: its chain of links has a frame for each of them, which
binds the function's parameters, and ends in the global frame `g`. -/
inductive Scoped (a : Arena) (s : Store) (g : FrameId) : List ExprId → FrameId → Prop where
  | global (hg : g < s.size) (hl : s.link? g = none) : Scoped a s g [] g
  | inner {p : ExprId} {fs : List ExprId} {e o : FrameId} (hl : s.link? e = some o)
      (h : Scoped a s g fs o) (hb : ∀ n ∈ a.paramsOf p, s.binds e n = true) :
      Scoped a s g (p :: fs) e

namespace Scoped
variable {a : Arena} {s s' : Store} {g e f : FrameId} {fs : List ExprId}

theorem growth (h : Scoped a s g fs e) (hs : s.Growth f s') : Scoped a s' g fs e := by
  induction h with
  | global hg hl =>
    exact .global (Nat.lt_of_lt_of_le hg hs.size_le) ((hs.link_eq g hg).trans hl)
  | inner hl h hb ih =>
    exact .inner ((hs.link_eq _ (Store.link?_lt_size hl)).trans hl) ih
      fun n hn => hs.binds_old _ n (hb n hn)

theorem chain (h : Scoped a s g fs e) :
    ∃ path, s.Chain e path ∧ path.length = fs.length + 1 ∧ path.getLast? = some g ∧
      ∀ (i : Nat) (p : ExprId) (f : FrameId), fs[i]? = some p → path[i]? = some f →
        ∀ n ∈ a.paramsOf p, s.binds f n = true := by
  induction h with
  | global hg hl => exact ⟨[g], .global hg hl, rfl, rfl, by simp⟩
  | @inner p fs e o hl h hb ih =>
    obtain ⟨path, hc, hlen, hlast, hbinds⟩ := ih
    refine ⟨e :: path, .inner hl hc, by simp [hlen], by simp [List.getLast?_cons, hlast], ?_⟩
    intro i q f hq hf
    cases i with
    | zero =>
      cases hq
      cases hf
      exact hb
    | succ i => exact hbinds i q f hq hf

end Scoped

/-- A closure of the program at `root` that captured a frame for the code around its function. -/
structure FromProgram (a : SharedArena) (root : ExprId) (s : Store) (g : FrameId) (c : Closure)
    (p : ExprId) (fs : List ExprId) : Prop where
  arena : c.arena = a
  within : a.arena.Within root p fs
  node : ∃ span, a.arena.node? p = some (.function span c.body) ∧
    a.arena.params? span = some c.params
  frame : Scoped a.arena s g fs c.env

namespace Discipline

/-- Every closure comes from the program and has the frame of its place in it. -/
def Lexical (a : SharedArena) (root : ExprId) (g : FrameId) (s : Store) (v : Value) : Prop :=
  ∀ c, v = .closure c → ∃ p fs, FromProgram a root s g c p fs

private theorem Lexical.growth {a : SharedArena} {root : ExprId} {g f : FrameId} {s s' : Store} {v : Value}
    (h : Lexical a root g s v) (hs : s.Growth f s') : Lexical a root g s' v := by
  intro c hc
  obtain ⟨p, fs, hp⟩ := h c hc
  exact ⟨p, fs, hp.arena, hp.within, hp.node, hp.frame.growth hs⟩

theorem Lexical.bind {a : SharedArena} {root : ExprId} {g e o : FrameId} {n : Name} {v : Value}
    {s : Store} (hi : ∀ f m w, s.get? f m = some w → Lexical a root g s w)
    (hv : Lexical a root g s v) (hs : s.Growth e (s.bind o n v)) :
    ∀ f m w, (s.bind o n v).get? f m = some w → Lexical a root g (s.bind o n v) w :=
  Store.forall_get?_bind (fun f m w hw => (hi f m w hw).growth hs) o n (hv.growth hs)

/-- Lexical scoping as a discipline over growing stores: code runs in a frame of its place in the
program, and every value that is bound is lexical. -/
def scoping (a : SharedArena) (root : ExprId) (g : FrameId) : Discipline where
  Inv st := ∀ e n v, st.store.get? e n = some v → Lexical a root g st.store v
  At arena e i st := arena = a ∧ ∃ fs, a.arena.Within root i fs ∧ Scoped a.arena st.store g fs e
  Val st v := Lexical a root g st.store v
  Step := growing.Step
  refl := growing.refl
  trans := @growing.trans
  at_step := by
    rintro _ e f i st st' _ hs ⟨rfl, fs, hw, hf⟩
    exact ⟨rfl, fs, hw, hf.growth hs⟩
  val_step _ hs h := h.growth hs
  operand := by
    rintro _ e i st n ⟨rfl, fs, hw, hf⟩ hn j hj
    exact ⟨rfl, fs, hw.operand hn hj, hf⟩
  scalar := by
    rintro st v h c rfl
    cases h
  lookup hi _ hr := by
    obtain ⟨o, _, hg⟩ := Store.resolve?_eq_some hr
    exact hi o _ _ hg
  log _ hi := ⟨hi, .refl _ _⟩
  println hi _ _ := ⟨hi, .refl _ _⟩
  declare hi _ hv _ := ⟨Lexical.bind hi hv (.bind _ (.inl rfl)), .bind _ (.inl rfl)⟩
  overwrite hi _ hv ho := ⟨Lexical.bind hi hv (.overwrite _ ho), .overwrite _ ho⟩
  introduce hs hi _ hv _ := ⟨Lexical.bind hi hv (.introduce hs _ _ _), .introduce hs _ _ _⟩
  closure := by
    rintro _ e i st span body params hi ⟨rfl, fs, hw, hf⟩ hn hp
    refine ⟨hi, .refl _ _, ?_⟩
    rintro c ⟨⟩
    exact ⟨i, fs, rfl, hw, ⟨span, hn, hp⟩, hf⟩
  enter := by
    intro e st c args bindings _ hi hc _ ha hb
    have hs : st.store.Growth e ((st.child c.env).bindAll st.store.size bindings).store :=
      .child e hc.env bindings
    refine ⟨Store.forall_get?_bindAll ?_ _ bindings ?_, hs⟩
    · intro f m w hw
      exact (hi f m w (by rwa [State.store_child, Store.get?_push] at hw)).growth hs
    · intro b hmem
      exact (ha b.2 (List.of_mem_zip (hb.subset hmem)).2).growth hs
  body := by
    intro st c args _ _ hwf hc hl
    obtain ⟨p, fs, harena, hw, ⟨span, hn, hp⟩, hf⟩ := hc c rfl
    refine ⟨harena, p :: fs, hw.body hn, .inner ?_ (hf.growth (.child 0 hwf.env _)) ?_⟩
    · simp [Store.link?_bindAll, Store.link?_push]
    · intro n hmem
      have hmem : n ∈ c.params := by simpa [Arena.paramsOf, hn, hp] using hmem
      refine (Store.binds_bindAll_iff ..).mpr (.inl ⟨rfl, ?_, ?_⟩)
      · rwa [List.map_fst_zip (Nat.le_of_eq hl.symm)]
      · rw [State.store_child, Store.size_push]
        exact Nat.lt_succ_self _
  leave := @growing.leave

end Discipline

/-- In a built program without sharing, every closure that a run leaves bound or returns comes from
one function node, and its chain of frames matches the functions around that node: one frame for
each, binding its parameters, and the global frame at the end. -/
theorem closures_capture_lexical_frames {b : Builder} {ids : List ExprId} {root : ExprId}
    (hb : Built b ids) (hroot : root ∈ ids) (hu : b.arena.Unshared root) (names : Interner)
    (id fuel : Nat) (sink : Sink) :
    let r := Run.ofNode names { id, arena := b.arena } root sink (Interpreter.evaluate fuel)
    ∀ c, (∃ e n, r.state.store.get? e n = some (.closure c)) ∨ r.outcome = .ok (.closure c) →
      ∃ p fs, c.arena.arena = b.arena ∧ b.arena.Within root p fs ∧
        (∃ span, b.arena.node? p = some (.function span c.body) ∧
          b.arena.params? span = some c.params) ∧
        (∀ q gs span, b.arena.Within root q gs → b.arena.node? q = some (.function span c.body) →
          q = p ∧ gs = fs) ∧
        ∃ path, r.state.store.Chain c.env path ∧ path.length = fs.length + 1 ∧
          path.getLast? = some r.globalFrame ∧
          ∀ (i : Nat) (q : ExprId) (f : FrameId), fs[i]? = some q → path[i]? = some f →
            ∀ n ∈ b.arena.paramsOf q, r.state.store.binds f n = true := by
  obtain ⟨ha, hids⟩ := hb.wellFormed
  let arena : SharedArena := { id, arena := b.arena }
  have hfresh : ∀ f m w, (State.fresh sink).store.get? f m = some w →
      Discipline.Lexical arena root 0 (State.fresh sink).store w := by
    intro f m w hw
    rw [State.get?_fresh] at hw
    cases hw
  obtain ⟨hk, hv⟩ := (Discipline.scoping arena root 0).keeps_run fuel names sink ha
    (hids root hroot) hfresh ⟨rfl, [], .root, .global Nat.zero_lt_one rfl⟩
  intro r c hc
  have hlex : Discipline.Lexical arena root 0 r.state.store (.closure c) := by
    rcases hc with ⟨e, n, hget⟩ | hret
    · exact hk.inv e n _ hget
    · exact (hv _ hret).val
  obtain ⟨p, fs, harena, hw, ⟨span, hn, hp⟩, hf⟩ := hlex c rfl
  refine ⟨p, fs, by rw [harena], hw, ⟨span, hn, hp⟩, ?_, hf.chain⟩
  intro q gs span' hq hnq
  obtain rfl := hu hq hw hnq hn (List.mem_singleton_self _) (List.mem_singleton_self _)
  exact ⟨rfl, hq.unique ha hu hw⟩

/-- The calls that build `(function(x) { function(y) { x } })(true)`. -/
def nestedCalls : List BuildCall :=
  [.ident "x", .function ["y"] 0, .function ["x"] 1, .literal (.bool true), .call 2 [3]]

theorem nested_closure_captures_lexical_frames :
    let b := (Builder.replay nestedCalls { names := .empty } []).1
    let r := Run.ofNode b.names { id := 0, arena := b.arena } 4 .buffer (Interpreter.evaluate 3)
    let c : Closure :=
      { id := 1, params := [⟨2⟩], body := 0, arena := { id := 0, arena := b.arena }, env := 1 }
    r.outcome = .ok (.closure c) ∧ ∃ p fs path, b.arena.Within 4 p fs ∧
      r.state.store.Chain c.env path ∧ path.length = fs.length + 1 := by
  intro b r c
  have hb := (Built.new .empty).replay nestedCalls
  have hu : b.arena.Unshared 4 := Arena.unshared_of_pairwise (by decide +kernel) 4
  have hret : r.outcome = .ok (.closure c) := by decide +kernel
  obtain ⟨p, fs, _, hw, _, _, path, hc, hlen, _⟩ := closures_capture_lexical_frames hb
    (by decide +kernel) hu b.names 0 3 .buffer c (.inr hret)
  exact ⟨hret, p, fs, path, hw, hc, hlen⟩

end Treewalk
