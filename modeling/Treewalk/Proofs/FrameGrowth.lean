import Treewalk.Proofs.Discipline
import Treewalk.Proofs.HostActs

/-! How evaluation may change the frames that are already there.
Only the frame it runs in and global frames gain names, no link ever changes, and every new frame
lies inside an older one. So links never form a cycle, and following them always ends. -/
namespace Treewalk
namespace Store

/-- What evaluation in frame `e` may make of a store. Values are free to change. -/
structure Growth (e : FrameId) (s s' : Store) : Prop where
  size_le : s.size ≤ s'.size
  link_eq : ∀ f < s.size, s'.link? f = s.link? f
  binds_old : ∀ f n, s.binds f n = true → s'.binds f n = true
  binds_eq : ∀ f < s.size, s.link? f ≠ none → f ≠ e → ∀ n, s'.binds f n = s.binds f n
  new_link : ∀ f, s.size ≤ f → f < s'.size → ∃ o < f, s'.link? f = some o

namespace Growth
variable {e f : FrameId} {s s₁ s₂ s₃ : Store}

theorem refl (e : FrameId) (s : Store) : Growth e s s where
  size_le := Nat.le_refl _
  link_eq _ _ := rfl
  binds_old _ _ h := h
  binds_eq _ _ _ _ _ := rfl
  new_link _ hlo hhi := absurd hhi (Nat.not_lt.mpr hlo)

/-- Growth composes, and a frame that is new to the first store does not count. -/
theorem comp (hf : f = e ∨ s₁.size ≤ f) (h : Growth e s₁ s₂) (k : Growth f s₂ s₃) :
    Growth e s₁ s₃ where
  size_le := Nat.le_trans h.size_le k.size_le
  link_eq g hg := (k.link_eq g (Nat.lt_of_lt_of_le hg h.size_le)).trans (h.link_eq g hg)
  binds_old g n hb := k.binds_old g n (h.binds_old g n hb)
  binds_eq g hg hl hne n := by
    have hl₂ : s₂.link? g ≠ none := by rwa [h.link_eq g hg]
    have hgf : g ≠ f := by
      rcases hf with rfl | hf
      · exact hne
      · exact Nat.ne_of_lt (Nat.lt_of_lt_of_le hg hf)
    exact (k.binds_eq g (Nat.lt_of_lt_of_le hg h.size_le) hl₂ hgf n).trans (h.binds_eq g hg hl hne n)
  new_link g hlo hhi := by
    by_cases hg : g < s₂.size
    · obtain ⟨o, ho, hlink⟩ := h.new_link g hlo hg
      exact ⟨o, ho, (k.link_eq g hg).trans hlink⟩
    · exact k.new_link g (Nat.le_of_not_lt hg) hhi

/-- Binding a name is growth if the frame is the one evaluation runs in, is global, or binds the name
already. -/
theorem bind {o : FrameId} {n : Name} (v : Value)
    (ho : o = e ∨ s.link? o = none ∨ s.binds o n = true) : Growth e s (s.bind o n v) where
  size_le := Nat.le_of_eq (size_bind s o n v).symm
  link_eq f _ := link?_bind s o f n v
  binds_old f m hb := (binds_bind_iff s o f n m v).mpr (.inr hb)
  binds_eq f hf hl hne m := by
    rw [Bool.eq_iff_iff, binds_bind_iff]
    refine ⟨?_, .inr⟩
    rintro (⟨rfl, rfl, _⟩ | hb)
    · rcases ho with rfl | hg | hb
      · exact absurd rfl hne
      · exact absurd hg hl
      · exact hb
    · exact hb
  new_link f hlo hhi := absurd (size_bind s o n v ▸ hhi) (Nat.not_lt.mpr hlo)

theorem overwrite {o : FrameId} {n : Name} (v : Value) (ho : s.owner? e n = some o) :
    Growth e s (s.bind o n v) := bind v (.inr (.inr (binds_of_owner? ho)))

theorem introduce (hs : s.WellFormed) (e : FrameId) (n : Name) (v : Value) :
    Growth e s (s.bind (s.global e) n v) := by
  refine bind v (.inr (.inl ?_))
  rw [← hs.outer?_eq_link?]
  exact outer?_global s e

/-- So is a new frame inside an old one, with whatever it binds. -/
theorem child (e : FrameId) {o : FrameId} (ho : o < s.size) (bindings : List (Name × Value)) :
    Growth e s ((push { outer := some o } s).2.bindAll s.size bindings) where
  size_le := by rw [size_bindAll, size_push]; omega
  link_eq f hf := by rw [link?_bindAll, link?_push, if_neg (Nat.ne_of_lt hf)]
  binds_old f n hb := by
    rw [binds_bindAll_iff, binds_eq_isSome_get?, get?_push, ← binds_eq_isSome_get?]
    exact .inr hb
  binds_eq f hf _ _ n := by
    rw [Bool.eq_iff_iff, binds_bindAll_iff, binds_eq_isSome_get?, get?_push, ← binds_eq_isSome_get?]
    refine ⟨?_, .inr⟩
    rintro (⟨rfl, _⟩ | hb)
    · exact absurd hf (Nat.lt_irrefl _)
    · exact hb
  new_link f hlo hhi := by
    rw [size_bindAll, size_push] at hhi
    have hf : f = s.size := Nat.le_antisymm (Nat.le_of_lt_succ hhi) hlo
    refine ⟨o, hf ▸ ho, ?_⟩
    rw [link?_bindAll, link?_push, if_pos hf]

theorem outer?_eq (h : Growth e s₁ s₂) {f : FrameId} (hf : f < s₁.size) :
    s₂.outer? f = s₁.outer? f := by
  rw [Store.outer?_eq, Store.outer?_eq, h.link_eq f hf]

theorem global_eq (h : Growth e s₁ s₂) {f : FrameId} (hf : f < s₁.size) :
    s₂.global f = s₁.global f := by
  fun_induction s₁.global f with
  | case1 f o ho ih =>
    rw [Store.global_eq, h.outer?_eq hf, ho]
    exact ih (Nat.lt_trans (lt_of_outer? ho) hf)
  | case2 f ho => rw [Store.global_eq, h.outer?_eq hf, ho]

theorem isSome_resolve? (h : Growth e s₁ s₂) {f : FrameId} (hf : f < s₁.size) {n : Name}
    (hr : (s₁.resolve? f n).isSome) : (s₂.resolve? f n).isSome := by
  rw [Store.isSome_resolve?] at hr ⊢
  fun_induction s₁.owner? f n with
  | case1 f hb =>
    rw [owner?_eq, if_pos (h.binds_old f n hb)]
    rfl
  | case2 f hb o ho ih =>
    rw [owner?_eq, h.outer?_eq hf, ho]
    split
    · rfl
    · exact ih (Nat.lt_trans (lt_of_outer? ho) hf) hr
  | case3 f hb ho => cases hr

end Growth
end Store

/-- Growth as a discipline: it asks nothing of nodes and values. -/
def Discipline.growing : Discipline where
  Inv _ := True
  At _ _ _ _ := True
  Val _ _ := True
  Step e st st' := Store.Growth e st.store st'.store
  refl e st := .refl e st.store
  trans h k := h.comp (.inl rfl) k
  at_step _ _ _ := trivial
  val_step _ _ _ := trivial
  operand _ _ _ _ := trivial
  scalar _ := trivial
  lookup _ _ _ := trivial
  log _ _ := ⟨trivial, .refl _ _⟩
  println _ _ _ := ⟨trivial, .refl _ _⟩
  declare _ _ _ _ := ⟨trivial, .bind _ (.inl rfl)⟩
  overwrite _ _ _ ho := ⟨trivial, .overwrite _ ho⟩
  introduce hs _ _ _ _ := ⟨trivial, .introduce hs _ _ _⟩
  closure _ _ _ _ := ⟨trivial, .refl _ _, trivial⟩
  enter _ _ hc _ _ _ := ⟨trivial, .child _ hc.env _⟩
  body _ _ _ _ _ := trivial
  leave hf h k := h.comp (.inr hf) k

/-- States that a host can reach by acts of its own, evaluations and calls, in any order; the frames,
values and nodes it passes are there, as those it got back are. -/
inductive Hosted : State → Prop where
  | new (sink : Sink) : Hosted (State.new sink)
  | act {st : State} (a : HostAct) (h : Hosted st) (ha : a.InPlace st) : Hosted (a.run st)
  | eval {st : State} {it : Interpreter} {e : FrameId} {i : ExprId} (fuel : Nat) (h : Hosted st)
      (ha : it.arena.arena.WellFormed) (hi : i < it.arena.arena.size) (he : e < st.store.size) :
      Hosted (Run.split (it.eval fuel e i st)).2
  | call {st : State} {callee : Value} {args : List Value} (fuel : Nat) (it : Interpreter)
      (h : Hosted st) (hc : callee.WellFormed st.store) (ha : ∀ v ∈ args, v.WellFormed st.store) :
      Hosted (Run.split (it.call fuel callee args st)).2

private theorem kept_eval {it : Interpreter} {e : FrameId} {i : ExprId} {st : State} (fuel : Nat)
    (hs : st.store.WellFormed) (ha : it.arena.arena.WellFormed) (hi : i < it.arena.arena.size)
    (he : e < st.store.size) :
    Discipline.growing.Kept e st (Run.split (it.eval fuel e i st)).2 :=
  (Discipline.growing.keptBy_eval fuel it e i st ⟨ha, hi, he, hs, trivial, trivial⟩).split.1

theorem Hosted.wellFormed {st : State} (h : Hosted st) : st.store.WellFormed := by
  induction h with
  | new sink => exact Store.WellFormed.empty
  | act a h ha ih => exact HostAct.wellFormed_run ha ih
  | eval fuel h ha hi he ih => exact (kept_eval fuel ih ha hi he).store
  | call fuel it h hc ha ih =>
    exact (Discipline.growing.keeps_call fuel it 0 ih trivial ⟨hc, trivial⟩
      fun v hv => ⟨ha v hv, trivial⟩).split.1.store

/-- Evaluation in a frame gives names to that frame and to global frames only, leaves every link
alone and makes no global frame, however it ends. So old frames keep their global frame and find
what they found; and in every state that a host can reach, looking for a name or for the global
frame passes along a finite chain of links. -/
theorem eval_grows_only_own_and_global_frames :
    (∀ (fuel : Nat) (it : Interpreter) (e : FrameId) (i : ExprId) (st : State),
      st.store.WellFormed → it.arena.arena.WellFormed → i < it.arena.arena.size →
      e < st.store.size →
      let s' := (Run.split (it.eval fuel e i st)).2.store
      st.store.Growth e s' ∧
      (∀ f < s'.size, s'.link? f = none → f < st.store.size ∧ st.store.link? f = none) ∧
      (∀ f < st.store.size, s'.global f = st.store.global f) ∧
      (∀ f < st.store.size, ∀ n, (st.store.resolve? f n).isSome → (s'.resolve? f n).isSome)) ∧
    (∀ st, Hosted st → ∀ e < st.store.size, ∃ path, st.store.Chain e path ∧
      path.getLast? = some (st.store.global e) ∧
      ∀ n, st.store.owner? e n = path.find? (st.store.binds · n)) := by
  constructor
  · intro fuel it e i st hs ha hi he s'
    have hg : st.store.Growth e s' := (kept_eval fuel hs ha hi he).step
    refine ⟨hg, ?_, fun f hf => hg.global_eq hf, fun f hf n => hg.isSome_resolve? hf⟩
    intro f hf hl
    by_cases hold : f < st.store.size
    · exact ⟨hold, (hg.link_eq f hold).symm.trans hl⟩
    · obtain ⟨o, _, ho⟩ := hg.new_link f (Nat.le_of_not_lt hold) hf
      rw [hl] at ho
      cases ho
  · exact fun st h e he => h.wellFormed.search he

/-- The calls that build `{ var y = null; x = null }`. -/
def localAndGlobalCalls : List BuildCall :=
  [.literal .null, .declare "y" 0, .assign "x" 0, .seq 1 2]

theorem local_and_global_names_grow :
    let b := (Builder.replay localAndGlobalCalls { names := .empty } []).1
    let it : Interpreter := { names := b.names, arena := { id := 0, arena := b.arena } }
    let st := (State.fresh .buffer).child 0
    let s' := (Run.split (it.eval 3 1 3 st)).2.store
    st.store.Growth 1 s' ∧ s'.global 1 = 0 ∧ s'.toList 1 = [(⟨1⟩, .null)] ∧
      s'.toList 0 = [(⟨2⟩, .null)] ∧ ∃ path, st.store.Chain 1 path := by
  intro b it st s'
  obtain ⟨ha, hids⟩ := ((Built.new .empty).replay localAndGlobalCalls).wellFormed
  have hosted : Hosted st := .act (.child 0) (.act .newGlobal (.new .buffer) trivial) Nat.zero_lt_one
  obtain ⟨hg, _, hglobal, _⟩ := eval_grows_only_own_and_global_frames.1 3 it 1 3 st
    hosted.wellFormed ha (hids 3 (by decide +kernel)) (by decide)
  obtain ⟨path, hp, _⟩ := eval_grows_only_own_and_global_frames.2 st hosted 1 (by decide)
  refine ⟨hg, (hglobal 1 (by decide)).trans (by decide), ?_, ?_, path, hp⟩
  · decide +kernel
  · decide +kernel

end Treewalk
