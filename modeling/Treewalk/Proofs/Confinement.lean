import Treewalk.Proofs.Discipline
import Treewalk.Proofs.Twins

/-! Evaluation is confined to the frames that it can reach.
It writes to no other frame, it hands out no other frame, and it does not depend on what other frames
hold. Frames that evaluation makes itself belong to its region from the start. -/
namespace Treewalk

/-- Writing only inside a region, as a discipline. -/
def Discipline.confined (A : FrameId → Prop) : Discipline where
  Inv st := st.store.Closed A (Value.Inside A) ∧ ∀ f, st.store.size ≤ f → A f
  At _ e _ _ := A e
  Val _ v := v.Inside A
  Step _ st st' := ∀ f, ¬ A f → st'.store.frame? f = st.store.frame? f
  refl _ _ _ _ := rfl
  trans h k f hf := (k f hf).trans (h f hf)
  at_step _ _ he := he
  val_step _ _ hv := hv
  operand he _ _ _ := he
  scalar := by
    rintro st _ hv c rfl
    cases hv
  lookup hinv he hv := hinv.1.resolve? he hv
  log _ hinv := ⟨hinv, fun _ _ => rfl⟩
  println hinv _ _ := ⟨hinv, fun _ _ => rfl⟩
  declare := by
    intro a e i st n v hinv he hv _
    refine ⟨⟨hinv.1.bind e n hv, by simpa using hinv.2⟩, fun f hf => ?_⟩
    rw [State.store_bind, Store.frame?_bind, if_neg (by rintro rfl; exact hf he)]
  overwrite := by
    intro a e i st n v o hinv he hv ho
    have hA := hinv.1.owner? he ho
    refine ⟨⟨hinv.1.bind o n hv, by simpa using hinv.2⟩, fun f hf => ?_⟩
    rw [State.store_bind, Store.frame?_bind, if_neg (by rintro rfl; exact hf hA)]
  introduce := by
    intro a e i st n v _ hinv he hv _
    have hA := hinv.1.global he
    refine ⟨⟨hinv.1.bind _ n hv, by simpa using hinv.2⟩, fun f hf => ?_⟩
    rw [State.store_bind, Store.frame?_bind, if_neg (by rintro rfl; exact hf hA)]
  closure := by
    intro a e i st span body params hinv he _ _
    refine ⟨hinv, fun _ _ => rfl, ?_⟩
    rintro c ⟨⟩
    exact he
  enter := by
    intro e st c args bindings _ hinv _ hc hargs hb
    have hnew : A st.store.size := hinv.2 _ (Nat.le_refl _)
    refine ⟨⟨?_, ?_⟩, ?_⟩
    · apply (hinv.1.child (hc c rfl)).bindAll
      intro b hmem
      exact hargs b.2 (List.of_mem_zip (hb.subset hmem)).2
    · intro f hf
      rw [State.store_bindAll, Store.size_bindAll, State.store_child, Store.size_push] at hf
      exact hinv.2 f (Nat.le_of_succ_le hf)
    · intro f hf
      have hne : st.store.size ≠ f := by
        rintro rfl
        exact hf hnew
      rw [State.store_bindAll, Store.frame?_bindAll_of_ne _ hne, State.store_child,
        Store.frame?_push, if_neg hne.symm]
  body _ hinv _ _ _ := hinv.2 _ (Nat.le_refl _)
  leave _ h k f hf := (k f hf).trans (h f hf)

def Channel.printAll (c : Channel) (lines : List String) : Channel := lines.foldl println c

/-- Two runs, from `st₁` to `st₁'` and from `st₂` to `st₂'`, that printed the same lines and traced the
same entries. -/
structure SameEffects (st₁ st₁' st₂ st₂' : State) : Prop where
  printed : ∃ lines, st₁'.channel = st₁.channel.printAll lines ∧
    st₂'.channel = st₂.channel.printAll lines
  traced : ∃ entries, st₁'.trace = st₁.trace ++ entries ∧ st₂'.trace = st₂.trace ++ entries

/-- Surroundings in which the same has been printed and traced since two states. -/
def Surroundings.since (st₁ st₂ : State) : Surroundings where
  Depth := Eq
  Channels c₁ c₂ := ∃ lines, c₁ = st₁.channel.printAll lines ∧ c₂ = st₂.channel.printAll lines
  Traces t₁ t₂ := ∃ entries : Array TraceEntry, t₁ = st₁.trace ++ entries ∧ t₂ = st₂.trace ++ entries
  deeper h := congrArg (· + 1) h
  println := by
    rintro _ _ line ⟨lines, rfl, rfl⟩
    exact ⟨lines ++ [line], by simp [Channel.printAll], by simp [Channel.printAll]⟩
  log := by
    rintro _ _ x _ ⟨entries, rfl, rfl⟩
    exact ⟨entries.push x, by simp, by simp⟩
  logApply := by
    rintro _ _ d _ n rfl ⟨entries, rfl, rfl⟩
    exact ⟨entries.push (.apply n d), by simp, by simp⟩

/-- What `e` can reach, and the frames still to come. -/
def Store.Realm (s : Store) (e : FrameId) (f : FrameId) : Prop := s.Reach (· = e) f ∨ s.size ≤ f

private theorem Store.closed_realm (s : Store) (e : FrameId) :
    s.Closed (s.Realm e) (Value.Inside (s.Realm e)) := (s.closed_reach (· = e)).with_new

private theorem Store.realm_self (s : Store) (e : FrameId) : s.Realm e e := .inl (.root rfl)

/-- States that bind the same in the frames that `e` can reach are twins. -/
theorem twins_of_reach {st₁ st₂ : State} {e : FrameId} (hs : st₁.store.WellFormed)
    (hsize : st₂.store.size = st₁.store.size) (hnext : st₂.nextClosure = st₁.nextClosure)
    (hframe : ∀ f, st₁.store.Reach (· = e) f → st₂.store.frame? f = st₁.store.frame? f) :
    Twins (.since st₁ st₂) (st₁.store.Realm e) st₁ st₂ where
  size := hsize.symm
  new f hf := .inr hf
  frame {f} hf := by
    rcases hf with hf | hf
    · exact (hframe f hf).symm
    · rw [Store.frame?_eq_none_of_le hf, Store.frame?_eq_none_of_le (hsize ▸ hf)]
  closed := {
    outer := (st₁.store.closed_realm e).outer
    value := fun hf hg => (hs.value hg).runnable ((st₁.store.closed_realm e).value hf hg) }
  next := hnext.symm
  channel := ⟨[], rfl, rfl⟩
  trace := ⟨#[], by simp, by simp⟩

/-- Evaluation in a frame `e` leaves alone whatever `e` cannot reach, and after it only frames that `e`
could reach before and new ones can be reached, from `e` and from the value returned. From another
state with as many frames that holds the same in the frames that `e` can reach, it comes to the same
outcome, prints and traces the same, and leaves the same in those frames and in new ones. -/
theorem eval_confined_to_reach (fuel : Nat) (it : Interpreter) (e : FrameId) (i : ExprId)
    (st : State) (hs : st.store.WellFormed) (ha : it.arena.arena.WellFormed)
    (hi : i < it.arena.arena.size) (he : e < st.store.size) :
    let R := st.store.Reach (· = e)
    let out := (Run.split (it.eval fuel e i st)).1
    let st' := (Run.split (it.eval fuel e i st)).2
    (∀ f < st.store.size, ¬ R f → st'.store.frame? f = st.store.frame? f) ∧
    (∀ f, st'.store.Reach (fun g => g = e ∨ ∃ c, out = .ok (.closure c) ∧ g = c.env) f →
      R f ∨ st.store.size ≤ f) ∧
    ∀ other : State, other.store.WellFormed → other.store.size = st.store.size →
      other.nextClosure = st.nextClosure →
      (∀ f, R f → other.store.frame? f = st.store.frame? f) →
      let other' := (Run.split (it.eval fuel e i other)).2
      (Run.split (it.eval fuel e i other)).1 = out ∧ SameEffects st st' other other' ∧
      other'.store.size = st'.store.size ∧ other'.nextClosure = st'.nextClosure ∧
      ∀ f, R f ∨ st.store.size ≤ f → other'.store.frame? f = st'.store.frame? f := by
  intro R out st'
  have hself := st.store.realm_self e
  have hkeeps := ((Discipline.confined (st.store.Realm e)).keptBy_eval fuel it e i st
    ⟨ha, hi, he, hs, ⟨st.store.closed_realm e, fun _ hf => .inr hf⟩, hself⟩).split
  obtain ⟨hkept, hval⟩ := hkeeps
  refine ⟨?_, ?_, ?_⟩
  · intro f hf hR
    exact hkept.step f (not_or.mpr ⟨hR, Nat.not_le.mpr hf⟩)
  · intro f hf
    refine Store.Reach.inside hkept.inv.1 ?_ hf
    rintro g (rfl | ⟨c, hc, rfl⟩)
    · exact hself
    · exact (hval _ hc).val c rfl
  · intro other _ hsize hnext hframe other'
    obtain ⟨hout, htwins⟩ := Surroundings.sameEnd_eval fuel rfl rfl rfl ha hi hself
      (twins_of_reach hs hsize hnext hframe)
    exact ⟨hout.symm, ⟨htwins.channel, htwins.trace⟩, htwins.size.symm, htwins.next.symm,
      fun f hf => (htwins.frame hf).symm⟩

/-- The calls that build `(function(x) { y = x })(true)`. -/
def exportingCalls : List BuildCall :=
  [.ident "x", .assign "y" 0, .function ["x"] 1, .literal (.bool true), .call 2 [3]]

/-- The call writes to the first of two global frames, and the other one makes no difference. -/
theorem export_confined_to_own_global :
    let b := (Builder.replay exportingCalls { names := .empty } []).1
    let it : Interpreter := { names := b.names, arena := { id := 0, arena := b.arena } }
    let fresh := State.fresh .buffer
    let st : State := { fresh with store := (Store.newGlobal fresh.store).2 }
    let other := st.bind 1 ⟨1⟩ (.bool false)
    let st' := (Run.split (it.eval 4 0 4 st)).2
    let other' := (Run.split (it.eval 4 0 4 other)).2
    ¬ st.store.Reach (· = 0) 1 ∧ st'.store.frame? 1 = st.store.frame? 1 ∧
      st'.store.toList 0 = [(⟨2⟩, .bool true)] ∧ other'.store.frame? 0 = st'.store.frame? 0 ∧
      other'.store.size = 3 := by
  intro b it fresh st other st' other'
  obtain ⟨ha, hids⟩ := ((Built.new .empty).replay exportingCalls).wellFormed
  have hs : st.store.WellFormed := (State.wellFormed_fresh .buffer).push (by simp)
  have hother : other.store.WellFormed := hs.bind 1 ⟨1⟩ (Value.wellFormed_of_scalar _ rfl)
  have hget (f : FrameId) (n : Name) : st.store.get? f n = none :=
    (Store.get?_push none fresh.store f n).trans (State.get?_fresh .buffer f n)
  have hclosed : st.store.Closed (· = 0) (Value.Inside (· = 0)) := by
    constructor
    · rintro _ o rfl hl
      cases hl
    · intro f n v _ hg
      rw [hget] at hg
      cases hg
  have hzero {f : FrameId} (hf : st.store.Reach (· = 0) f) : f = 0 :=
    Store.Reach.inside hclosed (fun _ h => h) hf
  have hone : ¬ st.store.Reach (· = 0) 1 := fun h => absurd (hzero h) (by decide)
  obtain ⟨hout, _, hsame⟩ := eval_confined_to_reach 4 it 0 4 st hs ha
    (hids 4 (by decide +kernel)) (by decide)
  obtain ⟨_, _, hsize, _, hframe⟩ := hsame other hother (Store.size_bind ..) rfl fun f hf => by
    rw [State.store_bind, Store.frame?_bind, if_neg (by rw [hzero hf]; decide)]
  refine ⟨hone, hout 1 (by decide) hone, ?_, hframe 0 (.inl (.root rfl)), ?_⟩
  · decide +kernel
  · rw [hsize]
    decide +kernel

end Treewalk
