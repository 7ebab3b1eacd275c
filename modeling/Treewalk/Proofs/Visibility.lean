import Treewalk.Proofs.FrameStore

/-! From which frames a binding is seen.
A name is looked for outward, frame by frame. So a binding is seen from all frames from which that search
comes to it, and from no others. Declaring and updating are seen by this rule, whatever frames lie between
and however many chains pass through the frame that was written. -/
namespace Treewalk
namespace Store

theorem resolve?_eq (s : Store) (e : FrameId) (n : Name) :
    s.resolve? e n = if s.binds e n then s.get? e n else (s.outer? e).bind (s.resolve? · n) := by
  rw [resolve?, owner?_eq]
  split
  · rfl
  · cases s.outer? e <;> rfl

/-- Updating a name overwrites what the frame itself binds, or else goes on in the outer frame. Where
there is none, the name is bound. -/
theorem update_eq (s : Store) (e : FrameId) (n : Name) (v : Value) :
    s.update e n v = if s.binds e n then s.bind e n v else
      match s.outer? e with
      | some o => s.update o n v
      | none => s.bind e n v := by
  unfold update
  rw [owner?_eq, global_eq]
  split
  · rfl
  · cases s.outer? e <;> rfl

/-- The search for `n` from a frame comes to the frame `o`. The frames that it passes do not bind `n`. -/
inductive Sees (s : Store) (n : Name) (o : FrameId) : FrameId → Prop where
  | here : Sees s n o o
  | outward {f g : FrameId} (hb : s.binds f n = false) (hg : s.outer? f = some g) (h : Sees s n o g) :
      Sees s n o f

variable {s : Store} {e f o : FrameId} {n m : Name}

theorem resolve?_of_get? {v : Value} (h : s.get? e n = some v) : s.resolve? e n = some v := by
  rw [resolve?_eq, if_pos (by simp [binds_eq_isSome_get?, h]), h]

theorem resolve?_bind_self (he : e < s.size) (n : Name) (v : Value) :
    (s.bind e n v).resolve? e n = some v :=
  resolve?_of_get? (by simp [get?_bind, he])

/-- What is bound in a frame is found from wherever the search comes to that frame. -/
theorem Sees.resolve?_bind (h : s.Sees n o f) (ho : o < s.size) (v : Value) :
    (s.bind o n v).resolve? f n = some v := by
  induction h with
  | here => exact resolve?_bind_self ho n v
  | @outward f g hb hg _ ih =>
    by_cases hof : o = f
    · subst hof
      exact resolve?_bind_self ho n v
    · have hbinds : ¬ (s.bind o n v).binds f n = true := by
        simp [binds_bind_iff, hof, hb]
      rw [resolve?_eq, if_neg hbinds, outer?_bind, hg]
      exact ih

/-- From everywhere else, and under other names, what was found before is found again. -/
theorem resolve?_bind_of_not_sees (h : ¬ (m = n ∧ s.Sees n o f)) (v : Value) :
    (s.bind o n v).resolve? f m = s.resolve? f m := by
  have hget {f : FrameId} (h : ¬ (m = n ∧ s.Sees n o f)) :
      (s.bind o n v).get? f m = s.get? f m := by
    rw [get?_bind, if_neg]
    rintro ⟨rfl, rfl, -⟩
    exact h ⟨rfl, .here⟩
  have hbinds {f : FrameId} (h : ¬ (m = n ∧ s.Sees n o f)) :
      (s.bind o n v).binds f m = s.binds f m := by
    rw [binds_eq_isSome_get?, binds_eq_isSome_get?, hget h]
  fun_induction s.owner? f m with
  | case1 f hb => rw [resolve?_eq, resolve?_eq s, hbinds h, if_pos hb, if_pos hb, hget h]
  | case2 f hb g hg ih =>
    rw [resolve?_eq, resolve?_eq s, hbinds h, if_neg hb, if_neg hb, outer?_bind, hg]
    apply ih
    rintro ⟨rfl, hsees⟩
    exact h ⟨rfl, .outward (by simpa using hb) hg hsees⟩
  | case3 f hb hg => rw [resolve?_eq, resolve?_eq s, hbinds h, if_neg hb, if_neg hb, outer?_bind, hg]; rfl

/-- A frame that binds the name is seen by those that find the name there. -/
theorem sees_iff_of_binds (hb : s.binds o n = true) : s.Sees n o f ↔ s.owner? f n = some o := by
  constructor
  · intro h
    induction h with
    | here => rw [owner?_eq, if_pos hb]
    | outward hf hg _ ih =>
      rw [owner?_eq, if_neg (by simp [hf]), hg]
      exact ih
  · intro h
    fun_induction s.owner? f n with
    | case1 f _ =>
      cases h
      exact .here
    | case2 f hf g hg ih => exact .outward (by simpa using hf) hg (ih h)
    | case3 f hf hg => cases h

/-- A global frame that does not bind the name is seen by those that lie in it and find the name
nowhere. -/
theorem sees_iff_of_global (hb : s.binds o n = false) (ho : s.outer? o = none) :
    s.Sees n o f ↔ s.owner? f n = none ∧ s.global f = o := by
  constructor
  · intro h
    induction h with
    | here =>
      rw [owner?_eq, global_eq, if_neg (by simp [hb]), ho]
      exact ⟨rfl, rfl⟩
    | outward hf hg _ ih =>
      rw [owner?_eq, global_eq, if_neg (by simp [hf]), hg]
      exact ih
  · rintro ⟨howner, hglobal⟩
    fun_induction s.owner? f n with
    | case1 f _ => cases howner
    | case2 f hf g hg ih =>
      rw [global_eq, hg] at hglobal
      exact .outward (by simpa using hf) hg (ih howner hglobal)
    | case3 f hf hg =>
      rw [global_eq, hg] at hglobal
      exact hglobal ▸ .here

/-- The frame in which an update binds a name is seen from a frame exactly if both find the name in the
same frame, or both find it nowhere and lie in the same global frame. -/
theorem sees_target_iff : s.Sees n ((s.owner? e n).getD (s.global e)) f ↔
    (∃ o, s.owner? e n = some o ∧ s.owner? f n = some o) ∨
      (s.owner? e n = none ∧ s.owner? f n = none ∧ s.global e = s.global f) := by
  cases he : s.owner? e n with
  | some o =>
    rw [Option.getD_some, sees_iff_of_binds (binds_of_owner? he)]
    simp
  | none =>
    rw [Option.getD_none, sees_iff_of_global (binds_global_of_owner?_eq_none he) (outer?_global s e)]
    simp [eq_comm]

private theorem target_lt_size (he : e < s.size) (n : Name) : (s.owner? e n).getD (s.global e) < s.size := by
  cases ho : s.owner? e n with
  | some o => exact lt_size_of_binds (binds_of_owner? ho)
  | none => exact Nat.lt_of_le_of_lt (s.global_le e) he

/-- After an update the name is found with its new value, whether it was bound before or not. -/
theorem resolve?_update (he : e < s.size) (n : Name) (v : Value) :
    (s.update e n v).resolve? e n = some v := by
  refine (sees_target_iff.mpr ?_).resolve?_bind (target_lt_size he n) v
  cases ho : s.owner? e n with
  | some o => exact .inl ⟨o, rfl, rfl⟩
  | none => exact .inr ⟨rfl, rfl, rfl⟩

/-! The same along the chain of a frame. -/

theorem Chain.unique {path path' : List FrameId} (h : s.Chain e path) (h' : s.Chain e path') :
    path = path' := by
  induction h generalizing path' with
  | global _ hl =>
    cases h' with
    | global => rfl
    | inner hl' => simp [hl] at hl'
  | inner hl _ ih =>
    cases h' with
    | global _ hl' => simp [hl] at hl'
    | inner hl' h' =>
      cases hl.symm.trans hl'
      rw [ih h']

/-- A frame stands on a chain, and no frame before it binds the name. -/
def Unshadowed (s : Store) (n : Name) (path : List FrameId) (o : FrameId) : Prop :=
  ∃ before after, path = before ++ o :: after ∧ ∀ g ∈ before, s.binds g n = false

theorem Unshadowed.cons {path : List FrameId} (h : s.Unshadowed n path o) (hb : s.binds f n = false) :
    s.Unshadowed n (f :: path) o := by
  obtain ⟨before, after, rfl, hbefore⟩ := h
  exact ⟨f :: before, after, rfl, List.forall_mem_cons.mpr ⟨hb, hbefore⟩⟩

private theorem Chain.sees_iff (hs : s.WellFormed) {path : List FrameId} (hc : s.Chain f path) :
    s.Sees n o f ↔ s.Unshadowed n path o := by
  induction hc with
  | @global f hf hl =>
    have hg : s.outer? f = none := (hs.outer?_eq_link? f).trans hl
    constructor
    · intro h
      cases h with
      | here => exact ⟨[], [], rfl, by simp⟩
      | outward _ hg' _ => simp [hg] at hg'
    · intro ⟨before, after, hpath, _⟩
      cases before with
      | nil =>
        obtain ⟨rfl, -⟩ := List.cons.inj hpath
        exact .here
      | cons b before => simp at hpath
  | @inner f g path hl hc ih =>
    have hg : s.outer? f = some g := (hs.outer?_eq_link? f).trans hl
    constructor
    · intro h
      cases h with
      | here => exact ⟨[], path, rfl, by simp⟩
      | outward hb hg' h =>
        obtain rfl : g = _ := Option.some.inj (hg.symm.trans hg')
        exact (ih.mp h).cons hb
    · intro ⟨before, after, hpath, hbefore⟩
      cases before with
      | nil =>
        obtain ⟨rfl, -⟩ := List.cons.inj hpath
        exact .here
      | cons b before =>
        obtain ⟨rfl, htail⟩ := List.cons.inj hpath
        obtain ⟨hb, hrest⟩ := List.forall_mem_cons.mp hbefore
        exact .outward hb hg (ih.mpr ⟨before, after, htail, hrest⟩)

/-- What becomes of a store when a name is bound in one frame. Nothing else in it changes. -/
structure Written (s s' : Store) (o : FrameId) (n : Name) (v : Value) : Prop where
  others : ∀ g ≠ o, s'.frame? g = s.frame? g
  link : s'.link? o = s.link? o
  get : ∀ x, s'.get? o x = if x = n then some v else s.get? o x
  count : s'.count o = s.count o + if s.binds o n then 0 else 1

private theorem written_bind (ho : o < s.size) (n : Name) (v : Value) : Written s (s.bind o n v) o n v where
  others g hg := by rw [frame?_bind, if_neg hg.symm]
  link := link?_bind s o o n v
  get x := by simp [get?_bind, ho, eq_comm]
  count := by rw [count_bind s o o n v ho, if_pos rfl]

end Store

/-- Where an update is seen. Let the owner of the name `n` be the first frame on a chain that binds it.
After an update from the frame `e`, a frame `f` finds the new value exactly if it had the same owner of
`n` as `e`, or neither had one and both chains end in the same global frame; and it finds all other names
as before. One frame is written, and in it one name. -/
theorem update_seen_from_every_frame (s : Store) (e f : FrameId) (n m : Name) (v : Value)
    (hs : s.WellFormed) (he : e < s.size) (hf : f < s.size) :
    ∃ pe pf, s.Chain e pe ∧ s.Chain f pf ∧
      let owner (path : List FrameId) := path.find? (s.binds · n)
      let seen := m = n ∧ ((∃ o, owner pe = some o ∧ owner pf = some o) ∨
        (owner pe = none ∧ owner pf = none ∧ pe.getLast? = pf.getLast?))
      let s' := s.update e n v
      (seen → s'.resolve? f m = some v) ∧
      (¬ seen → s'.resolve? f m = s.resolve? f m) ∧
      ∃ o, (owner pe = some o ∨ owner pe = none ∧ pe.getLast? = some o ∧ s.binds o n = false) ∧
        s.Written s' o n v := by
  obtain ⟨pe, hpe⟩ := hs.chain he
  obtain ⟨pf, hpf⟩ := hs.chain hf
  refine ⟨pe, pf, hpe, hpf, ?_⟩
  simp only [← hpe.owner?_eq_find? hs, ← hpf.owner?_eq_find? hs, hpe.getLast? hs, hpf.getLast? hs,
    Option.some.injEq, ← Store.sees_target_iff]
  have ht := Store.target_lt_size he n
  refine ⟨?_, fun h => Store.resolve?_bind_of_not_sees h v, _, ?_, Store.written_bind ht n v⟩
  · rintro ⟨rfl, hsees⟩
    exact hsees.resolve?_bind ht v
  · cases ho : s.owner? e n with
    | some o => exact .inl rfl
    | none => exact .inr ⟨rfl, rfl, Store.binds_global_of_owner?_eq_none ho⟩

namespace Store

/-- The global frame 0, the frame 1 in it, and in that the frames 2 and 3, of which 2 binds a name. -/
def forked : Store :=
  (child 1 (child 1 (child 0 (newGlobal .empty).2).2).2).2.bind 2 ⟨1⟩ .null

private theorem wellFormed_forked : forked.WellFormed := by
  have h₀ : (newGlobal .empty).2.WellFormed := WellFormed.empty.push (by simp)
  have h₁ : (child 0 (newGlobal .empty).2).2.WellFormed := h₀.push (by simp [newGlobal, size_push])
  have h₂ := h₁.push (o := some 1) (by simp [child, newGlobal, size_push])
  have h₃ := h₂.push (o := some 1) (by simp [child, newGlobal, size_push])
  exact h₃.bind 2 ⟨1⟩ (Value.wellFormed_of_scalar _ rfl)

end Store

/-- The frame 3 finds the name nowhere, so an update from there makes it global. The frame 1 sees that,
and the frame 2 does not. -/
theorem update_passes_a_shadow :
    let s := Store.forked
    let s' := s.update 3 ⟨1⟩ (.bool true)
    s'.resolve? 1 ⟨1⟩ = some (.bool true) ∧ s'.resolve? 2 ⟨1⟩ = s.resolve? 2 ⟨1⟩ ∧
      s.Written s' 0 ⟨1⟩ (.bool true) := by
  intro s s'
  have hs : s.WellFormed := Store.wellFormed_forked
  have h₁ : s.Chain 1 [1, 0] := .inner (by decide) (.global (by decide) (by decide))
  have h₂ : s.Chain 2 [2, 1, 0] := .inner (by decide) h₁
  have h₃ : s.Chain 3 [3, 1, 0] := .inner (by decide) h₁
  obtain ⟨pe, pf, hpe, hpf, hseen, -, o, ho, hwritten⟩ :=
    update_seen_from_every_frame s 3 1 ⟨1⟩ ⟨1⟩ (.bool true) hs (by decide) (by decide)
  obtain rfl := hpe.unique h₃
  obtain rfl := hpf.unique h₁
  obtain ⟨pe', pf', hpe', hpf', -, hunseen, -⟩ :=
    update_seen_from_every_frame s 3 2 ⟨1⟩ ⟨1⟩ (.bool true) hs (by decide) (by decide)
  obtain rfl := hpe'.unique h₃
  obtain rfl := hpf'.unique h₂
  have hnone : [3, 1, 0].find? (s.binds · ⟨1⟩) = none := by decide
  have hsome : [2, 1, 0].find? (s.binds · ⟨1⟩) = some 2 := by decide
  refine ⟨hseen ⟨rfl, .inr ⟨hnone, by decide, rfl⟩⟩, hunseen ?_, ?_⟩
  · simp [hnone, hsome]
  · rcases ho with howner | ⟨_, hlast, _⟩
    · cases hnone.symm.trans howner
    · cases hlast
      exact hwritten

/-- Where a declaration is seen. It fails exactly in a frame that binds the name already, and then changes
nothing. Otherwise a frame `f` finds the new value exactly if the frame of the declaration stands on its
chain and no nearer frame binds the name; and it finds all other names as before. So frames that lie
elsewhere find what they found. -/
theorem declaration_seen_from_every_frame (s : Store) (e f : FrameId) (n m : Name) (v : Value)
    (hs : s.WellFormed) (he : e < s.size) (hf : f < s.size) :
    (s.binds e n = true → s.declare e n v = .error ⟨n⟩ s) ∧
    (s.binds e n = false → ∃ s' path, s.declare e n v = .ok () s' ∧ s.Chain f path ∧
      let seen := m = n ∧ s.Unshadowed n path e
      (seen → s'.resolve? f m = some v) ∧
      (¬ seen → s'.resolve? f m = s.resolve? f m) ∧
      (e ∉ path → s'.resolve? f m = s.resolve? f m)) := by
  refine ⟨fun hb => by rw [Store.declare, if_pos hb], fun hb => ?_⟩
  obtain ⟨path, hpath⟩ := hs.chain hf
  have hok : s.declare e n v = .ok () (s.bind e n v) := by rw [Store.declare, if_neg (by simp [hb])]
  refine ⟨s.bind e n v, path, hok, hpath, ?_⟩
  simp only [← hpath.sees_iff hs]
  refine ⟨?_, fun h => Store.resolve?_bind_of_not_sees h v, fun hmem => ?_⟩
  · rintro ⟨rfl, hsees⟩
    exact hsees.resolve?_bind he v
  · apply Store.resolve?_bind_of_not_sees
    rintro ⟨-, hsees⟩
    obtain ⟨before, after, rfl, -⟩ := (hpath.sees_iff hs).mp hsees
    exact hmem (by simp)

/-- A declaration in the frame 1 is seen from the frame 3, but neither from the frame 2, which binds the
name itself, nor from the global frame. In the frame 2 the name cannot be declared again. -/
theorem declaration_stays_inside :
    let s := Store.forked
    ∃ s', s.declare 1 ⟨1⟩ (.bool true) = .ok () s' ∧ s'.resolve? 3 ⟨1⟩ = some (.bool true) ∧
      s'.resolve? 2 ⟨1⟩ = s.resolve? 2 ⟨1⟩ ∧ s'.resolve? 0 ⟨1⟩ = s.resolve? 0 ⟨1⟩ ∧
      s.declare 2 ⟨1⟩ (.bool true) = .error ⟨⟨1⟩⟩ s := by
  intro s
  have hs : s.WellFormed := Store.wellFormed_forked
  have hfree : s.binds 1 ⟨1⟩ = false := by decide
  have h₀ : s.Chain 0 [0] := .global (by decide) (by decide)
  have h₁ : s.Chain 1 [1, 0] := .inner (by decide) h₀
  have h₂ : s.Chain 2 [2, 1, 0] := .inner (by decide) h₁
  have h₃ : s.Chain 3 [3, 1, 0] := .inner (by decide) h₁
  have from3 := declaration_seen_from_every_frame s 1 3 ⟨1⟩ ⟨1⟩ (.bool true) hs (by decide) (by decide)
  have from2 := declaration_seen_from_every_frame s 1 2 ⟨1⟩ ⟨1⟩ (.bool true) hs (by decide) (by decide)
  have from0 := declaration_seen_from_every_frame s 1 0 ⟨1⟩ ⟨1⟩ (.bool true) hs (by decide) (by decide)
  have again := declaration_seen_from_every_frame s 2 2 ⟨1⟩ ⟨1⟩ (.bool true) hs (by decide) (by decide)
  obtain ⟨s', path, hok, hpath, hseen, -⟩ := from3.2 hfree
  obtain rfl := hpath.unique h₃
  obtain ⟨s₂, path, hok₂, hpath, -, hunseen, -⟩ := from2.2 hfree
  obtain rfl := hpath.unique h₂
  obtain ⟨s₀, path, hok₀, hpath, -, -, houtside⟩ := from0.2 hfree
  obtain rfl := hpath.unique h₀
  cases hok.symm.trans hok₂
  cases hok.symm.trans hok₀
  refine ⟨s', hok, hseen ⟨rfl, [3], [0], rfl, by decide⟩, hunseen ?_, houtside (by simp),
    again.1 (by decide)⟩
  intro ⟨_, before, after, hsplit, hbefore⟩
  cases before with
  | nil => simp at hsplit
  | cons b before =>
    obtain ⟨rfl, -⟩ := List.cons.inj hsplit
    exact absurd (hbefore 2 (by simp)) (by decide)

end Treewalk
