import Treewalk.State
import Treewalk.Proofs.BuiltArena

/-! Well-formed stores: outer links lead to older frames, and every closure that a frame binds can be
run. Both survive every write and every new frame. -/
namespace Treewalk

/-- A closure whose body can be found and whose captured frame is there. -/
structure Closure.WellFormed (c : Closure) (s : Store) : Prop where
  arena : c.arena.arena.WellFormed
  body : c.body < c.arena.arena.size
  env : c.env < s.size

/-- A value that is no closure, or a well-formed one. -/
def Value.WellFormed (v : Value) (s : Store) : Prop := ∀ c, v = .closure c → c.WellFormed s

namespace Store

/-- The outer link of a frame as it is stored, wherever it leads. -/
def link? (s : Store) (e : FrameId) : Option FrameId := (s.frame? e).bind Frame.outer

structure WellFormed (s : Store) : Prop where
  link_lt : ∀ {e o : FrameId}, s.link? e = some o → o < e
  value : ∀ {e : FrameId} {n : Name} {v : Value}, s.get? e n = some v → v.WellFormed s

end Store

theorem Closure.WellFormed.mono {c : Closure} {s s' : Store} (h : c.WellFormed s)
    (hs : s.size ≤ s'.size) : c.WellFormed s' :=
  ⟨h.arena, h.body, Nat.lt_of_lt_of_le h.env hs⟩

theorem Value.WellFormed.mono {v : Value} {s s' : Store} (h : v.WellFormed s)
    (hs : s.size ≤ s'.size) : v.WellFormed s' := fun c hc => (h c hc).mono hs

theorem Value.wellFormed_of_scalar {v : Value} (s : Store) (h : v.asClosure? = none) :
    v.WellFormed s := by
  rintro c rfl
  cases h

namespace Store

private theorem frame?_lt {s : Store} {e : FrameId} {f : Frame} (h : s.frame? e = some f) : e < s.size :=
  (Array.getElem?_eq_some_iff.mp h).choose

theorem get?_lt {s : Store} {e : FrameId} {n : Name} {v : Value} (h : s.get? e n = some v) :
    e < s.size := by
  obtain ⟨f, hf, _⟩ := Option.bind_eq_some_iff.mp h
  exact frame?_lt hf

theorem lt_size_of_binds {s : Store} {e : FrameId} {n : Name} (h : s.binds e n = true) :
    e < s.size := by
  rw [binds_eq_isSome_get?, Option.isSome_iff_exists] at h
  obtain ⟨v, hv⟩ := h
  exact get?_lt hv

theorem mem_toList_iff {s : Store} {e : FrameId} {n : Name} {v : Value} :
    (n, v) ∈ s.toList e ↔ s.get? e n = some v := by
  unfold toList get?
  cases s.frame? e with
  | none => simp
  | some f => exact Std.ExtTreeMap.mem_toList_iff_getElem?_eq_some

/-- The link that evaluation follows is the stored one, as long as that leads to an older frame. -/
theorem outer?_eq (s : Store) (e : FrameId) : s.outer? e = (s.link? e).filter (· < e) := by
  unfold outer? link?
  cases s.frame? e <;> rfl

theorem WellFormed.outer?_eq_link? {s : Store} (h : s.WellFormed) (e : FrameId) :
    s.outer? e = s.link? e := by
  rw [outer?_eq]
  cases hl : s.link? e with
  | none => rfl
  | some o => simp [h.link_lt hl]

theorem link?_bind (s : Store) (e f : FrameId) (n : Name) (v : Value) :
    (s.bind e n v).link? f = s.link? f := by
  unfold link?
  rw [frame?_bind]
  by_cases he : e = f
  · cases hf : s.frame? f <;> simp [he]
  · simp [he]

theorem binds_bind_iff (s : Store) (e f : FrameId) (n m : Name) (v : Value) :
    (s.bind e n v).binds f m = true ↔ (e = f ∧ n = m ∧ f < s.size) ∨ s.binds f m = true := by
  rw [binds_eq_isSome_get?, binds_eq_isSome_get?, get?_bind]
  split <;> rename_i h <;> simp [h]

theorem count_bind (s : Store) (e f : FrameId) (n : Name) (v : Value) (hf : f < s.size) :
    (s.bind e n v).count f = s.count f + if e = f then (if s.binds e n then 0 else 1) else 0 := by
  obtain ⟨g, hg⟩ : ∃ g, s.frame? f = some g := ⟨_, Array.getElem?_eq_getElem hf⟩
  unfold count
  rw [frame?_bind]
  by_cases he : e = f
  · subst he
    rw [if_pos rfl, if_pos rfl, hg, binds, hg]
    simp only [Option.map_some, Std.ExtTreeMap.size_insert]
    split <;> rfl
  · rw [if_neg he, if_neg he, Nat.add_zero]

theorem size_push (f : Frame) (s : Store) : (push f s).2.size = s.size + 1 := Array.size_push f

theorem lt_size_push (f : Frame) (s : Store) : s.size < (push f s).2.size := by
  rw [size_push]
  exact Nat.lt_succ_self _

theorem link?_push (f : Frame) (s : Store) (e : FrameId) :
    (push f s).2.link? e = if e = s.size then f.outer else s.link? e := by
  unfold link?
  rw [frame?_push]
  split <;> rfl

theorem get?_push (o : Option FrameId) (s : Store) (e : FrameId) (n : Name) :
    (push { outer := o } s).2.get? e n = s.get? e n := by
  unfold get?
  rw [frame?_push]
  split
  · rename_i he
    have hn : s.frame? e = none := by simp [he, frame?, size]
    simp [hn]
  · rfl

theorem WellFormed.empty : Store.empty.WellFormed := by
  constructor
  · intro e o h
    simp [link?, frame?, Store.empty] at h
  · intro e n v h
    exact absurd (get?_lt h) (Nat.not_lt_zero e)

theorem WellFormed.bind {s : Store} (h : s.WellFormed) (e : FrameId) (n : Name) {v : Value}
    (hv : v.WellFormed s) : (s.bind e n v).WellFormed := by
  constructor
  · intro f o hl
    rw [link?_bind] at hl
    exact h.link_lt hl
  · intro f m w hg
    have hs : s.size ≤ (s.bind e n v).size := Nat.le_of_eq (size_bind s e n v).symm
    rw [get?_bind] at hg
    split at hg
    · cases hg
      exact hv.mono hs
    · exact (h.value hg).mono hs

theorem WellFormed.push {s : Store} (h : s.WellFormed) {o : Option FrameId}
    (ho : ∀ e, o = some e → e < s.size) : (push { outer := o } s).2.WellFormed := by
  constructor
  · intro f e hl
    rw [link?_push] at hl
    split at hl
    · subst f
      exact ho e hl
    · exact h.link_lt hl
  · intro f n v hg
    rw [get?_push] at hg
    exact (h.value hg).mono (by rw [size_push]; omega)

def bindAll (s : Store) (e : FrameId) (bindings : List (Name × Value)) : Store :=
  bindings.foldl (fun s b => s.bind e b.1 b.2) s

@[simp]
theorem size_bindAll (s : Store) (e : FrameId) (bindings : List (Name × Value)) :
    (s.bindAll e bindings).size = s.size := by
  induction bindings generalizing s with
  | nil => rfl
  | cons b bindings ih => exact (ih _).trans (size_bind s e b.1 b.2)

theorem link?_bindAll (s : Store) (e f : FrameId) (bindings : List (Name × Value)) :
    (s.bindAll e bindings).link? f = s.link? f := by
  induction bindings generalizing s with
  | nil => rfl
  | cons b bindings ih => exact (ih _).trans (link?_bind s e f b.1 b.2)

theorem binds_bindAll_iff (s : Store) (e f : FrameId) (m : Name) (bindings : List (Name × Value)) :
    (s.bindAll e bindings).binds f m = true ↔
      (e = f ∧ m ∈ bindings.map Prod.fst ∧ f < s.size) ∨ s.binds f m = true := by
  induction bindings generalizing s with
  | nil => simp [bindAll]
  | cons b bindings ih =>
    have hstep : s.bindAll e (b :: bindings) = (s.bind e b.1 b.2).bindAll e bindings := rfl
    rw [hstep, ih, binds_bind_iff, size_bind, List.map_cons, List.mem_cons]
    grind

theorem WellFormed.bindAll {s : Store} (h : s.WellFormed) (e : FrameId)
    (bindings : List (Name × Value)) (hv : ∀ b ∈ bindings, b.2.WellFormed s) :
    (s.bindAll e bindings).WellFormed := by
  induction bindings generalizing s with
  | nil => exact h
  | cons b bindings ih =>
    apply ih (h.bind e b.1 (hv b (List.mem_cons_self ..)))
    intro c hc
    exact (hv c (List.mem_cons_of_mem b hc)).mono (Nat.le_of_eq (size_bind ..).symm)

/-- What holds of the values of a store and of a value holds after that value has been bound. -/
theorem forall_get?_bind {s : Store} {P : Value → Prop} (h : ∀ f m w, s.get? f m = some w → P w)
    (e : FrameId) (n : Name) {v : Value} (hv : P v) :
    ∀ f m w, (s.bind e n v).get? f m = some w → P w := by
  intro f m w hw
  rw [get?_bind] at hw
  split at hw
  · cases hw
    exact hv
  · exact h f m w hw

theorem forall_get?_bindAll {s : Store} {P : Value → Prop} (h : ∀ f m w, s.get? f m = some w → P w)
    (e : FrameId) (bindings : List (Name × Value)) (hv : ∀ b ∈ bindings, P b.2) :
    ∀ f m w, (s.bindAll e bindings).get? f m = some w → P w := by
  induction bindings generalizing s with
  | nil => exact h
  | cons b bindings ih =>
    exact ih (forall_get?_bind h e b.1 (hv b (List.mem_cons_self ..)))
      fun c hc => hv c (List.mem_cons_of_mem b hc)

theorem binds_of_owner? {s : Store} {e o : FrameId} {n : Name} (h : s.owner? e n = some o) :
    s.binds o n = true := by
  fun_induction s.owner? e n with
  | case1 e hb =>
    cases h
    exact hb
  | case2 e hb p hp ih => exact ih h
  | case3 e hb hp => cases h

theorem global_le (s : Store) (e : FrameId) : s.global e ≤ e := by
  fun_induction s.global e with
  | case1 e o ho ih => exact Nat.le_trans ih (Nat.le_of_lt (lt_of_outer? ho))
  | case2 e ho => exact Nat.le_refl e

theorem outer?_global (s : Store) (e : FrameId) : s.outer? (s.global e) = none := by
  fun_induction s.global e with
  | case1 e o ho ih => exact ih
  | case2 e ho => exact ho

theorem binds_global_of_owner?_eq_none {s : Store} {e : FrameId} {n : Name}
    (h : s.owner? e n = none) : s.binds (s.global e) n = false := by
  fun_induction s.owner? e n with
  | case1 e hb => cases h
  | case2 e hb o ho ih =>
    rw [global_eq, ho]
    exact ih h
  | case3 e hb ho =>
    rw [global_eq, ho]
    simpa using hb

theorem resolve?_eq_some {s : Store} {e : FrameId} {n : Name} {v : Value}
    (h : s.resolve? e n = some v) : ∃ o, s.owner? e n = some o ∧ s.get? o n = some v :=
  Option.bind_eq_some_iff.mp h

/-- The frames from one frame to a global one, along the stored links. -/
inductive Chain (s : Store) : FrameId → List FrameId → Prop where
  | global {e : FrameId} (he : e < s.size) (hl : s.link? e = none) : Chain s e [e]
  | inner {e o : FrameId} {path : List FrameId} (hl : s.link? e = some o) (h : Chain s o path) :
      Chain s e (e :: path)

theorem link?_lt_size {s : Store} {e o : FrameId} (h : s.link? e = some o) : e < s.size := by
  obtain ⟨f, hf, _⟩ := Option.bind_eq_some_iff.mp h
  exact frame?_lt hf

/-- In a well-formed store, links lead from every frame to a global one. -/
theorem WellFormed.chain {s : Store} (h : s.WellFormed) {e : FrameId} (he : e < s.size) :
    ∃ path, s.Chain e path := by
  induction e using Nat.strongRecOn with
  | ind e ih =>
    cases hl : s.link? e with
    | none => exact ⟨[e], .global he hl⟩
    | some o =>
      have ho := h.link_lt hl
      obtain ⟨path, hp⟩ := ih o ho (Nat.lt_trans ho he)
      exact ⟨e :: path, .inner hl hp⟩

theorem Chain.getLast? {s : Store} (h : s.WellFormed) {e : FrameId} {path : List FrameId}
    (hc : s.Chain e path) : path.getLast? = some (s.global e) := by
  induction hc with
  | global he hl =>
    rw [global_eq, h.outer?_eq_link?, hl]
    rfl
  | inner hl hc ih =>
    rw [global_eq, h.outer?_eq_link?, hl, List.getLast?_cons, ih]
    rfl

/-- Searching outward visits the frames of the chain in order. -/
theorem Chain.owner?_eq_find? {s : Store} (h : s.WellFormed) {e : FrameId} {path : List FrameId}
    (hc : s.Chain e path) (n : Name) : s.owner? e n = path.find? (s.binds · n) := by
  induction hc with
  | @global e he hl =>
    rw [owner?_eq, h.outer?_eq_link?, hl]
    cases hb : s.binds e n <;> simp [hb]
  | @inner e o path hl hc ih =>
    rw [owner?_eq, h.outer?_eq_link?, hl]
    cases hb : s.binds e n <;> simp [hb, ih]

/-- In a well-formed store, the searches for a name and for the global frame pass along the stored links
and no others, and they end. -/
theorem WellFormed.search {s : Store} (h : s.WellFormed) {e : FrameId} (he : e < s.size) :
    ∃ path, s.Chain e path ∧ path.getLast? = some (s.global e) ∧
      ∀ n, s.owner? e n = path.find? (s.binds · n) := by
  obtain ⟨path, hp⟩ := h.chain he
  exact ⟨path, hp, hp.getLast? h, hp.owner?_eq_find? h⟩

end Store
end Treewalk
