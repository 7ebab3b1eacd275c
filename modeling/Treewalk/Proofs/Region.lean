import Treewalk.Proofs.FrameStore

/-! Regions of a store: sets of frames that neither outer links nor captured frames lead out of.
A region stays one under every write of a value that belongs in it. -/
namespace Treewalk

def Value.Inside (A : FrameId → Prop) (v : Value) : Prop := ∀ c, v = .closure c → A c.env

namespace Store

/-- The frames that can be reached from some frames, along outer links and through the closures that
frames bind. -/
inductive Reach (s : Store) (roots : FrameId → Prop) : FrameId → Prop where
  | root {f : FrameId} (h : roots f) : Reach s roots f
  | outer {f o : FrameId} (h : Reach s roots f) (hl : s.link? f = some o) : Reach s roots o
  | captured {f : FrameId} {n : Name} {c : Closure} (h : Reach s roots f)
      (hg : s.get? f n = some (.closure c)) : Reach s roots c.env

/-- Outer links from frames in `A` lead to frames in `A`, and these frames bind values in `V` only. -/
structure Closed (s : Store) (A : FrameId → Prop) (V : Value → Prop) : Prop where
  outer : ∀ {f o}, A f → s.link? f = some o → A o
  value : ∀ {f n v}, A f → s.get? f n = some v → V v

variable {s : Store} {A roots : FrameId → Prop} {V : Value → Prop}

/-- What can be reached is a region. -/
theorem closed_reach (s : Store) (roots : FrameId → Prop) :
    s.Closed (s.Reach roots) (Value.Inside (s.Reach roots)) where
  outer h hl := .outer h hl
  value := by
    rintro f n _ h hg c rfl
    exact .captured h hg

/-- It is the least one around its roots. -/
theorem Reach.inside (hA : s.Closed A (Value.Inside A)) (hr : ∀ f, roots f → A f) {f : FrameId}
    (h : s.Reach roots f) : A f := by
  induction h with
  | root h => exact hr _ h
  | outer _ hl ih => exact hA.outer ih hl
  | captured _ hg ih => exact hA.value ih hg _ rfl

theorem frame?_eq_none_of_le {f : FrameId} (h : s.size ≤ f) : s.frame? f = none :=
  Array.getElem?_eq_none h

theorem get?_eq_none_of_le {f : FrameId} (h : s.size ≤ f) (n : Name) : s.get? f n = none := by
  rw [get?, frame?_eq_none_of_le h]
  rfl

/-- A region remains one when the frames that are still to come are added to it. -/
theorem Closed.with_new (h : s.Closed A (Value.Inside A)) :
    s.Closed (fun f => A f ∨ s.size ≤ f) (Value.Inside fun f => A f ∨ s.size ≤ f) where
  outer hf hl := by
    rcases hf with hf | hf
    · exact .inl (h.outer hf hl)
    · exact absurd (link?_lt_size hl) (Nat.not_lt.mpr hf)
  value hf hg c hc := by
    rcases hf with hf | hf
    · exact .inl (h.value hf hg c hc)
    · exact absurd (get?_lt hg) (Nat.not_lt.mpr hf)

theorem Closed.outer? (h : s.Closed A V) {e o : FrameId} (he : A e) (ho : s.outer? e = some o) :
    A o := by
  rw [outer?_eq] at ho
  exact h.outer he (Option.filter_eq_some_iff.mp ho).1

theorem Closed.owner? (h : s.Closed A V) {e o : FrameId} {n : Name} (he : A e)
    (ho : s.owner? e n = some o) : A o := by
  fun_induction s.owner? e n with
  | case1 e hb =>
    cases ho
    exact he
  | case2 e hb p hp ih => exact ih (h.outer? he hp) ho
  | case3 e hb hp => cases ho

theorem Closed.global (h : s.Closed A V) {e : FrameId} (he : A e) : A (s.global e) := by
  fun_induction s.global e with
  | case1 e o ho ih => exact ih (h.outer? he ho)
  | case2 e ho => exact he

theorem Closed.resolve? (h : s.Closed A V) {e : FrameId} {n : Name} {v : Value} (he : A e)
    (hv : s.resolve? e n = some v) : V v := by
  obtain ⟨o, ho, hg⟩ := resolve?_eq_some hv
  exact h.value (h.owner? he ho) hg

theorem Closed.bind (h : s.Closed A V) (e : FrameId) (n : Name) {v : Value} (hv : V v) :
    (s.bind e n v).Closed A V where
  outer hf hl := h.outer hf (by rwa [link?_bind] at hl)
  value hf hg := by
    rw [get?_bind] at hg
    split at hg
    · cases hg
      exact hv
    · exact h.value hf hg

theorem Closed.bindAll (h : s.Closed A V) (e : FrameId) (bindings : List (Name × Value))
    (hv : ∀ b ∈ bindings, V b.2) : (s.bindAll e bindings).Closed A V := by
  induction bindings generalizing s with
  | nil => exact h
  | cons b bindings ih =>
    exact ih (h.bind e b.1 (hv b (List.mem_cons_self ..)))
      fun c hc => hv c (List.mem_cons_of_mem b hc)

theorem Closed.child (h : s.Closed A V) {o : FrameId} (ho : A o) :
    (push { outer := some o } s).2.Closed A V where
  outer hf hl := by
    rw [link?_push] at hl
    split at hl
    · cases hl
      exact ho
    · exact h.outer hf hl
  value hf hg := h.value hf (by rwa [get?_push] at hg)

theorem frame?_bindAll_of_ne (s : Store) {e f : FrameId} (h : e ≠ f)
    (bindings : List (Name × Value)) : (s.bindAll e bindings).frame? f = s.frame? f := by
  induction bindings generalizing s with
  | nil => rfl
  | cons b bindings ih => exact (ih _).trans (by rw [frame?_bind, if_neg h])

end Store
end Treewalk
