import Treewalk.Proofs.Encoding

/-! Related states stay related while their interners grow, and when traces are left out of account.
So runs can be compared whose code was built bit by bit, with names added in between. -/
namespace Treewalk

def State.untraced (st : State) : State := { st with trace := #[] }

/-- The same simulation for runs whose traces differ. -/
def Simulation.untraced (S : Simulation) : Simulation where
  It := S.It
  St st₁ st₂ := S.St st₁.untraced st₂.untraced
  Nm := S.Nm
  Fr := S.Fr
  Val := S.Val
  Code := S.Code
  it_of_code := S.it_of_code
  node := S.node
  text := S.text
  scalar := S.scalar
  kind := S.kind
  same := S.same
  params := S.params
  outer {st₁ st₂ _ _} hst := @S.outer st₁.untraced st₂.untraced _ _ hst
  get {st₁ st₂ _ _ _ _} hst := @S.get st₁.untraced st₂.untraced _ _ _ _ hst
  log _ hst := hst
  logApply _ hst := hst
  println hst := S.println hst
  bind hst := S.bind hst
  child hst := S.child hst
  closure hb hps he hst := S.closure hb hps he hst
  body := S.body

namespace Encoding
variable {t₁ t₂ t₁' t₂' : Interner}

theorem SameText.mono {n₁ n₂ : Name} (h : SameText t₁ t₂ n₁ n₂) (h₁ : t₁.Extends t₁')
    (h₂ : t₂.Extends t₂') : SameText t₁' t₂' n₁ n₂ := by
  obtain ⟨s, hn₁, hn₂⟩ := h
  exact ⟨s, h₁ n₁ s hn₁, h₂ n₂ s hn₂⟩

theorem SameValue.mono {v w : Value} (h : SameValue t₁ t₂ v w) (h₁ : t₁.Extends t₁')
    (h₂ : t₂.Extends t₂') : SameValue t₁' t₂' v w := by
  cases h with
  | scalar h => exact .scalar h
  | closure hid henv hparams hbody =>
    obtain ⟨c, hc₁, hc₂⟩ := hbody
    refine .closure hid henv (hparams.imp fun _ _ hn => hn.mono h₁ h₂) ⟨c, ?_, ?_⟩
    · exact hc₁.mono (.refl _) h₁
    · exact hc₂.mono (.refl _) h₂

/-- Names that are bound are old, so their partners are; and new names are bound on neither side. -/
theorem SameState.mono {st₁ st₂ : State} (h : SameState t₁ t₂ st₁ st₂) (h₁ : t₁.Extends t₁')
    (h₂ : t₂.Extends t₂') (hc₁ : t₁'.Consistent) (hc₂ : t₂'.Consistent) :
    SameState t₁' t₂' st₁ st₂ := by
  have lift {x y : Option Value} (hr : Option.Rel (SameValue t₁ t₂) x y) :
      Option.Rel (SameValue t₁' t₂') x y := by
    cases hr with
    | none => exact .none
    | some hv => exact .some (hv.mono h₁ h₂)
  refine { h with get := ?_, left := ?_, right := ?_ }
  · intro e n₁ n₂ hn
    cases hg₁ : st₁.store.get? e n₁ with
    | some v =>
      obtain ⟨m₂, hm⟩ := h.left hg₁
      obtain rfl : m₂ = n₂ := ((hm.mono h₁ h₂).eq_iff hc₁ hc₂ hn).mp rfl
      exact hg₁ ▸ lift (h.get hm)
    | none =>
      cases hg₂ : st₂.store.get? e n₂ with
      | none => exact .none
      | some w =>
        obtain ⟨m₁, hm⟩ := h.right hg₂
        obtain rfl : m₁ = n₁ := ((hm.mono h₁ h₂).eq_iff hc₁ hc₂ hn).mpr rfl
        exact hg₁ ▸ hg₂ ▸ lift (h.get hm)
  · intro e n₁ v hg
    obtain ⟨n₂, hn⟩ := h.left hg
    exact ⟨n₂, hn.mono h₁ h₂⟩
  · intro e n₂ w hg
    obtain ⟨n₁, hn⟩ := h.right hg
    exact ⟨n₁, hn.mono h₁ h₂⟩

end Encoding

/-- Every name that is bound was given out by the interner, and so were the names in the closures that
are bound; their bodies stand for trees. -/
structure State.KnownTo (st : State) (t : Interner) : Prop where
  name : ∀ {e n v}, st.store.get? e n = some v → t.Issued n
  params : ∀ {e n c}, st.store.get? e n = some (.closure c) → ∀ p ∈ c.params, t.Issued p
  body : ∀ {e n c}, st.store.get? e n = some (.closure c) →
    ∃ code, c.arena.arena.Unfolds t c.body code

theorem State.knownTo_fresh (sink : Sink) (t : Interner) : (State.fresh sink).KnownTo t where
  name hg := by
    rw [State.get?_fresh] at hg
    cases hg
  params hg := by
    rw [State.get?_fresh] at hg
    cases hg
  body hg := by
    rw [State.get?_fresh] at hg
    cases hg

/-- A state that the interner knows is related to itself. -/
theorem State.KnownTo.sameState {st : State} {t : Interner} (h : st.KnownTo t) (ht : t.Consistent) :
    Encoding.SameState t t st st := by
  have self {n : Name} (hn : t.Issued n) : Encoding.SameText t t n n := ⟨_, hn.spells, hn.spells⟩
  have value {e : FrameId} {n : Name} {v : Value} (hg : st.store.get? e n = some v) :
      Encoding.SameValue t t v v := by
    cases v with
    | closure c =>
      obtain ⟨code, hcode⟩ := h.body hg
      refine .closure rfl rfl ?_ ⟨code, hcode, hcode⟩
      exact List.forall₂_same.mpr fun p hp => self (h.params hg p hp)
    | _ => exact .scalar rfl
  refine ⟨rfl, fun _ => rfl, ?_, fun hg => ⟨_, self (h.name hg)⟩, fun hg => ⟨_, self (h.name hg)⟩,
    rfl, rfl, rfl⟩
  rintro e n₁ n₂ ⟨s, hn₁, hn₂⟩
  obtain rfl := ht.name_unique hn₁ hn₂
  cases hg : st.store.get? e n₁ with
  | none => exact .none
  | some v => exact .some (value hg)

end Treewalk
