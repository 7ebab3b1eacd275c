import Treewalk.Interner

/-! The table of an interner: each text has one name, and each name that was given out one text. -/
namespace Treewalk
namespace Interner

/-- An interner after any interning, with a new one at the start. -/
inductive Made : Interner → Prop where
  | empty : Made .empty
  | intern {t : Interner} (s : String) (h : Made t) : Made (t.intern s).2

/-- The name was given out for the text. -/
def Spells (t : Interner) (n : Name) (s : String) : Prop := t.texts[n.index]? = some s

instance (t : Interner) (n : Name) (s : String) : Decidable (t.Spells n s) :=
  inferInstanceAs (Decidable (t.texts[n.index]? = some s))

def Issued (t : Interner) (n : Name) : Prop := n.index < t.size

instance (t : Interner) (n : Name) : Decidable (t.Issued n) :=
  inferInstanceAs (Decidable (n.index < t.size))

theorem Spells.lookup {t : Interner} {n : Name} {s : String} (h : t.Spells n s) :
    t.lookup n = s := by
  rw [Interner.lookup, h]
  rfl

theorem Issued.spells {t : Interner} {n : Name} (h : t.Issued n) : t.Spells n (t.lookup n) := by
  have hs : t.texts[n.index]? = some t.texts[n.index] := Array.getElem?_eq_getElem h
  rw [Spells, Interner.lookup, hs]
  rfl

/-- Finding a name and reading its text are inverse to each other. -/
def Consistent (t : Interner) : Prop := ∀ s n, t.find? s = some n ↔ t.Spells n s

theorem consistent_empty : Consistent .empty := by
  intro s n
  unfold find? Spells empty
  rw [Std.ExtTreeMap.getElem?_insert]
  by_cases hs : s = ""
  · subst s
    cases n with
    | mk k => cases k <;> simp [Name.empty]
  · have hc : compare "" s ≠ .eq := fun h => hs (Std.LawfulEqOrd.eq_of_compare h).symm
    cases n with
    | mk k => cases k <;> simp [hc, Ne.symm hs]

theorem intern_of_find?_eq_some {t : Interner} {s : String} {n : Name} (h : t.find? s = some n) :
    t.intern s = (n, t) := by
  rw [intern, h]

theorem intern_of_find?_eq_none {t : Interner} {s : String} (h : t.find? s = none) :
    t.intern s = (⟨t.size⟩, { texts := t.texts.push s, known := t.known.insert s ⟨t.size⟩ }) := by
  rw [intern_eq_findOrAdd, findOrAdd, h]
  rfl

/-- A new text goes behind all the others, so no name that was given out changes its text. -/
theorem Consistent.intern {t : Interner} (h : t.Consistent) (s : String) :
    (t.intern s).2.Consistent := by
  cases hf : t.find? s with
  | some n =>
    rw [intern_of_find?_eq_some hf]
    exact h
  | none =>
    rw [intern_of_find?_eq_none hf]
    intro r m
    have hold := h r m
    unfold find? Spells at hold ⊢
    rw [Std.ExtTreeMap.getElem?_insert, Array.getElem?_push]
    by_cases hr : r = s
    · subst r
      have hfree : t.texts[m.index]? ≠ some s := by
        intro hs
        rw [(h s m).mpr hs] at hf
        cases hf
      by_cases hm : m.index = t.texts.size
      · simp [hm, size, Name.ext_iff]
      · simp [hm, size, Name.ext_iff, hfree, Ne.symm hm]
    · have hc : compare s r ≠ .eq := fun he => hr (Std.LawfulEqOrd.eq_of_compare he).symm
      rw [if_neg hc, hold]
      by_cases hm : m.index = t.texts.size
      · simp [hm, Ne.symm hr]
      · simp [hm]

theorem Made.consistent {t : Interner} (h : t.Made) : t.Consistent := by
  induction h with
  | empty => exact consistent_empty
  | intern s h ih => exact ih.intern s

/-- Every name that the first interner gave out has the same text in the second. -/
def Extends (t t' : Interner) : Prop := ∀ n s, t.Spells n s → t'.Spells n s

theorem Extends.trans {t₁ t₂ t₃ : Interner} (h : t₁.Extends t₂) (k : t₂.Extends t₃) :
    t₁.Extends t₃ := fun n s hn => k n s (h n s hn)

theorem extends_intern (t : Interner) (s : String) : t.Extends (t.intern s).2 := by
  intro n r hn
  cases hf : t.find? s with
  | some m =>
    rw [intern_of_find?_eq_some hf]
    exact hn
  | none =>
    rw [intern_of_find?_eq_none hf]
    have hlt : n.index < t.texts.size := (Array.getElem?_eq_some_iff.mp hn).choose
    rw [Spells, Array.getElem?_push, if_neg (Nat.ne_of_lt hlt)]
    exact hn

/-- The name that interning returns spells the text. -/
theorem Consistent.spells_intern {t : Interner} (h : t.Consistent) (s : String) :
    (t.intern s).2.Spells (t.intern s).1 s := by
  cases hf : t.find? s with
  | some n =>
    rw [intern_of_find?_eq_some hf]
    exact (h s n).mp hf
  | none =>
    rw [intern_of_find?_eq_none hf]
    exact Array.getElem?_push_size

def internAll (t : Interner) (ss : List String) : Interner := ss.foldl (fun t s => (t.intern s).2) t

theorem internAll_append (t : Interner) (ss rs : List String) :
    t.internAll (ss ++ rs) = (t.internAll ss).internAll rs := List.foldl_append

theorem extends_internAll (t : Interner) (ss : List String) : t.Extends (t.internAll ss) := by
  induction ss generalizing t with
  | nil => exact fun _ _ => id
  | cons s ss ih => exact (t.extends_intern s).trans (ih _)

theorem Made.internAll {t : Interner} (h : t.Made) (ss : List String) : (t.internAll ss).Made := by
  induction ss generalizing t with
  | nil => exact h
  | cons s ss ih => exact ih (h.intern s)

theorem Consistent.internAll {t : Interner} (h : t.Consistent) (ss : List String) :
    (t.internAll ss).Consistent := by
  induction ss generalizing t with
  | nil => exact h
  | cons s ss ih => exact ih (h.intern s)

theorem Consistent.name_unique {t : Interner} (h : t.Consistent) {n m : Name} {s : String}
    (hn : t.Spells n s) (hm : t.Spells m s) : n = m :=
  Option.some.inj (((h s n).mpr hn).symm.trans ((h s m).mpr hm))

end Interner
end Treewalk
