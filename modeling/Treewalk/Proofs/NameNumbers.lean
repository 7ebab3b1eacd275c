import Mathlib.Data.Finset.Card
import Mathlib.Data.Finset.Dedup
import Mathlib.Data.List.Induction
import Treewalk.Proofs.InternerTable

/-! Which names a new interner gives out, text by text.
Names count the different texts in the order in which they are first seen, with the empty text in front
of them all, and a name that has been given out keeps its text. -/
namespace Treewalk
namespace Interner

/-- How many different texts a list holds, the empty one not counted. -/
def variety (ss : List String) : Nat := (ss.toFinset.erase "").card

private theorem variety_concat_of_seen {ss : List String} {s : String} (h : s = "" ∨ s ∈ ss) :
    variety (ss ++ [s]) = variety ss := by
  have hset : (ss ++ [s]).toFinset.erase "" = ss.toFinset.erase "" := by
    ext r
    rcases h with rfl | h
    · simp
    · simp only [List.toFinset_append, Finset.mem_erase, Finset.mem_union, List.mem_toFinset,
        List.mem_singleton]
      grind
  rw [variety, hset, variety]

private theorem variety_concat_of_new {ss : List String} {s : String} (hs : s ≠ "") (h : s ∉ ss) :
    variety (ss ++ [s]) = variety ss + 1 := by
  have hset : (ss ++ [s]).toFinset.erase "" = insert s (ss.toFinset.erase "") := by
    ext r
    simp only [List.toFinset_append, Finset.mem_erase, Finset.mem_union, List.mem_toFinset,
      List.mem_singleton, Finset.mem_insert]
    grind
  rw [variety, hset, Finset.card_insert_of_notMem (by simp [h]), variety]

private theorem find?_empty_eq_none_iff (s : String) : Interner.empty.find? s = none ↔ s ≠ "" := by
  unfold find? empty
  rw [Std.ExtTreeMap.getElem?_insert]
  by_cases hs : s = ""
  · simp [hs]
  · have hc : compare "" s ≠ .eq := fun h => hs (Std.LawfulEqOrd.eq_of_compare h).symm
    simp [hs, hc]

/-- After a text has been interned, it is found, and so is what was found before. -/
theorem find?_intern_eq_none_iff (t : Interner) (r s : String) :
    (t.intern s).2.find? r = none ↔ t.find? r = none ∧ r ≠ s := by
  cases hf : t.find? s with
  | some n =>
    rw [intern_of_find?_eq_some hf]
    refine ⟨fun h => ⟨h, ?_⟩, And.left⟩
    rintro rfl
    rw [h] at hf
    cases hf
  | none =>
    rw [intern_of_find?_eq_none hf]
    unfold find?
    rw [Std.ExtTreeMap.getElem?_insert]
    by_cases hr : r = s
    · simp [hr]
    · have hc : compare s r ≠ .eq := fun h => hr (Std.LawfulEqOrd.eq_of_compare h).symm
      simp [hr, hc]

private theorem internAll_concat (t : Interner) (ss : List String) (s : String) :
    t.internAll (ss ++ [s]) = ((t.internAll ss).intern s).2 := by
  rw [internAll_append]
  rfl

private theorem find?_internAll_eq_none_iff (ss : List String) (s : String) :
    (Interner.empty.internAll ss).find? s = none ↔ s ≠ "" ∧ s ∉ ss := by
  induction ss using List.reverseRecOn with
  | nil => simpa [internAll] using find?_empty_eq_none_iff s
  | append_singleton ss r ih =>
    rw [internAll_concat, find?_intern_eq_none_iff, ih, List.mem_append, List.mem_singleton]
    grind

private theorem size_intern_of_find?_eq_none {t : Interner} {s : String} (h : t.find? s = none) :
    (t.intern s).2.size = t.size + 1 := by
  rw [intern_of_find?_eq_none h]
  exact Array.size_push s

/-- The table holds the empty text and one entry for every other text. -/
theorem size_internAll (ss : List String) :
    (Interner.empty.internAll ss).size = 1 + variety ss := by
  induction ss using List.reverseRecOn with
  | nil => rfl
  | append_singleton ss s ih =>
    rw [internAll_concat]
    cases hf : (Interner.empty.internAll ss).find? s with
    | some n =>
      have hseen : s = "" ∨ s ∈ ss := by
        by_contra hnew
        rw [(find?_internAll_eq_none_iff ss s).mpr (by tauto)] at hf
        cases hf
      rw [intern_of_find?_eq_some hf, ih, variety_concat_of_seen hseen]
    | none =>
      obtain ⟨hs, hnew⟩ := (find?_internAll_eq_none_iff ss s).mp hf
      rw [size_intern_of_find?_eq_none hf, ih, variety_concat_of_new hs hnew, Nat.add_assoc]

/-- The number that a text gets: the empty one has the first, and every other counts the different texts
that came before it. -/
def number (ss : List String) (s : String) : Nat :=
  if s = "" then 0 else 1 + variety (ss.takeWhile (· ≠ s))

private theorem takeWhile_ne_first {before : List String} {s : String} (h : s ∉ before)
    (after : List String) : (before ++ s :: after).takeWhile (· ≠ s) = before := by
  rw [List.takeWhile_append_of_pos, List.takeWhile_cons_of_neg (by simp), List.append_nil]
  intro r hr
  have hne : r ≠ s := by
    rintro rfl
    exact h hr
  simpa using hne

/-- A text keeps the number that it got when it was first seen. -/
theorem spells_number {ss : List String} {s : String} (h : s ∈ ss) :
    (Interner.empty.internAll ss).Spells ⟨number ss s⟩ s := by
  unfold number
  by_cases hs : s = ""
  · rw [if_pos hs, hs]
    exact extends_internAll .empty ss ⟨0⟩ "" rfl
  · obtain ⟨before, after, rfl, hnew⟩ := List.eq_append_cons_of_mem h
    have hfree := (find?_internAll_eq_none_iff before s).mpr ⟨hs, hnew⟩
    rw [if_neg hs, takeWhile_ne_first hnew, ← size_internAll, List.append_cons, internAll_append,
      internAll_concat]
    refine extends_internAll _ after _ s ?_
    rw [intern_of_find?_eq_none hfree]
    exact Array.getElem?_push_size

/-- Interning a list returns a name for each text, and leaves the table of all of them. -/
theorem mapM_intern_cons (t : Interner) (s : String) (ss : List String) :
    (s :: ss).mapM intern t = ((t.intern s).1 :: (ss.mapM intern (t.intern s).2).1,
      (ss.mapM intern (t.intern s).2).2) := by
  rw [List.mapM_cons]
  rfl

theorem mapM_intern_snd (t : Interner) (ss : List String) :
    (ss.mapM intern t).2 = t.internAll ss := by
  induction ss generalizing t with
  | nil => rfl
  | cons s ss ih =>
    rw [mapM_intern_cons]
    exact ih _

/-- The calls of `intern` on a list of texts: each text with the name returned for it. -/
def calls (t : Interner) (ss : List String) : List (String × Name) := ss.zip (ss.mapM intern t).1

private theorem calls_cons (t : Interner) (s : String) (ss : List String) :
    t.calls (s :: ss) = (s, (t.intern s).1) :: (t.intern s).2.calls ss := by
  rw [calls, mapM_intern_cons]
  rfl

private theorem map_fst_calls (t : Interner) (ss : List String) : (t.calls ss).map Prod.fst = ss := by
  induction ss generalizing t with
  | nil => rfl
  | cons s ss ih => rw [calls_cons, List.map_cons, ih]

private theorem take_calls (t : Interner) (ss : List String) (k : Nat) :
    (t.calls ss).take k = t.calls (ss.take k) := by
  induction ss generalizing t k with
  | nil => simp [calls]
  | cons s ss ih =>
    cases k with
    | zero => rfl
    | succ k => rw [calls_cons, List.take_succ_cons, List.take_succ_cons, calls_cons, ih]

theorem Consistent.spells_of_mem_calls {t : Interner} (h : t.Consistent) {ss : List String}
    {call : String × Name} (hc : call ∈ t.calls ss) : (t.internAll ss).Spells call.2 call.1 := by
  induction ss generalizing t with
  | nil => cases hc
  | cons s ss ih =>
    rw [calls_cons] at hc
    rcases List.mem_cons.mp hc with rfl | hc
    · exact extends_internAll _ ss _ s (h.spells_intern s)
    · exact ih (h.intern s) hc

end Interner

/-- Interning any texts in any order on a new interner. The map and the table are inverse to each
other; equal names are returned for equal texts and for no others; a text is numbered by the different
texts that came before its first occurrence; the table grows by the new texts only; and at every moment
each name returned so far reads as its text, and an index beyond the table as the empty one. -/
theorem interning_is_a_growing_bijection (ss : List String) :
    let t : Interner := (ss.mapM Interner.intern Interner.empty).2
    let calls := Interner.empty.calls ss
    (∀ s n, t.find? s = some n ↔ t.texts[n.index]? = some s) ∧
    calls.map Prod.fst = ss ∧
    (∀ c ∈ calls, ∀ d ∈ calls, c.2 = d.2 ↔ c.1 = d.1) ∧
    (∀ c ∈ calls, c.2.index = Interner.number ss c.1) ∧
    t.size = 1 + Interner.variety ss ∧ (∀ c ∈ calls, c.2.index < t.size) ∧
    (∀ k, ∀ c ∈ calls.take k, ((ss.take k).mapM Interner.intern Interner.empty).2.lookup c.2 = c.1) ∧
    (∀ n : Name, t.size ≤ n.index → t.lookup n = "") := by
  intro t calls
  have ht : t = Interner.empty.internAll ss := Interner.mapM_intern_snd .empty ss
  have hconsistent : t.Consistent := ht ▸ Interner.consistent_empty.internAll ss
  have hspells {c : String × Name} (hc : c ∈ calls) : t.Spells c.2 c.1 :=
    ht ▸ Interner.consistent_empty.spells_of_mem_calls hc
  refine ⟨hconsistent, Interner.map_fst_calls .empty ss, ?_, ?_, ?_, ?_, ?_, ?_⟩
  · intro c hc d hd
    constructor
    · intro hname
      rw [← (hspells hc).lookup, ← (hspells hd).lookup, hname]
    · intro htext
      exact hconsistent.name_unique (hspells hc) (htext ▸ hspells hd)
  · intro c hc
    have hmem : c.1 ∈ ss := by
      rw [← Interner.map_fst_calls .empty ss]
      exact List.mem_map_of_mem hc
    exact congrArg Name.index
      (hconsistent.name_unique (hspells hc) (ht ▸ Interner.spells_number hmem))
  · rw [ht, Interner.size_internAll]
  · intro c hc
    exact (Array.getElem?_eq_some_iff.mp (hspells hc)).choose
  · intro k c hc
    rw [Interner.take_calls] at hc
    rw [Interner.mapM_intern_snd]
    exact (Interner.consistent_empty.spells_of_mem_calls hc).lookup
  · intro n hn
    have hnone : t.texts[n.index]? = none := Array.getElem?_eq_none hn
    rw [Interner.lookup, hnone]
    rfl

theorem repeated_text_keeps_its_name :
    let calls := Interner.empty.calls ["b", "", "a", "b"]
    calls = [("b", ⟨1⟩), ("", ⟨0⟩), ("a", ⟨2⟩), ("b", ⟨1⟩)] ∧
      ∀ c ∈ calls, c.2.index = Interner.number ["b", "", "a", "b"] c.1 := by
  intro calls
  obtain ⟨_, _, _, hnumber, _⟩ := interning_is_a_growing_bijection ["b", "", "a", "b"]
  exact ⟨by decide +kernel, hnumber⟩

end Treewalk
