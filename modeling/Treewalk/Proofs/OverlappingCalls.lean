import Mathlib.Logic.Function.Basic
import Treewalk.Proofs.NameNumbers

/-! Interning when calls overlap.
Each section of a call runs undisturbed, and between the shared section of a call and its exclusive one
any sections of other calls may run. Whatever the order of the sections, a call does in its last one what
it would have done alone at that moment. -/
namespace Treewalk
namespace Interner

inductive Phase where
  /-- No section has run. -/
  | waiting
  /-- The shared section has not found the text, and the exclusive one has not run. -/
  | missed
  | returned (n : Name)
deriving DecidableEq

/-- The sections that a call may still need. -/
def Phase.left : Phase → Nat
  | waiting => 2
  | missed => 1
  | returned _ => 0

/-- A table and the calls that share it. -/
structure Overlap (ι : Type) where
  table : Interner
  phase : ι → Phase
  /-- The calls that have returned, with their names, in the order of their last sections. -/
  done : List (ι × Name)

private theorem mapM_intern_concat (t : Interner) (ss : List String) (r : String) :
    (ss ++ [r]).mapM intern t =
      ((ss.mapM intern t).1 ++ [((ss.mapM intern t).2.intern r).1],
        ((ss.mapM intern t).2.intern r).2) := by
  rw [List.mapM_append]
  rfl

namespace Overlap
variable {ι : Type}

def start (t : Interner) : Overlap ι := ⟨t, fun _ => .waiting, []⟩

/-- A call returns a name and leaves a table. -/
def finish [DecidableEq ι] (s : Overlap ι) (i : ι) (result : Name × Interner) : Overlap ι :=
  ⟨result.2, Function.update s.phase i (.returned result.1), s.done ++ [(i, result.1)]⟩

/-- Run the next section of one call. A call that has returned has none left. -/
def advance [DecidableEq ι] (text : ι → String) (s : Overlap ι) (i : ι) : Overlap ι :=
  match s.phase i with
  | .waiting =>
    match s.table.find? (text i) with
    | some n => s.finish i (n, s.table)
    | none => { s with phase := Function.update s.phase i .missed }
  | .missed => s.finish i (findOrAdd (text i) s.table)
  | .returned _ => s

/-- Run sections in the order of a schedule, which names the call of each. -/
def run [DecidableEq ι] (text : ι → String) (schedule : List ι) (s : Overlap ι) : Overlap ι :=
  schedule.foldl (advance text) s

/-- The calls that have returned did so once, and with the outcome of calls made one by one. -/
structure Serial (text : ι → String) (t : Interner) (s : Overlap ι) : Prop where
  outcome : (s.done.map fun c => text c.1).mapM intern t = (s.done.map Prod.snd, s.table)
  done_iff : ∀ i n, (i, n) ∈ s.done ↔ s.phase i = .returned n
  once : (s.done.map Prod.fst).Nodup

private theorem serial_start (text : ι → String) (t : Interner) : Serial text t (start t) where
  outcome := rfl
  done_iff := by simp [start]
  once := List.nodup_nil

variable {text : ι → String} {t : Interner} {s : Overlap ι}

/-- The table is that of the texts of the calls that have returned. -/
theorem Serial.table_eq (h : Serial text t s) :
    s.table = t.internAll (s.done.map fun c => text c.1) := by
  rw [← mapM_intern_snd, h.outcome]

private theorem Serial.calls_eq (h : Serial text t s) :
    t.calls (s.done.map fun c => text c.1) = s.done.map fun c => (text c.1, c.2) := by
  rw [calls, h.outcome]
  exact List.zip_map' ..

/-- A name that was returned spells the text of its call from then on. -/
theorem Serial.spells (h : Serial text t s) (ht : t.Consistent) {c : ι × Name} (hc : c ∈ s.done) :
    s.table.Spells c.2 (text c.1) := by
  have hcall : (text c.1, c.2) ∈ t.calls (s.done.map fun c => text c.1) := by
    rw [h.calls_eq]
    exact List.mem_map_of_mem hc
  rw [h.table_eq]
  exact ht.spells_of_mem_calls hcall

variable [DecidableEq ι] {i : ι}

/-- What the next section of a call can do. A section that ends its call, be it the shared or the exclusive
one, does what a call of its own would do on the table as it is then. -/
theorem advance_cases (text : ι → String) (s : Overlap ι) (i : ι) :
    (∃ n, s.phase i = .returned n ∧ advance text s i = s) ∨
    (s.phase i = .waiting ∧ s.table.find? (text i) = none ∧
      advance text s i = { s with phase := Function.update s.phase i .missed }) ∨
    ((∀ n, s.phase i ≠ .returned n) ∧ advance text s i = s.finish i (s.table.intern (text i))) := by
  unfold advance
  cases hp : s.phase i with
  | waiting =>
    cases hf : s.table.find? (text i) with
    | some n => exact .inr (.inr ⟨by simp, by rw [intern_of_find?_eq_some hf]⟩)
    | none => exact .inr (.inl ⟨rfl, rfl, rfl⟩)
  | missed => exact .inr (.inr ⟨by simp, by rw [intern_eq_findOrAdd]⟩)
  | returned n => exact .inl ⟨n, rfl, rfl⟩

theorem Serial.finish (h : Serial text t s) (hi : ∀ n, s.phase i ≠ .returned n) :
    Serial text t (s.finish i (s.table.intern (text i))) where
  outcome := by
    rw [Overlap.finish, List.map_append, List.map_append, List.map_singleton, List.map_singleton,
      mapM_intern_concat, h.outcome]
  done_iff j n := by
    rw [Overlap.finish, List.mem_append, h.done_iff, List.mem_singleton]
    by_cases hj : j = i
    · subst hj
      simp [hi, eq_comm]
    · simp [hj]
  once := by
    rw [Overlap.finish, List.map_append, List.map_singleton, ← List.concat_eq_append]
    refine List.Nodup.concat ?_ h.once
    intro hmem
    obtain ⟨⟨j, n⟩, hc, rfl⟩ := List.mem_map.mp hmem
    exact hi n ((h.done_iff j n).mp hc)

private theorem Serial.advance (h : Serial text t s) (i : ι) : Serial text t (s.advance text i) := by
  rcases advance_cases text s i with ⟨n, _, he⟩ | ⟨hw, _, he⟩ | ⟨hi, he⟩
  · rw [he]
    exact h
  · rw [he]
    refine ⟨h.outcome, fun j n => ?_, h.once⟩
    rw [h.done_iff]
    by_cases hj : j = i
    · subst hj
      simp [hw]
    · simp [hj]
  · rw [he]
    exact h.finish hi

theorem Serial.run (h : Serial text t s) (schedule : List ι) : Serial text t (s.run text schedule) := by
  induction schedule generalizing s with
  | nil => exact h
  | cons i schedule ih => exact ih (h.advance i)

private theorem extends_advance (text : ι → String) (s : Overlap ι) (i : ι) :
    s.table.Extends (s.advance text i).table := by
  rcases advance_cases text s i with ⟨n, _, he⟩ | ⟨_, _, he⟩ | ⟨_, he⟩
  · rw [he]
    exact fun _ _ => id
  · rw [he]
    exact fun _ _ => id
  · rw [he]
    exact s.table.extends_intern (text i)

/-- Texts keep their names, whatever sections follow. -/
theorem extends_run (text : ι → String) (s : Overlap ι) (schedule : List ι) :
    s.table.Extends (s.run text schedule).table := by
  induction schedule generalizing s with
  | nil => exact fun _ _ => id
  | cons i schedule ih => exact (extends_advance text s i).trans (ih _)

private theorem phase_advance_of_ne {j : ι} (hj : j ≠ i) (text : ι → String) (s : Overlap ι) :
    (s.advance text i).phase j = s.phase j := by
  rcases advance_cases text s i with ⟨n, _, he⟩ | ⟨_, _, he⟩ | ⟨_, he⟩
  · rw [he]
  · rw [he]
    exact Function.update_of_ne hj ..
  · rw [he]
    exact Function.update_of_ne hj ..

private theorem left_advance_le (text : ι → String) (s : Overlap ι) (i : ι) :
    ((s.advance text i).phase i).left ≤ (s.phase i).left - 1 := by
  rcases advance_cases text s i with ⟨n, hp, he⟩ | ⟨hp, _, he⟩ | ⟨_, he⟩
  · simp [he, hp, Phase.left]
  · simp [he, hp, Phase.left]
  · simp [he, finish, Phase.left]

/-- Every turn of a call brings it closer to its end, and turns of other calls do not set it back. -/
theorem left_run_le (text : ι → String) (s : Overlap ι) (schedule : List ι) (i : ι) :
    ((s.run text schedule).phase i).left ≤ (s.phase i).left - schedule.count i := by
  induction schedule generalizing s with
  | nil => exact Nat.le_refl _
  | cons j schedule ih =>
    have hrest := ih (s.advance text j)
    rw [run, List.foldl_cons, ← run]
    by_cases hj : j = i
    · subst hj
      have hturn := left_advance_le text s j
      rw [List.count_cons_self]
      omega
    · rw [phase_advance_of_ne (Ne.symm hj)] at hrest
      rwa [List.count_cons_of_ne hj]

private theorem returned_of_two_turns (text : ι → String) (t : Interner) {schedule : List ι}
    (h : 2 ≤ schedule.count i) : ∃ n, ((start t).run text schedule).phase i = .returned n := by
  have hleft := left_run_le text (start t) schedule i
  have hstart : ((start t : Overlap ι).phase i).left = 2 := rfl
  cases hp : ((start t).run text schedule).phase i with
  | returned n => exact ⟨n, rfl⟩
  | waiting | missed =>
    rw [hp, hstart, Phase.left] at hleft
    omega

end Overlap
end Interner

/-- Calls of `intern` that overlap on one table, with their sections in any order. At every moment the map
and the table are inverse to each other, and what a text is called it is called for ever; calls return
equal names for equal texts and for no others. Each call returns once, after two turns at the latest, and
the calls that have returned have the names, and have left the table, of the same calls made one at a time
in the order of their last sections. -/
theorem overlapping_calls_are_serial {ι : Type} [DecidableEq ι] (text : ι → String) {t : Interner}
    (ht : t.Made) (schedule : List ι) :
    let s := (Interner.Overlap.start t).run text schedule
    (∀ r n, s.table.find? r = some n ↔ s.table.texts[n.index]? = some r) ∧
    (∀ later r n, s.table.find? r = some n → (s.run text later).table.find? r = some n) ∧
    (∀ c ∈ s.done, ∀ d ∈ s.done, c.2 = d.2 ↔ text c.1 = text d.1) ∧
    (∀ c ∈ s.done, s.table.lookup c.2 = text c.1 ∧ c.2.index < s.table.size) ∧
    (∀ i n, (i, n) ∈ s.done ↔ s.phase i = .returned n) ∧ (s.done.map Prod.fst).Nodup ∧
    (∀ i, 2 ≤ schedule.count i → ∃ n, s.phase i = .returned n) ∧
    (s.done.map fun c => text c.1).mapM Interner.intern t = (s.done.map Prod.snd, s.table) := by
  intro s
  have hserial : s.Serial text t := (Interner.Overlap.serial_start text t).run schedule
  have hconsistent : s.table.Consistent := hserial.table_eq ▸ (ht.internAll _).consistent
  have hspells {c : ι × Name} (hc : c ∈ s.done) := hserial.spells ht.consistent hc
  refine ⟨hconsistent, ?_, ?_, ?_, hserial.done_iff, hserial.once,
    fun i hi => Interner.Overlap.returned_of_two_turns text t hi, hserial.outcome⟩
  · intro later r n hr
    have hlater := (hserial.run later).table_eq ▸ (ht.internAll _).consistent
    exact (hlater r n).mpr (s.extends_run text later n r ((hconsistent r n).mp hr))
  · intro c hc d hd
    constructor
    · intro hname
      rw [← (hspells hc).lookup, ← (hspells hd).lookup, hname]
    · intro htext
      exact hconsistent.name_unique (hspells hc) (htext ▸ hspells hd)
  · intro c hc
    exact ⟨(hspells hc).lookup, (Array.getElem?_eq_some_iff.mp (hspells hc)).choose⟩

/-- Two calls for `a` and one for `b` all miss before any of them adds. The second call for `a` looks again
and finds what the first has added. -/
theorem late_call_finds_the_name :
    let text (i : Nat) := if i = 1 then "b" else "a"
    let s := (Interner.Overlap.start .empty).run text [0, 2, 1, 2, 0, 1]
    s.done = [(2, ⟨1⟩), (0, ⟨1⟩), (1, ⟨2⟩)] ∧
      ["a", "a", "b"].mapM Interner.intern .empty = ([⟨1⟩, ⟨1⟩, ⟨2⟩], s.table) ∧
      s.phase 0 = s.phase 2 := by
  intro text s
  obtain ⟨-, -, -, -, hdone, -, -, hserial⟩ :=
    overlapping_calls_are_serial text .empty [0, 2, 1, 2, 0, 1]
  have hlist : s.done = [(2, ⟨1⟩), (0, ⟨1⟩), (1, ⟨2⟩)] := by decide +kernel
  refine ⟨hlist, ?_, ?_⟩
  · rw [hlist] at hserial
    exact hserial
  · rw [(hdone 0 ⟨1⟩).mp (hlist ▸ by simp), (hdone 2 ⟨1⟩).mp (hlist ▸ by simp)]

end Treewalk
