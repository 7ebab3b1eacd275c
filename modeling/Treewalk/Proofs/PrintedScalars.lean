import Std.Data.String.ToInt
import Treewalk.Arithmetic
import Treewalk.Proofs.InternerTable
import Treewalk.Proofs.PrintedText

/-! Printed scalars can be read back.
Scalars are written in digits, small letters and minus signs, so a line ends where its scalar does, and
no two scalars share a line. Closures are written with brackets and never pass for scalars. -/
namespace Treewalk

namespace Channel

/-- The lines of a text, without their ends. What follows the last end of line is not one. -/
def linesOf (text : String) : List String :=
  (text.toList.splitOn '\n').dropLast.map String.ofList

private theorem splitOn_textOf {lines : List String} (h : ∀ line ∈ lines, '\n' ∉ line.toList) :
    (textOf lines).toList.splitOn '\n' = lines.map String.toList ++ [[]] := by
  induction lines with
  | nil => rfl
  | cons line lines ih =>
    obtain ⟨hline, hlines⟩ := List.forall_mem_cons.mp h
    have htext : (textOf (line :: lines)).toList = line.toList ++ '\n' :: (textOf lines).toList := by
      simp [textOf, String.toList_join]
    rw [htext, List.splitOn_append_cons_self_of_not_mem hline, ih hlines, List.map_cons,
      List.cons_append]

/-- Lines that hold no end of line are the lines of their text. -/
theorem linesOf_textOf {lines : List String} (h : ∀ line ∈ lines, '\n' ∉ line.toList) :
    linesOf (textOf lines) = lines := by
  rw [linesOf, splitOn_textOf h, List.dropLast_concat, List.map_map]
  simp [Function.comp_def]

end Channel

theorem not_mem_toString {c : Char} (hdigit : c.isDigit = false) (hminus : c ≠ '-') (n : Int) :
    c ∉ (toString n).toList := by
  have hnat (m : Nat) : c ∉ m.repr.toList := by
    intro hc
    rw [Nat.repr_eq_ofList_toDigits, String.toList_ofList] at hc
    rw [Nat.isDigit_of_mem_toDigits (by decide) (by decide) hc] at hdigit
    cases hdigit
  change c ∉ n.repr.toList
  rw [Int.repr_eq_if]
  split
  · exact hnat _
  · rw [String.toList_append, List.mem_append]
    exact not_or.mpr ⟨by simpa using hminus, hnat _⟩

namespace Value

/-- The scalar that a printed line stands for, if it stands for one. -/
def ofLine? (line : String) : Option Value :=
  if line = "true" then some (.bool true)
  else if line = "false" then some (.bool false)
  else if line = "null" then some .null
  else (line.toInt?.bind fit?).map .int

/-- What an empty buffer holds when values have been printed to it one by one. -/
def printed (names : Interner) (vs : List Value) : String :=
  (Channel.printAll { sink := .buffer } (vs.map (·.render names))).captured

private theorem printed_eq_textOf (names : Interner) (vs : List Value) :
    printed names vs = Channel.textOf (vs.map (·.render names)) := by
  rw [printed, Channel.printAll_eq_append (by simp)]
  exact String.empty_append

theorem not_mem_render {v : Value} (hv : v.asClosure? = none) {c : Char} (hdigit : c.isDigit = false)
    (hlower : c.isLower = false) (hminus : c ≠ '-') (names : Interner) :
    c ∉ (v.render names).toList := by
  have hword (word : String) (h : word.toList.all Char.isLower = true) : c ∉ word.toList := by
    intro hc
    rw [List.all_eq_true.mp h c hc] at hlower
    cases hlower
  cases v with
  | bool b =>
    cases b with
    | true => exact hword "true" (by decide)
    | false => exact hword "false" (by decide)
  | int n => exact not_mem_toString hdigit hminus n.toInt
  | null => exact hword "null" (by decide)
  | closure f => cases hv

/-- A scalar is read back from its line. -/
theorem ofLine?_render {v : Value} (hv : v.asClosure? = none) (names : Interner) :
    ofLine? (v.render names) = some v := by
  cases v with
  | bool b => cases b <;> rfl
  | int n =>
    have hne (word : String) (c : Char) (hc : c ∈ word.toList) (hdigit : c.isDigit = false)
        (hminus : c ≠ '-') : toString n.toInt ≠ word := by
      rintro rfl
      exact not_mem_toString hdigit hminus n.toInt hc
    have htrue := hne "true" 'e' (by decide) (by decide) (by decide)
    have hfalse := hne "false" 'e' (by decide) (by decide) (by decide)
    have hnull := hne "null" 'u' (by decide) (by decide) (by decide)
    have hint : (toString n.toInt).toInt? = some n.toInt := Int.toInt?_repr n.toInt
    rw [render, ofLine?, if_neg htrue, if_neg hfalse, if_neg hnull, hint, Option.bind_some,
      fit?_toInt, Option.map_some]
  | null => rfl
  | closure f => cases hv

private theorem render_ne_signature {v : Value} (hv : v.asClosure? = none) (f : Closure)
    (names names' : Interner) : v.render names ≠ f.signature names' := by
  intro h
  have hbracket : '(' ∈ (f.signature names').toList := by
    simp [Closure.signature, String.toList_append]
  rw [← h] at hbracket
  exact not_mem_render hv (by decide) (by decide) (by decide) names hbracket

private theorem linesOf_printed {vs : List Value} (hvs : ∀ v ∈ vs, v.asClosure? = none) (names : Interner) :
    Channel.linesOf (printed names vs) = vs.map (·.render names) := by
  rw [printed_eq_textOf]
  apply Channel.linesOf_textOf
  intro line hline
  obtain ⟨v, hv, rfl⟩ := List.mem_map.mp hline
  exact not_mem_render (hvs v hv) (by decide) (by decide) (by decide) names

/-- Scalars are read back from the text of a buffer, line by line. -/
theorem map_ofLine?_printed {vs : List Value} (hvs : ∀ v ∈ vs, v.asClosure? = none)
    (names : Interner) :
    (Channel.linesOf (printed names vs)).map ofLine? = vs.map some := by
  rw [linesOf_printed hvs, List.map_map]
  exact List.map_congr_left fun v hv => ofLine?_render (hvs v hv) names

end Value

/-- Scalars that are printed to empty buffers leave equal texts only if they are the same scalars in the
same order. No scalar is written with an end of line, different scalars are written differently, and
every print adds one line, from which the scalar is read back. No closure is written like a scalar,
whatever its parameters are called. -/
theorem printed_scalars_can_be_read_back (names names' : Interner) :
    (∀ vs ws : List Value, (∀ v ∈ vs, v.asClosure? = none) → (∀ w ∈ ws, w.asClosure? = none) →
      Value.printed names vs = Value.printed names' ws → vs = ws) ∧
    (∀ v : Value, v.asClosure? = none → '\n' ∉ (v.render names).toList) ∧
    (∀ v w : Value, v.asClosure? = none → w.asClosure? = none →
      v.render names = w.render names' → v = w) ∧
    (∀ vs : List Value, (∀ v ∈ vs, v.asClosure? = none) →
      Channel.linesOf (Value.printed names vs) = vs.map (·.render names) ∧
      (Channel.linesOf (Value.printed names vs)).map Value.ofLine? = vs.map some) ∧
    ∀ (v : Value) (f : Closure), v.asClosure? = none →
      v.render names ≠ (Value.closure f).render names' := by
  refine ⟨fun vs ws hvs hws htext => ?_, fun v hv => ?_, fun v w hv hw hline => ?_,
    fun vs hvs => ⟨Value.linesOf_printed hvs names, Value.map_ofLine?_printed hvs names⟩,
    fun v f hv => Value.render_ne_signature hv f names names'⟩
  · have hread := Value.map_ofLine?_printed hvs names
    rw [htext, Value.map_ofLine?_printed hws names'] at hread
    exact ((List.map_inj_right fun _ _ => Option.some.inj).mp hread).symm
  · exact Value.not_mem_render hv (by decide) (by decide) (by decide) names
  · have hread := Value.ofLine?_render hv names
    rw [hline, Value.ofLine?_render hw names'] at hread
    exact (Option.some.inj hread).symm

/-- Digits of two lines do not run together, and a closure is told from a scalar even if its parameter
has a line in it that would do for one. -/
theorem one_and_zero_are_not_ten :
    let names := Interner.empty.internAll [")\ntrue\n("]
    let f : Closure :=
      { id := 0, params := [⟨1⟩], body := 0, arena := { id := 0, arena := .empty }, env := 0 }
    Value.printed names [.int 1, .int 0] ≠ Value.printed names [.int 10] ∧
    (Channel.linesOf (Value.printed names [.int Int64.minValue, .bool true, .null])).map
      Value.ofLine? = [some (.int Int64.minValue), some (.bool true), some .null] ∧
    (Value.bool true).render names ≠ (Value.closure f).render names := by
  intro names f
  obtain ⟨htexts, -, -, hlines, hclosures⟩ := printed_scalars_can_be_read_back names names
  refine ⟨fun h => ?_, (hlines _ (by simp [Value.asClosure?])).2, hclosures (.bool true) f rfl⟩
  have hsame := htexts [.int 1, .int 0] [.int 10] (by simp [Value.asClosure?])
    (by simp [Value.asClosure?]) h
  cases hsame

end Treewalk
