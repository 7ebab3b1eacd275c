import Mathlib.Algebra.Group.Int.Defs
import Treewalk.Arithmetic

/-! Operators on integers are exact.
Their results are those of arithmetic on all integers, as long as a machine word can hold them, and no
result is ever cut to fit. Of quotients only one is too large, and its remainder is zero. -/
namespace Treewalk

def InRange (n : Int) : Prop := -2 ^ 63 ≤ n ∧ n ≤ 2 ^ 63 - 1

private theorem inRange_toInt (a : Int64) : InRange a.toInt := by
  have hlow := Int64.le_toInt a
  have hhigh := Int64.toInt_lt a
  exact ⟨hlow, by omega⟩

theorem inRange_iff {n : Int} :
    InRange n ↔ Int64.minValue.toInt ≤ n ∧ n ≤ Int64.maxValue.toInt := by
  have hmin : Int64.minValue.toInt = -2 ^ 63 := by decide
  have hmax : Int64.maxValue.toInt = 2 ^ 63 - 1 := by decide
  rw [hmin, hmax, InRange]

theorem fit?_of_inRange {n : Int} (h : InRange n) : ∃ r : Int64, r.toInt = n ∧ fit? n = some r := by
  refine ⟨Int64.ofInt n, Int64.toInt_ofInt_of_le h.1 (by have := h.2; omega), ?_⟩
  rw [fit?, if_pos (inRange_iff.mp h)]

theorem fit?_eq_none_iff {n : Int} : fit? n = none ↔ ¬ InRange n := by
  simp [fit?, inRange_iff]

/-- The one quotient of words that no word can hold. -/
theorem inRange_tdiv_iff {a b : Int} (ha : InRange a) (hb : b ≠ 0) :
    InRange (a.tdiv b) ↔ ¬ (a = -2 ^ 63 ∧ b = -1) := by
  unfold InRange at ha ⊢
  by_cases hone : b = 1
  · subst hone
    rw [Int.tdiv_one]
    omega
  · by_cases hminus : b = -1
    · subst hminus
      rw [Int.tdiv_neg, Int.tdiv_one]
      omega
    · have hhalf : (a.tdiv b).natAbs ≤ a.natAbs / 2 := by
        rw [Int.natAbs_tdiv]
        exact Nat.div_le_div_left (by omega) (by decide)
      omega

/-- What truncating division leaves over: less than the divisor, and on the side of the number that was
divided. -/
structure IsRemainder (a b r : Int) : Prop where
  small : r.natAbs < b.natAbs
  side : r = 0 ∨ r.sign = a.sign
  dvd : b ∣ a - r

theorem isRemainder_tmod (a : Int) {b : Int} (hb : b ≠ 0) : IsRemainder a b (a.tmod b) where
  small := by
    rw [Int.natAbs_tmod]
    exact Nat.mod_lt _ (Int.natAbs_pos.mpr hb)
  side := by
    have hsign := Int.sign_tmod a b
    split at hsign
    · exact .inl (Int.sign_eq_zero_iff_zero.mp hsign)
    · exact .inr hsign
  dvd := Int.dvd_self_sub_tmod

private theorem toInt_eq_zero_iff {b : Int64} : b.toInt = 0 ↔ b = 0 := by
  rw [← Int64.toInt_zero, Int64.toInt_inj]

namespace Operator

/-- With zero for the one remainder that overflows, remainders of words are those of the integers. -/
theorem toInt_checkedRem_getD (a : Int64) {b : Int64} (hb : b ≠ 0) :
    ((checkedRem a b).getD 0).toInt = a.toInt.tmod b.toInt := by
  by_cases hlowest : a = Int64.minValue ∧ b = -1
  · obtain ⟨rfl, rfl⟩ := hlowest
    decide
  · have hsome : checkedRem a b = some (a % b) := by simp [checkedRem, hb, hlowest]
    rw [hsome, Option.getD_some, Int64.toInt_mod]

/-- On integers all operators compute from the words, equality too. -/
theorem eval_int (op : Operator) (a b : Int64) :
    op.eval (.int a) (.int b) = op.evalInts a b := by
  cases op <;> rfl

/-- The exact result, or the overflow of the operator if no word can hold it. -/
def ExactOrOverflow (op : Operator) (exact : Int) (result : Except ErrorKind Value) : Prop :=
  (InRange exact → ∃ r : Int64, r.toInt = exact ∧ result = .ok (.int r)) ∧
  (¬ InRange exact → result = .error (.integerOverflow op))

private theorem checked_exactOrOverflow (op : Operator) (exact : Int) :
    op.ExactOrOverflow exact (op.checked exact) := by
  constructor
  · intro h
    obtain ⟨r, hr, hfit⟩ := fit?_of_inRange h
    exact ⟨r, hr, by rw [checked, hfit]⟩
  · intro h
    rw [checked, fit?_eq_none_iff.mpr h]

private theorem checked_ne_divisionByZero (op : Operator) (exact : Int) :
    op.checked exact ≠ .error (.divisionByZero op) := by
  rw [checked]
  split <;> simp

/-- Behind a guard against zero, an operator reports a division by zero for nothing else. -/
theorem guarded_eq_divisionByZero_iff {op : Operator} {b : Int64} {result : Except ErrorKind Value}
    (hresult : result ≠ .error (.divisionByZero op)) :
    (if b = 0 then .error (.divisionByZero op) else result) = .error (.divisionByZero op) ↔
      b.toInt = 0 := by
  rw [toInt_eq_zero_iff]
  by_cases hb : b = 0
  · simp [hb]
  · simp [hb, hresult]

end Operator

/-- Operators on two integers agree with arithmetic on all integers. Sums, differences and products are
exact or overflow. Quotients and remainders fail on zero; on other divisors the remainder is always there,
and the quotient that belongs to it too, but for the lowest integer divided by minus one. Comparisons
compare the integers. -/
theorem integer_operators_are_exact (a b : Int64) :
    let run (op : Operator) := op.eval (.int a) (.int b)
    Operator.add.ExactOrOverflow (a.toInt + b.toInt) (run .add) ∧
    Operator.sub.ExactOrOverflow (a.toInt - b.toInt) (run .sub) ∧
    Operator.mul.ExactOrOverflow (a.toInt * b.toInt) (run .mul) ∧
    (run .div = .error (.divisionByZero .div) ↔ b.toInt = 0) ∧
    (run .mod = .error (.divisionByZero .mod) ↔ b.toInt = 0) ∧
    (b.toInt ≠ 0 → ∃ r : Int64, run .mod = .ok (.int r) ∧ IsRemainder a.toInt b.toInt r.toInt ∧
      (a.toInt = -2 ^ 63 ∧ b.toInt = -1 → run .div = .error (.integerOverflow .div)) ∧
      (¬ (a.toInt = -2 ^ 63 ∧ b.toInt = -1) →
        ∃ q : Int64, run .div = .ok (.int q) ∧ a.toInt = b.toInt * q.toInt + r.toInt)) ∧
    run .gt = .ok (.bool (a.toInt > b.toInt)) ∧
    run .ge = .ok (.bool (a.toInt ≥ b.toInt)) ∧
    run .lt = .ok (.bool (a.toInt < b.toInt)) ∧
    run .le = .ok (.bool (a.toInt ≤ b.toInt)) ∧
    run .eq = .ok (.bool (a.toInt = b.toInt)) := by
  intro run
  have hrun (op : Operator) : run op = op.evalInts a b := op.eval_int a b
  have hequal : (a == b) = decide (a.toInt = b.toInt) := by
    rw [Bool.beq_eq_decide_eq, decide_eq_decide, Int64.toInt_inj]
  simp only [hrun, Operator.evalInts, hequal, gt_iff_lt, ge_iff_le, Int64.lt_iff_toInt_lt,
    Int64.le_iff_toInt_le, and_true]
  have ha := inRange_toInt a
  refine ⟨Operator.checked_exactOrOverflow _ _, Operator.checked_exactOrOverflow _ _,
    Operator.checked_exactOrOverflow _ _,
    Operator.guarded_eq_divisionByZero_iff (Operator.checked_ne_divisionByZero _ _),
    Operator.guarded_eq_divisionByZero_iff (by simp), fun hb => ?_⟩
  have hb' : b ≠ 0 := fun h => hb (toInt_eq_zero_iff.mpr h)
  have hr := Operator.toInt_checkedRem_getD a hb'
  simp only [if_neg hb']
  refine ⟨(Operator.checkedRem a b).getD 0, rfl, hr ▸ isRemainder_tmod a.toInt hb, ?_, ?_⟩
  · intro hlowest
    apply (Operator.div.checked_exactOrOverflow _).2
    exact fun h => (inRange_tdiv_iff ha hb).mp h hlowest
  · intro hother
    obtain ⟨q, hq, hdiv⟩ :=
      (Operator.div.checked_exactOrOverflow _).1 ((inRange_tdiv_iff ha hb).mpr hother)
    refine ⟨q, hdiv, ?_⟩
    rw [hq, hr, Int.mul_tdiv_add_tmod]

/-- The lowest integer divided by minus one overflows and leaves nothing over. -/
theorem lowest_divided_by_minus_one :
    let run (op : Operator) := op.eval (.int Int64.minValue) (.int (-1))
    run .div = .error (.integerOverflow .div) ∧ run .mod = .ok (.int 0) ∧
      run .add = .error (.integerOverflow .add) ∧ run .sub = .ok (.int (Int64.minValue + 1)) := by
  intro run
  obtain ⟨hadd, hsub, -, -, -, hdivision, -⟩ := integer_operators_are_exact Int64.minValue (-1)
  obtain ⟨r, hmod, hr, hlowest, -⟩ := hdivision (by decide)
  have hdiv := hlowest (by decide)
  obtain rfl : r = 0 := by
    have hsmall := hr.small
    have hone : (Int64.toInt (-1)).natAbs = 1 := by decide
    apply Int64.toInt_inj.mp
    rw [Int64.toInt_zero]
    omega
  refine ⟨hdiv, hmod, ?_, ?_⟩
  · exact hadd.2 (by unfold InRange; decide)
  · obtain ⟨s, hs, hsub⟩ := hsub.1 (by unfold InRange; decide)
    obtain rfl : s = Int64.minValue + 1 := Int64.toInt_inj.mp (hs.trans (by decide))
    exact hsub

end Treewalk
