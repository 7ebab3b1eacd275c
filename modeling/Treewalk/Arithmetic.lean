import Treewalk.Error
import Treewalk.Value

/-! Binary operators on values.
Integer results are computed exactly and refused if they do not fit into 64 bits. -/
namespace Treewalk

def fit? (n : Int) : Option Int64 :=
  if Int64.minValue.toInt ≤ n ∧ n ≤ Int64.maxValue.toInt then some (Int64.ofInt n) else none

theorem fit?_toInt (n : Int64) : fit? n.toInt = some n := by
  have h : Int64.minValue.toInt ≤ n.toInt ∧ n.toInt ≤ Int64.maxValue.toInt :=
    ⟨Int64.minValue_le_toInt n, Int64.toInt_le n⟩
  rw [fit?, if_pos h, Int64.ofInt_toInt]

namespace Operator

/-- An exact result as a value, or the overflow it is. -/
def checked (op : Operator) (exact : Int) : Except ErrorKind Value :=
  match fit? exact with
  | some n => .ok (.int n)
  | none => .error (.integerOverflow op)

/-- The remainder of two words with the sign of the left one, unless dividing them would overflow. -/
def checkedRem (a b : Int64) : Option Int64 :=
  if b = 0 ∨ (a = Int64.minValue ∧ b = -1) then none else some (a % b)

/-- Operators on two integers. Division goes toward zero. A remainder that overflows is nothing: it
belongs to the lowest integer and minus one. -/
def evalInts (op : Operator) (a b : Int64) : Except ErrorKind Value :=
  match op with
  | add => op.checked (a.toInt + b.toInt)
  | sub => op.checked (a.toInt - b.toInt)
  | mul => op.checked (a.toInt * b.toInt)
  | div => if b = 0 then .error (.divisionByZero op) else op.checked (a.toInt.tdiv b.toInt)
  | mod => if b = 0 then .error (.divisionByZero op) else .ok (.int ((checkedRem a b).getD 0))
  | gt => .ok (.bool (a > b))
  | ge => .ok (.bool (a ≥ b))
  | lt => .ok (.bool (a < b))
  | le => .ok (.bool (a ≤ b))
  | eq => .ok (.bool (a == b))

def eval (op : Operator) (left right : Value) : Except ErrorKind Value :=
  if op.requiresInts then
    match left.asInt?, right.asInt? with
    | some a, some b => op.evalInts a b
    | _, _ => .error (.invalidOperands op left.typeName right.typeName)
  else .ok (.bool (left.equals right))

end Operator
end Treewalk
