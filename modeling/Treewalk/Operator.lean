/-! The ten binary operators and their symbols. -/
namespace Treewalk

inductive Operator where
  | add | sub | mul | div | mod
  | gt | ge | lt | le | eq
deriving DecidableEq, Inhabited

namespace Operator

def all : List Operator := [.add, .sub, .mul, .div, .mod, .gt, .ge, .lt, .le, .eq]

def symbol : Operator → String
  | add => "+"
  | sub => "-"
  | mul => "*"
  | div => "/"
  | mod => "%"
  | gt => ">"
  | ge => ">="
  | lt => "<"
  | le => "<="
  | eq => "=="

def ofSymbol? (s : String) : Option Operator := all.find? (·.symbol == s)

/-- Equality compares any two values; every other operator takes integers only. -/
def requiresInts (op : Operator) : Bool := op != eq

theorem mem_all (op : Operator) : op ∈ all := by cases op <;> decide

theorem ofSymbol?_symbol (op : Operator) : ofSymbol? op.symbol = some op := by
  cases op <;> decide

end Operator
end Treewalk
