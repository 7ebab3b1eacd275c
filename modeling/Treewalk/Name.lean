import Std.Data.ExtTreeMap

/-! Names: texts known by the index an interner gave them.
Names are ordered by index, which is the order in which their texts were first seen. -/
namespace Treewalk

/-- An interned text, known by its index. -/
@[ext]
structure Name where
  index : Nat
deriving DecidableEq, Inhabited

namespace Name

/-- The name of the empty text, which every interner holds from the start. -/
def empty : Name := ⟨0⟩

def isEmpty (n : Name) : Bool := n.index == 0

/-- The form a name takes where its text is not at hand. -/
def debugText (n : Name) : String := "Name(" ++ toString n.index ++ ")"

instance : Ord Name where
  compare := compareOn index

instance : Std.TransOrd Name := inferInstanceAs (Std.TransCmp (compareOn index))

instance : Std.LawfulEqOrd Name where
  eq_of_compare h := Name.ext (Nat.instLawfulEqOrd.eq_of_compare h)

end Name
end Treewalk
