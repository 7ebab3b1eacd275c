import Treewalk.Name

/-! Interners: every text gets one name, and the name gives the text back.
Interning is a look-up, and only on a miss a second step that looks again and then adds. -/
namespace Treewalk

/-- The texts in index order, beside the map that finds their names. -/
structure Interner where
  texts : Array String
  known : Std.ExtTreeMap String Name

namespace Interner

/-- A new interner knows the empty text and nothing else. -/
def empty : Interner := ⟨#[""], (∅ : Std.ExtTreeMap String Name).insert "" Name.empty⟩

instance : Inhabited Interner := ⟨empty⟩

/-- The shared section of interning: the name of a text that is known already. -/
def find? (t : Interner) (s : String) : Option Name := t.known[s]?

/-- The exclusive section of interning. It looks again, because another caller may have added
the text since the shared section missed it. -/
def findOrAdd (s : String) : StateM Interner Name := fun t =>
  match t.find? s with
  | some n => (n, t)
  | none =>
    let n : Name := ⟨t.texts.size⟩
    (n, { texts := t.texts.push s, known := t.known.insert s n })

def intern (s : String) : StateM Interner Name := fun t =>
  match t.find? s with
  | some n => (n, t)
  | none => findOrAdd s t

/-- The text of a name; a name that this interner never gave out reads as the empty text. -/
def lookup (t : Interner) (n : Name) : String := t.texts[n.index]?.getD ""

def size (t : Interner) : Nat := t.texts.size

def isEmpty (t : Interner) : Bool := t.size == 0

theorem intern_eq_findOrAdd (s : String) : intern s = findOrAdd s := by
  funext t
  unfold intern findOrAdd
  split <;> rfl

end Interner
end Treewalk
