import Treewalk.Interner

/-! Handles to interners: several handles may share one table. -/
namespace Treewalk
namespace Interner

/-- Tables, and the table of each handle. -/
structure Pool where
  tables : Array Interner
  handles : Array Nat

namespace Pool

def new : Pool := ⟨#[.empty], #[0]⟩

/-- The table behind a handle; a handle that is not there has a table of its own. -/
def table (p : Pool) (h : Nat) : Interner := (p.handles[h]?.bind (p.tables[·]?)).getD .empty

/-- Run a step on the table behind a handle. Every handle to that table sees the change. -/
def onTable {α : Type} (h : Nat) (m : StateM Interner α) : StateM Pool α := fun p =>
  let (a, t) := m (p.table h)
  (a, { p with tables := p.tables.setIfInBounds (p.handles[h]?.getD p.tables.size) t })

def share (h : Nat) : StateM Pool Nat := fun p =>
  (p.handles.size, { p with handles := p.handles.push (p.handles[h]?.getD 0) })

def fresh : StateM Pool Nat := fun p =>
  (p.handles.size, ⟨p.tables.push .empty, p.handles.push p.tables.size⟩)

end Pool
end Interner
end Treewalk
