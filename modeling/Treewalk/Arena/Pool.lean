import Treewalk.Arena

/-! Handles to arenas. An open arena can still grow; a shared one is a copy that cannot, and its
handles may be aliases of each other. -/
namespace Treewalk
namespace Arena

/-- Open arenas and handles to shared ones. -/
structure Pool where
  arenas : Array Arena
  shared : Array SharedArena

namespace Pool

def new : Pool := ⟨#[.empty], #[]⟩

def arena? (p : Pool) (a : Nat) : Option Arena := p.arenas[a]?

def shared? (p : Pool) (s : Nat) : Option SharedArena := p.shared[s]?

def add (arena : Arena) : StateM Pool Nat := fun p =>
  (p.arenas.size, { p with arenas := p.arenas.push arena })

/-- Share a copy of an arena, which is the same as no other one. -/
def share (arena : Arena) : StateM Pool Nat := fun p =>
  (p.shared.size, { p with shared := p.shared.push { id := p.shared.size, arena } })

def aliasOf (arena : SharedArena) : StateM Pool Nat := fun p =>
  (p.shared.size, { p with shared := p.shared.push arena })

def set (p : Pool) (a : Nat) (arena : Arena) : Pool :=
  { p with arenas := p.arenas.setIfInBounds a arena }

end Pool
end Arena
end Treewalk
