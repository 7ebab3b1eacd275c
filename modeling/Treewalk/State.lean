import Treewalk.Store
import Treewalk.Channel
import Treewalk.Trace

/-! Everything that evaluation changes. -/
namespace Treewalk

structure State where
  store : Store := .empty
  /-- The number that the next closure gets. -/
  nextClosure : Nat := 0
  channel : Channel
  trace : Array TraceEntry := #[]
deriving Inhabited

namespace State

def new (sink : Sink) : State := { channel := { sink } }

def log (st : State) (entry : TraceEntry) : State := { st with trace := st.trace.push entry }

def println (st : State) (line : String) : State :=
  { st with channel := st.channel.println line }

def onStore {α : Type} (m : StateM Store α) : StateM State α := fun ⟨store, next, channel, trace⟩ =>
  let (a, store) := m store
  (a, ⟨store, next, channel, trace⟩)

/-- Overwrite the nearest binding of a name, and note it if that makes a global one. -/
def update (st : State) (e : FrameId) (n : Name) (v : Value) : State :=
  let st := if (st.store.owner? e n).isSome then st else st.log (.globalCreated n)
  { st with store := st.store.update e n v }

/-- A closure unlike all before it. -/
def newClosure (params : List Name) (body : ExprId) (arena : SharedArena) (env : FrameId) :
    StateM State Value := fun st =>
  (.closure { id := st.nextClosure, params, body, arena, env },
    { st with nextClosure := st.nextClosure + 1 })

end State
end Treewalk
