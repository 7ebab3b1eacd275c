import Treewalk.Proofs.EvalRules

/-! What a host does to a state by itself, between the evaluations and calls that it asks for. -/
namespace Treewalk

/-- An act of a host. To attend is to take away, or to replace, what has been printed and traced. -/
inductive HostAct where
  | newGlobal
  | child (e : FrameId)
  | closure (params : List Name) (body : ExprId) (arena : SharedArena) (env : FrameId)
  | declare (e : FrameId) (n : Name) (v : Value)
  | update (e : FrameId) (n : Name) (v : Value)
  | attend (channel : Channel) (trace : Array TraceEntry)

namespace HostAct

/-- The state after an act. A declaration that fails changes nothing. -/
def run : HostAct → State → State
  | newGlobal, st => { st with store := (Store.newGlobal st.store).2 }
  | child e, st => st.child e
  | closure params body arena env, st => (State.newClosure params body arena env st).2
  | declare e n v, st =>
    match st.store.declare e n v with
    | .ok () store => { st with store }
    | .error _ _ => st
  | update e n v, st => st.update e n v
  | attend channel trace, st => { st with channel, trace }

def made (st : State) : HostAct → List Closure
  | closure params body arena env => [{ id := st.nextClosure, params, body, arena, env }]
  | _ => []

def passed : HostAct → List Value
  | declare _ _ v | update _ _ v => [v]
  | _ => []

/-- The frames, nodes and values that an act names are there. -/
def InPlace (st : State) : HostAct → Prop
  | child e => e < st.store.size
  | closure _ body arena env =>
    arena.arena.WellFormed ∧ body < arena.arena.size ∧ env < st.store.size
  | declare _ _ v | update _ _ v => v.WellFormed st.store
  | newGlobal | attend .. => True

/-- What acts make of the store. -/
inductive Changes (a : HostAct) (s : Store) : Store → Prop where
  | nothing : Changes a s s
  | frame {o : Option FrameId} (ho : ∀ e, o = some e → a = .child e) :
      Changes a s (Store.push { outer := o } s).2
  | binding {v : Value} (e : FrameId) (n : Name) (hv : v ∈ a.passed) : Changes a s (s.bind e n v)

theorem changes_run (a : HostAct) (st : State) : a.Changes st.store (a.run st).store := by
  cases a with
  | newGlobal => exact .frame (by simp)
  | child e => exact .frame (by simp)
  | closure => exact .nothing
  | declare e n v =>
    rw [run, Store.declare]
    by_cases hb : st.store.binds e n = true
    · rw [if_pos hb]
      exact .nothing
    · rw [if_neg hb]
      exact .binding e n (List.mem_singleton_self v)
  | update e n v =>
    rw [run, State.store_update]
    exact .binding _ n (List.mem_singleton_self v)
  | attend => exact .nothing

variable {a : HostAct} {st : State}

theorem size_le_run (a : HostAct) (st : State) : st.store.size ≤ (a.run st).store.size := by
  have hchanges := a.changes_run st
  generalize (a.run st).store = s at hchanges ⊢
  cases hchanges with
  | nothing => exact Nat.le_refl _
  | frame => exact Nat.le_of_lt (Store.lt_size_push ..)
  | binding e n => exact Nat.le_of_eq (Store.size_bind ..).symm

theorem wellFormed_run (ha : a.InPlace st) (hst : st.store.WellFormed) :
    (a.run st).store.WellFormed := by
  have hchanges := a.changes_run st
  generalize (a.run st).store = s at hchanges ⊢
  cases hchanges with
  | nothing => exact hst
  | frame ho =>
    refine hst.push fun e he => ?_
    obtain rfl := ho e he
    exact ha
  | @binding v e n hv =>
    refine hst.bind e n ?_
    cases a with
    | declare _ _ w | update _ _ w =>
      obtain rfl := List.mem_singleton.mp hv
      exact ha
    | _ => cases hv

/-- What holds of all values that are bound and of those that are passed holds of all afterwards. -/
theorem forall_get?_run {P : Value → Prop} (ha : ∀ v ∈ a.passed, P v)
    (hst : ∀ e n v, st.store.get? e n = some v → P v) :
    ∀ e n v, (a.run st).store.get? e n = some v → P v := by
  have hchanges := a.changes_run st
  generalize (a.run st).store = s at hchanges ⊢
  cases hchanges with
  | nothing => exact hst
  | frame => exact fun e n v hv => hst e n v ((Store.get?_push _ _ e n).symm.trans hv)
  | binding e n hv => exact Store.forall_get?_bind hst e n (ha _ hv)

theorem nextClosure_run (a : HostAct) (st : State) :
    (a.run st).nextClosure = st.nextClosure + (a.made st).length := by
  cases a with
  | declare e n v =>
    rw [run]
    split <;> rfl
  | update e n v =>
    rw [run, State.update]
    split <;> rfl
  | _ => rfl

end HostAct
end Treewalk
