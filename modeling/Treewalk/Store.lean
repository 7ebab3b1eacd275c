import Treewalk.Value

/-! Frames and the store that holds them.
A frame binds names and may have an outer frame, which is always an older one. The frame without
an outer one is global. -/
namespace Treewalk

structure Frame where
  bindings : Std.ExtTreeMap Name Value := ∅
  outer : Option FrameId := none
deriving Inhabited

/-- Every frame there is, by number. Frames are never removed. -/
structure Store where
  frames : Array Frame := #[]
deriving Inhabited

structure DeclareError where
  name : Name
deriving DecidableEq

namespace DeclareError

def message (e : DeclareError) : String := e.name.debugText ++ " is already bound in this frame"

end DeclareError

namespace Store

def empty : Store := {}

def size (s : Store) : Nat := s.frames.size

def frame? (s : Store) (e : FrameId) : Option Frame := s.frames[e]?

/-- What one frame binds a name to, its outer frames left aside. -/
def get? (s : Store) (e : FrameId) (n : Name) : Option Value :=
  (s.frame? e).bind fun f => f.bindings[n]?

/-- Whether one frame binds a name, its outer frames left aside. -/
def binds (s : Store) (e : FrameId) (n : Name) : Bool :=
  match s.frame? e with
  | some f => f.bindings.contains n
  | none => false

def count (s : Store) (e : FrameId) : Nat :=
  match s.frame? e with
  | some f => f.bindings.size
  | none => 0

def toList (s : Store) (e : FrameId) : List (Name × Value) :=
  match s.frame? e with
  | some f => f.bindings.toList
  | none => []

/-- The outer frame, which is taken to be there only if it is older. The links of a store in which every
link was made by `child` are older in any case, so that nothing is left out. -/
def outer? (s : Store) (e : FrameId) : Option FrameId :=
  match s.frame? e with
  | some f => f.outer.filter (· < e)
  | none => none

theorem lt_of_outer? {s : Store} {e o : FrameId} (h : s.outer? e = some o) : o < e := by
  unfold outer? at h
  split at h
  · simpa using (Option.filter_eq_some_iff.mp h).2
  · cases h

def isGlobal (s : Store) (e : FrameId) : Bool := (s.outer? e).isNone

/-- The frame at the end of the chain of outer frames. -/
@[semireducible]
def global (s : Store) (e : FrameId) : FrameId :=
  match _h : s.outer? e with
  | some o => s.global o
  | none => e
termination_by e
decreasing_by exact lt_of_outer? _h

theorem global_eq (s : Store) (e : FrameId) :
    s.global e = match s.outer? e with
      | some o => s.global o
      | none => e := by
  rw [global]
  split <;> simp_all

/-- The nearest frame that binds a name, searched outward. -/
@[semireducible]
def owner? (s : Store) (e : FrameId) (n : Name) : Option FrameId :=
  if s.binds e n then some e
  else
    match _h : s.outer? e with
    | some o => s.owner? o n
    | none => none
termination_by e
decreasing_by exact lt_of_outer? _h

theorem owner?_eq (s : Store) (e : FrameId) (n : Name) :
    s.owner? e n = if s.binds e n then some e else
      match s.outer? e with
      | some o => s.owner? o n
      | none => none := by
  rw [owner?]
  split
  · rfl
  · split <;> simp_all

def resolve? (s : Store) (e : FrameId) (n : Name) : Option Value :=
  (s.owner? e n).bind fun o => s.get? o n

def push (f : Frame) : StateM Store FrameId := fun s =>
  (s.frames.size, { s with frames := s.frames.push f })

def newGlobal : StateM Store FrameId := push {}

def child (e : FrameId) : StateM Store FrameId := push { outer := some e }

/-- Add `count` frames, each inside the one before, and return the innermost. -/
def descend (e : FrameId) : Nat → StateM Store FrameId
  | 0 => pure e
  | count + 1 => do
    let inner ← child e
    descend inner count

/-- Bind a name in one frame, whether it was bound there or not. -/
def bind (s : Store) (e : FrameId) (n : Name) (v : Value) : Store :=
  { s with frames := s.frames.modify e fun f => { f with bindings := f.bindings.insert n v } }

/-- Bind a name that one frame does not bind yet. Outer frames may bind it. -/
def declare (e : FrameId) (n : Name) (v : Value) : EStateM DeclareError Store Unit := fun s =>
  if s.binds e n then .error ⟨n⟩ s else .ok () (s.bind e n v)

/-- Overwrite the nearest binding of a name; a name that nothing binds becomes global. -/
def update (s : Store) (e : FrameId) (n : Name) (v : Value) : Store :=
  s.bind ((s.owner? e n).getD (s.global e)) n v

theorem binds_eq_isSome_get? (s : Store) (e : FrameId) (n : Name) :
    s.binds e n = (s.get? e n).isSome := by
  unfold binds get?
  cases s.frame? e <;> simp

theorem isSome_resolve? (s : Store) (e : FrameId) (n : Name) :
    (s.resolve? e n).isSome = (s.owner? e n).isSome := by
  unfold resolve?
  fun_induction s.owner? e n with
  | case1 e h => simpa [binds_eq_isSome_get?] using h
  | case2 e h o ho ih => exact ih
  | case3 e h ho => rfl

@[simp]
theorem size_bind (s : Store) (e : FrameId) (n : Name) (v : Value) :
    (s.bind e n v).size = s.size := by
  simp [bind, size]

theorem frame?_bind (s : Store) (e f : FrameId) (n : Name) (v : Value) :
    (s.bind e n v).frame? f =
      if e = f then (s.frame? f).map fun g => { g with bindings := g.bindings.insert n v }
      else s.frame? f := by
  simp [bind, frame?, Array.getElem?_modify]

@[simp]
theorem outer?_bind (s : Store) (e f : FrameId) (n : Name) (v : Value) :
    (s.bind e n v).outer? f = s.outer? f := by
  unfold outer?
  by_cases he : e = f
  · cases hf : s.frame? f <;> simp [frame?_bind, he, hf]
  · simp [frame?_bind, he]

/-- A binding is seen in its own frame under its own name, and nothing else changes. -/
theorem get?_bind (s : Store) (e f : FrameId) (n m : Name) (v : Value) :
    (s.bind e n v).get? f m = if e = f ∧ n = m ∧ f < s.size then some v else s.get? f m := by
  unfold get?
  by_cases he : e = f
  · by_cases hf : f < s.size
    · have hs : s.frame? f = some s.frames[f] := Array.getElem?_eq_getElem hf
      by_cases hn : n = m <;>
        simp [frame?_bind, he, hf, hn, hs, Std.ExtTreeMap.getElem?_insert]
    · have hs : s.frame? f = none := Array.getElem?_eq_none (Nat.le_of_not_lt hf)
      simp [frame?_bind, hf, hs]
  · simp [frame?_bind, he]

theorem frame?_push (f : Frame) (s : Store) (e : FrameId) :
    (push f s).2.frame? e = if e = s.size then some f else s.frame? e := by
  exact Array.getElem?_push

end Store
end Treewalk
