import Treewalk.Proofs.Activity

/-! The parts of an activity: what it does on entering, which other activity it turns to after parts
that came to given values, and the effect by which it ends. One description serves all nodes, loops and
calls, and `Ending` and `Entered` say once what an effect and an entry can be. -/
namespace Treewalk

/-- The operand that a node turns to after operands that came to the values `vs`. A loop turns to its
condition and its body by turns. -/
def Node.operand? : Node → List Value → Option ExprId
  | .loop cond body, vs =>
    if vs.length % 2 = 0 then some cond
    else if vs.getLast? = some (.bool true) then some body
    else none
  | .binary _ _ right, [_] => some right
  | .ifElse _ yes _, [.bool true] => some yes
  | .ifElse _ _ no, [.bool false] => no
  | .seq _ second, [_] => some second
  | n, [] => n.first?
  | _, _ => none

/-- What an activity may do last: what it comes to, and the change it makes to the state. -/
inductive Effect where
  | give (v : Value)
  | trace (v : Value) (entry : TraceEntry)
  | print (v : Value) (line : String)
  | bind (v : Value) (e : FrameId) (n : Name) (entry : Option TraceEntry)
  | make (params : List Name) (body : ExprId) (arena : SharedArena) (env : FrameId)
  | refuse (kind : ErrorKind)
  | fault

namespace Effect

def run : Effect → EvalM Value
  | give v => pure v
  | trace v entry => fun st => .ok v (st.log entry)
  | print v line => fun st => .ok v (st.println line)
  | bind v e n entry => fun st => .ok v ((entry.elim st st.log).bind e n v)
  | make params body arena env => EvalM.lift (State.newClosure params body arena env)
  | refuse kind => EvalM.raise kind
  | fault => throw .fault

theorem finished_run (x : Effect) (st : State) : EvalM.Finished (x.run st) := by
  cases x <;> trivial

end Effect

namespace Activity
open Interpreter

/-- What an activity does before its first part. Only a call does anything: it opens a frame and binds
its parameters there. -/
def enter : Activity → EvalM Unit
  | eval _ _ _ => pure ()
  | call it (.closure c) args => do
    EvalM.log (.apply args.length it.depth)
    if args.length = c.arity then
      let frame ← EvalM.lift (State.onStore (Store.child c.env))
      it.bindParams frame (c.params.zip args)
    else
      EvalM.raise (.arityMismatch c.arity args.length)
  | call _ v _ => EvalM.raise (.notCallable v.typeName)

/-- The part that a node turns to after parts that came to the values `vs`. A call evaluates its
arguments one by one before it calls. -/
def nodePart? (it : Interpreter) (e : FrameId) : Node → (vs : List Value) → Option Activity
  | .call _ span, .closure c :: args => do
    let ids ← it.arena.arena.args? span
    if args.length = ids.length then some (call it (.closure c) args)
    else (ids[args.length]?).map (eval it e)
  | n, vs => (n.operand? vs).map (eval it e)

/-- The part that comes next after parts that came to the values `vs`, in an activity that started in
`st`. -/
def part? : Activity → (st : State) → (vs : List Value) → Option Activity
  | eval it e i, _, vs => (it.arena.arena.node? i).bind (nodePart? it e · vs)
  | call it (.closure c) _, st, [] => some (eval (it.callee c) st.store.size c.body)
  | call _ _ _, _, _ => none

/-- The effect by which a node ends, when its parts have come to the values `vs` and no part is left. Of
the state it depends on the store alone. -/
def nodeEffect (it : Interpreter) (e : FrameId) : Node → (vs : List Value) → Store → Effect
  | .literal l, _, _ => .give (.ofLiteral l)
  | .ident n, _, s => .give ((s.resolve? e n).getD .null)
  | .print _, [v], _ => .print v (v.render it.names)
  | .binary op _ _, [l, r], _ =>
    match op.eval l r with
    | .ok v => .give v
    | .error kind => .refuse kind
  | .ifElse _ _ _, [.bool _], _ => .give .null
  | .ifElse _ _ _, [v], _ => .refuse (.nonBoolCondition "if" v.typeName)
  | .ifElse _ _ _, [_, v], _ => .give v
  | .loop _ _, vs, _ =>
    match vs.getLast? with
    | some (.bool _) => .trace (vs.dropLast.getLast?.getD .null) (.loopFinished (vs.length / 2))
    | some v => .refuse (.nonBoolCondition "while" v.typeName)
    | none => .fault
  | .seq _ _, [_, v], _ => .give v
  | .declare n _, [v], s =>
    if s.binds e n then .refuse (.duplicateDeclaration (it.names.lookup n))
    else .bind v e n (some (.declared (it.names.lookup n)))
  | .assign n _, [v], s =>
    match s.owner? e n with
    | some o => .bind v o n none
    | none => .bind v (s.global e) n (some (.undeclaredAssigned (it.names.lookup n)))
  | .function span body, _, _ =>
    match it.arena.arena.params? span with
    | some params => .make params body it.arena e
    | none => .fault
  | .call _ span, .closure _ :: vs, _ =>
    match it.arena.arena.args? span with
    | some _ => .give (vs.getLast?.getD .null)
    | none => .fault
  | .call _ _, [v], _ => .refuse (.notCallable v.typeName)
  | _, _, _ => .fault

/-- The effect by which an activity ends. A call has nothing left to do but to hand on what the body of
its function came to. -/
def effect : Activity → (vs : List Value) → Store → Effect
  | eval it e i, vs, s =>
    match it.arena.arena.node? i with
    | some n => nodeEffect it e n vs s
    | none => .fault
  | call _ _ _, vs, _ => .give (vs.getLast?.getD .null)

section Equations
variable {it : Interpreter} {e : FrameId} {i : ExprId} {n : Node}
  (hn : it.arena.arena.node? i = some n)
include hn

theorem part?_eval (st : State) (vs : List Value) :
    (eval it e i).part? st vs = nodePart? it e n vs := by
  simp [part?, hn]

theorem effect_eval (vs : List Value) (s : Store) :
    (eval it e i).effect vs s = nodeEffect it e n vs s := by
  simp [effect, hn]

end Equations

def WellFormed : Activity → State → Prop
  | eval it e i, st => it.arena.arena.WellFormed ∧ i < it.arena.arena.size ∧ e < st.store.size
  | call _ callee args, st => callee.WellFormed st.store ∧ ∀ v ∈ args, v.WellFormed st.store

def node? : Activity → Option Node
  | eval it _ i => it.arena.arena.node? i
  | call _ _ _ => none

def Plain (A : Activity) : Prop :=
  (∀ j, A.node? ≠ some (.print j)) ∧ ∀ span body, A.node? ≠ some (.function span body)

/-- A value that is no closure, or one of `vs`, or bound in a store. -/
def Known (vs : List Value) (s : Store) (v : Value) : Prop :=
  v.asClosure? = none ∨ v ∈ vs ∨ ∃ e n, s.get? e n = some v

/-- Where a node in the frame `f` may bind a name, and what it traces: a declaration binds a name that
is free in `f`, and an assignment the nearest binding, or a new one in the global frame. -/
inductive Binds (s : Store) (f : FrameId) (n : Name) : FrameId → Option TraceEntry → Prop where
  | declared (text : String) (h : s.binds f n = false) : Binds s f n f (some (.declared text))
  | overwritten {o : FrameId} (h : s.owner? f n = some o) : Binds s f n o none
  | introduced (text : String) (h : s.owner? f n = none) :
      Binds s f n (s.global f) (some (.undeclaredAssigned text))

/-- The effects that an activity can have after parts with the values `vs`: only print nodes print, only
function nodes make closures, and all others pass a known value on. -/
inductive Ending : Activity → (vs : List Value) → Store → Effect → Prop where
  | give {A : Activity} {vs s v} (hA : A.Plain) (hv : Known vs s v) : Ending A vs s (.give v)
  | trace {A : Activity} {vs s v} (rounds : Nat) (hA : A.Plain) (hv : Known vs s v) :
      Ending A vs s (.trace v (.loopFinished rounds))
  | bind {it : Interpreter} {f i vs s v e n entry} (hA : (eval it f i).Plain) (hv : v ∈ vs)
      (hb : Binds s f n e entry) : Ending (eval it f i) vs s (.bind v e n entry)
  | print {it : Interpreter} {e i j v s} (hn : it.arena.arena.node? i = some (.print j)) :
      Ending (eval it e i) [v] s (.print v (v.render it.names))
  | make {it : Interpreter} {e i span body params vs s}
      (hn : it.arena.arena.node? i = some (.function span body))
      (hp : it.arena.arena.params? span = some params) :
      Ending (eval it e i) vs s (.make params body it.arena e)
  | refuse {A : Activity} {vs s} (kind : ErrorKind) : Ending A vs s (.refuse kind)
  | fault {A : Activity} {vs s} : Ending A vs s .fault

private theorem known_getLast (vs : List Value) (s : Store) : Known vs s (vs.getLast?.getD .null) := by
  cases h : vs.getLast? with
  | none => exact .inl rfl
  | some v => exact .inr (.inl (List.mem_of_getLast? h))

theorem Known.mono {vs vs' : List Value} {s : Store} {v : Value} (h : Known vs s v) (hvs : vs ⊆ vs') :
    Known vs' s v := h.imp id (.imp (@hvs v) id)

private theorem ending_node {it : Interpreter} {i : ExprId} {n : Node}
    (hn : it.arena.arena.node? i = some n) (e : FrameId) (vs : List Value) (s : Store) :
    Ending (eval it e i) vs s (nodeEffect it e n vs s) := by
  have hplain (hprint : ∀ j, n ≠ .print j) (hfun : ∀ span body, n ≠ .function span body) :
      (eval it e i).Plain := by
    simp only [Plain, node?, hn, ne_eq, Option.some.injEq]
    exact ⟨hprint, hfun⟩
  unfold nodeEffect
  split
  next l =>
    refine .give (hplain (by simp) (by simp)) (.inl ?_)
    cases l <;> rfl
  next x =>
    refine .give (hplain (by simp) (by simp)) ?_
    cases hx : s.resolve? e x with
    | none => exact .inl rfl
    | some v =>
      obtain ⟨o, _, ho⟩ := Store.resolve?_eq_some hx
      exact .inr (.inr ⟨o, x, ho⟩)
  next => exact .print hn
  next =>
    split
    next hop => exact .give (hplain (by simp) (by simp)) (.inl (Operator.asClosure?_eval hop))
    next => exact .refuse _
  next => exact .give (hplain (by simp) (by simp)) (.inl rfl)
  next => exact .refuse _
  next => exact .give (hplain (by simp) (by simp)) (.inr (.inl (by simp)))
  next =>
    split
    next =>
      exact .trace _ (hplain (by simp) (by simp)) ((known_getLast _ s).mono (List.dropLast_subset _))
    next => exact .refuse _
    next => exact .fault
  next => exact .give (hplain (by simp) (by simp)) (.inr (.inl (by simp)))
  next =>
    split
    next => exact .refuse _
    next hb => exact .bind (hplain (by simp) (by simp)) (by simp) (.declared _ (by simpa using hb))
  next =>
    split
    next ho => exact .bind (hplain (by simp) (by simp)) (by simp) (.overwritten ho)
    next ho => exact .bind (hplain (by simp) (by simp)) (by simp) (.introduced _ ho)
  next =>
    split
    next hp => exact .make hn hp
    next => exact .fault
  next =>
    split
    next =>
      exact .give (hplain (by simp) (by simp)) ((known_getLast _ s).mono (List.subset_cons_self _ _))
    next => exact .fault
  next => exact .refuse _
  next => exact .fault

theorem ending (A : Activity) (vs : List Value) (s : Store) : Ending A vs s (A.effect vs s) := by
  cases A with
  | call it callee args => exact .give (by simp [Plain, node?]) (known_getLast vs s)
  | eval it e i =>
    cases hn : it.arena.arena.node? i with
    | none =>
      simp only [effect, hn]
      exact .fault
    | some n =>
      rw [effect_eval hn]
      exact ending_node hn e vs s

/-- A call has no other part than the body of its function. -/
theorem part?_call {it : Interpreter} {callee : Value} {args vs : List Value} {st : State}
    {B : Activity} (h : (call it callee args).part? st vs = some B) :
    ∃ c, callee = .closure c ∧ B = eval (it.callee c) st.store.size c.body := by
  cases callee with
  | closure c =>
    cases vs with
    | nil =>
      cases h
      exact ⟨c, rfl, rfl⟩
    | cons => cases h
  | _ => cases h

/-- A node has parts that are evaluated in its frame, and a call of what one of them came to. -/
theorem part?_node {it : Interpreter} {e : FrameId} {i : ExprId} {vs : List Value} {st : State}
    {B : Activity} (h : (eval it e i).part? st vs = some B) :
    (∃ j, B = eval it e j) ∨ ∃ c args, B = call it (.closure c) args := by
  obtain ⟨n, _, h⟩ := Option.bind_eq_some_iff.mp h
  unfold nodePart? at h
  split at h
  next =>
    obtain ⟨ids, _, h⟩ := Option.bind_eq_some_iff.mp h
    split at h
    · cases h
      exact .inr ⟨_, _, rfl⟩
    · obtain ⟨j, _, rfl⟩ := Option.map_eq_some_iff.mp h
      exact .inl ⟨j, rfl⟩
  next =>
    obtain ⟨j, _, rfl⟩ := Option.map_eq_some_iff.mp h
    exact .inl ⟨j, rfl⟩

/-- What becomes of a stop that passes out through an activity: a call adds its note to an error. -/
def pass : Activity → Stop → Stop
  | call it (.closure c) _, .raised x => .raised (x.addNote ("in call to " ++ c.signature it.names))
  | _, s => s

theorem pass_eq_outOfFuel_iff {A : Activity} {s : Stop} : A.pass s = .outOfFuel ↔ s = .outOfFuel := by
  unfold pass
  split <;> simp

theorem enter_closure {it : Interpreter} {c : Closure} {args : List Value}
    (h : args.length = c.arity) (st : State) :
    (call it (.closure c) args).enter st =
      it.bindParams st.store.size (c.params.zip args) (opened st it c args) := by
  have hlog : EvalM.log (.apply args.length it.depth) st =
    .ok () (st.log (.apply args.length it.depth)) := rfl
  rw [enter, bind_of_ok hlog, if_pos h]
  rfl

theorem enter_arity {it : Interpreter} {c : Closure} {args : List Value}
    (h : args.length ≠ c.arity) (st : State) :
    (call it (.closure c) args).enter st =
      .error (.raised { kind := .arityMismatch c.arity args.length })
        (st.log (.apply args.length it.depth)) := by
  have hlog : EvalM.log (.apply args.length it.depth) st =
    .ok () (st.log (.apply args.length it.depth)) := rfl
  rw [enter, bind_of_ok hlog, if_neg h]
  rfl

/-- The states that entering an activity can lead to: a call may be refused at once, for its arity or at
one of its parameters, or bind them all. -/
inductive Entered (st : State) : Activity → State → Prop where
  | stays (A : Activity) : Entered st A st
  | traced (it : Interpreter) (c : Closure) (args : List Value) :
      Entered st (call it (.closure c) args) (st.log (.apply args.length it.depth))
  | bound (it : Interpreter) (c : Closure) (args : List Value) {bindings : List (Name × Value)}
      (h : bindings <+: c.params.zip args) :
      Entered st (call it (.closure c) args)
        ((opened st it c args).bindAll st.store.size bindings)

private theorem exists_entered (A : Activity) (st : State) : ∃ st₁, Entered st A st₁ ∧
    (A.enter st = .ok () st₁ ∨ ∃ x, A.enter st = .error (.raised x) st₁) := by
  cases A with
  | eval it e i => exact ⟨st, .stays _, .inl rfl⟩
  | call it callee args =>
    cases callee with
    | closure c =>
      by_cases hl : args.length = c.arity
      · rw [enter_closure hl]
        rcases bindParams_run it st.store.size (c.params.zip args) (opened st it c args) with
          h | ⟨before, b, after, hz, _, _, h⟩
        · exact ⟨_, .bound it c args (List.prefix_refl _), .inl h⟩
        · exact ⟨_, .bound it c args ⟨b :: after, hz.symm⟩, .inr ⟨_, h⟩⟩
      · exact ⟨_, .traced it c args, .inr ⟨_, enter_arity hl st⟩⟩
    | _ => exact ⟨st, .stays _, .inr ⟨_, rfl⟩⟩

theorem entered_of_ok {A : Activity} {st st₁ : State} (h : A.enter st = .ok () st₁) :
    Entered st A st₁ := by
  obtain ⟨st', hst', h' | ⟨x, h'⟩⟩ := A.exists_entered st
  · cases h.symm.trans h'
    exact hst'
  · cases h.symm.trans h'

theorem entered_of_error {A : Activity} {st st₁ : State} {s : Stop} (h : A.enter st = .error s st₁) :
    Entered st A st₁ ∧ ∃ x, s = .raised x := by
  obtain ⟨st', hst', h' | ⟨x, h'⟩⟩ := A.exists_entered st
  · cases h.symm.trans h'
  · cases h.symm.trans h'
    exact ⟨hst', x, rfl⟩

end Activity
end Treewalk
