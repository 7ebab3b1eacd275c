import Treewalk.Run
import Treewalk.Store.Display

/-! Sessions: one interner, one channel, and handles to frames, arenas and values that live on from
step to step. A step that fails leaves whatever it had changed, and the session goes on. -/
namespace Treewalk

/-- A value that a step takes: a constant, or what an earlier step stored. -/
inductive Operand where
  | literal (l : Literal)
  | slot (step : Nat)

/-- What a host can ask of a session. Frames and arenas are named by handle. -/
inductive Step where
  /-- Build a program into an arena of its own and evaluate it. -/
  | eval (program : Program) (env : Nat)
  /-- Evaluate one node of an arena. -/
  | evalAt (arena : Nat) (node : ExprId) (env : Nat)
  | call (callee : Operand) (args : List Operand)
  /-- Make a closure whose body is any node of an arena. -/
  | closure (params : List String) (arena : Nat) (body : ExprId) (env : Nat)
  | binary (symbol : String) (left right : Operand)
  | newGlobal
  | child (env : Nat)
  /-- Open `count` frames inside each other. -/
  | descend (env count : Nat)
  | aliasOf (env : Nat)
  | globalOf (env : Nat)
  /-- The frame that a closure captured. -/
  | captured (value : Operand)
  | isGlobal (env : Nat)
  | sameFrame (left right : Nat)
  | count (env : Nat)
  | declare (env : Nat) (name : String) (value : Operand)
  | update (env : Nat) (name : String) (value : Operand)
  /-- The nearest binding of a name, searched outward. -/
  | resolve (env : Nat) (name : String)
  /-- The binding of a name in one frame. -/
  | get (env : Nat) (name : String)
  | frame (env : Nat)
  | output
  | clear
  | names
  | equals (left right : Operand)
  | inspect (value : Operand)
  | render (value : Operand)
  | debugValue (value : Operand)
  | debugFrame (env : Nat)
  | debugScope (env : Nat)
  | describe (value : Operand)

inductive Answer where
  /-- A value, which the step stores. -/
  | value (v : Value)
  | unbound
  /-- A new handle, and the first older one to the same frame. -/
  | env (handle : Nat) (same : Option Nat)
  | noEnv
  | done
  | isGlobal (b : Bool)
  | sameFrame (b : Bool)
  | count (n : Nat)
  | frame (bindings : List (String × Value))
  | output (text : String)
  | names (n : Nat)
  | equals (b : Bool)
  | kind (typeName : String) (asInt : Option Int64) (asBool : Option Bool)
  /-- A value as this session and as one that knows none of its names would print it. -/
  | rendered (text foreign : String)
  | debug (text : Option String)
  /-- A closure's parameters and body, and the first handle to its arena. -/
  | closure (params : List Name) (body : ExprId) (arena : Option Nat)
  | notClosure

inductive StepError where
  | build (cause : BuildError)
  | stop (cause : Stop)
  | declare (cause : DeclareError)

structure Session where
  names : Interner := .empty
  state : State
  envs : Array FrameId
  arenas : Array SharedArena := #[]
  /-- What each step so far has stored; null if it stored nothing. -/
  slots : Array Value := #[]

abbrev SessionM := EStateM StepError Session

namespace Session

def new (sink : Sink) : Session :=
  let (global, state) := (State.onStore Store.newGlobal) (State.new sink)
  { state, envs := #[global] }

def globals (s : Session) : List (String × Value) :=
  match s.envs[0]? with
  | some e => s.state.frame s.names e
  | none => []

/-- What a handle stands for. -/
def require {α : Type} : Option α → SessionM α
  | some a => pure a
  | none => throw (.stop .fault)

def env (h : Nat) : SessionM FrameId := do require (← get).envs[h]?

def arena (a : Nat) : SessionM SharedArena := do require (← get).arenas[a]?

def operand : Operand → SessionM Value
  | .literal l => pure (.ofLiteral l)
  | .slot k => return (← get).slots[k]?.getD .null

def intern (text : String) : SessionM Name := modifyGet fun s =>
  let (n, names) := s.names.intern text
  (n, { s with names })

def onState {α : Type} (m : StateM State α) : SessionM α := modifyGet fun s =>
  let (a, state) := m s.state
  (a, { s with state })

def onEval {α : Type} (m : EvalM α) : SessionM α := fun s =>
  match m s.state with
  | .ok a state => .ok a { s with state }
  | .error e state => .error (.stop e) { s with state }

/-- Build a program. Its names stay interned even if it fails; its arena is kept only if it does
not. -/
def build (p : Program) : SessionM (SharedArena × ExprId) := fun s =>
  match p.build { names := s.names } with
  | .error e b => .error (.build e) { s with names := b.names }
  | .ok root b =>
    let shared : SharedArena := { id := s.arenas.size, arena := b.arena }
    .ok (shared, root) { s with names := b.names, arenas := s.arenas.push shared }

/-- Build a program and evaluate it with an interpreter of its own. -/
def evalProgram (fuel : Nat) (program : Program) (h : Nat) : SessionM Value := do
  let (arena, root) ← build program
  let e ← env h
  let it : Interpreter := { names := (← get).names, arena }
  onEval (it.evaluate fuel e root)

def addEnv (e : FrameId) : SessionM Answer := modifyGet fun s =>
  (.env s.envs.size (s.envs.findIdx? (· == e)), { s with envs := s.envs.push e })

def found : Option Value → Answer
  | some v => .value v
  | none => .unbound

def perform : Step → SessionM Answer
  | .eval program h => return .value (← evalProgram Interpreter.ampleFuel program h)
  | .evalAt a node h => do
    let arena ← arena a
    let e ← env h
    let it : Interpreter := { names := (← get).names, arena }
    return .value (← onEval (it.eval Interpreter.ampleFuel e node))
  | .call callee args => do
    let callee ← operand callee
    let args ← args.mapM operand
    let s ← get
    let it : Interpreter := { names := s.names, arena := { id := s.arenas.size, arena := .empty } }
    return .value (← onEval (it.call Interpreter.ampleFuel callee args))
  | .closure params a body h => do
    let params ← params.mapM intern
    let arena ← arena a
    let e ← env h
    return .value (← onState (State.newClosure params body arena e))
  | .binary symbol left right => do
    let left ← operand left
    let right ← operand right
    match Operator.ofSymbol? symbol with
    | none => throw (.build (.unknownOperator symbol))
    | some op => return .value (← onEval (EvalM.ofExcept (op.eval left right)))
  | .newGlobal => do addEnv (← onState (State.onStore Store.newGlobal))
  | .child h => do addEnv (← onState (State.onStore (Store.child (← env h))))
  | .descend h count => do addEnv (← onState (State.onStore (Store.descend (← env h) count)))
  | .aliasOf h => do addEnv (← env h)
  | .globalOf h => do
    let e ← env h
    addEnv ((← get).state.store.global e)
  | .captured value => do
    match ← operand value with
    | .closure c => addEnv c.env
    | _ => return .noEnv
  | .isGlobal h => do
    let e ← env h
    return .isGlobal ((← get).state.store.isGlobal e)
  | .sameFrame left right => do
    let l ← env left
    let r ← env right
    return .sameFrame (l == r)
  | .count h => do
    let e ← env h
    return .count ((← get).state.store.count e)
  | .declare h name value => do
    let e ← env h
    let n ← intern name
    let v ← operand value
    fun s => match s.state.store.declare e n v with
      | .ok () store => .ok .done { s with state := { s.state with store } }
      | .error error _ => .error (.declare error) s
  | .update h name value => do
    let e ← env h
    let n ← intern name
    let v ← operand value
    modify fun s => { s with state := s.state.update e n v }
    return .done
  | .resolve h name => do
    let e ← env h
    let n ← intern name
    return found ((← get).state.store.resolve? e n)
  | .get h name => do
    let e ← env h
    let n ← intern name
    return found ((← get).state.store.get? e n)
  | .frame h => do
    let e ← env h
    let s ← get
    return .frame (s.state.frame s.names e)
  | .output => return .output (← get).state.channel.captured
  | .clear => do
    modify fun s => { s with state := { s.state with channel := s.state.channel.clear } }
    return .done
  | .names => return .names (← get).names.size
  | .equals left right => do
    let l ← operand left
    let r ← operand right
    return .equals (l.equals r)
  | .inspect value => do
    let v ← operand value
    return .kind v.typeName v.asInt? v.asBool?
  | .render value => do
    let v ← operand value
    return .rendered (v.render (← get).names) (v.render .empty)
  | .debugValue value => return .debug (some (← operand value).debugText)
  | .debugFrame h => do
    let e ← env h
    return .debug (some ((← get).state.store.frameText e))
  | .debugScope h => do
    let e ← env h
    return .debug ((← get).state.store.scopeText? e)
  | .describe value => do
    match ← operand value with
    | .closure c => return .closure c.params c.body ((← get).arenas.findIdx? (·.same c.arena))
    | _ => return .notClosure

/-- A step's answer, and what was printed and traced on the way to it. -/
structure Report where
  answer : Except StepError Answer
  printed : String
  trace : Array TraceEntry

def stored : Except StepError Answer → Value
  | .ok (.value v) => v
  | _ => .null

def step (s : Session) (request : Step) : Report × Session :=
  let mark := s.state.channel.mark
  let s := { s with state := { s.state with trace := #[] } }
  let (answer, s) : Except StepError Answer × Session := match perform request s with
    | .ok a s => (.ok a, s)
    | .error e s => (.error e, s)
  ({ answer, printed := s.state.channel.since mark, trace := s.state.trace },
    { s with slots := s.slots.push (stored answer) })

end Session
end Treewalk
