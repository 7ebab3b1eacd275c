import Treewalk.Builder

/-! Source trees, and how they are built: children first and left to right, then the node itself.
A leaf may refer to a node that was built earlier, so that trees can share nodes. -/
namespace Treewalk

/-- A source tree whose shared leaves are named by `ρ`; `Tree Empty` shares nothing. -/
inductive Tree (ρ : Type) where
  | shared (r : ρ)
  | literal (value : Literal)
  | ident (name : String)
  | print (operand : Tree ρ)
  | binary (symbol : String) (left right : Tree ρ)
  | ifThen (cond yes : Tree ρ)
  | ifElse (cond yes no : Tree ρ)
  | loop (cond body : Tree ρ)
  | seq (first second : Tree ρ)
  | block (statements : List (Tree ρ))
  | declare (name : String) (value : Tree ρ)
  | assign (name : String) (value : Tree ρ)
  | function (params : List String) (body : Tree ρ)
  | call (callee : Tree ρ) (args : List (Tree ρ))
  /-- A call in which one argument node fills all `count` positions. -/
  | callRepeated (callee arg : Tree ρ) (count : Nat)

namespace Tree
variable {ρ : Type}

mutual

/-- Build a tree and return its root, with `find` giving the nodes of shared leaves. -/
def build (find : ρ → BuildM ExprId) : Tree ρ → BuildM ExprId
  | shared r => find r
  | literal value => BuildM.literal value
  | ident name => BuildM.ident name
  | print operand => do
    let operand ← operand.build find
    BuildM.print operand
  | binary symbol left right => do
    let left ← left.build find
    let right ← right.build find
    BuildM.binarySymbol symbol left right
  | ifThen cond yes => do
    let cond ← cond.build find
    let yes ← yes.build find
    BuildM.ifElse cond yes none
  | ifElse cond yes no => do
    let cond ← cond.build find
    let yes ← yes.build find
    let no ← no.build find
    BuildM.ifElse cond yes (some no)
  | loop cond body => do
    let cond ← cond.build find
    let body ← body.build find
    BuildM.loop cond body
  | seq first second => do
    let first ← first.build find
    let second ← second.build find
    BuildM.seq first second
  | block statements => do
    let ids ← buildAll find statements
    BuildM.block ids
  | declare name value => do
    let value ← value.build find
    BuildM.declare name value
  | assign name value => do
    let value ← value.build find
    BuildM.assign name value
  | function params body => do
    let body ← body.build find
    BuildM.function params body
  | call callee args => do
    let callee ← callee.build find
    let args ← buildAll find args
    BuildM.call callee args
  | callRepeated callee arg count => do
    let callee ← callee.build find
    let arg ← arg.build find
    BuildM.call callee (List.replicate count arg)

def buildAll (find : ρ → BuildM ExprId) : List (Tree ρ) → BuildM (List ExprId)
  | [] => pure []
  | t :: ts => do
    let i ← t.build find
    let is ← buildAll find ts
    pure (i :: is)

end

end Tree

/-- A program is a list of trees of which the last is the root. A tree may share the roots of
earlier ones, by position. -/
structure Program where
  entries : List (Tree Nat)

namespace Program

def ofTree (t : Tree Nat) : Program := ⟨[t]⟩

/-- Build the entries in order on top of the ids already built. -/
def buildEntries (built : Array ExprId) : List (Tree Nat) → BuildM (Array ExprId)
  | [] => pure built
  | t :: ts => do
    let i ← t.build fun k => match built[k]? with
      | some i => pure i
      | none => throw (.unknownEntry k)
    buildEntries (built.push i) ts

/-- The root of the built program; a program without entries has none. -/
def build (p : Program) : BuildM ExprId := do
  let built ← buildEntries #[] p.entries
  match built.back? with
  | some root => pure root
  | none => throw (.unknownEntry 0)

end Program
end Treewalk
