import Treewalk.Tree
import Treewalk.Proofs.Unfolding

/-! Building loses nothing: the root of a tree that was built stands for the code of the tree.
Nodes, lists and names that were there before stay as they are. -/
namespace Treewalk

def Code.block : List Code → Code
  | [] => .literal .null
  | c :: cs => cs.foldl .seq c

namespace Tree
variable {ρ : Type}

mutual

/-- The code of a tree. A tree that shares nodes has none, nor has one with an unknown operator. -/
def code? : Tree ρ → Option Code
  | shared _ => none
  | literal value => some (.literal value)
  | ident name => some (.ident name)
  | print operand => do
    let operand ← operand.code?
    some (.print operand)
  | binary symbol left right => do
    let op ← Operator.ofSymbol? symbol
    let left ← left.code?
    let right ← right.code?
    some (.binary op left right)
  | ifThen cond yes => do
    let cond ← cond.code?
    let yes ← yes.code?
    some (.ifElse cond yes none)
  | ifElse cond yes no => do
    let cond ← cond.code?
    let yes ← yes.code?
    let no ← no.code?
    some (.ifElse cond yes (some no))
  | loop cond body => do
    let cond ← cond.code?
    let body ← body.code?
    some (.loop cond body)
  | seq first second => do
    let first ← first.code?
    let second ← second.code?
    some (.seq first second)
  | block statements => do
    let statements ← codes? statements
    some (.block statements)
  | declare name value => do
    let value ← value.code?
    some (.declare name value)
  | assign name value => do
    let value ← value.code?
    some (.assign name value)
  | function params body => do
    let body ← body.code?
    some (.function params body)
  | call callee args => do
    let callee ← callee.code?
    let args ← codes? args
    some (.call callee args)
  | callRepeated callee arg count => do
    let callee ← callee.code?
    let arg ← arg.code?
    some (.call callee (List.replicate count arg))

def codes? : List (Tree ρ) → Option (List Code)
  | [] => some []
  | t :: ts => do
    let c ← t.code?
    let cs ← codes? ts
    some (c :: cs)

end

mutual

/-- No argument or parameter list in the tree is longer than a span can describe. -/
def short : Tree ρ → Bool
  | shared _ | literal _ | ident _ => true
  | print t | declare _ t | assign _ t => t.short
  | binary _ t u | ifThen t u | loop t u | seq t u => t.short && u.short
  | ifElse t u w => t.short && u.short && w.short
  | block ts => shortAll ts
  | function params body => decide (params.length ≤ Arena.maxListLength) && body.short
  | call callee args =>
    decide (args.length ≤ Arena.maxListLength) && callee.short && shortAll args
  | callRepeated callee arg count =>
    decide (count ≤ Arena.maxListLength) && callee.short && arg.short

def shortAll : List (Tree ρ) → Bool
  | [] => true
  | t :: ts => t.short && shortAll ts

end

mutual

/-- The texts that building a tree interns, in that order. -/
def texts : Tree ρ → List String
  | shared _ | literal _ => []
  | ident name => [name]
  | print t => t.texts
  | declare name t | assign name t => t.texts ++ [name]
  | binary _ t u | ifThen t u | loop t u | seq t u | callRepeated t u _ => t.texts ++ u.texts
  | ifElse t u w => t.texts ++ (u.texts ++ w.texts)
  | block ts => textsAll ts
  | function params body => body.texts ++ params
  | call callee args => callee.texts ++ textsAll args

def textsAll : List (Tree ρ) → List String
  | [] => []
  | t :: ts => t.texts ++ textsAll ts

end
end Tree

namespace Builder

/-- What can be read in the first builder reads the same in the second, which has interned the texts
`ss` since. -/
structure Grown (b : Builder) (ss : List String) (b' : Builder) : Prop where
  arena : b.arena.Extends b'.arena
  names : b'.names = b.names.internAll ss

/-- A node of the builder stands for the code. -/
def Reads (b : Builder) (i : ExprId) (c : Code) : Prop := b.arena.Unfolds b.names i c

variable {b b' b'' : Builder} {ss rs : List String}

theorem Grown.trans (h : b.Grown ss b') (k : b'.Grown rs b'') : b.Grown (ss ++ rs) b'' :=
  ⟨h.arena.trans k.arena, by rw [k.names, h.names, Interner.internAll_append]⟩

theorem Grown.extends (h : b.Grown ss b') : b.names.Extends b'.names :=
  h.names ▸ b.names.extends_internAll ss

theorem Grown.consistent (h : b.Grown ss b') (hb : b.names.Consistent) : b'.names.Consistent :=
  h.names ▸ hb.internAll ss

theorem Grown.reads {i : ExprId} {c : Code} (h : b.Grown ss b') (hi : b.Reads i c) :
    b'.Reads i c := hi.mono h.arena h.extends

end Builder

namespace BuildM
variable {α β : Type} {b : Builder} {ss rs : List String}

/-- `m` succeeds and interns the texts `ss`. Nothing that was there changes, and what `m` returns
satisfies `Q`. -/
def Adds (m : BuildM α) (b : Builder) (ss : List String) (Q : α → Builder → Prop) : Prop :=
  ∃ x b', m b = .ok x b' ∧ b.Grown ss b' ∧ Q x b'

theorem Adds.bind {m : BuildM α} {f : α → BuildM β} {Q : α → Builder → Prop}
    {R : β → Builder → Prop} (hm : m.Adds b ss Q)
    (hf : ∀ x b', b.Grown ss b' → Q x b' → (f x).Adds b' rs R) :
    (m >>= f).Adds b (ss ++ rs) R := by
  obtain ⟨x, b', hx, hg, hq⟩ := hm
  obtain ⟨y, b'', hy, hg', hr⟩ := hf x b' hg hq
  exact ⟨y, b'', (bind_of_ok hx f).trans hy, hg.trans hg', hr⟩

theorem Adds.last {m : BuildM α} {f : α → BuildM β} {Q : α → Builder → Prop}
    {R : β → Builder → Prop} (hm : m.Adds b ss Q)
    (hf : ∀ x b', b.Grown ss b' → Q x b' → (f x).Adds b' [] R) : (m >>= f).Adds b ss R :=
  ss.append_nil ▸ hm.bind hf

theorem adds_pure {x : α} {Q : α → Builder → Prop} (h : Q x b) : (pure x : BuildM α).Adds b [] Q :=
  ⟨x, b, rfl, ⟨.refl _, rfl⟩, h⟩

private theorem adds_intern (hb : b.names.Consistent) (s : String) :
    (intern s).Adds b [s] fun n b' => b'.names.Spells n s :=
  ⟨_, _, rfl, ⟨.refl _, rfl⟩, hb.spells_intern s⟩

private theorem adds_mapM_intern (hb : b.names.Consistent) (ss : List String) :
    (ss.mapM intern).Adds b ss fun ns b' => List.Forall₂ b'.names.Spells ns ss := by
  induction ss generalizing b with
  | nil => exact adds_pure .nil
  | cons s ss ih =>
    rw [List.mapM_cons]
    apply (adds_intern hb s).bind
    intro n b₁ hg hn
    apply (ih (hg.consistent hb)).last
    intro ns b₂ hg' hns
    exact adds_pure (.cons (hg'.extends n s hn) hns)

/-- Two operands built one after the other both read when the node over them is added. -/
theorem Adds.two {m₁ m₂ : BuildM ExprId} {f : ExprId → ExprId → BuildM α} {c d : Code}
    {R : α → Builder → Prop} (h₁ : m₁.Adds b ss fun i b' => b'.Reads i c)
    (h₂ : ∀ b', b.Grown ss b' → m₂.Adds b' rs fun j b'' => b''.Reads j d)
    (hf : ∀ i j b', b'.Reads i c → b'.Reads j d → (f i j).Adds b' [] R) :
    (m₁ >>= fun i => m₂ >>= fun j => f i j).Adds b (ss ++ rs) R := by
  apply h₁.bind
  intro i b₁ hg hi
  apply (h₂ b₁ hg).last
  intro j b₂ hg' hj
  exact hf i j b₂ (hg'.reads hi) hj

theorem adds_alloc {n : Node} {c : Code}
    (h : ∀ i b', b.Grown [] b' → b'.arena.node? i = some n → b'.Reads i c) :
    (alloc n).Adds b [] fun i b' => b'.Reads i c := by
  have hg : b.Grown [] { b with arena := (Arena.alloc n b.arena).2 } := ⟨.alloc b.arena n, rfl⟩
  have hnew : (Arena.alloc n b.arena).2.node? b.arena.size = some n := by
    rw [Arena.node?_alloc, if_pos rfl]
  exact ⟨b.arena.size, _, rfl, hg, h _ _ hg hnew⟩

theorem adds_allocList (kind : ListKind) (b : Builder) {xs : List kind.Entry}
    (h : xs.length ≤ Arena.maxListLength) :
    (allocList (Arena.allocList kind xs)).Adds b [] fun s b' => b'.arena.list? kind s = some xs :=
  ⟨_, _, (allocList_run kind xs b).trans (if_pos h), ⟨.append b.arena kind xs, rfl⟩,
    b.arena.list?_append kind xs⟩

/-- Nodes joined from left to right stand for their codes joined in the same way. -/
theorem adds_block {ids : List ExprId} {cs : List Code} (h : List.Forall₂ b.Reads ids cs) :
    (block ids).Adds b [] fun i b' => b'.Reads i (.block cs) := by
  have join {b : Builder} {i : ExprId} {c : Code} {ids : List ExprId} {cs : List Code}
      (hi : b.Reads i c) (h : List.Forall₂ b.Reads ids cs) :
      (ids.foldlM seq i).Adds b [] fun i b' => b'.Reads i (cs.foldl .seq c) := by
    induction ids generalizing b i c cs with
    | nil =>
      cases h
      exact adds_pure hi
    | cons j ids ih =>
      cases h with
      | cons hj h =>
        rw [List.foldlM_cons, List.foldl_cons]
        have hseq : (seq i j).Adds b [] fun k b' => b'.Reads k _ :=
          adds_alloc fun k b' hg hk => .seq hk (hg.reads hi) (hg.reads hj)
        exact hseq.last fun k b' hg hk => ih hk (h.imp fun _ _ hr => hg.reads hr)
  cases h with
  | nil => exact adds_alloc fun i b' _ hi => .literal hi
  | cons hi h => exact join hi h

private theorem adds_call {f : ExprId} {c : Code} {ids : List ExprId} {cs : List Code} (hf : b.Reads f c)
    (hlen : ids.length ≤ Arena.maxListLength) (h : List.Forall₂ b.Reads ids cs) :
    (call f ids).Adds b [] fun i b' => b'.Reads i (.call c cs) := by
  apply (adds_allocList .argument b hlen).last
  intro s b₁ hg hs
  apply adds_alloc
  intro i b₂ hg' hi
  refine .call hi (hg'.reads (hg.reads hf)) (hg'.arena.args hs) h.length_eq ?_
  intro k j d hj hd
  obtain ⟨hk, rfl⟩ := List.getElem?_eq_some_iff.mp hj
  obtain ⟨hk', rfl⟩ := List.getElem?_eq_some_iff.mp hd
  exact hg'.reads (hg.reads (h.get hk hk'))

private theorem adds_function {i : ExprId} {c : Code} {params : List String} (hi : b.Reads i c)
    (hb : b.names.Consistent) (hlen : params.length ≤ Arena.maxListLength) :
    (function params i).Adds b params fun k b' => b'.Reads k (.function params c) := by
  apply (adds_mapM_intern hb params).last
  intro ns b₁ hg hns
  apply (adds_allocList .parameter b₁ (hns.length_eq ▸ hlen)).last
  intro s b₂ hg₂ hp
  apply adds_alloc
  intro k b₃ hg₃ hk
  refine .function hk (hg₃.arena.params hp) ?_ (hg₃.reads (hg₂.reads (hg.reads hi)))
  exact hns.imp fun n s hn => hg₃.extends n s (hg₂.extends n s hn)

end BuildM

namespace Tree
open BuildM
variable {ρ : Type}

private theorem length_codes? {ts : List (Tree ρ)} {cs : List Code} (h : codes? ts = some cs) :
    cs.length = ts.length := by
  induction ts generalizing cs with
  | nil =>
    cases h
    rfl
  | cons t ts ih =>
    simp only [codes?, Option.bind_eq_bind, Option.bind_eq_some_iff, Option.some.injEq] at h
    obtain ⟨c, _, ds, hds, rfl⟩ := h
    exact congrArg (· + 1) (ih hds)

mutual

/-- Building a short tree that has code gives a node that stands for this code. -/
theorem adds_build (find : ρ → BuildM ExprId) (t : Tree ρ) {c : Code} {b : Builder}
    (hs : t.short = true) (hc : t.code? = some c) (hb : b.names.Consistent) :
    (t.build find).Adds b t.texts fun i b' => b'.Reads i c := by
  cases t with
  | shared r => cases hc
  | literal value =>
    cases hc
    exact adds_alloc fun i b' _ hi => .literal hi
  | ident name =>
    cases hc
    apply (adds_intern hb name).last
    intro n b₁ _ hn
    exact adds_alloc fun i b' hg hi => .ident hi (hg.extends n name hn)
  | print t =>
    simp only [code?, Option.bind_eq_bind, Option.bind_eq_some_iff, Option.some.injEq] at hc
    obtain ⟨d, hd, rfl⟩ := hc
    apply (adds_build find t hs hd hb).last
    intro i b₁ _ hi
    exact adds_alloc fun k b' hg hk => .print hk (hg.reads hi)
  | binary symbol t u =>
    simp only [code?, Option.bind_eq_bind, Option.bind_eq_some_iff, Option.some.injEq] at hc
    obtain ⟨op, hop, d, hd, e, he, rfl⟩ := hc
    simp only [short, Bool.and_eq_true] at hs
    apply Adds.two (adds_build find t hs.1 hd hb)
    · exact fun b₁ hg => adds_build find u hs.2 he (hg.consistent hb)
    · intro i j b₂ hi hj
      rw [binarySymbol, hop]
      exact adds_alloc fun k b' hg hk => .binary hk (hg.reads hi) (hg.reads hj)
  | ifThen t u =>
    simp only [code?, Option.bind_eq_bind, Option.bind_eq_some_iff, Option.some.injEq] at hc
    obtain ⟨d, hd, e, he, rfl⟩ := hc
    simp only [short, Bool.and_eq_true] at hs
    apply Adds.two (adds_build find t hs.1 hd hb)
    · exact fun b₁ hg => adds_build find u hs.2 he (hg.consistent hb)
    · intro i j b₂ hi hj
      exact adds_alloc fun k b' hg hk => .ifThen hk (hg.reads hi) (hg.reads hj)
  | ifElse t u w =>
    simp only [code?, Option.bind_eq_bind, Option.bind_eq_some_iff, Option.some.injEq] at hc
    obtain ⟨d, hd, e, he, g, hg, rfl⟩ := hc
    simp only [short, Bool.and_eq_true] at hs
    apply (adds_build find t hs.1.1 hd hb).bind
    intro i b₁ hb₁ hi
    apply (adds_build find u hs.1.2 he (hb₁.consistent hb)).bind
    intro j b₂ hb₂ hj
    apply (adds_build find w hs.2 hg (hb₂.consistent (hb₁.consistent hb))).last
    intro k b₃ hb₃ hk
    refine adds_alloc fun l b' hb' hl => .ifElse hl ?_ (hb'.reads (hb₃.reads hj)) (hb'.reads hk)
    exact hb'.reads (hb₃.reads (hb₂.reads hi))
  | loop t u =>
    simp only [code?, Option.bind_eq_bind, Option.bind_eq_some_iff, Option.some.injEq] at hc
    obtain ⟨d, hd, e, he, rfl⟩ := hc
    simp only [short, Bool.and_eq_true] at hs
    apply Adds.two (adds_build find t hs.1 hd hb)
    · exact fun b₁ hg => adds_build find u hs.2 he (hg.consistent hb)
    · intro i j b₂ hi hj
      exact adds_alloc fun k b' hg hk => .loop hk (hg.reads hi) (hg.reads hj)
  | seq t u =>
    simp only [code?, Option.bind_eq_bind, Option.bind_eq_some_iff, Option.some.injEq] at hc
    obtain ⟨d, hd, e, he, rfl⟩ := hc
    simp only [short, Bool.and_eq_true] at hs
    apply Adds.two (adds_build find t hs.1 hd hb)
    · exact fun b₁ hg => adds_build find u hs.2 he (hg.consistent hb)
    · intro i j b₂ hi hj
      exact adds_alloc fun k b' hg hk => .seq hk (hg.reads hi) (hg.reads hj)
  | block ts =>
    simp only [code?, Option.bind_eq_bind, Option.bind_eq_some_iff, Option.some.injEq] at hc
    obtain ⟨ds, hds, rfl⟩ := hc
    exact (adds_buildAll find ts hs hds hb).last fun is b₁ _ his => adds_block his
  | declare name t =>
    simp only [code?, Option.bind_eq_bind, Option.bind_eq_some_iff, Option.some.injEq] at hc
    obtain ⟨d, hd, rfl⟩ := hc
    apply (adds_build find t hs hd hb).bind
    intro i b₁ hg hi
    apply (adds_intern (hg.consistent hb) name).last
    intro n b₂ hg₂ hn
    exact adds_alloc fun k b' hg' hk =>
      .declare hk (hg'.extends n name hn) (hg'.reads (hg₂.reads hi))
  | assign name t =>
    simp only [code?, Option.bind_eq_bind, Option.bind_eq_some_iff, Option.some.injEq] at hc
    obtain ⟨d, hd, rfl⟩ := hc
    apply (adds_build find t hs hd hb).bind
    intro i b₁ hg hi
    apply (adds_intern (hg.consistent hb) name).last
    intro n b₂ hg₂ hn
    exact adds_alloc fun k b' hg' hk =>
      .assign hk (hg'.extends n name hn) (hg'.reads (hg₂.reads hi))
  | function params t =>
    simp only [code?, Option.bind_eq_bind, Option.bind_eq_some_iff, Option.some.injEq] at hc
    obtain ⟨d, hd, rfl⟩ := hc
    simp only [short, Bool.and_eq_true, decide_eq_true_eq] at hs
    apply (adds_build find t hs.2 hd hb).bind
    intro i b₁ hg hi
    exact adds_function hi (hg.consistent hb) hs.1
  | call t ts =>
    simp only [code?, Option.bind_eq_bind, Option.bind_eq_some_iff, Option.some.injEq] at hc
    obtain ⟨d, hd, ds, hds, rfl⟩ := hc
    simp only [short, Bool.and_eq_true, decide_eq_true_eq] at hs
    apply (adds_build find t hs.1.2 hd hb).bind
    intro i b₁ hg hi
    apply (adds_buildAll find ts hs.2 hds (hg.consistent hb)).last
    intro is b₂ hg₂ his
    have hlen : is.length = ts.length := his.length_eq.trans (length_codes? hds)
    exact adds_call (hg₂.reads hi) (hlen ▸ hs.1.1) his
  | callRepeated t u count =>
    simp only [code?, Option.bind_eq_bind, Option.bind_eq_some_iff, Option.some.injEq] at hc
    obtain ⟨d, hd, e, he, rfl⟩ := hc
    simp only [short, Bool.and_eq_true, decide_eq_true_eq] at hs
    apply Adds.two (adds_build find t hs.1.2 hd hb)
    · exact fun b₁ hg => adds_build find u hs.2 he (hg.consistent hb)
    · intro i j b₂ hi hj
      refine adds_call hi (by simpa using hs.1.1) ?_
      exact List.forall₂_iff_get.mpr ⟨by simp, fun k hk hk' => by simpa using hj⟩

private theorem adds_buildAll (find : ρ → BuildM ExprId) (ts : List (Tree ρ)) {cs : List Code} {b : Builder}
    (hs : shortAll ts = true) (hc : codes? ts = some cs) (hb : b.names.Consistent) :
    (buildAll find ts).Adds b (textsAll ts) fun is b' => List.Forall₂ b'.Reads is cs := by
  cases ts with
  | nil =>
    cases hc
    exact adds_pure .nil
  | cons t ts =>
    simp only [codes?, Option.bind_eq_bind, Option.bind_eq_some_iff, Option.some.injEq] at hc
    obtain ⟨d, hd, ds, hds, rfl⟩ := hc
    simp only [shortAll, Bool.and_eq_true] at hs
    apply (adds_build find t hs.1 hd hb).bind
    intro i b₁ hg hi
    apply (adds_buildAll find ts hs.2 hds (hg.consistent hb)).last
    intro is b₂ hg' his
    exact adds_pure (.cons (hg'.reads hi) his)

end
end Tree
end Treewalk
