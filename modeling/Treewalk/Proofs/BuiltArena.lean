import Mathlib.Data.List.Forall2
import Treewalk.Proofs.ListTables

/-! Well-formed arenas, and why every arena that comes out of a builder is one.
Children have smaller ids than their node, so following ids always ends. -/
namespace Treewalk

namespace Node

/-- The ids that a node holds itself; those of its argument list are in the arena. -/
@[simp]
def children : Node → List ExprId
  | literal _ | ident _ => []
  | print i | declare _ i | assign _ i | function _ i | call i _ => [i]
  | binary _ i j | loop i j | seq i j => [i, j]
  | ifElse i j k => i :: j :: k.toList

end Node

namespace Arena

/-- Every id below a node, the entries of its argument list included. -/
@[simp]
def children (a : Arena) : Node → List ExprId
  | .call callee args => callee :: (a.args? args).getD []
  | n => n.children

def ListFits (a : Arena) : Node → Prop
  | .call _ args => args.Fits a.argTable.size
  | .function params _ => params.Fits a.paramTable.size
  | _ => True

/-- Children are smaller than their node, and lists lie inside their tables. -/
structure WellFormed (a : Arena) : Prop where
  child_lt : ∀ {k : ExprId} {n : Node}, a.node? k = some n → ∀ j ∈ a.children n, j < k
  list_fits : ∀ {k : ExprId} {n : Node}, a.node? k = some n → a.ListFits n

theorem node?_isSome {a : Arena} {i : ExprId} (h : i < a.size) : ∃ n, a.node? i = some n :=
  ⟨a.nodes[i], Array.getElem?_eq_getElem h⟩

theorem lt_size {a : Arena} {i : ExprId} {n : Node} (h : a.node? i = some n) : i < a.size :=
  (Array.getElem?_eq_some_iff.mp h).choose

theorem WellFormed.args? {a : Arena} (h : a.WellFormed) {k f : ExprId} {s : Span}
    (hk : a.node? k = some (.call f s)) : ∃ ids, a.args? s = some ids := Span.Fits.read (h.list_fits hk)

theorem WellFormed.params? {a : Arena} (h : a.WellFormed) {k body : ExprId} {s : Span}
    (hk : a.node? k = some (.function s body)) : ∃ names, a.params? s = some names :=
  Span.Fits.read (h.list_fits hk)

theorem children_grow {a b : Arena} {n : Node} (hn : a.ListFits n) {more : List ExprId}
    (hargs : b.argTable = a.argTable ++ more) : b.children n = a.children n := by
  cases n with
  | call f s =>
    have hr : b.args? s = a.args? s := by
      rw [args?, hargs]
      exact Span.Fits.read_append hn more
    simp [hr]
  | _ => rfl

private theorem ListFits.grow {a b : Arena} {n : Node} (hn : a.ListFits n)
    (hargs : a.argTable.size ≤ b.argTable.size) (hparams : a.paramTable.size ≤ b.paramTable.size) :
    b.ListFits n := by
  cases n with
  | call f s => exact Span.Fits.mono hn hargs
  | function s body => exact Span.Fits.mono hn hparams
  | _ => trivial

theorem WellFormed.empty : Arena.empty.WellFormed where
  child_lt h := absurd (lt_size h) (Nat.not_lt_zero _)
  list_fits h := absurd (lt_size h) (Nat.not_lt_zero _)

private theorem WellFormed.grow {a b : Arena} (ha : a.WellFormed) (args : List ExprId)
    (params : List Name) (hnodes : b.nodes = a.nodes) (hargs : b.argTable = a.argTable ++ args)
    (hparams : b.paramTable = a.paramTable ++ params) : b.WellFormed := by
  have hnode (k : ExprId) : b.node? k = a.node? k := by rw [node?, hnodes, node?]
  constructor
  · intro k n hk j hj
    rw [hnode] at hk
    rw [children_grow (ha.list_fits hk) hargs] at hj
    exact ha.child_lt hk j hj
  · intro k n hk
    rw [hnode] at hk
    apply (ha.list_fits hk).grow
    · rw [hargs, Span.size_appended]; omega
    · rw [hparams, Span.size_appended]; omega

theorem WellFormed.append {a : Arena} (ha : a.WellFormed) (kind : ListKind) (xs : List kind.Entry) :
    (a.append kind xs).WellFormed := by
  cases kind with
  | argument => exact ha.grow xs [] rfl rfl (by simp [Arena.append])
  | parameter => exact ha.grow [] xs rfl (by simp [Arena.append]) rfl

theorem WellFormed.alloc {a : Arena} (ha : a.WellFormed) {n : Node}
    (hc : ∀ j ∈ a.children n, j < a.size) (hl : a.ListFits n) : (Arena.alloc n a).2.WellFormed := by
  constructor
  · intro k m hk
    rw [node?_alloc] at hk
    split at hk
    · cases hk
      subst k
      exact hc
    · exact ha.child_lt hk
  · intro k m hk
    rw [node?_alloc] at hk
    split at hk
    · cases hk
      exact hl
    · exact ha.list_fits hk

theorem size_alloc (n : Node) (a : Arena) : (Arena.alloc n a).2.size = a.size + 1 :=
  Array.size_push n

end Arena

section Bind
variable {ε σ α β : Type} {m : EStateM ε σ α} {s s' : σ}

theorem bind_of_ok {x : α} (h : m s = .ok x s') (f : α → EStateM ε σ β) :
    (m >>= f) s = f x s' := by
  simp [Bind.bind, EStateM.bind, h]

theorem bind_of_error {x : ε} (h : m s = .error x s') (f : α → EStateM ε σ β) :
    (m >>= f) s = .error x s' := by
  simp [Bind.bind, EStateM.bind, h]

theorem error_of_bind {f : α → EStateM ε σ β} {x : ε} (h : (m >>= f) s = .error x s') :
    m s = .error x s' ∨ ∃ y s₁, m s = .ok y s₁ ∧ f y s₁ = .error x s' := by
  cases hm : m s with
  | ok y s₁ => exact .inr ⟨y, s₁, rfl, (bind_of_ok hm f).symm.trans h⟩
  | error y s₁ =>
    obtain ⟨rfl, rfl⟩ : y = x ∧ s₁ = s' := by simpa [bind_of_error hm f] using h
    exact .inl rfl

end Bind

namespace BuildM
variable {α β : Type}

/-- However `m` ends on a well-formed arena, the arena is well formed and has lost no node; what `m`
returns satisfies `Q`. -/
def Keeps (m : BuildM α) (b : Builder) (Q : α → Builder → Prop) : Prop :=
  match m b with
  | .ok x b' => b'.arena.WellFormed ∧ b.arena.size ≤ b'.arena.size ∧ Q x b'
  | .error _ b' => b'.arena.WellFormed ∧ b.arena.size ≤ b'.arena.size

theorem Keeps.ok {m : BuildM α} {b b' : Builder} {x : α} {Q : α → Builder → Prop}
    (h : m.Keeps b Q) (hm : m b = .ok x b') :
    b'.arena.WellFormed ∧ b.arena.size ≤ b'.arena.size ∧ Q x b' := by
  rw [Keeps, hm] at h
  exact h

theorem Keeps.error {m : BuildM α} {b b' : Builder} {x : BuildError} {Q : α → Builder → Prop}
    (h : m.Keeps b Q) (hm : m b = .error x b') :
    b'.arena.WellFormed ∧ b.arena.size ≤ b'.arena.size := by
  rw [Keeps, hm] at h
  exact h

theorem Keeps.bind {m : BuildM α} {f : α → BuildM β} {b : Builder} {Q : α → Builder → Prop}
    {R : β → Builder → Prop} (hm : m.Keeps b Q)
    (hf : ∀ x b', b'.arena.WellFormed → b.arena.size ≤ b'.arena.size → Q x b' → (f x).Keeps b' R) :
    (m >>= f).Keeps b R := by
  cases hr : m b with
  | error x b' =>
    rw [Keeps, bind_of_error hr]
    exact hm.error hr
  | ok x b' =>
    obtain ⟨hw, hs, hq⟩ := hm.ok hr
    have hn := hf x b' hw hs hq
    rw [Keeps, bind_of_ok hr]
    cases hx : f x b' with
    | error y b'' =>
      obtain ⟨hw', hs'⟩ := hn.error hx
      exact ⟨hw', Nat.le_trans hs hs'⟩
    | ok y b'' =>
      obtain ⟨hw', hs', hy⟩ := hn.ok hx
      exact ⟨hw', Nat.le_trans hs hs', hy⟩

private theorem keeps_intern (s : String) {b : Builder} (hb : b.arena.WellFormed) :
    (intern s).Keeps b fun _ b' => b'.arena = b.arena :=
  ⟨hb, Nat.le_refl _, rfl⟩

private theorem keeps_mapM_intern (ss : List String) {b : Builder} (hb : b.arena.WellFormed) :
    (ss.mapM intern).Keeps b fun _ b' => b'.arena = b.arena := by
  induction ss generalizing b with
  | nil => exact ⟨hb, Nat.le_refl _, rfl⟩
  | cons s ss ih =>
    rw [List.mapM_cons]
    apply (keeps_intern s hb).bind
    intro n b₁ hb₁ _ he₁
    apply (ih hb₁).bind
    intro ns b₂ hb₂ _ he₂
    exact ⟨hb₂, Nat.le_refl _, he₂.trans he₁⟩

private theorem keeps_alloc {n : Node} {b : Builder} (hb : b.arena.WellFormed)
    (hc : ∀ j ∈ b.arena.children n, j < b.arena.size) (hl : b.arena.ListFits n) :
    (alloc n).Keeps b fun i b' => i < b'.arena.size := by
  have hs := Arena.size_alloc n b.arena
  refine ⟨hb.alloc hc hl, ?_, ?_⟩
  · change b.arena.size ≤ (Arena.alloc n b.arena).2.size
    omega
  · change b.arena.size < (Arena.alloc n b.arena).2.size
    omega

private theorem keeps_allocList (kind : ListKind) (xs : List kind.Entry) {b : Builder}
    (hb : b.arena.WellFormed) :
    (allocList (Arena.allocList kind xs)).Keeps b fun s b' => b'.arena.list? kind s = some xs := by
  have ha := hb.append kind xs
  have hsize := Nat.le_of_eq (b.arena.size_append kind xs).symm
  rw [Keeps, allocList_run]
  by_cases hlen : xs.length ≤ Arena.maxListLength
  · rw [if_pos hlen]
    exact ⟨ha, hsize, b.arena.list?_append kind xs⟩
  · rw [if_neg hlen]
    exact ⟨ha, hsize⟩

end BuildM

/-- One call that a front end makes of a builder. Ids stand for nodes built before. -/
inductive BuildCall where
  | literal (value : Literal)
  | ident (name : String)
  | print (operand : ExprId)
  | binary (op : Operator) (left right : ExprId)
  | binarySymbol (symbol : String) (left right : ExprId)
  | ifElse (cond yes : ExprId) (no : Option ExprId)
  | loop (cond body : ExprId)
  | seq (first second : ExprId)
  | block (statements : List ExprId)
  | declare (name : String) (value : ExprId)
  | assign (name : String) (value : ExprId)
  | function (params : List String) (body : ExprId)
  | call (callee : ExprId) (args : List ExprId)

namespace BuildCall

def run : BuildCall → BuildM ExprId
  | literal value => BuildM.literal value
  | ident name => BuildM.ident name
  | print operand => BuildM.print operand
  | binary op left right => BuildM.binary op left right
  | binarySymbol symbol left right => BuildM.binarySymbol symbol left right
  | ifElse cond yes no => BuildM.ifElse cond yes no
  | loop cond body => BuildM.loop cond body
  | seq first second => BuildM.seq first second
  | block statements => BuildM.block statements
  | declare name value => BuildM.declare name value
  | assign name value => BuildM.assign name value
  | function params body => BuildM.function params body
  | call callee args => BuildM.call callee args

def operands : BuildCall → List ExprId
  | literal _ | ident _ => []
  | print i | declare _ i | assign _ i | function _ i => [i]
  | binary _ i j | binarySymbol _ i j | loop i j | seq i j => [i, j]
  | ifElse i j k => i :: j :: k.toList
  | block is => is
  | call i is => i :: is

private theorem keeps_block (first : ExprId) (rest : List ExprId) {b : Builder}
    (hb : b.arena.WellFormed) (hf : first < b.arena.size) (hr : ∀ j ∈ rest, j < b.arena.size) :
    (rest.foldlM BuildM.seq first).Keeps b fun i b' => i < b'.arena.size := by
  induction rest generalizing first b with
  | nil => exact ⟨hb, Nat.le_refl _, hf⟩
  | cons j rest ih =>
    have hs : (BuildM.seq first j).Keeps b fun i b' => i < b'.arena.size := by
      refine BuildM.keeps_alloc hb ?_ trivial
      simp [hf, hr j (List.mem_cons_self ..)]
    rw [List.foldlM_cons]
    apply hs.bind
    intro i b' hb' hle hi
    exact ih i hb' hi fun k hk => Nat.lt_of_lt_of_le (hr k (List.mem_cons_of_mem j hk)) hle

/-- A call over ids of a well-formed arena leaves a well-formed arena, whether or not it fails. -/
theorem keeps_run (c : BuildCall) {b : Builder} (hb : b.arena.WellFormed)
    (hc : ∀ i ∈ c.operands, i < b.arena.size) :
    c.run.Keeps b fun i b' => i < b'.arena.size := by
  have node {n : Node} (hn : n.children = c.operands) (ha : b.arena.children n = n.children)
      (hl : b.arena.ListFits n) : (BuildM.alloc n).Keeps b fun i b' => i < b'.arena.size :=
    BuildM.keeps_alloc hb (by rw [ha, hn]; exact hc) hl
  cases c with
  | literal | print | binary | ifElse | loop | seq =>
    exact node rfl rfl trivial
  | binarySymbol symbol left right =>
    simp only [run, BuildM.binarySymbol]
    cases Operator.ofSymbol? symbol with
    | some op => exact BuildM.keeps_alloc hb (by simpa [operands] using hc) trivial
    | none => exact ⟨hb, Nat.le_refl _⟩
  | block statements =>
    cases statements with
    | nil => exact BuildM.keeps_alloc hb (by simp) trivial
    | cons first rest =>
      exact keeps_block first rest hb (hc first (List.mem_cons_self ..))
        fun j hj => hc j (List.mem_cons_of_mem first hj)
  | ident name =>
    apply (BuildM.keeps_intern name hb).bind
    intro n b' hb' _ _
    exact BuildM.keeps_alloc hb' (by simp) trivial
  | declare name value | assign name value =>
    apply (BuildM.keeps_intern name hb).bind
    intro n b' hb' hs _
    refine BuildM.keeps_alloc hb' ?_ trivial
    intro j hj
    exact Nat.lt_of_lt_of_le (hc j (by simpa [operands] using hj)) hs
  | function params body =>
    apply (BuildM.keeps_mapM_intern params hb).bind
    intro names b₁ hb₁ hs₁ _
    apply (BuildM.keeps_allocList .parameter names hb₁).bind
    intro span b₂ hb₂ hs₂ hp
    refine BuildM.keeps_alloc hb₂ ?_ (Span.fits_of_read hp)
    intro j hj
    have hlt := hc j (by simpa [operands] using hj)
    exact Nat.lt_of_lt_of_le hlt (Nat.le_trans hs₁ hs₂)
  | call callee args =>
    apply (BuildM.keeps_allocList .argument args hb).bind
    intro span b' hb' hs (hp : b'.arena.args? span = some args)
    refine BuildM.keeps_alloc hb' ?_ (Span.fits_of_read hp)
    intro j hj
    have hlt := hc j (by simpa [operands, hp] using hj)
    exact Nat.lt_of_lt_of_le hlt hs

end BuildCall

/-- Calls made of a builder one after another. They pass ids that were known before, or that a call
returned on the way; any of them may fail, and others may intern texts in between. -/
inductive Builder.Calls (b : Builder) (known : List ExprId) :
    Builder → (ids : List ExprId) → Prop where
  | none : Calls b known b known
  | interned {b' : Builder} {ids : List ExprId} (s : String) (h : Calls b known b' ids) :
      Calls b known { b' with names := (b'.names.intern s).2 } ids
  | returned {b' b'' : Builder} {ids : List ExprId} {i : ExprId} (c : BuildCall)
      (h : Calls b known b' ids) (hc : ∀ j ∈ c.operands, j ∈ ids) (hr : c.run b' = .ok i b'') :
      Calls b known b'' (i :: ids)
  | failed {b' b'' : Builder} {ids : List ExprId} {x : BuildError} (c : BuildCall)
      (h : Calls b known b' ids) (hc : ∀ j ∈ c.operands, j ∈ ids) (hr : c.run b' = .error x b'') :
      Calls b known b'' ids

/-- A builder after any calls that pass only ids it has returned, listed beside it, from an empty arena
and any interner on. -/
def Built (b : Builder) (ids : List ExprId) : Prop :=
  ∃ names : Interner, Builder.Calls { names } [] b ids

namespace Builder

/-- Make calls one after another, leaving out those that pass an id not returned before. -/
def replay : List BuildCall → Builder → List ExprId → Builder × List ExprId
  | [], b, ids => (b, ids)
  | c :: calls, b, ids =>
    if c.operands.all ids.contains then
      match c.run b with
      | .ok i b' => replay calls b' (i :: ids)
      | .error _ b' => replay calls b' ids
    else replay calls b ids

variable {b b' b'' : Builder} {known ids ids' : List ExprId}

theorem Calls.trans (h : b.Calls known b' ids) (k : b'.Calls ids b'' ids') :
    b.Calls known b'' ids' := by
  induction k with
  | none => exact h
  | interned s _ ih => exact ih.interned s
  | returned c _ hc hr ih => exact ih.returned c hc hr
  | failed c _ hc hr ih => exact ih.failed c hc hr

theorem calls_replay (calls : List BuildCall) (b : Builder) (known : List ExprId) :
    b.Calls known (b.replay calls known).1 (b.replay calls known).2 := by
  induction calls generalizing b known with
  | nil => exact .none
  | cons c calls ih =>
    rw [replay]
    split
    · rename_i hc
      have hknown : ∀ j ∈ c.operands, j ∈ known := by simpa using hc
      cases hr : c.run b with
      | ok i b' => exact (Calls.none.returned c hknown hr).trans (ih b' (i :: known))
      | error x b' => exact (Calls.none.failed c hknown hr).trans (ih b' known)
    · exact ih b known

theorem Calls.wellFormed (h : b.Calls known b' ids) (hb : b.arena.WellFormed)
    (hknown : ∀ i ∈ known, i < b.arena.size) :
    b'.arena.WellFormed ∧ ∀ i ∈ ids, i < b'.arena.size := by
  induction h with
  | none => exact ⟨hb, hknown⟩
  | interned s h ih => exact ih
  | returned c h hc hr ih =>
    obtain ⟨hw, hs, hi⟩ := (c.keeps_run ih.1 fun j hj => ih.2 j (hc j hj)).ok hr
    refine ⟨hw, ?_⟩
    intro j hj
    rcases List.mem_cons.mp hj with rfl | hj
    · exact hi
    · exact Nat.lt_of_lt_of_le (ih.2 j hj) hs
  | failed c h hc hr ih =>
    obtain ⟨hw, hs⟩ := (c.keeps_run ih.1 fun j hj => ih.2 j (hc j hj)).error hr
    exact ⟨hw, fun j hj => Nat.lt_of_lt_of_le (ih.2 j hj) hs⟩

end Builder

namespace Built
variable {b b' : Builder} {ids ids' : List ExprId}

theorem new (names : Interner) : Built { names } [] := ⟨names, .none⟩

theorem calls (h : Built b ids) (k : b.Calls ids b' ids') : Built b' ids' := by
  obtain ⟨names, h⟩ := h
  exact ⟨names, h.trans k⟩

theorem replay (h : Built b ids) (calls : List BuildCall) :
    Built (b.replay calls ids).1 (b.replay calls ids).2 := h.calls (b.calls_replay calls ids)

/-- Whatever is built, the arena is well formed and holds every id that was returned. -/
theorem wellFormed (h : Built b ids) : b.arena.WellFormed ∧ ∀ i ∈ ids, i < b.arena.size := by
  obtain ⟨names, h⟩ := h
  exact h.wellFormed .empty (by simp)

end Built
end Treewalk
