import Treewalk.Proofs.BuiltTree

/-! Trees read back as they were built, however the builder goes on.
Building succeeds exactly if every operator symbol of a tree is known, and otherwise reports the first
that is not. Either way it is a run of builder calls, and such a run leaves all that was built alone. -/
namespace Treewalk

namespace BuildM
variable {α β : Type} {b : Builder}

/-- However `m` ends, it only adds to the builder. -/
def Grows (m : BuildM α) (b : Builder) : Prop :=
  match m b with
  | .ok _ b' | .error _ b' => ∃ ss, b.Grown ss b'

theorem Grows.ok {m : BuildM α} {x : α} {b' : Builder} (h : m.Grows b) (hm : m b = .ok x b') :
    ∃ ss, b.Grown ss b' := by
  rw [Grows, hm] at h
  exact h

theorem Grows.error {m : BuildM α} {x : BuildError} {b' : Builder} (h : m.Grows b)
    (hm : m b = .error x b') : ∃ ss, b.Grown ss b' := by
  rw [Grows, hm] at h
  exact h

theorem Grows.bind {m : BuildM α} {f : α → BuildM β} (hm : m.Grows b)
    (hf : ∀ x b', (f x).Grows b') : (m >>= f).Grows b := by
  cases hr : m b with
  | error x b' =>
    rw [Grows, bind_of_error hr]
    exact hm.error hr
  | ok x b' =>
    obtain ⟨ss, hg⟩ := hm.ok hr
    rw [Grows, bind_of_ok hr]
    cases hx : f x b' with
    | error y b'' =>
      obtain ⟨rs, hg'⟩ := (hf x b').error hx
      exact ⟨ss ++ rs, hg.trans hg'⟩
    | ok y b'' =>
      obtain ⟨rs, hg'⟩ := (hf x b').ok hx
      exact ⟨ss ++ rs, hg.trans hg'⟩

private theorem grows_pure (x : α) (b : Builder) : (pure x : BuildM α).Grows b := ⟨[], .refl _, rfl⟩

private theorem grows_intern (s : String) (b : Builder) : (intern s).Grows b := ⟨[s], .refl _, rfl⟩

private theorem grows_mapM_intern (ss : List String) (b : Builder) : (ss.mapM intern).Grows b := by
  induction ss generalizing b with
  | nil => exact grows_pure [] b
  | cons s ss ih =>
    rw [List.mapM_cons]
    apply (grows_intern s b).bind
    intro n b₁
    apply (ih b₁).bind
    intro ns b₂
    exact grows_pure (n :: ns) b₂

private theorem grows_alloc (n : Node) (b : Builder) : (alloc n).Grows b := ⟨[], .alloc b.arena n, rfl⟩

/-- A list that is refused for its length has been stored all the same. -/
theorem grows_allocList (kind : ListKind) (xs : List kind.Entry) (b : Builder) :
    (allocList (Arena.allocList kind xs)).Grows b := by
  have hgrown : b.Grown [] { b with arena := b.arena.append kind xs } :=
    ⟨.append b.arena kind xs, rfl⟩
  rw [Grows, allocList_run]
  by_cases hlen : xs.length ≤ Arena.maxListLength
  · rw [if_pos hlen]
    exact ⟨[], hgrown⟩
  · rw [if_neg hlen]
    exact ⟨[], hgrown⟩

theorem grows_join (first : ExprId) (rest : List ExprId) (b : Builder) :
    (rest.foldlM seq first).Grows b := by
  induction rest generalizing first b with
  | nil => exact grows_pure first b
  | cons j rest ih =>
    rw [List.foldlM_cons]
    exact (grows_alloc _ b).bind fun i b' => ih i b'

end BuildM

/-- No call of a builder takes anything away, not even one that fails. -/
theorem BuildCall.grows_run (c : BuildCall) (b : Builder) : c.run.Grows b := by
  cases c with
  | literal | print | binary | ifElse | loop | seq => exact BuildM.grows_alloc _ b
  | binarySymbol symbol left right =>
    simp only [run, BuildM.binarySymbol]
    cases Operator.ofSymbol? symbol with
    | some op => exact BuildM.grows_alloc _ b
    | none => exact ⟨[], .refl _, rfl⟩
  | block statements =>
    cases statements with
    | nil => exact BuildM.grows_alloc _ b
    | cons first rest => exact BuildM.grows_join first rest b
  | ident name | declare name value | assign name value =>
    exact (BuildM.grows_intern name b).bind fun n b' => BuildM.grows_alloc _ b'
  | function params body =>
    apply (BuildM.grows_mapM_intern params b).bind
    intro names b₁
    apply (BuildM.grows_allocList .parameter names b₁).bind
    intro span b₂
    exact BuildM.grows_alloc _ b₂
  | call callee args =>
    exact (BuildM.grows_allocList .argument args b).bind fun span b' => BuildM.grows_alloc _ b'

namespace Builder

variable {b b' : Builder} {known ids : List ExprId}

theorem Calls.subset (h : b.Calls known b' ids) : known ⊆ ids := by
  induction h with
  | none => exact List.Subset.refl _
  | interned _ _ ih => exact ih
  | returned _ _ _ _ ih => exact List.Subset.trans ih (List.subset_cons_self _ _)
  | failed _ _ _ _ ih => exact ih

/-- Later calls add nodes, lists and texts, and change none. -/
theorem Calls.grown (h : b.Calls known b' ids) : ∃ ss, b.Grown ss b' := by
  induction h with
  | none => exact ⟨[], .refl _, rfl⟩
  | interned s _ ih =>
    obtain ⟨ss, hg⟩ := ih
    exact ⟨ss ++ [s], hg.trans ⟨.refl _, rfl⟩⟩
  | returned c _ _ hr ih =>
    obtain ⟨ss, hg⟩ := ih
    obtain ⟨rs, hg'⟩ := (c.grows_run _).ok hr
    exact ⟨ss ++ rs, hg.trans hg'⟩
  | failed c _ _ hr ih =>
    obtain ⟨ss, hg⟩ := ih
    obtain ⟨rs, hg'⟩ := (c.grows_run _).error hr
    exact ⟨ss ++ rs, hg.trans hg'⟩

theorem Calls.made (h : b.Calls known b' ids) (hb : b.names.Made) : b'.names.Made := by
  obtain ⟨ss, hg⟩ := h.grown
  rw [hg.names]
  exact hb.internAll ss

/-- From now on, whatever calls are made, a node stands for the code and for no other. -/
def Secures (b : Builder) (i : ExprId) (c : Code) : Prop :=
  ∀ known b' ids, b.Calls known b' ids → ∀ d, b'.Reads i d ↔ d = c

theorem Reads.after {i : ExprId} {c : Code} (h : b.Reads i c) (hcalls : b.Calls known b' ids) :
    b'.Reads i c := by
  obtain ⟨ss, hg⟩ := hcalls.grown
  exact hg.reads h

theorem Reads.secures {i : ExprId} {c : Code} (h : b.Reads i c) : b.Secures i c := by
  intro known b' ids hcalls d
  constructor
  · intro hd
    exact hd.unique (h.after hcalls)
  · rintro rfl
    exact h.after hcalls

end Builder

/-- The first of some symbols that no operator has. -/
def Operator.firstUnknown? (symbols : List String) : Option String :=
  symbols.find? fun s => (ofSymbol? s).isNone

namespace BuildM
variable {α β : Type} {b : Builder} {known : List ExprId} {symbols symbols' : List String}
  {clear : Prop}

/-- An end that the symbols account for: there is a result if all of them are those of operators, and
otherwise a report of the first that is not. -/
def EndsBy (symbols : List String) : EStateM.Result BuildError Builder α → Prop
  | .ok _ _ => Operator.firstUnknown? symbols = none
  | .error x _ => ∃ s, Operator.firstUnknown? symbols = some s ∧ x = .unknownOperator s

/-- However `m` ends, it has made calls over known ids, and what it returns satisfies `Q`. If nothing
else is in the way, the symbols account for the end. -/
structure Performs (clear : Prop) (m : BuildM α) (b : Builder) (known : List ExprId)
    (symbols : List String) (Q : α → List ExprId → Prop) : Prop where
  ok : ∀ {x b'}, m b = .ok x b' → ∃ ids, b.Calls known b' ids ∧ Q x ids
  error : ∀ {x b'}, m b = .error x b' → ∃ ids, b.Calls known b' ids
  ends : clear → EndsBy symbols (m b)

theorem Performs.bind {m : BuildM α} {f : α → BuildM β} {Q : α → List ExprId → Prop}
    {R : β → List ExprId → Prop} (hm : Performs clear m b known symbols Q)
    (hf : ∀ x b' ids, known ⊆ ids → Q x ids → Performs clear (f x) b' ids symbols' R) :
    Performs clear (m >>= f) b known (symbols ++ symbols') R := by
  have happend : Operator.firstUnknown? (symbols ++ symbols') =
      (Operator.firstUnknown? symbols).or (Operator.firstUnknown? symbols') := List.find?_append
  cases hr : m b with
  | error x b₁ =>
    have hrun := bind_of_error hr f
    refine ⟨fun h => ?_, fun h => ?_, fun hclear => ?_⟩
    · cases hrun.symm.trans h
    · cases hrun.symm.trans h
      exact hm.error hr
    · have hends := hm.ends hclear
      rw [hr] at hends
      obtain ⟨s, hs, rfl⟩ := hends
      rw [hrun]
      exact ⟨s, by rw [happend, hs, Option.some_or], rfl⟩
  | ok x b₁ =>
    obtain ⟨ids, hcalls, hq⟩ := hm.ok hr
    have hrest := hf x b₁ ids hcalls.subset hq
    have hrun := bind_of_ok hr f
    refine ⟨fun h => ?_, fun h => ?_, fun hclear => ?_⟩
    · obtain ⟨ids', hcalls', hy⟩ := hrest.ok (hrun.symm.trans h)
      exact ⟨ids', hcalls.trans hcalls', hy⟩
    · obtain ⟨ids', hcalls'⟩ := hrest.error (hrun.symm.trans h)
      exact ⟨ids', hcalls.trans hcalls'⟩
    · have hnone := hm.ends hclear
      rw [hr, EndsBy] at hnone
      rw [hnone, Option.none_or] at happend
      have hends := hrest.ends hclear
      rw [hrun]
      unfold EndsBy at hends ⊢
      rwa [happend]

theorem Performs.last {m : BuildM α} {f : α → BuildM β} {Q : α → List ExprId → Prop}
    {R : β → List ExprId → Prop} (hm : Performs clear m b known symbols Q)
    (hf : ∀ x b' ids, known ⊆ ids → Q x ids → Performs clear (f x) b' ids [] R) :
    Performs clear (m >>= f) b known symbols R := symbols.append_nil ▸ hm.bind hf

theorem performs_pure {x : α} {Q : α → List ExprId → Prop} (h : Q x known) :
    Performs clear (pure x) b known [] Q := by
  refine ⟨fun hr => ?_, fun hr => ?_, fun _ => rfl⟩
  · cases hr
    exact ⟨known, .none, h⟩
  · cases hr

theorem performs_throw (x : BuildError) {Q : α → List ExprId → Prop} :
    Performs False (throw x) b known symbols Q := by
  refine ⟨fun hr => ?_, fun hr => ?_, False.elim⟩
  · cases hr
  · cases hr
    exact ⟨known, .none⟩

private theorem performs_run (c : BuildCall) (hc : ∀ j ∈ c.operands, j ∈ known)
    (hends : clear → EndsBy symbols (c.run b)) :
    Performs clear c.run b known symbols fun i ids => i ∈ ids where
  ok hr := ⟨_, .returned c .none hc hr, List.mem_cons_self ..⟩
  error hr := ⟨_, .failed c .none hc hr⟩
  ends := hends

private theorem performs_call (c : BuildCall) (hc : ∀ j ∈ c.operands, j ∈ known)
    (hr : clear → ∃ i b', c.run b = .ok i b') :
    Performs clear c.run b known [] fun i ids => i ∈ ids := by
  refine performs_run c hc fun hclear => ?_
  obtain ⟨i, b', hr⟩ := hr hclear
  rw [hr]
  rfl

private theorem performs_binarySymbol (symbol : String) {i j : ExprId} (hi : i ∈ known) (hj : j ∈ known) :
    Performs clear (binarySymbol symbol i j) b known [symbol] fun k ids => k ∈ ids := by
  refine performs_run (.binarySymbol symbol i j) (by simp [BuildCall.operands, hi, hj]) fun _ => ?_
  simp only [BuildCall.run, binarySymbol]
  cases hop : Operator.ofSymbol? symbol with
  | some op =>
    change Operator.firstUnknown? [symbol] = none
    simp [Operator.firstUnknown?, hop]
  | none => exact ⟨symbol, by simp [Operator.firstUnknown?, hop], rfl⟩

private theorem exists_join_ok (first : ExprId) (rest : List ExprId) (b : Builder) :
    ∃ i b', rest.foldlM seq first b = .ok i b' := by
  induction rest generalizing first b with
  | nil => exact ⟨first, b, rfl⟩
  | cons j rest ih =>
    rw [List.foldlM_cons]
    exact ih _ _

theorem exists_block_ok (ids : List ExprId) (b : Builder) : ∃ i b', block ids b = .ok i b' := by
  cases ids with
  | nil => exact ⟨_, _, rfl⟩
  | cons first rest => exact exists_join_ok first rest b

private theorem exists_mapM_intern_ok (ss : List String) (b : Builder) :
    ∃ names b', ss.mapM intern b = .ok names b' ∧ names.length = ss.length := by
  induction ss generalizing b with
  | nil => exact ⟨[], b, rfl, rfl⟩
  | cons s ss ih =>
    obtain ⟨names, b', hrest, hlen⟩ := ih { b with names := (b.names.intern s).2 }
    refine ⟨(b.names.intern s).1 :: names, b', ?_, by simp [hlen]⟩
    have hfirst : intern s b = .ok (b.names.intern s).1 { b with names := (b.names.intern s).2 } := rfl
    rw [List.mapM_cons, bind_of_ok hfirst, bind_of_ok hrest]
    rfl

private theorem exists_function_ok {params : List String} (h : params.length ≤ Arena.maxListLength)
    (body : ExprId) (b : Builder) : ∃ i b', function params body b = .ok i b' := by
  obtain ⟨names, b₁, hnames, hlen⟩ := exists_mapM_intern_ok params b
  obtain ⟨span, b₂, hspan, _⟩ := adds_allocList .parameter b₁ (hlen ▸ h)
  rw [function, bind_of_ok hnames]
  exact ⟨_, _, bind_of_ok hspan _⟩

private theorem exists_call_ok {args : List ExprId} (h : args.length ≤ Arena.maxListLength) (f : ExprId)
    (b : Builder) : ∃ i b', call f args b = .ok i b' := by
  obtain ⟨span, b₁, hspan, _⟩ := adds_allocList .argument b h
  exact ⟨_, _, bind_of_ok hspan _⟩

end BuildM

namespace Tree
open BuildM

mutual

/-- The operator symbols of a tree in build order: a node comes after its operands. -/
def symbols {ρ : Type} : Tree ρ → List String
  | shared _ | literal _ | ident _ => []
  | print t | declare _ t | assign _ t | function _ t => t.symbols
  | binary symbol t u => t.symbols ++ (u.symbols ++ [symbol])
  | ifThen t u | loop t u | seq t u | callRepeated t u _ => t.symbols ++ u.symbols
  | ifElse t u w => t.symbols ++ (u.symbols ++ w.symbols)
  | block ts => symbolsAll ts
  | call t ts => t.symbols ++ symbolsAll ts

def symbolsAll {ρ : Type} : List (Tree ρ) → List String
  | [] => []
  | t :: ts => t.symbols ++ symbolsAll ts

end

/-- The first symbol, in build order, that no operator has. -/
def unknown? {ρ : Type} (t : Tree ρ) : Option String := Operator.firstUnknown? t.symbols

/-- Shared leaves are known nodes, or stand in the way. -/
def Finds {ρ : Type} (clear : Prop) (find : ρ → BuildM ExprId) (known : List ExprId) : Prop :=
  ∀ r b ids, known ⊆ ids → Performs clear (find r) b ids [] fun i ids => i ∈ ids

theorem Finds.mono {ρ : Type} {clear : Prop} {find : ρ → BuildM ExprId} {known ids : List ExprId}
    (h : Finds clear find known) (hsub : known ⊆ ids) : Finds clear find ids :=
  fun r b ids' hsub' => h r b ids' (List.Subset.trans hsub hsub')

section Performs
variable {ρ : Type} {clear : Prop}

mutual

/-- Building a tree is a run of calls. If lists are short and shared leaves are found, it fails for the
first unknown symbol only. -/
theorem performs_build (find : ρ → BuildM ExprId) (t : Tree ρ) (hs : clear → t.short = true)
    (b : Builder) (known : List ExprId) (hfind : Finds clear find known) :
    Performs clear (t.build find) b known t.symbols fun i ids => i ∈ ids := by
  cases t with
  | shared r => exact hfind r b known (List.Subset.refl _)
  | literal value => exact performs_call (.literal value) (by simp [BuildCall.operands]) fun _ => ⟨_, _, rfl⟩
  | ident name => exact performs_call (.ident name) (by simp [BuildCall.operands]) fun _ => ⟨_, _, rfl⟩
  | print t =>
    apply (performs_build find t hs b known hfind).last
    intro i b₁ ids _ hi
    exact performs_call (.print i) (by simpa [BuildCall.operands] using hi) fun _ => ⟨_, _, rfl⟩
  | binary symbol t u =>
    simp only [short, Bool.and_eq_true] at hs
    apply (performs_build find t (fun h => (hs h).1) b known hfind).bind
    intro i b₁ ids hsub₁ hi
    apply (performs_build find u (fun h => (hs h).2) b₁ ids (hfind.mono hsub₁)).bind
    intro j b₂ ids₂ hsub hj
    exact performs_binarySymbol symbol (hsub hi) hj
  | ifThen t u =>
    simp only [short, Bool.and_eq_true] at hs
    apply (performs_build find t (fun h => (hs h).1) b known hfind).bind
    intro i b₁ ids hsub₁ hi
    apply (performs_build find u (fun h => (hs h).2) b₁ ids (hfind.mono hsub₁)).last
    intro j b₂ ids₂ hsub hj
    exact performs_call (.ifElse i j none) (by simp [BuildCall.operands, hsub hi, hj]) fun _ => ⟨_, _, rfl⟩
  | ifElse t u w =>
    simp only [short, Bool.and_eq_true] at hs
    apply (performs_build find t (fun h => (hs h).1.1) b known hfind).bind
    intro i b₁ ids hsub₁ hi
    apply (performs_build find u (fun h => (hs h).1.2) b₁ ids (hfind.mono hsub₁)).bind
    intro j b₂ ids₂ hsub₂ hj
    apply (performs_build find w (fun h => (hs h).2) b₂ ids₂ ((hfind.mono hsub₁).mono hsub₂)).last
    intro k b₃ ids₃ hsub₃ hk
    have hi' := hsub₃ (hsub₂ hi)
    exact performs_call (.ifElse i j (some k))
      (by simp [BuildCall.operands, hi', hsub₃ hj, hk]) fun _ => ⟨_, _, rfl⟩
  | loop t u =>
    simp only [short, Bool.and_eq_true] at hs
    apply (performs_build find t (fun h => (hs h).1) b known hfind).bind
    intro i b₁ ids hsub₁ hi
    apply (performs_build find u (fun h => (hs h).2) b₁ ids (hfind.mono hsub₁)).last
    intro j b₂ ids₂ hsub hj
    exact performs_call (.loop i j) (by simp [BuildCall.operands, hsub hi, hj]) fun _ => ⟨_, _, rfl⟩
  | seq t u =>
    simp only [short, Bool.and_eq_true] at hs
    apply (performs_build find t (fun h => (hs h).1) b known hfind).bind
    intro i b₁ ids hsub₁ hi
    apply (performs_build find u (fun h => (hs h).2) b₁ ids (hfind.mono hsub₁)).last
    intro j b₂ ids₂ hsub hj
    exact performs_call (.seq i j) (by simp [BuildCall.operands, hsub hi, hj]) fun _ => ⟨_, _, rfl⟩
  | block ts =>
    apply (performs_buildAll find ts hs b known hfind).last
    intro is b₁ ids _ his
    exact performs_call (.block is) his.2 fun _ => exists_block_ok is b₁
  | declare name t =>
    apply (performs_build find t hs b known hfind).last
    intro i b₁ ids _ hi
    exact performs_call (.declare name i) (by simpa [BuildCall.operands] using hi) fun _ => ⟨_, _, rfl⟩
  | assign name t =>
    apply (performs_build find t hs b known hfind).last
    intro i b₁ ids _ hi
    exact performs_call (.assign name i) (by simpa [BuildCall.operands] using hi) fun _ => ⟨_, _, rfl⟩
  | function params t =>
    simp only [short, Bool.and_eq_true, decide_eq_true_eq] at hs
    apply (performs_build find t (fun h => (hs h).2) b known hfind).last
    intro i b₁ ids _ hi
    exact performs_call (.function params i) (by simpa [BuildCall.operands] using hi)
      fun h => exists_function_ok (hs h).1 i b₁
  | call t ts =>
    simp only [short, Bool.and_eq_true, decide_eq_true_eq] at hs
    apply (performs_build find t (fun h => (hs h).1.2) b known hfind).bind
    intro i b₁ ids hsub₁ hi
    apply (performs_buildAll find ts (fun h => (hs h).2) b₁ ids (hfind.mono hsub₁)).last
    intro is b₂ ids₂ hsub his
    refine performs_call (.call i is) ?_ fun h => exists_call_ok (his.1 ▸ (hs h).1.1) i b₂
    exact List.forall_mem_cons.mpr ⟨hsub hi, his.2⟩
  | callRepeated t u count =>
    simp only [short, Bool.and_eq_true, decide_eq_true_eq] at hs
    apply (performs_build find t (fun h => (hs h).1.2) b known hfind).bind
    intro i b₁ ids hsub₁ hi
    apply (performs_build find u (fun h => (hs h).2) b₁ ids (hfind.mono hsub₁)).last
    intro j b₂ ids₂ hsub hj
    refine performs_call (.call i (List.replicate count j)) ?_
      fun h => exists_call_ok (by simpa using (hs h).1.1) i b₂
    refine List.forall_mem_cons.mpr ⟨hsub hi, fun k hk => ?_⟩
    rw [List.eq_of_mem_replicate hk]
    exact hj

private theorem performs_buildAll (find : ρ → BuildM ExprId) (ts : List (Tree ρ))
    (hs : clear → shortAll ts = true) (b : Builder) (known : List ExprId)
    (hfind : Finds clear find known) :
    Performs clear (buildAll find ts) b known (symbolsAll ts) fun is ids =>
      is.length = ts.length ∧ ∀ i ∈ is, i ∈ ids := by
  cases ts with
  | nil => exact performs_pure ⟨rfl, by simp⟩
  | cons t ts =>
    simp only [shortAll, Bool.and_eq_true] at hs
    apply (performs_build find t (fun h => (hs h).1) b known hfind).bind
    intro i b₁ ids hsub₁ hi
    apply (performs_buildAll find ts (fun h => (hs h).2) b₁ ids (hfind.mono hsub₁)).last
    intro is b₂ ids₂ hsub his
    exact performs_pure ⟨congrArg (· + 1) his.1, List.forall_mem_cons.mpr ⟨hsub hi, his.2⟩⟩

end

end Performs

/-- Statements as nested pairs, as a builder puts them. -/
def chain {ρ : Type} : List (Tree ρ) → Tree ρ
  | [] => literal .null
  | t :: ts => ts.foldl seq t

mutual

/-- The tree written without blocks and with every argument written out. -/
def plain {ρ : Type} : Tree ρ → Tree ρ
  | shared r => shared r
  | literal value => literal value
  | ident name => ident name
  | print t => print t.plain
  | binary symbol t u => binary symbol t.plain u.plain
  | ifThen t u => ifThen t.plain u.plain
  | ifElse t u w => ifElse t.plain u.plain w.plain
  | loop t u => loop t.plain u.plain
  | seq t u => seq t.plain u.plain
  | block ts => chain (plainAll ts)
  | declare name t => declare name t.plain
  | assign name t => assign name t.plain
  | function params t => function params t.plain
  | call t ts => call t.plain (plainAll ts)
  | callRepeated t u count => call t.plain (List.replicate count u.plain)

def plainAll {ρ : Type} : List (Tree ρ) → List (Tree ρ)
  | [] => []
  | t :: ts => t.plain :: plainAll ts

end

end Tree

namespace Code

mutual

/-- The tree that code is written as. -/
def tree : Code → Tree Empty
  | literal value => .literal value
  | ident name => .ident name
  | print c => .print c.tree
  | binary op c d => .binary op.symbol c.tree d.tree
  | ifElse c d none => .ifThen c.tree d.tree
  | ifElse c d (some e) => .ifElse c.tree d.tree e.tree
  | loop c d => .loop c.tree d.tree
  | seq c d => .seq c.tree d.tree
  | declare name c => .declare name c.tree
  | assign name c => .assign name c.tree
  | function params c => .function params c.tree
  | call c cs => .call c.tree (trees cs)

def trees : List Code → List (Tree Empty)
  | [] => []
  | c :: cs => c.tree :: trees cs

end

theorem trees_eq_map (cs : List Code) : trees cs = cs.map tree := by
  induction cs with
  | nil => rfl
  | cons c cs ih => rw [trees, ih, List.map_cons]

private theorem tree_foldl_seq (c : Code) (cs : List Code) :
    (cs.foldl seq c).tree = (trees cs).foldl .seq c.tree := by
  induction cs generalizing c with
  | nil => rfl
  | cons d cs ih => rw [List.foldl_cons, ih, tree, trees, List.foldl_cons]

private theorem tree_block (cs : List Code) : (block cs).tree = Tree.chain (trees cs) := by
  cases cs with
  | nil => rfl
  | cons c cs => exact tree_foldl_seq c cs

end Code

private theorem Operator.symbol_of_ofSymbol? {s : String} {op : Operator} (h : ofSymbol? s = some op) :
    op.symbol = s := by simpa using List.find?_some h

namespace Tree

mutual

/-- A tree of known symbols has a code, which is written as the tree was. -/
theorem exists_code? (t : Tree Empty) (h : ∀ s ∈ t.symbols, (Operator.ofSymbol? s).isSome) :
    ∃ c, t.code? = some c ∧ c.tree = t.plain := by
  cases t with
  | shared r => cases r
  | literal value => exact ⟨.literal value, rfl, rfl⟩
  | ident name => exact ⟨.ident name, rfl, rfl⟩
  | print t =>
    obtain ⟨c, hc, htree⟩ := exists_code? t h
    exact ⟨.print c, by simp [code?, hc], by rw [Code.tree, plain, htree]⟩
  | binary symbol t u =>
    simp only [symbols, List.forall_mem_append, List.forall_mem_singleton] at h
    obtain ⟨c, hc, htree⟩ := exists_code? t h.1
    obtain ⟨d, hd, htree'⟩ := exists_code? u h.2.1
    obtain ⟨op, hop⟩ := Option.isSome_iff_exists.mp h.2.2
    refine ⟨.binary op c d, by simp [code?, hc, hd, hop], ?_⟩
    rw [Code.tree, plain, htree, htree', Operator.symbol_of_ofSymbol? hop]
  | ifThen t u =>
    simp only [symbols, List.forall_mem_append] at h
    obtain ⟨c, hc, htree⟩ := exists_code? t h.1
    obtain ⟨d, hd, htree'⟩ := exists_code? u h.2
    exact ⟨.ifElse c d none, by simp [code?, hc, hd], by rw [Code.tree, plain, htree, htree']⟩
  | ifElse t u w =>
    simp only [symbols, List.forall_mem_append] at h
    obtain ⟨c, hc, htree⟩ := exists_code? t h.1
    obtain ⟨d, hd, htree'⟩ := exists_code? u h.2.1
    obtain ⟨e, he, htree''⟩ := exists_code? w h.2.2
    refine ⟨.ifElse c d (some e), by simp [code?, hc, hd, he], ?_⟩
    rw [Code.tree, plain, htree, htree', htree'']
  | loop t u =>
    simp only [symbols, List.forall_mem_append] at h
    obtain ⟨c, hc, htree⟩ := exists_code? t h.1
    obtain ⟨d, hd, htree'⟩ := exists_code? u h.2
    exact ⟨.loop c d, by simp [code?, hc, hd], by rw [Code.tree, plain, htree, htree']⟩
  | seq t u =>
    simp only [symbols, List.forall_mem_append] at h
    obtain ⟨c, hc, htree⟩ := exists_code? t h.1
    obtain ⟨d, hd, htree'⟩ := exists_code? u h.2
    exact ⟨.seq c d, by simp [code?, hc, hd], by rw [Code.tree, plain, htree, htree']⟩
  | block ts =>
    obtain ⟨cs, hcs, htrees⟩ := exists_codes? ts h
    exact ⟨.block cs, by simp [code?, hcs], by rw [Code.tree_block, plain, htrees]⟩
  | declare name t =>
    obtain ⟨c, hc, htree⟩ := exists_code? t h
    exact ⟨.declare name c, by simp [code?, hc], by rw [Code.tree, plain, htree]⟩
  | assign name t =>
    obtain ⟨c, hc, htree⟩ := exists_code? t h
    exact ⟨.assign name c, by simp [code?, hc], by rw [Code.tree, plain, htree]⟩
  | function params t =>
    obtain ⟨c, hc, htree⟩ := exists_code? t h
    exact ⟨.function params c, by simp [code?, hc], by rw [Code.tree, plain, htree]⟩
  | call t ts =>
    simp only [symbols, List.forall_mem_append] at h
    obtain ⟨c, hc, htree⟩ := exists_code? t h.1
    obtain ⟨cs, hcs, htrees⟩ := exists_codes? ts h.2
    exact ⟨.call c cs, by simp [code?, hc, hcs], by rw [Code.tree, plain, htree, htrees]⟩
  | callRepeated t u count =>
    simp only [symbols, List.forall_mem_append] at h
    obtain ⟨c, hc, htree⟩ := exists_code? t h.1
    obtain ⟨d, hd, htree'⟩ := exists_code? u h.2
    refine ⟨.call c (List.replicate count d), by simp [code?, hc, hd], ?_⟩
    rw [Code.tree, Code.trees_eq_map, List.map_replicate, plain, htree, htree']

private theorem exists_codes? (ts : List (Tree Empty))
    (h : ∀ s ∈ symbolsAll ts, (Operator.ofSymbol? s).isSome) :
    ∃ cs, codes? ts = some cs ∧ Code.trees cs = plainAll ts := by
  cases ts with
  | nil => exact ⟨[], rfl, rfl⟩
  | cons t ts =>
    simp only [symbolsAll, List.forall_mem_append] at h
    obtain ⟨c, hc, htree⟩ := exists_code? t h.1
    obtain ⟨cs, hcs, htrees⟩ := exists_codes? ts h.2
    exact ⟨c :: cs, by simp [codes?, hc, hcs], by rw [Code.trees, plainAll, htree, htrees]⟩

end

theorem unknown?_eq_none_iff {t : Tree Empty} :
    t.unknown? = none ↔ ∀ s ∈ t.symbols, (Operator.ofSymbol? s).isSome := by
  simp [unknown?, Operator.firstUnknown?, Option.isSome_iff_ne_none]

theorem performs_of_short (t : Tree Empty) (find : Empty → BuildM ExprId) (hshort : t.short = true)
    (b : Builder) (known : List ExprId) :
    BuildM.Performs True (t.build find) b known t.symbols fun i ids => i ∈ ids :=
  performs_build find t (fun _ => hshort) b known fun r => r.elim

/-- A tree of short lists and known symbols is built by calls that return a root for its code. -/
theorem exists_root {t : Tree Empty} (hshort : t.short = true) (hknown : t.unknown? = none)
    (find : Empty → BuildM ExprId) {b : Builder} (hb : b.names.Made) (known : List ExprId) :
    ∃ c b' ids root, t.code? = some c ∧ c.tree = t.plain ∧ b.Calls known b' ids ∧
      t.build find b = .ok root b' ∧ root ∈ ids ∧ b'.Reads root c := by
  obtain ⟨c, hc, htree⟩ := exists_code? t (unknown?_eq_none_iff.mp hknown)
  obtain ⟨root, b', hbuild, -, hreads⟩ := adds_build find t hshort hc hb.consistent
  obtain ⟨ids, hcalls, hmem⟩ := (t.performs_of_short find hshort b known).ok hbuild
  exact ⟨c, b', ids, root, hc, htree, hcalls, hbuild, hmem, hreads⟩

end Tree

/-- Building a tree of short lists is a run of builder calls after which all that was built before
reads as it did, and does so for ever. If all symbols are known the run returns a root that reads back
as the tree and as nothing else, for ever; otherwise it reports the first symbol that is not. -/
theorem building_loses_nothing (find : Empty → BuildM ExprId) (t : Tree Empty)
    (hshort : t.short = true) (b : Builder) (hb : b.names.Made) (known : List ExprId) :
    ∃ b' ids, b.Calls known b' ids ∧ (∀ i d, b.Reads i d → b'.Secures i d) ∧
      match t.unknown? with
      | none => ∃ c root, c.tree = t.plain ∧ t.build find b = .ok root b' ∧ root ∈ ids ∧
          b'.Secures root c
      | some s => t.build find b = .error (.unknownOperator s) b' := by
  cases hknown : t.unknown? with
  | none =>
    obtain ⟨c, b', ids, root, -, htree, hcalls, hbuild, hmem, hroot⟩ :=
      Tree.exists_root hshort hknown find hb known
    exact ⟨b', ids, hcalls, fun i d h => (h.after hcalls).secures,
      c, root, htree, hbuild, hmem, hroot.secures⟩
  | some s =>
    have hperforms := t.performs_of_short find hshort b known
    have hends := hperforms.ends trivial
    cases hr : t.build find b with
    | ok root b' =>
      rw [hr, BuildM.EndsBy, ← Tree.unknown?, hknown] at hends
      cases hends
    | error x b' =>
      rw [hr] at hends
      obtain ⟨s', hs', rfl⟩ := hends
      obtain rfl := Option.some.inj (hknown.symm.trans hs')
      obtain ⟨ids, hcalls⟩ := hperforms.error hr
      exact ⟨b', ids, hcalls, fun i d h => (h.after hcalls).secures, rfl⟩

/-- `f(g(1, 2), g())`, and a block without statements. -/
def callsInCalls : Tree Empty :=
  .block [.call (.ident "f") [.call (.ident "g") [.literal (.int 1), .literal (.int 2)],
    .call (.ident "g") []], .block []]

/-- `(1 ** 2) + (f // 3)`. -/
def misspelt : Tree Empty :=
  .binary "+" (.binary "**" (.literal (.int 1)) (.literal (.int 2)))
    (.binary "//" (.ident "f") (.literal (.int 3)))

/-- Lists within lists and lists without entries read back, also after a build that failed. -/
theorem calls_in_calls_survive_misspelt :
    ∃ c root b₁ b₂, c.tree = .seq
        (.call (.ident "f") [.call (.ident "g") [.literal (.int 1), .literal (.int 2)],
          .call (.ident "g") []]) (.literal .null) ∧
      callsInCalls.build Empty.elim { names := .empty } = .ok root b₁ ∧
      misspelt.build Empty.elim b₁ = .error (.unknownOperator "**") b₂ ∧ b₂.Secures root c := by
  have hfirst := building_loses_nothing Empty.elim callsInCalls (by decide) { names := .empty } .empty []
  rw [show callsInCalls.unknown? = none by decide +kernel] at hfirst
  obtain ⟨b₁, ids, hcalls, -, c, root, htree, hbuild, -, hroot⟩ := hfirst
  have hsecond := building_loses_nothing Empty.elim misspelt (by decide) b₁ (hcalls.made .empty) ids
  rw [show misspelt.unknown? = some "**" by decide +kernel] at hsecond
  obtain ⟨b₂, ids', -, hkept, hfail⟩ := hsecond
  exact ⟨c, root, b₁, b₂, htree, hbuild, hfail, hkept root c ((hroot ids b₁ ids .none c).mpr rfl)⟩

end Treewalk
