import Treewalk.Proofs.BuiltArena
import Treewalk.Proofs.InternerTable

/-! The tree that a node stands for: ids and spans followed, names replaced by their texts.
Nothing in it tells how the nodes were numbered or shared, or in what order texts were interned. -/
namespace Treewalk

/-- Code without ids, spans and names. -/
inductive Code where
  | literal (value : Literal)
  | ident (name : String)
  | print (operand : Code)
  | binary (op : Operator) (left right : Code)
  | ifElse (cond yes : Code) (no : Option Code)
  | loop (cond body : Code)
  | seq (first second : Code)
  | declare (name : String) (value : Code)
  | assign (name : String) (value : Code)
  | function (params : List String) (body : Code)
  | call (callee : Code) (args : List Code)
deriving Inhabited

/-- The names that a node holds itself; those of its parameter list are in the arena. -/
def Node.names : Node → List Name
  | .ident n | .declare n _ | .assign n _ => [n]
  | _ => []

private theorem Span.mem_of_read {α : Type} {s : Span} {table : Array α} {xs : List α} {x : α}
    (h : s.read? table = some xs) (hx : x ∈ xs) : x ∈ table := by
  rw [read?] at h
  split at h
  · cases h
    cases hx
  · split at h
    · cases h
      rw [Array.toList_extract, List.extract_eq_take_drop] at hx
      exact Array.mem_toList_iff.mp (List.mem_of_mem_drop (List.mem_of_mem_take hx))
    · cases h

namespace Arena

/-- Every name in the arena was given out by the interner. -/
structure NamedBy (a : Arena) (t : Interner) : Prop where
  node : ∀ n ∈ a.nodes, ∀ x ∈ n.names, t.Issued x
  params : ∀ x ∈ a.paramTable, t.Issued x

/-- Following the ids below a node and reading its names gives the code. -/
inductive Unfolds (a : Arena) (t : Interner) : ExprId → Code → Prop where
  | literal {i : ExprId} {l : Literal} (hi : a.node? i = some (.literal l)) :
      Unfolds a t i (.literal l)
  | ident {i : ExprId} {n : Name} {s : String} (hi : a.node? i = some (.ident n))
      (hn : t.Spells n s) : Unfolds a t i (.ident s)
  | print {i j : ExprId} {c : Code} (hi : a.node? i = some (.print j)) (hj : Unfolds a t j c) :
      Unfolds a t i (.print c)
  | binary {i j k : ExprId} {op : Operator} {c d : Code} (hi : a.node? i = some (.binary op j k))
      (hj : Unfolds a t j c) (hk : Unfolds a t k d) : Unfolds a t i (.binary op c d)
  | ifThen {i j k : ExprId} {c d : Code} (hi : a.node? i = some (.ifElse j k none))
      (hj : Unfolds a t j c) (hk : Unfolds a t k d) : Unfolds a t i (.ifElse c d none)
  | ifElse {i j k l : ExprId} {c d b : Code} (hi : a.node? i = some (.ifElse j k (some l)))
      (hj : Unfolds a t j c) (hk : Unfolds a t k d) (hl : Unfolds a t l b) :
      Unfolds a t i (.ifElse c d (some b))
  | loop {i j k : ExprId} {c d : Code} (hi : a.node? i = some (.loop j k)) (hj : Unfolds a t j c)
      (hk : Unfolds a t k d) : Unfolds a t i (.loop c d)
  | seq {i j k : ExprId} {c d : Code} (hi : a.node? i = some (.seq j k)) (hj : Unfolds a t j c)
      (hk : Unfolds a t k d) : Unfolds a t i (.seq c d)
  | declare {i j : ExprId} {n : Name} {s : String} {c : Code} (hi : a.node? i = some (.declare n j))
      (hn : t.Spells n s) (hj : Unfolds a t j c) : Unfolds a t i (.declare s c)
  | assign {i j : ExprId} {n : Name} {s : String} {c : Code} (hi : a.node? i = some (.assign n j))
      (hn : t.Spells n s) (hj : Unfolds a t j c) : Unfolds a t i (.assign s c)
  | function {i j : ExprId} {span : Span} {ps : List Name} {ss : List String} {c : Code}
      (hi : a.node? i = some (.function span j)) (hp : a.params? span = some ps)
      (hs : List.Forall₂ t.Spells ps ss) (hj : Unfolds a t j c) : Unfolds a t i (.function ss c)
  | call {i f : ExprId} {span : Span} {is : List ExprId} {c : Code} {cs : List Code}
      (hi : a.node? i = some (.call f span)) (hf : Unfolds a t f c) (ha : a.args? span = some is)
      (hlen : is.length = cs.length)
      (his : ∀ {k : Nat} {j : ExprId} {d : Code}, is[k]? = some j → cs[k]? = some d →
        Unfolds a t j d) : Unfolds a t i (.call c cs)

variable {a : Arena} {t : Interner}

private theorem texts_unique {ps : List Name} {ss rs : List String}
    (h : List.Forall₂ t.Spells ps ss) (k : List.Forall₂ t.Spells ps rs) : ss = rs := by
  induction h generalizing rs with
  | nil =>
    cases k
    rfl
  | cons hn _ ih =>
    cases k with
    | cons hm k => rw [Option.some.inj (hn.symm.trans hm), ih k]

private theorem parts_unique {is : List ExprId} {cs ds : List Code} (hc : is.length = cs.length)
    (hd : is.length = ds.length) (h : ∀ {k : Nat} {j : ExprId} {c d : Code}, is[k]? = some j →
      cs[k]? = some c → ds[k]? = some d → c = d) : cs = ds := by
  apply List.ext_getElem (hc.symm.trans hd)
  intro k hk hk'
  exact h (List.getElem?_eq_getElem (hc ▸ hk)) (List.getElem?_eq_getElem hk)
    (List.getElem?_eq_getElem hk')

/-- A node stands for one tree at most. -/
theorem Unfolds.unique {i : ExprId} {c d : Code} (h : a.Unfolds t i c) (k : a.Unfolds t i d) :
    c = d := by
  induction h generalizing d with
  | literal | print | binary | ifThen | ifElse | loop | seq => cases k <;> grind
  | ident | declare | assign => cases k <;> grind [Interner.Spells]
  | function => cases k <;> grind [texts_unique]
  | call hi _ ha hlen _ ih ihs =>
    cases k with
    | call hi' hf ha' hlen' his =>
      obtain ⟨rfl, rfl⟩ := Node.call.inj (Option.some.inj (hi.symm.trans hi'))
      obtain rfl := Option.some.inj (ha.symm.trans ha')
      rw [ih hf, parts_unique hlen hlen' fun hj hc hd => ihs hj hc (his hj hd)]
    | _ => grind

/-- What can be read in the first arena reads the same in the second. -/
structure Extends (a a' : Arena) : Prop where
  node : ∀ {i n}, a.node? i = some n → a'.node? i = some n
  args : ∀ {s is}, a.args? s = some is → a'.args? s = some is
  params : ∀ {s ps}, a.params? s = some ps → a'.params? s = some ps

theorem Extends.refl (a : Arena) : a.Extends a := ⟨id, id, id⟩

theorem Extends.trans {a₁ a₂ a₃ : Arena} (h : a₁.Extends a₂) (k : a₂.Extends a₃) :
    a₁.Extends a₃ :=
  ⟨fun hn => k.node (h.node hn), fun ha => k.args (h.args ha), fun hp => k.params (h.params hp)⟩

theorem Extends.alloc (a : Arena) (n : Node) : a.Extends (Arena.alloc n a).2 := by
  refine ⟨fun {i m} hi => ?_, id, id⟩
  rw [node?_alloc, if_neg (Nat.ne_of_lt (lt_size hi)), hi]

theorem Extends.append (a : Arena) (kind : ListKind) (xs : List kind.Entry) :
    a.Extends (a.append kind xs) := by
  have hread {α : Type} {table : Array α} {s : Span} {ys : List α} (more : List α)
      (hs : s.read? table = some ys) : s.read? (table ++ more) = some ys :=
    ((Span.fits_of_read hs).read_append more).trans hs
  cases kind with
  | argument => exact ⟨id, hread xs, id⟩
  | parameter => exact ⟨id, id, hread xs⟩

/-- A node keeps its tree when nodes and names are added. -/
theorem Unfolds.mono {a' : Arena} {t' : Interner} {i : ExprId} {c : Code} (h : a.Unfolds t i c)
    (ha : a.Extends a') (ht : t.Extends t') : a'.Unfolds t' i c := by
  induction h with
  | literal hi => exact .literal (ha.node hi)
  | ident hi hn => exact .ident (ha.node hi) (ht _ _ hn)
  | print hi _ hj => exact .print (ha.node hi) hj
  | binary hi _ _ hj hk => exact .binary (ha.node hi) hj hk
  | ifThen hi _ _ hj hk => exact .ifThen (ha.node hi) hj hk
  | ifElse hi _ _ _ hj hk hl => exact .ifElse (ha.node hi) hj hk hl
  | loop hi _ _ hj hk => exact .loop (ha.node hi) hj hk
  | seq hi _ _ hj hk => exact .seq (ha.node hi) hj hk
  | declare hi hn _ hj => exact .declare (ha.node hi) (ht _ _ hn) hj
  | assign hi hn _ hj => exact .assign (ha.node hi) (ht _ _ hn) hj
  | function hi hp hs _ hj =>
    exact .function (ha.node hi) (ha.params hp) (hs.imp ht) hj
  | call hi _ hargs hlen _ hf his => exact .call (ha.node hi) hf (ha.args hargs) hlen his

/-- Every node of a well-formed arena stands for a tree. -/
theorem WellFormed.unfolds (ha : a.WellFormed) (ht : a.NamedBy t) {i : ExprId} (hi : i < a.size) :
    ∃ c, a.Unfolds t i c := by
  induction i using Nat.strongRecOn with
  | ind i ih =>
    obtain ⟨n, hn⟩ := node?_isSome hi
    have below : ∀ j ∈ a.children n, ∃ c, a.Unfolds t j c := fun j hj =>
      ih j (ha.child_lt hn j hj) (Nat.lt_trans (ha.child_lt hn j hj) hi)
    have named : ∀ x ∈ n.names, t.Spells x (t.lookup x) := fun x hx =>
      (ht.node n (Array.mem_of_getElem? hn) x hx).spells
    cases n with
    | literal l => exact ⟨_, .literal hn⟩
    | ident x => exact ⟨_, .ident hn (named x (List.mem_singleton_self x))⟩
    | print j =>
      obtain ⟨c, hc⟩ := below j (by simp)
      exact ⟨_, .print hn hc⟩
    | binary op j k =>
      obtain ⟨c, hc⟩ := below j (by simp)
      obtain ⟨d, hd⟩ := below k (by simp)
      exact ⟨_, .binary hn hc hd⟩
    | ifElse j k no =>
      obtain ⟨c, hc⟩ := below j (by simp)
      obtain ⟨d, hd⟩ := below k (by simp)
      cases no with
      | none => exact ⟨_, .ifThen hn hc hd⟩
      | some l =>
        obtain ⟨b, hb⟩ := below l (by simp)
        exact ⟨_, .ifElse hn hc hd hb⟩
    | loop j k =>
      obtain ⟨c, hc⟩ := below j (by simp)
      obtain ⟨d, hd⟩ := below k (by simp)
      exact ⟨_, .loop hn hc hd⟩
    | seq j k =>
      obtain ⟨c, hc⟩ := below j (by simp)
      obtain ⟨d, hd⟩ := below k (by simp)
      exact ⟨_, .seq hn hc hd⟩
    | declare x j =>
      obtain ⟨c, hc⟩ := below j (by simp)
      exact ⟨_, .declare hn (named x (List.mem_singleton_self x)) hc⟩
    | assign x j =>
      obtain ⟨c, hc⟩ := below j (by simp)
      exact ⟨_, .assign hn (named x (List.mem_singleton_self x)) hc⟩
    | function span j =>
      obtain ⟨ps, hp⟩ := ha.params? hn
      obtain ⟨c, hc⟩ := below j (by simp)
      have hs : List.Forall₂ t.Spells ps (ps.map t.lookup) := by
        rw [List.forall₂_map_right_iff, List.forall₂_same]
        exact fun x hx => (ht.params x (Span.mem_of_read hp hx)).spells
      exact ⟨_, .function hn hp hs hc⟩
    | call f span =>
      obtain ⟨is, his⟩ := ha.args? hn
      obtain ⟨c, hc⟩ := below f (by simp)
      have hargs (j : ExprId) (hj : j ∈ is) : ∃ d, a.Unfolds t j d := below j (by simp [his, hj])
      choose! arg harg using hargs
      refine ⟨.call c (is.map arg), .call hn hc his (by simp) ?_⟩
      intro k j d hj hd
      have hd : d = arg j := by simpa [hj] using hd.symm
      rw [hd]
      exact harg j (List.mem_of_getElem? hj)

end Arena
end Treewalk
