import Mathlib.Algebra.Ring.Nat
import Treewalk.Proofs.Unfolding

/-! What an arena stores stays where it is.
Nodes and lists are only ever added behind those that are there, also by a request that is refused in the
end. So ids and spans mean the same for ever, and no two lists share an entry. -/
namespace Treewalk

def Span.Covers (s : Span) (k : Nat) : Prop := s.start ≤ k ∧ k < s.start + s.length

namespace Arena

/-- What an arena can be asked to store. -/
inductive Request where
  | node (n : Node)
  | list (kind : ListKind) (entries : List kind.Entry)

inductive Reply where
  | id (i : ExprId)
  | span (s : Span)
  | refused (cause : ListTooLong)

namespace Request

def isNode : Request → Bool
  | node _ => true
  | list .. => false

def entries (kind : ListKind) : Request → Nat
  | node _ => 0
  | list kind' xs => if kind' = kind then xs.length else 0

end Request

/-- Meet one request. One that is refused leaves the arena with what it had stored by then. -/
def serve (a : Arena) : Request → Reply × Arena
  | .node n => (.id (alloc n a).1, (alloc n a).2)
  | .list kind xs =>
    match allocList kind xs a with
    | .ok s a => (.span s, a)
    | .error e a => (.refused e, a)

def serveAll (a : Arena) (requests : List Request) : Arena :=
  requests.foldl (fun a r => (a.serve r).2) a

/-- A list is stored in any case, and refused if it is too long for a span. -/
theorem serve_list (a : Arena) (kind : ListKind) (xs : List kind.Entry) :
    a.serve (.list kind xs) =
      (if xs.length ≤ maxListLength then .span (a.nextSpan kind xs) else .refused ⟨kind, xs.length⟩,
        a.append kind xs) := by
  rw [serve, allocList_run]
  by_cases hlen : xs.length ≤ maxListLength
  · rw [if_pos hlen, if_pos hlen]
  · rw [if_neg hlen, if_neg hlen]

private theorem length_nextSpan (a : Arena) (kind : ListKind) (xs : List kind.Entry) :
    (a.nextSpan kind xs).length = xs.length := by
  cases xs <;> rfl

private theorem start_nextSpan (a : Arena) (kind : ListKind) {xs : List kind.Entry} (hxs : xs ≠ []) :
    (a.nextSpan kind xs).start = (a.table kind).size := by
  cases xs with
  | nil => exact absurd rfl hxs
  | cons x xs => rfl

theorem Extends.list {a b : Arena} (h : a.Extends b) {kind : ListKind} {s : Span}
    {xs : List kind.Entry} (hs : a.list? kind s = some xs) : b.list? kind s = some xs := by
  cases kind with
  | argument => exact h.args hs
  | parameter => exact h.params hs

/-- Whatever is asked of an arena, all that could be read in it reads the same afterwards. -/
theorem extends_serve (a : Arena) (r : Request) : a.Extends (a.serve r).2 := by
  cases r with
  | node n => exact .alloc a n
  | list kind xs =>
    rw [serve_list]
    exact .append a kind xs

theorem extends_serveAll (a : Arena) (requests : List Request) :
    a.Extends (a.serveAll requests) := by
  induction requests generalizing a with
  | nil => exact .refl a
  | cons r requests ih => exact (a.extends_serve r).trans (ih _)

private theorem serveAll_append_cons (a : Arena) (before : List Request) (r : Request)
    (later : List Request) :
    a.serveAll (before ++ r :: later) = ((a.serveAll before).serve r).2.serveAll later := by
  rw [serveAll, List.foldl_append, List.foldl_cons]
  rfl

theorem node?_later (a : Arena) (before later : List Request) (n : Node) :
    (a.serveAll (before ++ .node n :: later)).node? (a.serveAll before).size = some n := by
  rw [serveAll_append_cons]
  apply (extends_serveAll _ later).node
  exact (node?_alloc n _ _).trans (if_pos rfl)

theorem list?_later (a : Arena) (before later : List Request) (kind : ListKind)
    (xs : List kind.Entry) :
    (a.serveAll (before ++ .list kind xs :: later)).list? kind
      ((a.serveAll before).nextSpan kind xs) = some xs := by
  rw [serveAll_append_cons, serve_list]
  exact (extends_serveAll _ later).list (list?_append _ kind xs)

private theorem size_serve (a : Arena) (r : Request) :
    (a.serve r).2.size = a.size + if r.isNode then 1 else 0 := by
  cases r with
  | node n => exact a.size_alloc n
  | list kind xs =>
    rw [serve_list]
    exact a.size_append kind xs

theorem size_serveAll (a : Arena) (requests : List Request) :
    (a.serveAll requests).size = a.size + requests.countP (·.isNode) := by
  induction requests generalizing a with
  | nil => rfl
  | cons r requests ih =>
    have hrest := ih (a.serve r).2
    rw [size_serve] at hrest
    rw [List.countP_cons, serveAll, List.foldl_cons, ← serveAll, hrest]
    omega

private theorem size_table_serve (a : Arena) (kind : ListKind) (r : Request) :
    ((a.serve r).2.table kind).size = (a.table kind).size + r.entries kind := by
  cases r with
  | node n => cases kind <;> rfl
  | list kind' xs =>
    rw [serve_list, Request.entries]
    by_cases hk : kind' = kind
    · subst hk
      rw [table_append_self, Span.size_appended, if_pos rfl]
    · rw [table_append_of_ne a hk, if_neg hk]
      rfl

/-- A table holds the entries of every list that was to be stored, those of refused ones included. -/
theorem size_table_serveAll (a : Arena) (kind : ListKind) (requests : List Request) :
    ((a.serveAll requests).table kind).size =
      (a.table kind).size + (requests.map (·.entries kind)).sum := by
  induction requests generalizing a with
  | nil => rfl
  | cons r requests ih =>
    have hrest := ih (a.serve r).2
    rw [size_table_serve] at hrest
    rw [List.map_cons, List.sum_cons, serveAll, List.foldl_cons, ← serveAll, hrest]
    omega

/-- The span of a list ends before that of any later one begins. -/
theorem nextSpan_before (a : Arena) (before later : List Request) {kind : ListKind}
    {xs ys : List kind.Entry} (hxs : xs ≠ []) (hys : ys ≠ []) :
    let s := (a.serveAll before).nextSpan kind xs
    let t := (a.serveAll (before ++ .list kind xs :: later)).nextSpan kind ys
    s.start + s.length ≤ t.start := by
  intro s t
  rw [start_nextSpan _ kind hxs, start_nextSpan _ kind hys, length_nextSpan, size_table_serveAll,
    size_table_serveAll, List.map_append, List.map_cons, List.sum_append, List.sum_cons]
  simp only [Request.entries, if_true]
  omega

private theorem serve_list_eq_span_iff {a : Arena} {kind : ListKind} {xs : List kind.Entry} {s : Span} :
    (a.serve (.list kind xs)).1 = .span s ↔ xs.length ≤ maxListLength ∧ a.nextSpan kind xs = s := by
  rw [serve_list]
  by_cases hlen : xs.length ≤ maxListLength <;> simp [hlen]

end Arena

/-- Requests to a new arena, one of them picked out, with those before and those later. A node gets as its
id the number of nodes before it; a list gets a span of its length, unless it has more than 65535 entries
and is refused; and at any later moment, whatever has been refused in between, the id reads as the node and
the span as the list. Spans of nonempty lists of one kind share no position. Reading fails for ids from the
number of nodes on and for nonempty spans that end behind their table, and for nothing else. -/
theorem storage_never_moves_or_mixes (before later : List Arena.Request) :
    let a := Arena.empty.serveAll before
    (∀ n : Node, (a.serve (.node n)).1 = .id (before.countP (·.isNode)) ∧
      (Arena.empty.serveAll (before ++ .node n :: later)).node? (before.countP (·.isNode)) = some n) ∧
    (∀ (kind : ListKind) (xs : List kind.Entry),
      (xs.length ≤ 65535 → ∃ s : Span, (a.serve (.list kind xs)).1 = .span s ∧ s.length = xs.length ∧
        (Arena.empty.serveAll (before ++ .list kind xs :: later)).list? kind s = some xs) ∧
      (65535 < xs.length → (a.serve (.list kind xs)).1 = .refused ⟨kind, xs.length⟩)) ∧
    (∀ (kind : ListKind) (xs ys : List kind.Entry) (s t : Span), xs ≠ [] → ys ≠ [] →
      (a.serve (.list kind xs)).1 = .span s →
      ((Arena.empty.serveAll (before ++ .list kind xs :: later)).serve (.list kind ys)).1 = .span t →
      ∀ k, s.Covers k → ¬ t.Covers k) ∧
    a.size = before.countP (·.isNode) ∧ (∀ i, a.node? i = none ↔ a.size ≤ i) ∧
    ∀ kind : ListKind, (a.table kind).size = (before.map (·.entries kind)).sum ∧
      ∀ s : Span, a.list? kind s = none ↔ s.length ≠ 0 ∧ (a.table kind).size < s.start + s.length := by
  intro a
  have hsize : a.size = before.countP (·.isNode) :=
    (Arena.size_serveAll .empty before).trans (Nat.zero_add _)
  refine ⟨fun n => ⟨congrArg Arena.Reply.id hsize, ?_⟩, fun kind xs => ⟨fun hlen => ?_, fun hlen => ?_⟩,
    ?_, hsize, a.node?_eq_none_iff, fun kind => ⟨?_, fun s => ?_⟩⟩
  · rw [← hsize]
    exact Arena.node?_later .empty before later n
  · exact ⟨a.nextSpan kind xs, Arena.serve_list_eq_span_iff.mpr ⟨hlen, rfl⟩,
      a.length_nextSpan kind xs, Arena.list?_later .empty before later kind xs⟩
  · have hlong : ¬ xs.length ≤ Arena.maxListLength := Nat.not_le.mpr hlen
    rw [Arena.serve_list, if_neg hlong]
  · intro kind xs ys s t hxs hys hs ht k hk hk'
    obtain ⟨-, rfl⟩ := Arena.serve_list_eq_span_iff.mp hs
    obtain ⟨-, rfl⟩ := Arena.serve_list_eq_span_iff.mp ht
    have hbefore := Arena.nextSpan_before .empty before later hxs hys
    exact Nat.not_lt.mpr hk'.1 (Nat.lt_of_lt_of_le hk.2 hbefore)
  · have hempty : (Arena.empty.table kind).size = 0 := by cases kind <;> rfl
    rw [Arena.size_table_serveAll, hempty, Nat.zero_add]
  · rw [Arena.list?_eq_read?]
    exact Span.read?_eq_none_iff s (a.table kind)

/-- An argument list that is refused for its length does not disturb the lists on either side of it. -/
theorem refused_list_disturbs_no_other :
    let first := Arena.Request.list .argument [1, 2]
    let long := Arena.Request.list .argument (List.replicate 65536 0)
    let second := Arena.Request.list .argument [3]
    let a := Arena.empty.serveAll [first, long, second]
    ∃ s t : Span, (Arena.empty.serve first).1 = .span s ∧
      ((Arena.empty.serveAll [first]).serve long).1 = .refused ⟨.argument, 65536⟩ ∧
      ((Arena.empty.serveAll [first, long]).serve second).1 = .span t ∧
      a.list? .argument s = some [1, 2] ∧ a.list? .argument t = some [3] ∧
      ∀ k, s.Covers k → ¬ t.Covers k := by
  intro first long second a
  obtain ⟨-, hfirst, -⟩ := storage_never_moves_or_mixes [] [long, second]
  obtain ⟨-, hlong, -⟩ := storage_never_moves_or_mixes [first] [second]
  obtain ⟨-, hsecond, -⟩ := storage_never_moves_or_mixes [first, long] []
  obtain ⟨-, -, hapart, -⟩ := storage_never_moves_or_mixes [] [long]
  obtain ⟨s, hs, -, hreads⟩ := (hfirst .argument [1, 2]).1 (by decide)
  obtain ⟨t, ht, -, hreadt⟩ := (hsecond .argument [3]).1 (by decide)
  have hrefused := (hlong .argument (List.replicate 65536 0)).2 (by rw [List.length_replicate]; decide)
  rw [List.length_replicate] at hrefused
  exact ⟨s, t, hs, hrefused, ht, hreads, hreadt,
    hapart .argument [1, 2] [3] s t (by simp) (by simp) hs ht⟩

end Treewalk
