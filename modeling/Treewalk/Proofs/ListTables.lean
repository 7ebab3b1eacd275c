import Treewalk.Builder

/-! The tables of arguments and parameters as one: a table for each kind of list.
A list goes behind all that its table holds, also when it is refused for its length. -/
namespace Treewalk

/-- A span that is empty, or ends inside a table of the given size. -/
def Span.Fits (s : Span) (size : Nat) : Prop := s.length = 0 ∨ s.start + s.length ≤ size

namespace Span
variable {α : Type}

theorem Fits.read {s : Span} {table : Array α} (h : s.Fits table.size) :
    ∃ xs, s.read? table = some xs := by
  cases hr : s.read? table with
  | some xs => exact ⟨xs, rfl⟩
  | none =>
    obtain ⟨hz, hs⟩ := (read?_eq_none_iff s table).mp hr
    rcases h with h | h
    · exact absurd h hz
    · omega

theorem fits_of_read {s : Span} {table : Array α} {xs : List α} (h : s.read? table = some xs) :
    s.Fits table.size := by
  by_cases hf : s.Fits table.size
  · exact hf
  · have hn := (read?_eq_none_iff s table).mpr ⟨fun hz => hf (.inl hz),
      Nat.lt_of_not_le fun hs => hf (.inr hs)⟩
    rw [hn] at h
    cases h

theorem Fits.mono {s : Span} {m n : Nat} (h : s.Fits m) (hm : m ≤ n) : s.Fits n :=
  h.imp_right fun hs => Nat.le_trans hs hm

theorem size_appended (table : Array α) (more : List α) :
    (table ++ more).size = table.size + more.length := by
  simp [← Array.length_toList]

/-- A span that fits its table reads the same after the table has grown. -/
theorem Fits.read_append {s : Span} {table : Array α} (h : s.Fits table.size) (more : List α) :
    s.read? (table ++ more) = s.read? table := by
  unfold read?
  by_cases hz : s.length = 0
  · simp [hz]
  · have hs : s.start + s.length ≤ table.size := h.resolve_left hz
    have hm : s.start + s.length ≤ (table ++ more).size := by rw [size_appended]; omega
    have hd : s.start ≤ table.toList.length := by rw [Array.length_toList]; omega
    have ht : s.length ≤ (table.toList.drop s.start).length := by
      rw [List.length_drop, Array.length_toList]; omega
    simp [hz, hs, hm, List.drop_append_of_le_length hd, List.take_append_of_le_length ht]

theorem read_appended (table : Array α) (xs : List α) :
    (Span.mk table.size xs.length).read? (table ++ xs) = some xs := by
  unfold read?
  by_cases hz : xs.length = 0
  · simp [List.length_eq_zero_iff.mp hz]
  · simp [hz, size_appended]

end Span

@[reducible]
def ListKind.Entry : ListKind → Type
  | argument => ExprId
  | parameter => Name

namespace Arena

def table (a : Arena) : (kind : ListKind) → Array kind.Entry
  | .argument => a.argTable
  | .parameter => a.paramTable

def list? (a : Arena) : (kind : ListKind) → Span → Option (List kind.Entry)
  | .argument => a.args?
  | .parameter => a.params?

def allocList : (kind : ListKind) → List kind.Entry → EStateM ListTooLong Arena Span
  | .argument => allocArgs
  | .parameter => allocParams

/-- The arena with more entries at the end of one table. -/
def append (a : Arena) : (kind : ListKind) → List kind.Entry → Arena
  | .argument, ids => { a with argTable := a.argTable ++ ids }
  | .parameter, names => { a with paramTable := a.paramTable ++ names }

/-- The span that a list gets: the empty one, or the next free stretch of its table. -/
def nextSpan (a : Arena) (kind : ListKind) (xs : List kind.Entry) : Span :=
  if xs.isEmpty then .empty else ⟨(a.table kind).size, xs.length⟩

theorem list?_eq_read? (a : Arena) (kind : ListKind) (s : Span) :
    a.list? kind s = s.read? (a.table kind) := by
  cases kind <;> rfl

theorem append_nil (a : Arena) (kind : ListKind) : a.append kind [] = a := by
  cases kind <;> simp [append]

theorem table_append_self (a : Arena) (kind : ListKind) (xs : List kind.Entry) :
    (a.append kind xs).table kind = a.table kind ++ xs := by
  cases kind <;> rfl

theorem table_append_of_ne (a : Arena) {kind kind' : ListKind} (h : kind ≠ kind')
    (xs : List kind.Entry) : (a.append kind xs).table kind' = a.table kind' := by
  cases kind with
  | argument =>
    cases kind' with
    | argument => exact absurd rfl h
    | parameter => rfl
  | parameter =>
    cases kind' with
    | argument => rfl
    | parameter => exact absurd rfl h

theorem size_append (a : Arena) (kind : ListKind) (xs : List kind.Entry) :
    (a.append kind xs).size = a.size := by
  cases kind <;> rfl

/-- A list is stored in any case, and refused if it is too long for a span. -/
theorem allocList_run (kind : ListKind) (xs : List kind.Entry) (a : Arena) :
    allocList kind xs a =
      if xs.length ≤ maxListLength then .ok (a.nextSpan kind xs) (a.append kind xs)
      else .error ⟨kind, xs.length⟩ (a.append kind xs) := by
  cases xs with
  | nil =>
    rw [append_nil]
    cases kind <;> rfl
  | cons x xs => cases kind <;> rfl

theorem list?_append (a : Arena) (kind : ListKind) (xs : List kind.Entry) :
    (a.append kind xs).list? kind (a.nextSpan kind xs) = some xs := by
  cases xs with
  | nil => cases kind <;> rfl
  | cons x xs =>
    rw [list?_eq_read?, table_append_self]
    exact Span.read_appended ..

end Arena

theorem BuildM.allocList_run (kind : ListKind) (xs : List kind.Entry) (b : Builder) :
    BuildM.allocList (Arena.allocList kind xs) b =
      if xs.length ≤ Arena.maxListLength then
        .ok (b.arena.nextSpan kind xs) { b with arena := b.arena.append kind xs }
      else .error (.listTooLong ⟨kind, xs.length⟩) { b with arena := b.arena.append kind xs } := by
  rw [BuildM.allocList, Arena.allocList_run]
  by_cases hlen : xs.length ≤ Arena.maxListLength
  · rw [if_pos hlen, if_pos hlen]
  · rw [if_neg hlen, if_neg hlen]

end Treewalk
