import Treewalk.Proofs.Ends
import Treewalk.Proofs.ReadBack

/-! A list of statements means its statements in order.
A builder joins statements into sequence nodes that nest to the left. Evaluation of the whole goes through
the statements from left to right all the same, and ends with the first that fails. So it does not matter
where a list is split. -/
namespace Treewalk

namespace Interpreter

/-- Nodes evaluated one after another in one frame. The end is the first that stops, or the value of the
last one; `last` is the value so far. -/
inductive EvaluatesEach (it : Interpreter) (e : FrameId) :
    (last : Value) → List ExprId → State → EStateM.Result Stop State Value → Prop where
  | done (last : Value) (st : State) : EvaluatesEach it e last [] st (.ok last st)
  | stop {last : Value} {i : ExprId} {is : List ExprId} {st st' : State} {s : Stop}
      (h : it.Evaluates e i st (.error s st')) : EvaluatesEach it e last (i :: is) st (.error s st')
  | next {last v : Value} {i : ExprId} {is : List ExprId} {st st₁ : State}
      {r : EStateM.Result Stop State Value} (h : it.Evaluates e i st (.ok v st₁))
      (k : EvaluatesEach it e v is st₁ r) : EvaluatesEach it e last (i :: is) st r

variable {it : Interpreter} {e : FrameId} {st : State} {r : EStateM.Result Stop State Value}

theorem evaluatesEach_nil_iff {last : Value} : it.EvaluatesEach e last [] st r ↔ r = .ok last st := by
  constructor
  · intro h
    cases h
    rfl
  · rintro rfl
    exact .done last st

theorem evaluatesEach_cons_iff {last : Value} {i : ExprId} {is : List ExprId} :
    it.EvaluatesEach e last (i :: is) st r ↔
      (∃ s st', r = .error s st' ∧ it.Evaluates e i st (.error s st')) ∨
      ∃ v st', it.Evaluates e i st (.ok v st') ∧ it.EvaluatesEach e v is st' r := by
  constructor
  · intro h
    cases h with
    | stop h => exact .inl ⟨_, _, rfl, h⟩
    | next h k => exact .inr ⟨_, _, h, k⟩
  · rintro (⟨s, st', rfl, h⟩ | ⟨v, st', h, k⟩)
    · exact .stop h
    · exact .next h k

theorem evaluatesEach_of_ne_nil {is : List ExprId} (h : is ≠ []) (v w : Value) :
    it.EvaluatesEach e v is st r ↔ it.EvaluatesEach e w is st r := by
  cases is with
  | nil => exact absurd rfl h
  | cons i is => rw [evaluatesEach_cons_iff, evaluatesEach_cons_iff]

theorem evaluatesEach_append_iff {last : Value} {is js : List ExprId} :
    it.EvaluatesEach e last (is ++ js) st r ↔
      (∃ s st', r = .error s st' ∧ it.EvaluatesEach e last is st (.error s st')) ∨
      ∃ v st', it.EvaluatesEach e last is st (.ok v st') ∧ it.EvaluatesEach e v js st' r := by
  induction is generalizing last st with
  | nil => simp [evaluatesEach_nil_iff]
  | cons i is ih =>
    rw [List.cons_append, evaluatesEach_cons_iff]
    constructor
    · rintro (⟨s, st', rfl, h⟩ | ⟨v, st₁, h, k⟩)
      · exact .inl ⟨s, st', rfl, .stop h⟩
      · rcases ih.mp k with ⟨s, st', rfl, hfirst⟩ | ⟨w, st', hfirst, hrest⟩
        · exact .inl ⟨s, st', rfl, .next h hfirst⟩
        · exact .inr ⟨w, st', .next h hfirst, hrest⟩
    · rintro (⟨s, st', rfl, hfirst⟩ | ⟨w, st', hfirst, hrest⟩)
      · cases hfirst with
        | stop h => exact .inl ⟨s, st', rfl, h⟩
        | next h k => exact .inr ⟨_, _, h, ih.mpr (.inl ⟨s, st', rfl, k⟩)⟩
      · cases hfirst with
        | next h k => exact .inr ⟨_, _, h, ih.mpr (.inr ⟨w, st', k, hrest⟩)⟩

theorem evaluatesEach_singleton {last : Value} {i : ExprId} :
    it.EvaluatesEach e last [i] st r ↔ it.Evaluates e i st r := by
  simp only [evaluatesEach_cons_iff, evaluatesEach_nil_iff]
  cases r with
  | ok v st' => simp
  | error s st' => simp

end Interpreter

namespace Arena

/-- A node under which others are joined in their order: sequence nodes nest to the left, and a null
literal stands for none. -/
inductive Joins (a : Arena) : ExprId → List ExprId → Prop where
  | none {i : ExprId} (hi : a.node? i = some (.literal .null)) : Joins a i []
  | one (i : ExprId) : Joins a i [i]
  | more {i j k : ExprId} {is : List ExprId} (hi : a.node? i = some (.seq j k)) (hj : Joins a j is) :
      Joins a i (is ++ [k])

/-- An id that a builder returned for a call, if its arena has grown into this one since. -/
def Returned (a : Arena) (c : BuildCall) (i : ExprId) : Prop :=
  ∃ b b', c.run b = .ok i b' ∧ b'.arena.Extends a

theorem Returned.node? {a : Arena} {c : BuildCall} {n : Node} {i : ExprId} (h : a.Returned c i)
    (hc : c.run = BuildM.alloc n) : a.node? i = some n := by
  obtain ⟨b, b', hrun, hgrown⟩ := h
  rw [hc] at hrun
  have hnode : (Arena.alloc n b.arena).2.node? b.arena.size = some n := by
    rw [node?_alloc, if_pos rfl]
  cases hrun
  exact hgrown.node hnode

private theorem Joins.foldlM {a : Arena} {first root : ExprId} {is : List ExprId} (h : a.Joins first is)
    (rest : List ExprId) {b b' : Builder} (hrun : rest.foldlM BuildM.seq first b = .ok root b')
    (hgrown : b'.arena.Extends a) : a.Joins root (is ++ rest) := by
  induction rest generalizing first is b with
  | nil =>
    cases hrun
    rwa [List.append_nil]
  | cons j rest ih =>
    obtain ⟨k, b₁, hseq⟩ : ∃ k b₁, BuildM.seq first j b = .ok k b₁ := ⟨_, _, rfl⟩
    rw [List.foldlM_cons, bind_of_ok hseq] at hrun
    obtain ⟨_, hrest⟩ := (BuildM.grows_join k rest b₁).ok hrun
    have hk : a.Returned (.seq first j) k := ⟨b, b₁, hseq, hrest.arena.trans hgrown⟩
    rw [List.append_cons]
    exact ih (.more (hk.node? rfl) h) hrun

theorem Returned.joins {a : Arena} {stmts : List ExprId} {root : ExprId}
    (h : a.Returned (.block stmts) root) : a.Joins root stmts := by
  cases stmts with
  | nil => exact .none (h.node? rfl)
  | cons first rest =>
    obtain ⟨b, b', hrun, hgrown⟩ := h
    exact (Joins.one first).foldlM rest hrun hgrown

end Arena

namespace Interpreter
variable {it : Interpreter} {e : FrameId} {st : State} {r : EStateM.Result Stop State Value}

/-- A node under which statements are joined ends as the statements do one after another. -/
theorem evaluates_joins_iff {root : ExprId} {stmts : List ExprId}
    (h : it.arena.arena.Joins root stmts) :
    it.Evaluates e root st r ↔ it.EvaluatesEach e .null stmts st r := by
  induction h generalizing st r with
  | none hi =>
    rw [evaluates_iff_of_rule fun n => evalNode_literal n (eval n) e hi, EvalM.ends_const,
      evaluatesEach_nil_iff]
    constructor
    · rintro ⟨-, h⟩
      exact h.symm
    · rintro rfl
      exact ⟨trivial, rfl⟩
  | one i => exact evaluatesEach_singleton.symm
  | more hi _ ih =>
    rw [evaluates_seq_iff hi, evaluatesEach_append_iff]
    simp only [ih, evaluatesEach_singleton]

end Interpreter

/-- A list of statements can always be joined, and the node that comes of it ends as the statements do
one after another in its frame: with the first of them that stops and the state reached there, or else
with the value of the last one, or with null and no effect if there is none. So a list that is split in
two, with something in the second part, each part joined on its own and the two put in sequence, ends as
it does whole. -/
theorem statement_lists_run_in_order :
    (∀ (stmts : List ExprId) (b : Builder), ∃ root b', BuildM.block stmts b = .ok root b') ∧
    (∀ (it : Interpreter) (stmts : List ExprId) (root : ExprId),
      it.arena.arena.Returned (.block stmts) root → ∀ e st r,
      it.Evaluates e root st r ↔ it.EvaluatesEach e .null stmts st r) ∧
    (∀ (it : Interpreter) (xs ys : List ExprId) (whole first second joined : ExprId), ys ≠ [] →
      it.arena.arena.Returned (.block (xs ++ ys)) whole → it.arena.arena.Returned (.block xs) first →
      it.arena.arena.Returned (.block ys) second → it.arena.arena.Returned (.seq first second) joined →
      ∀ e st r, it.Evaluates e whole st r ↔ it.Evaluates e joined st r) := by
  refine ⟨BuildM.exists_block_ok,
    fun it stmts root h e st r => Interpreter.evaluates_joins_iff h.joins, ?_⟩
  intro it xs ys whole first second joined hne hwhole hfirst hsecond hjoined e st r
  rw [Interpreter.evaluates_joins_iff hwhole.joins, Interpreter.evaluatesEach_append_iff,
    Interpreter.evaluates_seq_iff (hjoined.node? rfl)]
  simp only [Interpreter.evaluates_joins_iff hfirst.joins, Interpreter.evaluates_joins_iff hsecond.joins,
    Interpreter.evaluatesEach_of_ne_nil hne _ .null]

/-- The calls that build `true`, `print(true)`, `null` and `true + null`, join three statements of which
the second fails, and join them again in two parts. -/
def cutShortCalls : List BuildCall :=
  [.literal (.bool true), .print 0, .literal .null, .binary .add 0 2,
    .block [1, 3, 1], .block [1], .block [3, 1], .seq 1 6]

/-- The statement before the failing one has printed, and the one after it has not. -/
theorem failing_statement_cuts_the_list_short :
    let b := (Builder.replay cutShortCalls { names := .empty } []).1
    let it : Interpreter := { names := b.names, arena := { id := 0, arena := b.arena } }
    let st := State.fresh .buffer
    let x : EvalError := { kind := .invalidOperands .add "bool" "null" }
    ∃ st', it.EvaluatesEach 0 .null [1, 3, 1] st (.error (.raised x) st') ∧
      st'.channel.captured = "true\n" ∧ it.Evaluates 0 7 st (.error (.raised x) st') := by
  intro b it st x
  let before (k : Nat) : Builder := (Builder.replay (cutShortCalls.take k) { names := .empty } []).1
  have hafter₆ : (before 7).arena.Extends b.arena := .alloc _ _
  have hafter₅ : (before 5).arena.Extends b.arena := (Arena.Extends.alloc _ _).trans hafter₆
  have hwhole : b.arena.Returned (.block [1, 3, 1]) 5 := ⟨before 4, before 5, rfl, hafter₅⟩
  have hfirst : b.arena.Returned (.block [1]) 1 := ⟨before 5, before 5, rfl, hafter₅⟩
  have hsecond : b.arena.Returned (.block [3, 1]) 6 := ⟨before 6, before 7, rfl, hafter₆⟩
  have hjoined : b.arena.Returned (.seq 1 6) 7 := ⟨before 7, b, rfl, .refl _⟩
  obtain ⟨-, hlist, hsplit⟩ := statement_lists_run_in_order
  have hend : (Run.split (it.eval 5 0 5 st)).1 = .error (.raised x) := by decide +kernel
  have hprinted : (Run.split (it.eval 5 0 5 st)).2.channel.captured = "true\n" := by decide +kernel
  have hev := Interpreter.evaluates_of_outcome hend (by simp)
  generalize it.eval 5 0 5 st = r at hev hend hprinted
  cases r with
  | ok v st' => cases hend
  | error s st' =>
    cases hend
    refine ⟨st', (hlist it [1, 3, 1] 5 hwhole 0 st _).mp hev, hprinted, ?_⟩
    exact (hsplit it [1] [3, 1] 5 1 6 7 (by simp) hwhole hfirst hsecond hjoined 0 st _).mp hev

end Treewalk
