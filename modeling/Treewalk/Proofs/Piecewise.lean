import Mathlib.Data.List.Induction
import Treewalk.Session
import Treewalk.Proofs.GrowingNames
import Treewalk.Proofs.StatementLists

/-! Statements evaluated one by one do what they do as one program.
One by one, each statement has an arena of its own, and the interner grows between them. As one program
they are in one arena, below a chain of sequence nodes. -/
namespace Treewalk
namespace Interpreter
open EvalM

variable {it : Interpreter} {e : FrameId}

def evalEach (it : Interpreter) (e : FrameId) (n : Nat) (ids : List ExprId) : EvalM Value :=
  ids.foldlM (fun _ i => it.eval n e i) .null

private theorem steady_evalEach (it : Interpreter) (e : FrameId) (ids : List ExprId) :
    Steady fun n => it.evalEach e n ids := .foldlM (fun _ i => it.steady_eval e i) ids .null

private theorem ends_evalEach_iff {ids : List ExprId} {st : State} {r : EStateM.Result Stop State Value} :
    Ends (fun n => it.evalEach e n ids) st r ↔ it.EvaluatesEach e .null ids st r := by
  unfold evalEach
  generalize Value.null = last
  induction ids generalizing last st with
  | nil =>
    rw [evaluatesEach_nil_iff]
    refine ends_const.trans ⟨fun h => h.2.symm, ?_⟩
    rintro rfl
    exact ⟨trivial, rfl⟩
  | cons i ids ih =>
    simp only [List.foldlM_cons]
    rw [ends_bind (it.steady_eval e i) fun v => .foldlM (fun _ j => it.steady_eval e j) ids v,
      evaluatesEach_cons_iff]
    simp only [ih]
    rfl

end Interpreter

namespace Arena
variable {a : Arena} {t : Interner}

private theorem Unfolds.joins_foldl {root : ExprId} {c : Code} {cs : List Code}
    (h : a.Unfolds t root (cs.foldl .seq c)) :
    ∃ ids, List.Forall₂ (a.Unfolds t) ids (c :: cs) ∧ a.Joins root ids := by
  induction cs using List.reverseRecOn generalizing root with
  | nil => exact ⟨[root], .cons h .nil, .one root⟩
  | append_singleton cs d ih =>
    rw [List.foldl_append] at h
    cases h with
    | @seq _ j k _ _ hi hj hk =>
      obtain ⟨ids, hids, hjoins⟩ := ih hj
      exact ⟨ids ++ [k], List.rel_append hids (.cons hk .nil), .more hi hjoins⟩

theorem Unfolds.joins {root : ExprId} {cs : List Code} (h : a.Unfolds t root (.block cs)) :
    ∃ ids, List.Forall₂ (a.Unfolds t) ids cs ∧ a.Joins root ids := by
  cases cs with
  | nil =>
    cases h with
    | literal hi => exact ⟨[], .nil, .none hi⟩
  | cons c cs => exact h.joins_foldl

end Arena

namespace Tree

private theorem shortAll_of_forall {ρ : Type} {ts : List (Tree ρ)} (h : ∀ t ∈ ts, t.short = true) :
    shortAll ts = true := by
  induction ts with
  | nil => rfl
  | cons t ts ih =>
    rw [List.forall_mem_cons] at h
    rw [shortAll, h.1, ih h.2]
    rfl

private theorem codes?_of_forall {ρ : Type} {ts : List (Tree ρ)} (h : ∀ t ∈ ts, t.code?.isSome = true) :
    ∃ cs, codes? ts = some cs := by
  induction ts with
  | nil => exact ⟨[], rfl⟩
  | cons t ts ih =>
    rw [List.forall_mem_cons] at h
    obtain ⟨c, hc⟩ := Option.isSome_iff_exists.mp h.1
    obtain ⟨cs, hcs⟩ := ih h.2
    exact ⟨c :: cs, by simp [codes?, hc, hcs]⟩

end Tree

private theorem Program.build_ofTree {t : Tree Nat} {c : Code} (hs : t.short = true)
    (hc : t.code? = some c) {b : Builder} (hb : b.names.Consistent) :
    (Program.ofTree t).build.Adds b t.texts fun i b' => b'.Reads i c := by
  apply BuildM.Adds.last (Q := fun built b' => ∃ i, built = #[i] ∧ b'.Reads i c)
  · apply (Tree.adds_build _ t hs hc hb).last
    intro i b' _ hi
    exact BuildM.adds_pure ⟨i, rfl, hi⟩
  · rintro _ b' _ ⟨i, rfl, hi⟩
    exact BuildM.adds_pure hi

namespace Session
open Encoding

/-- Evaluate trees one by one, up to the first that fails, and keep the last value. -/
def evalEach (fuel : Nat) (stmts : List (Tree Nat)) (h : Nat) : SessionM Value :=
  stmts.foldlM (fun _ t => evalProgram fuel (.ofTree t) h) .null

def resume {α : Type} (s : Session) : EStateM.Result Stop State α → EStateM.Result StepError Session α
  | .ok a state => .ok a { s with state }
  | .error x state => .error (.stop x) { s with state }

private theorem onEval_run {α : Type} (m : EvalM α) (s : Session) : onEval m s = s.resume (m s.state) := by
  rw [onEval]
  cases m s.state <;> rfl

/-- A session in which a tree with these texts has been built into an arena. -/
def withCode (s : Session) (ss : List String) (arena : SharedArena) : Session :=
  { s with names := s.names.internAll ss, arenas := s.arenas.push arena }

variable {s : Session} {h : Nat} {e : FrameId}

/-- Evaluating a tree is evaluating a node that stands for its code. -/
theorem evalProgram_run (he : s.envs[h]? = some e) (hs : s.names.Consistent) {t : Tree Nat} {c : Code}
    (hshort : t.short = true) (hc : t.code? = some c) :
    ∃ (arena : SharedArena) (root : ExprId), arena.arena.Unfolds (s.names.internAll t.texts) root c ∧
      ∀ fuel, evalProgram fuel (.ofTree t) h s = (s.withCode t.texts arena).resume
        (({ names := s.names.internAll t.texts, arena } : Interpreter).eval fuel e root
          (s.state.log .evaluate)) := by
  obtain ⟨root, b, hb, hg, hroot⟩ := Program.build_ofTree hshort hc (b := { names := s.names }) hs
  rw [Builder.Reads, hg.names] at hroot
  refine ⟨{ id := s.arenas.size, arena := b.arena }, root, hroot, fun fuel => ?_⟩
  have hbuild : build (.ofTree t) s = .ok (⟨s.arenas.size, b.arena⟩, root)
      (s.withCode t.texts ⟨s.arenas.size, b.arena⟩) := by
    rw [build, hb, withCode, ← hg.names]
  have henv : env h (s.withCode t.texts ⟨s.arenas.size, b.arena⟩) =
      .ok e (s.withCode t.texts ⟨s.arenas.size, b.arena⟩) := by
    change require (s.envs[h]?) _ = _
    rw [he]
    rfl
  rw [evalProgram, bind_of_ok hbuild]
  exact (bind_of_ok henv _).trans (onEval_run _ _)

/-- A session that shows the same as a state of a run with the names `t`, traces apart. -/
def Mirrors (s : Session) (t : Interner) (st : State) : Prop :=
  SameState s.names t s.state.untraced st.untraced

/-- The ends of an evaluation of trees with the texts `ss` from `s`, and of a run that mirrors it. -/
inductive Mirrored (t : Interner) (s : Session) (ss : List String) :
    EStateM.Result StepError Session Value → EStateM.Result Stop State Value → Prop where
  | value {v w : Value} {s' : Session} {st : State} (hn : s'.names = s.names.internAll ss)
      (he : s'.envs = s.envs) (hv : SameValue s'.names t v w) (hst : s'.Mirrors t st) :
      Mirrored t s ss (.ok v s') (.ok w st)
  | stop {x : Stop} {s' : Session} {st : State} (hx : x ≠ .fault) (hn : s'.names.Consistent)
      (hst : s'.Mirrors t st) : Mirrored t s ss (.error (.stop x) s') (.error x st)

section Mirror
variable {it : Interpreter} {st : State}

/-- One statement, built with the names so far, is mirrored by the node of its code in a whole
program. -/
theorem mirrored_statement (hit : it.names.Consistent) (hdepth : it.depth = 0)
    (he : s.envs[h]? = some e) (hs : s.names.Consistent) (hst : s.Mirrors it.names st) {t : Tree Nat}
    {c : Code} (hshort : t.short = true) (hc : t.code? = some c) {i : ExprId}
    (hi : it.arena.arena.Unfolds it.names i c) (fuel : Nat) :
    Mirrored it.names s t.texts (evalProgram fuel (.ofTree t) h s) (it.eval fuel e i st) := by
  obtain ⟨arena, root, hroot, hrun⟩ := evalProgram_run he hs hshort hc
  let S := (simulation (hs.internAll t.texts) hit).untraced
  have hcode : S.Code { names := s.names.internAll t.texts, arena } root it i :=
    ⟨⟨rfl, rfl, hdepth.symm⟩, c, hroot, hi⟩
  have hstart : S.St (s.state.log .evaluate) st :=
    hst.mono (s.names.extends_internAll t.texts) (fun _ _ => id) (hs.internAll t.texts) hit
  rw [hrun]
  rcases (S.agree_eval fuel hcode (rfl : e = e) _ _ hstart).cases with
    ⟨v, w, st₁, st₂, h₁, h₂, hv, hend⟩ | ⟨x, st₁, st₂, h₁, h₂, hx, hend⟩
  · rw [h₁, h₂]
    exact .value rfl rfl hv hend
  · rw [h₁, h₂]
    exact .stop hx (hs.internAll t.texts) hend

/-- Statements one by one are mirrored by the nodes of their codes in a whole program. -/
theorem mirrored_each (hit : it.names.Consistent) (hdepth : it.depth = 0) {stmts : List (Tree Nat)}
    {cs : List Code} {ids : List ExprId} (hshort : Tree.shortAll stmts = true)
    (hcs : Tree.codes? stmts = some cs)
    (hids : List.Forall₂ (it.arena.arena.Unfolds it.names) ids cs) (he : s.envs[h]? = some e)
    (hs : s.names.Consistent) (hst : s.Mirrors it.names st) {v w : Value}
    (hv : SameValue s.names it.names v w) (fuel : Nat) :
    Mirrored it.names s (Tree.textsAll stmts)
      (stmts.foldlM (fun _ t => evalProgram fuel (.ofTree t) h) v s)
      (ids.foldlM (fun _ i => it.eval fuel e i) w st) := by
  induction stmts generalizing s st v w cs ids with
  | nil =>
    cases hcs
    cases hids
    exact .value rfl rfl hv hst
  | cons t stmts ih =>
    simp only [Tree.codes?, Option.bind_eq_bind, Option.bind_eq_some_iff, Option.some.injEq] at hcs
    obtain ⟨c, hc, ds, hds, rfl⟩ := hcs
    simp only [Tree.shortAll, Bool.and_eq_true] at hshort
    cases hids with
    | @cons i _ ids _ hi hids =>
      rw [List.foldlM_cons, List.foldlM_cons]
      generalize h₁ : evalProgram fuel (.ofTree t) h s = r₁
      generalize h₂ : it.eval fuel e i st = r₂
      have hstep := mirrored_statement hit hdepth he hs hst hshort.1 hc hi fuel
      rw [h₁, h₂] at hstep
      cases hstep with
      | stop hx hn hst' =>
        rw [bind_of_error h₁, bind_of_error h₂]
        exact .stop hx hn hst'
      | @value _ _ s' _ hn he' hv' hst' =>
        rw [bind_of_ok h₁, bind_of_ok h₂]
        have hrest := ih hshort.2 hds hids (he' ▸ he) (hn ▸ hs.internAll t.texts) hst' hv'
        generalize stmts.foldlM (fun _ t => evalProgram fuel (.ofTree t) h) _ s' = r₁ at hrest ⊢
        generalize ids.foldlM (fun _ i => it.eval fuel e i) _ _ = r₂ at hrest ⊢
        cases hrest with
        | stop hx hn hst' => exact .stop hx hn hst'
        | value hn' he'' hv'' hst'' =>
          refine .value ?_ (he''.trans he') hv'' hst''
          rw [hn', hn, Tree.textsAll, Interner.internAll_append]

end Mirror
end Session

/-- Values of one kind and one rendering. Functions among them have the same parameters, and bodies of
the same tree. -/
structure Value.Alike (t₁ t₂ : Interner) (v w : Value) : Prop where
  kind : v.typeName = w.typeName
  rendering : v.render t₁ = w.render t₂
  code : ∀ {c d}, v = .closure c → w = .closure d →
    c.params.map t₁.lookup = d.params.map t₂.lookup ∧
      ∃ body, c.arena.arena.Unfolds t₁ c.body body ∧ d.arena.arena.Unfolds t₂ d.body body

/-- Sessions with the same output, and with the same texts in a frame, bound to values that are
alike. -/
structure Session.AlikeIn (e : FrameId) (s₁ s₂ : Session) : Prop where
  output : s₁.state.channel = s₂.state.channel
  texts : ∀ text, (∃ v, (text, v) ∈ s₁.state.frame s₁.names e) ↔
    ∃ w, (text, w) ∈ s₂.state.frame s₂.names e
  values : ∀ {text v w}, (text, v) ∈ s₁.state.frame s₁.names e →
    (text, w) ∈ s₂.state.frame s₂.names e → Value.Alike s₁.names s₂.names v w

/-- What two evaluations show: the same error, or values that are alike and one table of names. -/
inductive Session.SameOutcome (e : FrameId) :
    EStateM.Result StepError Session Value → EStateM.Result StepError Session Value → Prop where
  | error {x : EvalError} {s₁ s₂ : Session} (h : AlikeIn e s₁ s₂) :
      SameOutcome e (.error (.stop (.raised x)) s₁) (.error (.stop (.raised x)) s₂)
  | value {v w : Value} {s₁ s₂ : Session} (hv : Value.Alike s₁.names s₂.names v w)
      (hn : s₁.names = s₂.names) (h : AlikeIn e s₁ s₂) : SameOutcome e (.ok v s₁) (.ok w s₂)

namespace Session
open Encoding

private theorem alike_of_sameValue {t₁ t₂ : Interner} (h₁ : t₁.Consistent) (h₂ : t₂.Consistent) {v w : Value}
    (h : SameValue t₁ t₂ v w) : Value.Alike t₁ t₂ v w := by
  let it (t : Interner) : Interpreter := { names := t, arena := default }
  have hit : (simulation h₁ h₂).It (it t₁) (it t₂) := ⟨rfl, rfl, rfl⟩
  have hrender := (simulation h₁ h₂).render_eq hit h
  refine ⟨(simulation h₁ h₂).typeName_eq h, hrender, ?_⟩
  rintro c d rfl rfl
  have htexts := (simulation h₁ h₂).texts_eq hit ((simulation h₁ h₂).params h)
  cases h with
  | scalar h => cases h
  | closure _ _ _ hbody => exact ⟨htexts, hbody⟩

/-- Sessions that mirror one state of a run look alike. -/
theorem Mirrors.alikeIn {s₁ s₂ : Session} (h₁ : s₁.names.Consistent) (h₂ : s₂.names.Consistent)
    (h : s₁.Mirrors s₂.names s₂.state) (e : FrameId) : AlikeIn e s₁ s₂ :=
  ⟨h.channel, h.texts e, fun hv hw => alike_of_sameValue h₁ h₂ (h.values hv hw)⟩

/-- The ends of an evaluation and of the run that mirrors it show the same, if that run had all the
names from the start. -/
theorem Mirrored.sameOutcome {s s₂ : Session} {ss : List String}
    {p : EStateM.Result StepError Session Value} {r : EStateM.Result Stop State Value}
    (h : Mirrored s₂.names s ss p r) (hs : s.names.Consistent)
    (h₂ : s₂.names = s.names.internAll ss) (hr : EvalM.Finished r) (e : FrameId) :
    SameOutcome e p (s₂.resume r) := by
  have hc₂ : s₂.names.Consistent := h₂ ▸ hs.internAll ss
  cases h with
  | @value v w s' st hn _ hv hst =>
    have hc₁ : s'.names.Consistent := hn ▸ hs.internAll ss
    have halike := @Mirrors.alikeIn s' { s₂ with state := st } hc₁ hc₂ hst e
    exact .value (alike_of_sameValue hc₁ hc₂ hv) (hn.trans h₂.symm) halike
  | @stop x s' st hx hc₁ hst =>
    cases x with
    | raised x => exact .error (@Mirrors.alikeIn s' { s₂ with state := st } hc₁ hc₂ hst e)
    | fault => exact absurd rfl hx
    | outOfFuel => exact hr.elim

theorem Mirrored.outOfFuel {t : Interner} {s : Session} {ss : List String}
    {p : EStateM.Result StepError Session Value} {st : State}
    (h : Mirrored t s ss p (.error .outOfFuel st)) : ∃ s', p = .error (.stop .outOfFuel) s' := by
  cases h
  exact ⟨_, rfl⟩

end Session

/-- Statements evaluated one by one, each built on its own, and the same statements built and evaluated
as one program: both run forever, or with fuel enough both show the same. -/
theorem statements_one_by_one_agree_with_program (s : Session) (h : Nat) (e : FrameId)
    (stmts : List (Tree Nat)) (hnames : s.names.Made) (he : s.envs[h]? = some e)
    (hstate : s.state.KnownTo s.names) (hshort : ∀ t ∈ stmts, t.short = true)
    (hcode : ∀ t ∈ stmts, t.code?.isSome = true) :
    (∀ fuel, (∃ s₁, Session.evalEach fuel stmts h s = .error (.stop .outOfFuel) s₁) ∧
      ∃ s₂, Session.evalProgram fuel (.ofTree (.block stmts)) h s = .error (.stop .outOfFuel) s₂) ∨
    ∃ n, ∀ fuel, n ≤ fuel → Session.SameOutcome e (Session.evalEach fuel stmts h s)
      (Session.evalProgram fuel (.ofTree (.block stmts)) h s) := by
  have hs : s.names.Consistent := hnames.consistent
  obtain ⟨cs, hcs⟩ := Tree.codes?_of_forall hcode
  have hall : Tree.shortAll stmts = true := Tree.shortAll_of_forall hshort
  have hblock : (Tree.block stmts).code? = some (.block cs) := by simp [Tree.code?, hcs]
  obtain ⟨arena, root, hroot, hrun⟩ := Session.evalProgram_run (t := .block stmts) he hs hall hblock
  let it : Interpreter := { names := s.names.internAll (Tree.textsAll stmts), arena }
  let st := s.state.log .evaluate
  have hwhole (fuel : Nat) : Session.evalProgram fuel (.ofTree (.block stmts)) h s =
      (s.withCode (Tree.textsAll stmts) arena).resume (it.eval fuel e root st) := hrun fuel
  obtain ⟨ids, hids, hjoins⟩ := hroot.joins
  have hblocks (r : EStateM.Result Stop State Value) :
      it.Evaluates e root st r ↔ EvalM.Ends (fun n => it.evalEach e n ids) st r :=
    (Interpreter.evaluates_joins_iff hjoins).trans Interpreter.ends_evalEach_iff.symm
  have hit : it.names.Consistent := hs.internAll _
  have hstart : s.Mirrors it.names st := by
    have huntraced : s.state.untraced.KnownTo s.names := ⟨hstate.name, hstate.params, hstate.body⟩
    exact (huntraced.sameState hs).mono (fun _ _ => id) (s.names.extends_internAll _) hs hit
  have hpieces (fuel : Nat) : Session.Mirrored it.names s (Tree.textsAll stmts)
      (Session.evalEach fuel stmts h s) (it.evalEach e fuel ids st) :=
    Session.mirrored_each hit rfl hall hcs hids he hs hstart (.scalar rfl) fuel
  by_cases hend : ∃ r, EvalM.Ends (fun n => it.evalEach e n ids) st r
  · obtain ⟨r, hr⟩ := hend
    obtain ⟨n, hn⟩ := hr.eventually (it.steady_evalEach e ids)
    obtain ⟨k, hk⟩ := ((hblocks r).mpr hr).eventually (it.steady_eval e root)
    refine .inr ⟨max n k, fun fuel hle => ?_⟩
    have hpiece := hpieces fuel
    rw [hn fuel (Nat.le_trans (Nat.le_max_left n k) hle)] at hpiece
    rw [hwhole, hk fuel (Nat.le_trans (Nat.le_max_right n k) hle)]
    exact hpiece.sameOutcome hs rfl hr.1 e
  · refine .inl fun fuel => ⟨?_, ?_⟩
    · obtain ⟨st', hout⟩ := EvalM.outOfFuel_of_not_ends hend fuel
      exact (hout ▸ hpieces fuel).outOfFuel
    · have hnot : ¬ ∃ r, it.Evaluates e root st r := by simpa only [hblocks] using hend
      obtain ⟨st', hout⟩ := EvalM.outOfFuel_of_not_ends hnot fuel
      exact ⟨_, by rw [hwhole, hout]; rfl⟩

/-- `var id = function(x) { x }`, and `print id(7)`. -/
def identityStatements : List (Tree Nat) :=
  [.declare "id" (.function ["x"] (.ident "x")), .print (.call (.ident "id") [.literal (.int 7)])]

/-- The second statement calls a function whose body is in the arena of the first. -/
theorem identity_statements_agree_with_program :
    (match Session.evalEach 4 identityStatements 0 (.new .buffer) with
      | .ok v s => some (v, s.state.channel.captured)
      | .error _ _ => none) = some (.int 7, "7\n") ∧
    ∃ n, ∀ fuel, n ≤ fuel → Session.SameOutcome 0
      (Session.evalEach fuel identityStatements 0 (.new .buffer))
      (Session.evalProgram fuel (.ofTree (.block identityStatements)) 0 (.new .buffer)) := by
  have hvalue : (match Session.evalEach 4 identityStatements 0 (.new .buffer) with
      | .ok v s => some (v, s.state.channel.captured)
      | .error _ _ => none) = some (.int 7, "7\n") := by decide +kernel
  refine ⟨hvalue, ?_⟩
  rcases statements_one_by_one_agree_with_program (.new .buffer) 0 0 identityStatements .empty rfl
    (State.knownTo_fresh .buffer .empty) (by decide +kernel) (by decide +kernel) with hever | hsame
  · obtain ⟨s₁, hout⟩ := (hever 4).1
    rw [hout] at hvalue
    cases hvalue
  · exact hsame

end Treewalk
