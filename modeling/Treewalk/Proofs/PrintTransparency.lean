import Treewalk.Proofs.Hushed
import Treewalk.Proofs.Encoding
import Treewalk.Proofs.ReadBack

/-! Printing is transparent: without its prints a program comes to the same end, and prints nothing.
The program without prints is built from scratch, so its nodes and names have other numbers. Between the
two stands the hushed copy: it ends as the original does, with other fuel, and it stands for the same
code as the program without prints, so that these two run side by side. -/
namespace Treewalk

namespace Tree
variable {ρ : Type}

mutual

/-- The tree in which every print, at every depth, is replaced by its operand. -/
def unprinted : Tree ρ → Tree ρ
  | shared r => shared r
  | literal value => literal value
  | ident name => ident name
  | print t => t.unprinted
  | binary symbol t u => binary symbol t.unprinted u.unprinted
  | ifThen t u => ifThen t.unprinted u.unprinted
  | ifElse t u w => ifElse t.unprinted u.unprinted w.unprinted
  | loop t u => loop t.unprinted u.unprinted
  | seq t u => seq t.unprinted u.unprinted
  | block ts => block (unprintedAll ts)
  | declare name t => declare name t.unprinted
  | assign name t => assign name t.unprinted
  | function params t => function params t.unprinted
  | call t ts => call t.unprinted (unprintedAll ts)
  | callRepeated t u count => callRepeated t.unprinted u.unprinted count

def unprintedAll : List (Tree ρ) → List (Tree ρ)
  | [] => []
  | t :: ts => t.unprinted :: unprintedAll ts

end

private theorem length_unprintedAll (ts : List (Tree ρ)) : (unprintedAll ts).length = ts.length := by
  induction ts with
  | nil => rfl
  | cons t ts ih => exact congrArg (· + 1) ih

mutual

private theorem symbols_unprinted (t : Tree ρ) : t.unprinted.symbols = t.symbols := by
  cases t with
  | shared | literal | ident => rfl
  | print t | declare _ t | assign _ t | function _ t => exact symbols_unprinted t
  | binary _ t u | ifThen t u | loop t u | seq t u | callRepeated t u =>
    rw [unprinted, symbols, symbols, symbols_unprinted t, symbols_unprinted u]
  | ifElse t u w =>
    rw [unprinted, symbols, symbols, symbols_unprinted t, symbols_unprinted u, symbols_unprinted w]
  | block ts => exact symbolsAll_unprintedAll ts
  | call t ts => rw [unprinted, symbols, symbols, symbols_unprinted t, symbolsAll_unprintedAll ts]

private theorem symbolsAll_unprintedAll (ts : List (Tree ρ)) : symbolsAll (unprintedAll ts) = symbolsAll ts := by
  cases ts with
  | nil => rfl
  | cons t ts =>
    rw [unprintedAll, symbolsAll, symbolsAll, symbols_unprinted t, symbolsAll_unprintedAll ts]

end

mutual

private theorem short_unprinted (t : Tree ρ) : t.unprinted.short = t.short := by
  cases t with
  | shared | literal | ident => rfl
  | print t | declare _ t | assign _ t => exact short_unprinted t
  | binary _ t u | ifThen t u | loop t u | seq t u | callRepeated t u =>
    rw [unprinted, short, short, short_unprinted t, short_unprinted u]
  | ifElse t u w =>
    rw [unprinted, short, short, short_unprinted t, short_unprinted u, short_unprinted w]
  | block ts => exact shortAll_unprintedAll ts
  | function params t => rw [unprinted, short, short, short_unprinted t]
  | call t ts =>
    rw [unprinted, short, short, length_unprintedAll, short_unprinted t, shortAll_unprintedAll ts]

private theorem shortAll_unprintedAll (ts : List (Tree ρ)) : shortAll (unprintedAll ts) = shortAll ts := by
  cases ts with
  | nil => rfl
  | cons t ts => rw [unprintedAll, shortAll, shortAll, short_unprinted t, shortAll_unprintedAll ts]

end

private theorem unknown?_unprinted (t : Tree ρ) : t.unprinted.unknown? = t.unknown? := by
  rw [unknown?, unknown?, symbols_unprinted]

end Tree

namespace Code

mutual

def unprinted : Code → Code
  | literal value => literal value
  | ident name => ident name
  | print c => c.unprinted
  | binary op c d => binary op c.unprinted d.unprinted
  | ifElse c d none => ifElse c.unprinted d.unprinted none
  | ifElse c d (some e) => ifElse c.unprinted d.unprinted (some e.unprinted)
  | loop c d => loop c.unprinted d.unprinted
  | seq c d => seq c.unprinted d.unprinted
  | declare name c => declare name c.unprinted
  | assign name c => assign name c.unprinted
  | function params c => function params c.unprinted
  | call c cs => call c.unprinted (unprintedAll cs)

def unprintedAll : List Code → List Code
  | [] => []
  | c :: cs => c.unprinted :: unprintedAll cs

end

private theorem unprintedAll_eq_map (cs : List Code) : unprintedAll cs = cs.map unprinted := by
  induction cs with
  | nil => rfl
  | cons c cs ih => rw [unprintedAll, ih, List.map_cons]

private theorem unprinted_foldl_seq (c : Code) (cs : List Code) :
    (cs.foldl seq c).unprinted = (unprintedAll cs).foldl seq c.unprinted := by
  induction cs generalizing c with
  | nil => rfl
  | cons d cs ih => rw [List.foldl_cons, ih, unprinted, unprintedAll, List.foldl_cons]

private theorem unprinted_block (cs : List Code) : (block cs).unprinted = block (unprintedAll cs) := by
  cases cs with
  | nil => rfl
  | cons c cs => exact unprinted_foldl_seq c cs

end Code

namespace Tree
variable {ρ : Type}

mutual

/-- Taking the prints out of a tree takes them out of its code. -/
theorem code?_unprinted (t : Tree ρ) : t.unprinted.code? = t.code?.map Code.unprinted := by
  cases t with
  | shared | literal | ident => rfl
  | print t =>
    rw [unprinted, code?, code?_unprinted t]
    cases t.code? <;> rfl
  | declare _ t | assign _ t | function _ t =>
    rw [unprinted, code?, code?, code?_unprinted t]
    cases t.code? <;> rfl
  | binary symbol t u =>
    rw [unprinted, code?, code?, code?_unprinted t, code?_unprinted u]
    cases Operator.ofSymbol? symbol <;> cases t.code? <;> cases u.code? <;> rfl
  | ifThen t u | loop t u | seq t u =>
    rw [unprinted, code?, code?, code?_unprinted t, code?_unprinted u]
    cases t.code? <;> cases u.code? <;> rfl
  | ifElse t u w =>
    rw [unprinted, code?, code?, code?_unprinted t, code?_unprinted u, code?_unprinted w]
    cases t.code? <;> cases u.code? <;> cases w.code? <;> rfl
  | block ts =>
    rw [unprinted, code?, code?, codes?_unprintedAll ts]
    cases codes? ts with
    | none => rfl
    | some cs => exact congrArg some (Code.unprinted_block cs).symm
  | call t ts =>
    rw [unprinted, code?, code?, code?_unprinted t, codes?_unprintedAll ts]
    cases t.code? <;> cases codes? ts <;> rfl
  | callRepeated t u count =>
    rw [unprinted, code?, code?, code?_unprinted t, code?_unprinted u]
    cases t.code? with
    | none => rfl
    | some c =>
      cases u.code? with
      | none => rfl
      | some d =>
        refine congrArg (fun cs => some (Code.call c.unprinted cs)) ?_
        rw [Code.unprintedAll_eq_map, List.map_replicate]

private theorem codes?_unprintedAll (ts : List (Tree ρ)) :
    codes? (unprintedAll ts) = (codes? ts).map Code.unprintedAll := by
  cases ts with
  | nil => rfl
  | cons t ts =>
    rw [unprintedAll, codes?, codes?, code?_unprinted t, codes?_unprintedAll ts]
    cases t.code? <;> cases codes? ts <;> rfl

end

end Tree

namespace Arena
variable {a : Arena} {t : Interner}

/-- What a node stands for depends on the node alone, not on its number. -/
theorem Unfolds.of_node?_eq {i j : ExprId} {c : Code} (h : a.Unfolds t j c)
    (hij : a.node? i = a.node? j) : a.Unfolds t i c := by
  cases h with
  | literal hj => exact .literal (hij.trans hj)
  | ident hj hn => exact .ident (hij.trans hj) hn
  | print hj h => exact .print (hij.trans hj) h
  | binary hj h k => exact .binary (hij.trans hj) h k
  | ifThen hj h k => exact .ifThen (hij.trans hj) h k
  | ifElse hj h k l => exact .ifElse (hij.trans hj) h k l
  | loop hj h k => exact .loop (hij.trans hj) h k
  | seq hj h k => exact .seq (hij.trans hj) h k
  | declare hj hn h => exact .declare (hij.trans hj) hn h
  | assign hj hn h => exact .assign (hij.trans hj) hn h
  | function hj hp hs h => exact .function (hij.trans hj) hp hs h
  | call hj hf ha hlen his => exact .call (hij.trans hj) hf ha hlen his

/-- Hushed nodes stand for code without prints. -/
theorem Unfolds.hush (ha : a.WellFormed) {i : ExprId} {c : Code} (h : a.Unfolds t i c) :
    a.hush.Unfolds t i c.unprinted := by
  induction h with
  | print hi _ hj => exact hj.of_node?_eq (node?_hush_print hi (ha.child_lt hi _ (by simp)))
  | literal hi => exact .literal (node?_hush_of_some hi (by simp))
  | ident hi hn => exact .ident (node?_hush_of_some hi (by simp)) hn
  | binary hi _ _ hj hk => exact .binary (node?_hush_of_some hi (by simp)) hj hk
  | ifThen hi _ _ hj hk => exact .ifThen (node?_hush_of_some hi (by simp)) hj hk
  | ifElse hi _ _ _ hj hk hl => exact .ifElse (node?_hush_of_some hi (by simp)) hj hk hl
  | loop hi _ _ hj hk => exact .loop (node?_hush_of_some hi (by simp)) hj hk
  | seq hi _ _ hj hk => exact .seq (node?_hush_of_some hi (by simp)) hj hk
  | declare hi hn _ hj => exact .declare (node?_hush_of_some hi (by simp)) hn hj
  | assign hi hn _ hj => exact .assign (node?_hush_of_some hi (by simp)) hn hj
  | function hi hp hs _ hj => exact .function (node?_hush_of_some hi (by simp)) hp hs hj
  | call hi _ hargs hlen _ hf his =>
    rw [Code.unprinted, Code.unprintedAll_eq_map]
    refine .call (node?_hush_of_some hi (by simp)) hf hargs (by rw [hlen, List.length_map]) ?_
    intro k j d hj hd
    rw [List.getElem?_map, Option.map_eq_some_iff] at hd
    obtain ⟨c, hc, rfl⟩ := hd
    exact his hj hc

theorem WellFormed.hush (ha : a.WellFormed) : a.hush.WellFormed where
  child_lt {k n} hk j hj := by
    rw [node?_hush] at hk
    exact Nat.lt_of_lt_of_le (ha.child_lt hk j hj) (a.bare_le k)
  list_fits {k n} hk := by
    rw [node?_hush] at hk
    exact ha.list_fits hk

def Quiet (a : Arena) : Prop := ∀ i j, a.node? i ≠ some (.print j)

private theorem WellFormed.quiet_hush (ha : a.WellFormed) : a.hush.Quiet := by
  intro i j h
  rw [node?_hush] at h
  have hj : j < a.bare i := ha.child_lt h j (by simp)
  have hend : a.bare i = a.bare j := (a.bare_bare i).symm.trans (bare_print h hj)
  exact Nat.not_lt.mpr (a.bare_le j) (hend ▸ hj)

end Arena

/-- A value that is no closure, or one with no print in its code. -/
def Value.Quiet (v : Value) : Prop := ∀ c, v = .closure c → c.arena.arena.Quiet

/-- Leaving the channel alone, as a discipline. -/
def Discipline.quiet : Discipline where
  Inv st := st.store.Closed (fun _ => True) Value.Quiet
  At a _ _ _ := a.arena.Quiet
  Val _ v := v.Quiet
  Step _ st st' := st'.channel = st.channel
  refl _ _ := rfl
  trans h k := k.trans h
  at_step _ _ ha := ha
  val_step _ _ hv := hv
  operand ha _ _ _ := ha
  scalar := by
    rintro st _ hv c rfl
    cases hv
  lookup hinv _ hv := hinv.resolve? trivial hv
  log _ hinv := ⟨hinv, rfl⟩
  println _ ha hn := absurd hn (ha _ _)
  declare hinv _ hv _ := ⟨hinv.bind _ _ hv, rfl⟩
  overwrite hinv _ hv _ := ⟨hinv.bind _ _ hv, rfl⟩
  introduce _ hinv _ hv _ := ⟨hinv.bind _ _ hv, rfl⟩
  closure := by
    intro a e i st span body params hinv ha _ _
    refine ⟨hinv, rfl, ?_⟩
    rintro c ⟨⟩
    exact ha
  enter := by
    intro e st c args bindings _ hinv _ _ hargs hb
    refine ⟨?_, rfl⟩
    apply (hinv.child trivial).bindAll
    intro b hmem
    exact hargs b.2 (List.of_mem_zip (hb.subset hmem)).2
  body _ _ _ hc _ := hc _ rfl
  leave _ h k := k.trans h

/-- Code without prints prints nothing, with any fuel and however it ends. -/
theorem Run.channel_of_quiet {a : SharedArena} {root : ExprId} (ha : a.arena.WellFormed)
    (hr : root < a.arena.size) (hq : a.arena.Quiet) (names : Interner) (sink : Sink) (fuel : Nat) :
    (ofNode names a root sink (Interpreter.evaluate fuel)).state.channel = { sink } := by
  have hinv : Discipline.quiet.Inv (State.fresh sink) := by
    refine ⟨fun _ _ => trivial, ?_⟩
    intro f n v _ hg
    rw [State.get?_fresh] at hg
    cases hg
  exact (Discipline.quiet.keeps_run fuel names sink ha hr hinv hq).1.step

/-! The run of a program and that of its hushed copy. -/

namespace Activity
variable {A : Activity} {st : State} {r : EStateM.Result Stop State Value}

/-- An activity that ends does so in hushed code too, whatever channel that has. -/
theorem Ends.hush (h : A.Ends st r) (c : Channel) :
    ∃ c', A.hush.Ends (st.hush.redirect c) (EvalM.redirect c' (EvalM.hush Value.hush r)) := by
  obtain ⟨log, hlog⟩ := ends_iff_course.mp (ends_hush_iff.mpr ⟨r, h, rfl⟩)
  exact ⟨_, ends_redirect hlog c⟩

private theorem Ends.of_hush {c : Channel} (h : A.hush.Ends (st.hush.redirect c) r) : ∃ r', A.Ends st r' := by
  obtain ⟨log, hlog⟩ := ends_iff_course.mp h
  have hsilent := ends_redirect hlog ⟨.silent, ""⟩
  obtain ⟨r', hend, -⟩ := ends_hush_iff.mp hsilent
  exact ⟨r', hend⟩

end Activity

private theorem State.mem_frame_hush_iff {st : State} {names : Interner} {e : FrameId} {s : String} {w : Value} :
    (s, w) ∈ st.hush.frame names e ↔ ∃ v, (s, v) ∈ st.frame names e ∧ v.hush = w := by
  simp only [mem_frame_iff]
  constructor
  · rintro ⟨n, hn, hg⟩
    obtain ⟨v, hv, rfl⟩ := Option.map_eq_some_iff.mp ((st.store.get?_hush e n).symm.trans hg)
    exact ⟨v, ⟨n, hn, hv⟩, rfl⟩
  · rintro ⟨v, ⟨n, hn, hv⟩, rfl⟩
    exact ⟨n, hn, (st.store.get?_hush e n).trans (congrArg _ hv)⟩

namespace Run

/-- The same run with another channel in the state that it left. -/
def redirect (r : Run) (c : Channel) : Run := { r with state := r.state.redirect c }

def start (sink : Sink) : State := (State.fresh sink).log .evaluate

private theorem hush_start (sink sink' : Sink) :
    (start sink).hush.redirect { sink := sink' } = start sink' := by
  have hempty : Store.empty.hush = .empty := congrArg Store.mk Array.map_empty
  have hstore : (Store.newGlobal .empty).2.hush = (Store.newGlobal .empty).2 := by
    rw [Store.newGlobal, Store.hush_push, hempty]
  exact congrArg (fun s => ({ start sink' with store := s } : State)) hstore

section Ends
variable {names : Interner} {arena : SharedArena} {root : ExprId} {sink : Sink}

theorem exists_ends {fuel : Nat}
    (h : (ofNode names arena root sink (Interpreter.evaluate fuel)).outcome ≠ .error .outOfFuel) :
    ∃ r, (Activity.eval { names, arena } 0 root).Ends (start sink) r :=
  ⟨Interpreter.eval fuel { names, arena } 0 root (start sink), finished_iff_split.mpr h, fuel, rfl⟩

theorem eventually_of_ends {r : EStateM.Result Stop State Value}
    (h : (Activity.eval { names, arena } 0 root).Ends (start sink) r) :
    ∃ n, ∀ fuel, n ≤ fuel → ofNode names arena root sink (Interpreter.evaluate fuel) =
      { outcome := (split r).1, state := (split r).2, arena := arena.arena, names
        globalFrame := 0 } := by
  obtain ⟨n, hn⟩ := EvalM.Ends.eventually (Activity.steady_run _) h
  refine ⟨n, fun fuel hle => ?_⟩
  rw [← hn fuel hle]
  rfl

end Ends

/-- A run is like another one, output apart, if its hushed end matches that of the other. -/
theorem alike_of_hush {p q : Run} {c : Channel} (hp : p.names.Consistent) (hq : q.names.Consistent)
    (hframe : p.globalFrame = q.globalFrame)
    (hst : Encoding.SameState p.names q.names (p.state.hush.redirect c) q.state)
    (hend : p.outcome ≠ .error .outOfFuel)
    (hout : (∃ v w, p.outcome.map Value.hush = .ok v ∧ q.outcome = .ok w ∧
        Encoding.SameValue p.names q.names v w) ∨
      ∃ s, s ≠ .fault ∧ p.outcome.map Value.hush = .error s ∧ q.outcome = .error s) :
    (p.redirect q.state.channel).Alike q fun v w => Encoding.SameValue p.names q.names v.hush w := by
  let S := Encoding.simulation hp hq
  have hit : S.It { names := p.names, arena := default } { names := q.names, arena := default } :=
    ⟨rfl, rfl, rfl⟩
  have hglobals : q.globals = q.state.frame q.names p.globalFrame := by rw [globals, hframe]
  constructor
  case kind =>
    intro v w hv
    exact v.typeName_hush.symm.trans (S.typeName_eq hv)
  case rendering =>
    intro v w hv
    have hrender := S.render_eq hit hv
    rwa [Value.render_hush] at hrender
  case equals =>
    intro v w v' w' hv hv'
    have hequals : v.hush.equals v'.hush = w.equals w' := S.equals_eq hv hv'
    rwa [Value.equals_hush] at hequals
  case outcome =>
    change (∃ v w, p.outcome = .ok v ∧ _) ∨ ∃ x, p.outcome = _ ∧ _
    cases ho : p.outcome with
    | ok v =>
      rw [ho] at hout
      rcases hout with ⟨_, w, ⟨⟩, hw, hv⟩ | ⟨s, -, ⟨⟩, -⟩
      exact .inl ⟨v, w, rfl, hw, hv⟩
    | error s =>
      rw [ho] at hout hend
      rcases hout with ⟨_, w, ⟨⟩, -⟩ | ⟨_, hs, ⟨⟩, hs'⟩
      cases s with
      | raised x => exact .inr ⟨x, rfl, hs'⟩
      | fault => exact absurd rfl hs
      | outOfFuel => exact absurd rfl hend
  case output => rfl
  case trace => exact hst.trace
  case texts =>
    intro s
    rw [hglobals]
    refine Iff.trans ⟨?_, ?_⟩ (hst.texts p.globalFrame s)
    · rintro ⟨v, hv⟩
      exact ⟨v.hush, State.mem_frame_hush_iff.mpr ⟨v, hv, rfl⟩⟩
    · rintro ⟨w, hw⟩
      obtain ⟨v, hv, -⟩ := State.mem_frame_hush_iff.mp hw
      exact ⟨v, hv⟩
  case globals =>
    intro s v w hv hw
    rw [hglobals] at hw
    exact hst.values (State.mem_frame_hush_iff.mpr ⟨v, hv, rfl⟩) hw

end Run

/-- Code and its hushed copy both run forever, or from some fuel on the copy has come to the hushed end
of the code. -/
theorem Run.hushed_or_endless (names : Interner) (arena : SharedArena) (root : ExprId)
    (sink sink' : Sink) :
    let p fuel := ofNode names arena root sink (Interpreter.evaluate fuel)
    let h fuel := ofNode names arena.hush root sink' (Interpreter.evaluate fuel)
    (∀ fuel, (p fuel).outcome = .error .outOfFuel ∧ (h fuel).outcome = .error .outOfFuel) ∨
      ∃ n c, (p n).outcome ≠ .error .outOfFuel ∧ ∀ fuel, n ≤ fuel → p fuel = p n ∧
        (h fuel).outcome = (p n).outcome.map Value.hush ∧
        (h fuel).state = (p n).state.hush.redirect c := by
  intro p h
  let A := Activity.eval { names, arena } 0 root
  by_cases hends : ∃ r, A.Ends (start sink) r
  · obtain ⟨r, hr⟩ := hends
    obtain ⟨c, hhush⟩ : ∃ c, (Activity.eval { names, arena := arena.hush } 0 root).Ends (start sink')
        (EvalM.redirect c (EvalM.hush Value.hush r)) := hush_start sink sink' ▸ hr.hush { sink := sink' }
    obtain ⟨n, hn⟩ := eventually_of_ends hr
    obtain ⟨m, hm⟩ := eventually_of_ends hhush
    have hlast : p (max n m) = _ := hn _ (Nat.le_max_left n m)
    refine .inr ⟨max n m, c, ?_, ?_⟩
    · rw [hlast]
      exact finished_iff_split.mp hr.1
    · intro fuel hle
      have hp : p fuel = _ := hn fuel (Nat.le_trans (Nat.le_max_left n m) hle)
      have hh : h fuel = _ := hm fuel (Nat.le_trans (Nat.le_max_right n m) hle)
      rw [hp, hh, hlast]
      refine ⟨rfl, ?_⟩
      cases r with
      | ok v st => exact ⟨rfl, rfl⟩
      | error s st => exact ⟨rfl, rfl⟩
  · refine .inl fun fuel => ⟨?_, ?_⟩
    · by_contra hp
      exact hends (exists_ends hp)
    · by_contra hh
      obtain ⟨r, hr⟩ := exists_ends hh
      rw [← hush_start sink] at hr
      exact hends (Activity.Ends.of_hush hr)

/-- Where one node stands for code and another for the same code without prints, the second runs to the
end of the first, and prints nothing. -/
theorem Run.ofNode_unprinted {t₁ t₂ : Interner} (h₁ : t₁.Consistent) (h₂ : t₂.Consistent)
    {a₁ a₂ : Arena} (ha : a₁.WellFormed) {i₁ i₂ : ExprId} (hi : i₁ < a₁.size) {c : Code}
    (hp : a₁.Unfolds t₁ i₁ c) (hq : a₂.Unfolds t₂ i₂ c.unprinted) (id₁ id₂ : Nat) (sink₁ sink₂ : Sink) :
    let p fuel := ofNode t₁ { id := id₁, arena := a₁ } i₁ sink₁ (Interpreter.evaluate fuel)
    let q fuel := ofNode t₂ { id := id₂, arena := a₂ } i₂ sink₂ (Interpreter.evaluate fuel)
    (∀ fuel, (q fuel).state.channel = { sink := sink₂ }) ∧
    ((∀ fuel, (p fuel).outcome = .error .outOfFuel ∧ (q fuel).outcome = .error .outOfFuel) ∨
      ∃ n R, ((p n).redirect (q n).state.channel).Alike (q n) R ∧
        ∀ fuel, n ≤ fuel → p fuel = p n ∧ q fuel = q n) := by
  intro p q
  let S := Encoding.simulation h₁ h₂
  let hushed : SharedArena := { id := id₁, arena := a₁.hush }
  have hcode : S.Code { names := t₁, arena := hushed } i₁
      { names := t₂, arena := { id := id₂, arena := a₂ } } i₂ :=
    ⟨⟨rfl, rfl, rfl⟩, c.unprinted, hp.hush ha, hq⟩
  have hbeside (fuel : Nat) := S.run_ends hcode rfl (Encoding.sameState_fresh sink₂) fuel
  constructor
  · intro fuel
    have hquiet : (ofNode t₁ hushed i₁ sink₂ (Interpreter.evaluate fuel)).state.channel =
        { sink := sink₂ } :=
      channel_of_quiet ha.hush (a₁.size_hush.symm ▸ hi) ha.quiet_hush t₁ sink₂ fuel
    exact (hbeside fuel).1.channel.symm.trans hquiet
  · rcases hushed_or_endless t₁ { id := id₁, arena := a₁ } i₁ sink₁ sink₂ with
      hever | ⟨n, c', hend, hlater⟩
    · refine .inl fun fuel => ⟨(hever fuel).1, ?_⟩
      rcases (hbeside fuel).2 with ⟨v, w, hv, -, -⟩ | ⟨s, -, hs, hs'⟩
      · exact absurd ((hever fuel).2.symm.trans hv) (by simp)
      · exact hs'.trans (hs.symm.trans (hever fuel).2)
    · obtain ⟨hst, hout⟩ := hbeside n
      obtain ⟨-, houtcome, hstate⟩ := hlater n (Nat.le_refl n)
      rw [show (ofNode t₁ hushed i₁ sink₂ (Interpreter.evaluate n)).state = _ from hstate] at hst
      rw [show (ofNode t₁ hushed i₁ sink₂ (Interpreter.evaluate n)).outcome = _ from houtcome] at hout
      have halike : ((p n).redirect (q n).state.channel).Alike (q n) _ :=
        alike_of_hush h₁ h₂ rfl hst hend hout
      have hqend : (q n).outcome ≠ .error .outOfFuel := by
        rcases halike.outcome with ⟨v, w, -, hw, -⟩ | ⟨x, -, hx⟩
        · simp [hw]
        · simp [hx]
      refine .inr ⟨n, _, halike, ?_⟩
      intro fuel hle
      exact ⟨(hlater fuel hle).1, ofNode_eq_of_le hle hqend⟩

/-- Printing is transparent. A tree of short lists and known symbols is built, and so is the tree with
every print replaced by what it prints, by whatever builders. Run in fresh global frames, the two both
go on forever, or both come to an end; then, output apart, the ends look alike and stay the same with
more fuel. The one without prints prints nothing, with any fuel. -/
theorem printing_is_transparent (t : Tree Empty) (hshort : t.short = true) (hknown : t.unknown? = none)
    (find : Empty → BuildM ExprId) (b₁ b₂ : Builder) {ids : List ExprId} (hb : Built b₁ ids)
    (h₁ : b₁.names.Made) (h₂ : b₂.names.Made) (id₁ id₂ : Nat) (sink₁ sink₂ : Sink) :
    ∃ root₁ b₁' root₂ b₂', t.build find b₁ = .ok root₁ b₁' ∧
      t.unprinted.build find b₂ = .ok root₂ b₂' ∧
      let p fuel := Run.ofNode b₁'.names { id := id₁, arena := b₁'.arena } root₁ sink₁
        (Interpreter.evaluate fuel)
      let q fuel := Run.ofNode b₂'.names { id := id₂, arena := b₂'.arena } root₂ sink₂
        (Interpreter.evaluate fuel)
      (∀ fuel, (q fuel).state.channel = { sink := sink₂ }) ∧
      ((∀ fuel, (p fuel).outcome = .error .outOfFuel ∧ (q fuel).outcome = .error .outOfFuel) ∨
        ∃ n R, ((p n).redirect (q n).state.channel).Alike (q n) R ∧
          ∀ fuel, n ≤ fuel → p fuel = p n ∧ q fuel = q n) := by
  obtain ⟨c, b₁', ids', root₁, hcode, -, hcalls, hbuild₁, hmem, hreads₁⟩ :=
    Tree.exists_root hshort hknown find h₁ ids
  obtain ⟨d, b₂', _, root₂, hcode', -, hcalls', hbuild₂, -, hreads₂⟩ :=
    Tree.exists_root (t.short_unprinted.trans hshort) (t.unknown?_unprinted.trans hknown) find h₂ []
  obtain rfl : c.unprinted = d := by
    rw [Tree.code?_unprinted, hcode] at hcode'
    exact Option.some.inj hcode'
  obtain ⟨harena, hids⟩ := (hb.calls hcalls).wellFormed
  refine ⟨root₁, b₁', root₂, b₂', hbuild₁, hbuild₂, ?_⟩
  exact Run.ofNode_unprinted (hcalls.made h₁).consistent (hcalls'.made h₂).consistent harena
    (hids root₁ hmem) hreads₁ hreads₂ id₁ id₂ sink₁ sink₂

/-- `f = function(x) { print(x + print(1)) }; if (print(true)) print(print(f)(print(2)))`. -/
def chatty : Tree Empty :=
  .seq (.assign "f" (.function ["x"] (.print (.binary "+" (.ident "x") (.print (.literal (.int 1)))))))
    (.ifThen (.print (.literal (.bool true)))
      (.print (.call (.print (.ident "f")) [.print (.literal (.int 2))])))

/-- Prints of a condition, a callee, an argument, an operand and a body make no difference to what the
program above comes to. -/
theorem chatty_is_like_unprinted :
    ∃ root₁ b₁ root₂ b₂, chatty.build Empty.elim { names := .empty } = .ok root₁ b₁ ∧
      chatty.unprinted.build Empty.elim { names := .empty } = .ok root₂ b₂ ∧
      let p fuel := Run.ofNode b₁.names { id := 0, arena := b₁.arena } root₁ .buffer
        (Interpreter.evaluate fuel)
      let q fuel := Run.ofNode b₂.names { id := 0, arena := b₂.arena } root₂ .buffer
        (Interpreter.evaluate fuel)
      ∃ n R, ((p n).redirect (q n).state.channel).Alike (q n) R ∧
        (p n).state.channel.captured = "true\nfunction(x) \x7b...\x7d;\n2\n1\n3\n3\n" ∧
        (q n).state.channel.captured = "" := by
  obtain ⟨root₁, b₁, root₂, b₂, hbuild₁, hbuild₂, hquiet, hends⟩ :=
    printing_is_transparent chatty (by decide) (by decide +kernel) Empty.elim { names := .empty }
      { names := .empty } (.new .empty) .empty .empty 0 0 .buffer .buffer
  refine ⟨root₁, b₁, root₂, b₂, hbuild₁, hbuild₂, ?_⟩
  intro p q
  have hrun : EStateM.Result.casesOn (motive := fun _ => Bool)
      (chatty.build Empty.elim { names := .empty })
      (fun root b =>
        let r := Run.ofNode b.names { id := 0, arena := b.arena } root .buffer (Interpreter.evaluate 8)
        decide (r.outcome ≠ .error .outOfFuel ∧
          r.state.channel.captured = "true\nfunction(x) \x7b...\x7d;\n2\n1\n3\n3\n"))
      (fun _ _ => false) = true := by decide +kernel
  rw [hbuild₁] at hrun
  obtain ⟨hend, htext⟩ := of_decide_eq_true hrun
  rcases hends with hever | ⟨n, R, halike, hlater⟩
  · exact absurd (hever 8).1 hend
  · have hsame : p n = p 8 := (hlater (max n 8) (Nat.le_max_left n 8)).1.symm.trans
      (Run.ofNode_eq_of_le (Nat.le_max_right n 8) hend)
    refine ⟨n, R, halike, ?_, ?_⟩
    · rw [hsame]
      exact htext
    · exact congrArg Channel.captured (hquiet n)

end Treewalk
