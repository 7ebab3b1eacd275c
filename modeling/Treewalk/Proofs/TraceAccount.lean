import Mathlib.Algebra.BigOperators.Group.Finset.Piecewise
import Mathlib.Algebra.Ring.Nat
import Treewalk.Proofs.Course

/-! The trace accounts for every frame and every binding.
What comes to a value has opened as many frames as it traced applications, and has made as many bindings
as it announced. The depths that it traced are those of properly nested applications, and they shift
with the depth at which it was started, while nothing else does. -/
namespace Treewalk

namespace TraceEntry

/-- How many bindings an entry announces: one for a declaration or a new global, and one for each
argument of an application. -/
def announced : TraceEntry → Nat
  | declared _ | undeclaredAssigned _ => 1
  | apply args _ => args
  | evaluate | loopFinished _ | globalCreated _ => 0

def depth? : TraceEntry → Option Nat
  | apply _ depth => some depth
  | evaluate | declared _ | loopFinished _ | undeclaredAssigned _ | globalCreated _ => none

def deeper (k : Nat) : TraceEntry → TraceEntry
  | apply args depth => apply args (depth + k)
  | evaluate => evaluate
  | declared name => declared name
  | loopFinished iterations => loopFinished iterations
  | undeclaredAssigned name => undeclaredAssigned name
  | globalCreated name => globalCreated name

private theorem deeper_of_ne_apply (k : Nat) {t : TraceEntry} (h : ∀ n d, t ≠ .apply n d) :
    t.deeper k = t := by
  cases t with
  | apply n d => exact absurd rfl (h n d)
  | _ => rfl

end TraceEntry

namespace Store

def total (s : Store) : Nat := ∑ e ∈ Finset.range s.size, s.count e

private theorem total_bind (s : Store) {e : FrameId} (he : e < s.size) (n : Name) (v : Value) :
    (s.bind e n v).total = s.total + if s.binds e n then 0 else 1 := by
  have hcount : ∀ f ∈ Finset.range s.size, (s.bind e n v).count f =
      s.count f + if e = f then (if s.binds e n then 0 else 1) else 0 :=
    fun f hf => s.count_bind e f n v (Finset.mem_range.mp hf)
  rw [total, total, size_bind, Finset.sum_congr rfl hcount, Finset.sum_add_distrib, Finset.sum_ite_eq,
    if_pos (Finset.mem_range.mpr he)]

theorem total_push (o : Option FrameId) (s : Store) : (push { outer := o } s).2.total = s.total := by
  have hnew : (push { outer := o } s).2.count s.size = 0 := by
    rw [count, frame?_push, if_pos rfl]
    rfl
  have hold : ∀ f ∈ Finset.range s.size, (push { outer := o } s).2.count f = s.count f := by
    intro f hf
    rw [count, frame?_push, if_neg (Nat.ne_of_lt (Finset.mem_range.mp hf)), count]
  rw [total, total, size_push, Finset.sum_range_succ, hnew, Nat.add_zero, Finset.sum_congr rfl hold]

end Store

/-- The entries traced between two states say what happened between them. -/
structure Accounts (st st' : State) (entries : List TraceEntry) : Prop where
  trace : st'.trace.toList = st.trace.toList ++ entries
  frames : st'.store.size = st.store.size + (entries.filterMap TraceEntry.depth?).length
  bindings : st'.store.total = st.store.total + (entries.map TraceEntry.announced).sum

namespace Accounts
variable {st st₁ st₂ : State} {entries entries' : List TraceEntry}

theorem refl (st : State) : Accounts st st [] := ⟨by simp, rfl, rfl⟩

theorem append (h : Accounts st st₁ entries) (h' : Accounts st₁ st₂ entries') :
    Accounts st st₂ (entries ++ entries') where
  trace := by rw [h'.trace, h.trace, List.append_assoc]
  frames := by rw [h'.frames, h.frames, List.filterMap_append, List.length_append, Nat.add_assoc]
  bindings := by rw [h'.bindings, h.bindings, List.map_append, List.sum_append, Nat.add_assoc]

theorem size_le (h : Accounts st st₁ entries) : st.store.size ≤ st₁.store.size :=
  h.frames ▸ Nat.le_add_right _ _

end Accounts

/-- The depths of applications that are made, one after another and inside one another, at depth `d`. -/
structure Nested (d : Nat) (depths : List Nat) : Prop where
  le : ∀ x ∈ depths, d ≤ x
  first : ∀ x ∈ depths.head?, x = d
  step : depths.IsChain fun x y => y ≤ x + 1

namespace Nested
variable {d : Nat} {ds ds' : List Nat}

theorem nil (d : Nat) : Nested d [] := ⟨by simp, by simp, .nil⟩

theorem append (h : Nested d ds) (h' : Nested d ds') : Nested d (ds ++ ds') where
  le x hx := (List.mem_append.mp hx).elim (h.le x) (h'.le x)
  first x hx := by
    cases ds with
    | nil => exact h'.first x hx
    | cons y ds => exact h.first x hx
  step := by
    refine List.isChain_append.mpr ⟨h.step, h'.step, fun x hx y hy => ?_⟩
    have hle := h.le x (List.mem_of_getLast? hx)
    have heq := h'.first y hy
    omega

theorem cons (h : Nested (d + 1) ds) : Nested d (d :: ds) where
  le x hx := by
    rcases List.mem_cons.mp hx with rfl | hx
    · exact Nat.le_refl x
    · exact Nat.le_of_succ_le (h.le x hx)
  first x hx := by
    cases hx
    rfl
  step := List.isChain_cons.mpr ⟨fun y hy => Nat.le_of_eq (h.first y hy), h.step⟩

end Nested

theorem Interpreter.accounts_bindParams {it : Interpreter} {e : FrameId} {bindings : List (Name × Value)}
    {st st' : State} (he : e < st.store.size) (h : it.bindParams e bindings st = .ok () st') :
    st'.trace = st.trace ∧ st'.store.size = st.store.size ∧
      st'.store.total = st.store.total + bindings.length := by
  induction bindings generalizing st with
  | nil =>
    cases h
    exact ⟨rfl, rfl, rfl⟩
  | cons b bindings ih =>
    have hrun := EvalM.declare_run e b.1 b.2 (it.names.lookup b.1) st
    rw [bindParams_cons] at h
    by_cases hb : st.store.binds e b.1 = true
    · rw [bind_of_error (hrun.trans (if_pos hb))] at h
      cases h
    · rw [bind_of_ok (hrun.trans (if_neg hb))] at h
      obtain ⟨htrace, hsize, htotal⟩ := ih (by simpa using he) h
      refine ⟨htrace, hsize.trans (Store.size_bind ..), ?_⟩
      rw [htotal, State.store_bind, Store.total_bind _ he, if_neg hb, List.length_cons]
      omega

namespace Activity
open Interpreter

def depth : Activity → Nat
  | eval it _ _ | call it _ _ => it.depth

def deeper (k : Nat) : Activity → Activity
  | eval it e i => eval { it with depth := it.depth + k } e i
  | call it callee args => call { it with depth := it.depth + k } callee args

/-- The frame of an activity is there. A call opens its own. -/
def Housed : Activity → State → Prop
  | eval _ e _, st => e < st.store.size
  | call _ _ _, _ => True

/-- The depths that an activity has traced on its way: a call traces its own before all others. -/
def Nests : Activity → List Nat → Prop
  | eval it _ _, depths => Nested it.depth depths
  | call it _ _, depths => ∃ below, depths = it.depth :: below ∧ Nested (it.depth + 1) below

variable {A B : Activity} {st st₁ : State} {vs : List Value} {depths depths' : List Nat}

private theorem Nests.nested (h : A.Nests depths) : Nested A.depth depths := by
  cases A with
  | eval it e i => exact h
  | call it callee args =>
    obtain ⟨below, rfl, hbelow⟩ := h
    exact hbelow.cons

/-- What a part traces comes after what was traced before, inside of the call if it is the body of
one. -/
theorem Nests.append (h : A.Nests depths) (hB : A.part? st vs = some B)
    (h' : Nested B.depth depths') : A.Nests (depths ++ depths') := by
  cases A with
  | eval it e i =>
    have hdepth : B.depth = it.depth := by
      rcases part?_node hB with ⟨j, rfl⟩ | ⟨c, args, rfl⟩
      · rfl
      · rfl
    rw [hdepth] at h'
    exact Nested.append h h'
  | call it callee args =>
    obtain ⟨c, -, rfl⟩ := part?_call hB
    obtain ⟨below, rfl, hbelow⟩ := h
    exact ⟨below ++ depths', rfl, hbelow.append h'⟩

theorem Housed.part {entries : List TraceEntry} (h : A.Housed st) (hst : Accounts st st₁ entries)
    (hnests : A.Nests (entries.filterMap TraceEntry.depth?)) (hB : A.part? st vs = some B) :
    B.Housed st₁ := by
  cases A with
  | eval it e i =>
    rcases part?_node hB with ⟨j, rfl⟩ | ⟨c, args, rfl⟩
    · exact Nat.lt_of_lt_of_le h hst.size_le
    · trivial
  | call it callee args =>
    obtain ⟨c, -, rfl⟩ := part?_call hB
    obtain ⟨below, hdepths, -⟩ := hnests
    have hsize := hst.frames
    rw [hdepths, List.length_cons] at hsize
    change st.store.size < st₁.store.size
    omega

/-- Entering a call opens one frame, and binds there as many names as there are arguments. -/
theorem accounts_enter (h : A.enter st = .ok () st₁) :
    ∃ entries, Accounts st st₁ entries ∧ A.Nests (entries.filterMap TraceEntry.depth?) := by
  cases A with
  | eval it e i =>
    cases h
    exact ⟨[], .refl st, .nil it.depth⟩
  | call it callee args =>
    cases callee with
    | closure c =>
      by_cases hl : args.length = c.arity
      · rw [enter_closure hl] at h
        have hnew : st.store.size < (opened st it c args).store.size := by
          simp [opened, Store.size_push]
        obtain ⟨htrace, hsize, htotal⟩ := accounts_bindParams hnew h
        have hzip : (c.params.zip args).length = args.length := by
          rw [List.length_zip, ← Closure.arity, hl, Nat.min_self]
        refine ⟨[.apply args.length it.depth], ⟨?_, ?_, ?_⟩, [], rfl, .nil _⟩
        · rw [htrace]
          simp [opened, State.child, State.log]
        · rw [hsize]
          exact Store.size_push _ _
        · rw [htotal, hzip]
          exact congrArg (· + args.length) (Store.total_push _ _)
      · rw [enter_arity hl] at h
        cases h
    | _ => cases h

private theorem accounts_bind_new {e : FrameId} {n : Name} (he : e < st.store.size)
    (hb : st.store.binds e n = false) {entry : TraceEntry} (h : entry.announced = 1)
    (hdepth : entry.depth? = none) (v : Value) : Accounts st ((st.log entry).bind e n v) [entry] where
  trace := by simp [State.bind, State.log]
  frames := by simp [hdepth]
  bindings := by simp [Store.total_bind _ he, hb, h]

/-- What an effect makes of a state, it has traced; none of it is an application. -/
theorem Ending.accounts {x : Effect} {v : Value} (h : Ending A vs st.store x) (hA : A.Housed st)
    (hx : x.run st = .ok v st₁) :
    ∃ entries, Accounts st st₁ entries ∧ entries.filterMap TraceEntry.depth? = [] := by
  cases h with
  | give =>
    cases hx
    exact ⟨[], .refl st, rfl⟩
  | trace rounds =>
    cases hx
    exact ⟨[.loopFinished rounds], ⟨by simp [State.log], rfl, rfl⟩, rfl⟩
  | print | make =>
    cases hx
    exact ⟨[], ⟨by simp [State.println], rfl, rfl⟩, rfl⟩
  | @bind it f i vs s v e n entry _ _ hb =>
    cases hx
    cases hb with
    | declared text hfree => exact ⟨_, accounts_bind_new hA hfree rfl rfl v, rfl⟩
    | overwritten ho =>
      have hbound := Store.binds_of_owner? ho
      have htotal := st.store.total_bind (Store.lt_size_of_binds hbound) n v
      rw [if_pos hbound] at htotal
      exact ⟨[], ⟨by simp [State.bind], Store.size_bind .., htotal⟩, rfl⟩
    | introduced text ho =>
      have hglobal : st.store.global f < st.store.size := Nat.lt_of_le_of_lt (st.store.global_le f) hA
      exact ⟨_, accounts_bind_new hglobal (Store.binds_global_of_owner?_eq_none ho) rfl rfl v, rfl⟩
  | refuse | fault => cases hx

/-- What a status says of a course to it that led to no error. -/
def Status.Accounted (A : Activity) (st : State) : Status → Prop
  | parts _ st₁ | ended (.ok _ st₁) =>
    ∃ entries, Accounts st st₁ entries ∧ A.Nests (entries.filterMap TraceEntry.depth?)
  | ended (.error _ _) => True

/-- Every step of a course keeps the account: it traces what it does, and does what it traces. -/
theorem Course.accounted {status : Status} {log : List Record} (h : A.Course st status log)
    (hA : A.Housed st) : status.Accounted A st := by
  induction h with
  | refuse => trivial
  | enter h => exact accounts_enter h
  | @part A B st vs st₁ v st₂ log log' _ hB _ ih ihB =>
    obtain ⟨entries, haccount, hnests⟩ := ih hA
    obtain ⟨entries', haccount', hnests'⟩ := ihB (hA.part haccount hnests hB)
    refine ⟨entries ++ entries', haccount.append haccount', ?_⟩
    rw [List.filterMap_append]
    exact hnests.append hB hnests'.nested
  | stop => trivial
  | @finish A st vs st₁ log _ hB ih =>
    obtain ⟨entries, haccount, hnests⟩ := ih hA
    cases hx : (A.effect vs st₁.store).run st₁ with
    | error s st₂ => trivial
    | ok v st₂ =>
      have hA₁ : A.Housed st₁ := by
        cases A with
        | eval it e i => exact Nat.lt_of_lt_of_le hA haccount.size_le
        | call it callee args => trivial
      obtain ⟨entries', haccount', hdepths⟩ := (A.ending vs st₁.store).accounts hA₁ hx
      refine ⟨entries ++ entries', haccount.append haccount', ?_⟩
      rw [List.filterMap_append, hdepths, List.append_nil]
      exact hnests

end Activity

/-- Surroundings of two runs of which the second is `k` applications further inside. Both started with
the trace `before`. -/
def Surroundings.shifted (k : Nat) (before : Array TraceEntry) : Surroundings where
  Depth d₁ d₂ := d₂ = d₁ + k
  Channels := Eq
  Traces t₁ t₂ := ∃ entries : List TraceEntry, t₁.toList = before.toList ++ entries ∧
    t₂.toList = before.toList ++ entries.map (TraceEntry.deeper k)
  deeper := by
    intro d₁ d₂ h
    omega
  println := @Surroundings.channelOnly.println
  log := by
    intro t₁ t₂ x hx ⟨entries, h₁, h₂⟩
    refine ⟨entries ++ [x], by simp [h₁], ?_⟩
    simp [h₂, TraceEntry.deeper_of_ne_apply k hx]
  logApply := by
    intro t₁ t₂ d₁ d₂ n hd ⟨entries, h₁, h₂⟩
    exact ⟨entries ++ [.apply n d₁], by simp [h₁], by simp [h₂, hd, TraceEntry.deeper]⟩

private theorem Store.WellFormed.twins_shifted {st : State} (hs : st.store.WellFormed) (k : Nat) :
    Twins (.shifted k st.trace) (fun _ => True) st st where
  size := rfl
  new _ _ := trivial
  frame _ := rfl
  closed := ⟨fun _ _ => trivial, fun _ hg => (hs.value hg).runnable fun _ _ => trivial⟩
  next := rfl
  channel := rfl
  trace := ⟨[], by simp, by simp⟩

/-- Started further inside, an activity comes to the same end, and traces greater depths. -/
theorem Activity.ends_deeper {A : Activity} {st st' : State} {v : Value} (hs : st.store.WellFormed)
    (hA : A.WellFormed st) (h : A.Ends st (.ok v st')) {entries : List TraceEntry}
    (htrace : st'.trace.toList = st.trace.toList ++ entries) (k : Nat) :
    (A.deeper k).Ends st
      (.ok v { st' with trace := st.trace ++ (entries.map (TraceEntry.deeper k)).toArray }) := by
  obtain ⟨-, n, hrun⟩ := h
  have htwins := hs.twins_shifted k
  have hend : (Surroundings.shifted k st.trace).SameEnd (fun _ => True) (A.run n st)
      ((A.deeper k).run n st) := by
    cases A with
    | eval it e i =>
      have hnames : it.names = { it with depth := it.depth + k : Interpreter }.names := rfl
      exact Surroundings.sameEnd_eval n hnames rfl rfl hA.1 hA.2.1 trivial htwins
    | call it callee args =>
      have hnames : it.names = { it with depth := it.depth + k : Interpreter }.names := rfl
      exact Surroundings.sameEnd_call n hnames rfl (hA.1.runnable fun _ _ => trivial)
        (fun w hw => (hA.2 w hw).runnable fun _ _ => trivial) htwins
  refine ⟨trivial, n, ?_⟩
  rw [hrun] at hend
  cases hr : (A.deeper k).run n st with
  | error s st'' =>
    rw [hr] at hend
    cases hend.1
  | ok w st'' =>
    rw [hr] at hend
    obtain ⟨⟨⟩, htw⟩ := hend
    change Twins (.shifted k st.trace) (fun _ => True) st' st'' at htw
    obtain ⟨entries', htrace', hdeeper⟩ := htw.trace
    obtain rfl : entries = entries' := List.append_cancel_left (htrace.symm.trans htrace')
    have hstore : st'.store = st''.store := Store.eq_of_frame?_eq fun f => htw.frame trivial
    have hchannel : st'.channel = st''.channel := htw.channel
    have harray : st''.trace = st.trace ++ (entries.map (TraceEntry.deeper k)).toArray := by
      rw [← Array.toList_inj, hdeeper]
      simp
    rw [hstore, htw.next, hchannel, ← harray]

/-- The trace accounts for every binding and every application. Between the start of an evaluation or a
call and the value it comes to, there is a new frame for each application that was traced, and a new
binding for each declaration, each new global and each argument that was. The depths of the applications
start with that of the activity, never fall below it, and rise by at most one at a time. Started `k`
applications further inside, it comes to the same value, store and output, with `k` more in every
depth. -/
theorem trace_accounts_for_frames_and_bindings (A : Activity) (st st' : State) (v : Value)
    (hs : st.store.WellFormed) (hA : A.WellFormed st) (h : A.Ends st (.ok v st')) :
    ∃ entries, Accounts st st' entries ∧ Nested A.depth (entries.filterMap TraceEntry.depth?) ∧
      ∀ k, (A.deeper k).Ends st
        (.ok v { st' with trace := st.trace ++ (entries.map (TraceEntry.deeper k)).toArray }) := by
  have hhoused : A.Housed st := by
    cases A with
    | eval it e i => exact hA.2.2
    | call it callee args => trivial
  obtain ⟨log, hcourse⟩ := Activity.ends_iff_course.mp h
  obtain ⟨entries, haccount, hnests⟩ := hcourse.accounted hhoused
  exact ⟨entries, haccount, hnests.nested, fun k => Activity.ends_deeper hs hA h haccount.trace k⟩

/-- The calls that build `(function(x) { var y = x; z = (function(a) { a })(y) })(true)`. -/
def tracedCalls : List BuildCall :=
  [.ident "x", .declare "y" 0, .ident "a", .function ["a"] 2, .ident "y", .call 3 [4], .assign "z" 5,
    .block [1, 6], .function ["x"] 7, .literal (.bool true), .call 8 [9]]

/-- Two applications, a declaration and a new global: two frames more, and four bindings. -/
theorem two_applications_are_accounted_for :
    let b := (Builder.replay tracedCalls { names := .empty } []).1
    let it : Interpreter := { names := b.names, arena := { id := 0, arena := b.arena } }
    let A := Activity.eval it 0 10
    let st := State.fresh .buffer
    ∃ st', A.Ends st (.ok (.bool true) st') ∧ st'.store.size = 3 ∧
      st'.store.total = st.store.total + 4 ∧ Nested 0 [0, 1] ∧
      (A.deeper 5).Ends st (.ok (.bool true) { st' with
        trace := #[.apply 1 5, .declared "y", .apply 1 6, .undeclaredAssigned "z"] }) := by
  intro b it A st
  have hout : (Run.split (it.eval 8 0 10 st)).1 = .ok (.bool true) := by decide +kernel
  have htrace : (Run.split (it.eval 8 0 10 st)).2.trace.toList =
      [.apply 1 0, .declared "y", .apply 1 1, .undeclaredAssigned "z"] := by decide +kernel
  obtain ⟨ha, hids⟩ := ((Built.new .empty).replay tracedCalls).wellFormed
  cases hr : it.eval 8 0 10 st with
  | error s st' =>
    rw [hr] at hout
    cases hout
  | ok v st' =>
    rw [hr] at hout htrace
    cases hout
    have hend : A.Ends st (.ok (.bool true) st') := ⟨trivial, 8, hr⟩
    obtain ⟨entries, haccount, hnested, hdeeper⟩ := trace_accounts_for_frames_and_bindings A st st' _
      (State.wellFormed_fresh .buffer) ⟨ha, hids 10 (by decide +kernel), by decide⟩ hend
    obtain rfl : entries = [.apply 1 0, .declared "y", .apply 1 1, .undeclaredAssigned "z"] :=
      haccount.trace.symm.trans htrace
    exact ⟨st', hend, haccount.frames, haccount.bindings, hnested, hdeeper 5⟩

end Treewalk
