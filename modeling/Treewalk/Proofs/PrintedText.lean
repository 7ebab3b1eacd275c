import Treewalk.Proofs.Confinement
import Treewalk.Proofs.Course

/-! Printing only appends, and nothing depends on it.
The lines that a run prints are those of the print nodes that came to a value, in the order in which
they did. Which channel takes them, and what it took before, makes no difference to the rest. -/
namespace Treewalk

namespace Channel

/-- Lines as one text, each with its end of line. -/
def textOf (lines : List String) : String := String.join (lines.map (· ++ "\n"))

private theorem printAll_append (c : Channel) (lines lines' : List String) :
    c.printAll (lines ++ lines') = (c.printAll lines).printAll lines' := List.foldl_append

private theorem printAll_silent (text : String) (lines : List String) :
    printAll ⟨.silent, text⟩ lines = ⟨.silent, text⟩ := by
  induction lines with
  | nil => rfl
  | cons line lines ih => exact ih

theorem printAll_eq_append {sink : Sink} (h : sink ≠ .silent) (text : String) (lines : List String) :
    printAll ⟨sink, text⟩ lines = ⟨sink, text ++ textOf lines⟩ := by
  induction lines generalizing text with
  | nil => simp [printAll, textOf]
  | cons line lines ih =>
    have hline : println ⟨sink, text⟩ line = ⟨sink, text ++ line ++ "\n"⟩ := by
      cases sink with
      | silent => exact absurd rfl h
      | buffer | stdout => rfl
    have hrest : printAll ⟨sink, text⟩ (line :: lines) =
        printAll ⟨sink, text ++ line ++ "\n"⟩ lines := congrArg (lines.foldl println) hline
    rw [hrest, ih]
    simp [textOf, String.append_assoc]

end Channel

/-- The same state with another channel. -/
def State.redirect (st : State) (c : Channel) : State := { st with channel := c }

/-- The same end, with another channel in the state that is left. -/
def EvalM.redirect {α : Type} (c : Channel) :
    EStateM.Result Stop State α → EStateM.Result Stop State α
  | .ok a st => .ok a (st.redirect c)
  | .error s st => .error s (st.redirect c)

private theorem Interpreter.bindParams_redirect (it : Interpreter) (e : FrameId)
    (bindings : List (Name × Value)) (st : State) (c : Channel) :
    it.bindParams e bindings (st.redirect c) = EvalM.redirect c (it.bindParams e bindings st) := by
  have hmap := it.bindParams_map (f := (·.redirect c)) (g := id) (fun _ _ _ => rfl) (fun _ _ _ _ => rfl)
    e bindings st
  rw [Prod.map_id, List.map_id] at hmap
  refine hmap.trans ?_
  cases it.bindParams e bindings st <;> rfl

def Effect.line? : Effect → Option String
  | print _ line => some line
  | _ => none

private theorem Effect.run_redirect (x : Effect) (st : State) (c : Channel) :
    x.run (st.redirect c) = EvalM.redirect (c.printAll x.line?.toList) (x.run st) := by
  cases x with
  | bind v e n entry => cases entry <;> rfl
  | _ => rfl

namespace Activity

/-- The line that an activity printed if it came to this end: a print node prints the value it comes
to. -/
def printed? : Record → Option String
  | (A, .ok v _) =>
    match A.node? with
    | some (.print _) => some (v.render A.names)
    | _ => none
  | (_, .error _ _) => none

private theorem Plain.printed? {A : Activity} (hA : A.Plain) (v : Value) (st : State) :
    Activity.printed? (A, .ok v st) = none := by
  unfold Activity.printed?
  dsimp only
  split
  next j hj => exact absurd hj (hA.1 j)
  next => rfl

theorem printed?_effect (A : Activity) (vs : List Value) (st : State) :
    printed? (A, (A.effect vs st.store).run st) = (A.effect vs st.store).line? := by
  have h := A.ending vs st.store
  generalize A.effect vs st.store = x at h ⊢
  cases h with
  | give hA _ => exact hA.printed? _ _
  | trace _ hA _ => exact hA.printed? _ _
  | bind hA _ _ => exact hA.printed? _ _
  | print hn => simp [printed?, Effect.run, Effect.line?, node?, hn, names]
  | make hn _ => simp [printed?, Effect.run, Effect.line?, node?, hn, EvalM.lift, State.newClosure]
  | refuse kind => rfl
  | fault => rfl

private theorem printed?_redirect (A : Activity) (c : Channel) (r : EStateM.Result Stop State Value) :
    printed? (A, EvalM.redirect c r) = printed? (A, r) := by
  cases r <;> rfl

private theorem enter_redirect (A : Activity) (st : State) (c : Channel) :
    A.enter (st.redirect c) = EvalM.redirect c (A.enter st) := by
  cases A with
  | eval it e i => rfl
  | call it callee args =>
    cases callee with
    | closure f =>
      by_cases hl : args.length = f.arity
      · rw [enter_closure hl, enter_closure hl]
        exact it.bindParams_redirect st.store.size (f.params.zip args) (it.opened st f args) c
      · rw [enter_arity hl, enter_arity hl]
        rfl
    | _ => rfl

private theorem part?_redirect (A : Activity) (st : State) (c : Channel) (vs : List Value) :
    A.part? (st.redirect c) vs = A.part? st vs := by
  cases A with
  | eval it e i => rfl
  | call it callee args =>
    cases callee with
    | closure f => cases vs <;> rfl
    | _ => rfl

/-- The same status, with another channel. -/
def Status.redirect (c : Channel) : Status → Status
  | parts vs st => parts vs (st.redirect c)
  | ended r => ended (EvalM.redirect c r)

/-- Started with another channel, an activity takes the same course: the lines are the same, and the
channel takes them all. -/
theorem Course.redirect {A : Activity} {st : State} {status : Status} {log : List Record}
    (h : A.Course st status log) (c : Channel) :
    ∃ log', log'.filterMap printed? = log.filterMap printed? ∧
      A.Course (st.redirect c) (status.redirect (c.printAll (log.filterMap printed?))) log' := by
  induction h generalizing c with
  | @refuse A st s st₁ h =>
    have h' := A.enter_redirect st c
    rw [h] at h'
    exact ⟨[(A, .error s (st₁.redirect c))], rfl, .refuse h'⟩
  | @enter A st st₁ h =>
    have h' := A.enter_redirect st c
    rw [h] at h'
    exact ⟨[], rfl, .enter h'⟩
  | @part A B st vs st₁ v st₂ log log' _ hB _ ih ihB =>
    obtain ⟨log₁, hlog, hcourse⟩ := ih c
    obtain ⟨log₂, hlog', hpart⟩ := ihB (c.printAll (log.filterMap printed?))
    refine ⟨log₁ ++ log₂, by rw [List.filterMap_append, List.filterMap_append, hlog, hlog'], ?_⟩
    rw [List.filterMap_append, Channel.printAll_append]
    exact hcourse.part ((A.part?_redirect st c vs).trans hB) hpart
  | @stop A B st vs st₁ s st₂ log log' _ hB _ ih ihB =>
    obtain ⟨log₁, hlog, hcourse⟩ := ih c
    obtain ⟨log₂, hlog', hpart⟩ := ihB (c.printAll (log.filterMap printed?))
    have hstop := hcourse.stop ((A.part?_redirect st c vs).trans hB) hpart
    rw [filterMap_concat, printed?, Option.toList_none, List.append_nil, List.filterMap_append,
      Channel.printAll_append]
    refine ⟨_, ?_, hstop⟩
    rw [filterMap_concat, printed?, Option.toList_none, List.append_nil, List.filterMap_append, hlog,
      hlog']
  | @finish A st vs st₁ log _ hB ih =>
    obtain ⟨log₁, hlog, hcourse⟩ := ih c
    have hfinish := hcourse.finish ((A.part?_redirect st c vs).trans hB)
    have hrun := (A.effect vs st₁.store).run_redirect st₁ (c.printAll (log.filterMap printed?))
    rw [filterMap_concat, printed?_effect, Channel.printAll_append]
    refine ⟨_, ?_, hrun ▸ hfinish⟩
    rw [filterMap_concat, printed?_redirect, printed?_effect, hlog]

theorem ends_redirect {A : Activity} {st : State} {r : EStateM.Result Stop State Value}
    {log : List Record} (h : A.Course st (.ended r) log) (c : Channel) :
    A.Ends (st.redirect c) (EvalM.redirect (c.printAll (log.filterMap printed?)) r) := by
  obtain ⟨log', _, h'⟩ := h.redirect c
  exact ends_iff_course.mpr ⟨log', h'⟩

/-- All courses of an activity to the same end print the same text. -/
theorem textOf_printed_unique {A : Activity} {st : State} {r : EStateM.Result Stop State Value}
    {log log' : List Record} (h : A.Course st (.ended r) log) (h' : A.Course st (.ended r) log') :
    Channel.textOf (log.filterMap printed?) = Channel.textOf (log'.filterMap printed?) := by
  have hsame := EvalM.Ends.unique A.steady_run (ends_redirect h ⟨.buffer, ""⟩)
    (ends_redirect h' ⟨.buffer, ""⟩)
  rw [Channel.printAll_eq_append (by simp), Channel.printAll_eq_append (by simp)] at hsame
  cases r with
  | ok v st₁ => simpa [EvalM.redirect, State.redirect] using hsame
  | error s st₁ => simpa [EvalM.redirect, State.redirect] using hsame

end Activity

/-- Printing only appends, and nothing depends on it. An activity that ends with one channel ends with
every channel, to the same value or error, store and trace. There is one text that a buffer has at its
end then, that is written to standard output, and that a silent channel drops: the lines of the print
nodes that came to a value, in the order in which they did. -/
theorem printing_only_appends :
    (∀ (it : Interpreter) (e : FrameId) (i j : ExprId) (st st' : State) (v : Value),
      it.arena.arena.node? i = some (.print j) →
      (it.Evaluates e i st (.ok v st') ↔
        ∃ st₁, it.Evaluates e j st (.ok v st₁) ∧ st' = st₁.println (v.render it.names))) ∧
    ∀ (A : Activity) (st : State) (r : EStateM.Result Stop State Value), A.Ends st r →
      ∃ T : String,
        (∃ log, A.Course st (.ended r) log) ∧
        (∀ log, A.Course st (.ended r) log →
          T = String.join ((log.filterMap Activity.printed?).map (· ++ "\n"))) ∧
        (∀ text, A.Ends (st.redirect ⟨.buffer, text⟩) (EvalM.redirect ⟨.buffer, text ++ T⟩ r)) ∧
        (∀ text, A.Ends (st.redirect ⟨.stdout, text⟩) (EvalM.redirect ⟨.stdout, text ++ T⟩ r)) ∧
        ∀ text, A.Ends (st.redirect ⟨.silent, text⟩) (EvalM.redirect ⟨.silent, text⟩ r) := by
  constructor
  · intro it e i j st st' v hn
    exact Interpreter.evaluates_print_iff hn
  · intro A st r h
    obtain ⟨log, hlog⟩ := Activity.ends_iff_course.mp h
    refine ⟨Channel.textOf (log.filterMap Activity.printed?), ⟨log, hlog⟩, ?_, ?_, ?_, ?_⟩
    · intro log' hlog'
      exact Activity.textOf_printed_unique hlog hlog'
    · intro text
      rw [← Channel.printAll_eq_append (by simp)]
      exact Activity.ends_redirect hlog ⟨.buffer, text⟩
    · intro text
      rw [← Channel.printAll_eq_append (by simp)]
      exact Activity.ends_redirect hlog ⟨.stdout, text⟩
    · intro text
      have hend := Activity.ends_redirect hlog ⟨.silent, text⟩
      rwa [Channel.printAll_silent] at hend

/-- The calls that build `print((function(x) { print(x) })(print(true)) / null)`. -/
def printsBeforeErrorCalls : List BuildCall :=
  [.ident "x", .print 0, .function ["x"] 1, .literal (.bool true), .print 3, .call 2 [4],
    .literal .null, .binary .div 5 6, .print 7]

/-- The argument and the parameter of the function above are printed before the division fails, and the
outer print never happens. -/
theorem prints_before_error_are_kept :
    let b := (Builder.replay printsBeforeErrorCalls { names := .empty } []).1
    let it : Interpreter := { names := b.names, arena := { id := 0, arena := b.arena } }
    let A := Activity.eval it 0 8
    let st := State.fresh .buffer
    let x : EvalError := { kind := .invalidOperands .div "bool" "null" }
    ∃ st', A.Ends st (.error (.raised x) st') ∧
      (∃ log, A.Course st (.ended (.error (.raised x) st')) log ∧
        String.join ((log.filterMap Activity.printed?).map (· ++ "\n")) = "true\ntrue\n") ∧
      A.Ends (st.redirect ⟨.stdout, "before\n"⟩)
        (.error (.raised x) (st'.redirect ⟨.stdout, "before\ntrue\ntrue\n"⟩)) := by
  intro b it A st x
  have hend : (Run.split (it.eval 6 0 8 st)).1 = .error (.raised x) := by decide +kernel
  have htext : (Run.split (it.eval 6 0 8 st)).2.channel.text = "true\ntrue\n" := by decide +kernel
  cases hr : it.eval 6 0 8 st with
  | ok v st' =>
    rw [hr] at hend
    cases hend
  | error s st' =>
    rw [hr] at hend htext
    cases hend
    have h : A.Ends st (.error (.raised x) st') := ⟨trivial, 6, hr⟩
    obtain ⟨T, ⟨log, hlog⟩, hT, hbuffer, hstdout, _⟩ := printing_only_appends.2 A st _ h
    have hsame : EStateM.Result.error (.raised x) st' =
        EvalM.redirect ⟨.buffer, "" ++ T⟩ (.error (.raised x) st' : EStateM.Result Stop State Value) :=
      EvalM.Ends.unique A.steady_run h (hbuffer "")
    injection hsame with _ hst
    have hchannel : st'.channel.text = "" ++ T := congrArg (fun st : State => st.channel.text) hst
    obtain rfl : T = "true\ntrue\n" := by
      rw [← htext, ← String.empty_append (s := T), ← hchannel]
      rfl
    exact ⟨st', h, ⟨log, hlog, (hT log hlog).symm⟩, hstdout "before\n"⟩

end Treewalk
