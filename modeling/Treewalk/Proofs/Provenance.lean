import Treewalk.Proofs.Course

/-! Where values come from, and how closures are numbered.
A run hands on the closures it was given and those that its function nodes make, and no others. The
function nodes number theirs one after another, so that each is unlike all that there was before. -/
namespace Treewalk

def Store.All (s : Store) (P : Value → Prop) : Prop := ∀ e n v, s.get? e n = some v → P v

theorem Store.All.mono {s : Store} {P Q : Value → Prop} (h : s.All P) (hPQ : ∀ v, P v → Q v) : s.All Q :=
  fun e n v hv => hPQ v (h e n v hv)

/-- The closure that an effect makes, given its number. -/
def Effect.closure? (id : Nat) : Effect → Option Closure
  | make params body arena env => some { id, params, body, arena, env }
  | _ => none

private theorem Effect.of_closure? {x : Effect} {st st' : State} {v : Value} {c : Closure}
    (h : x.closure? st.nextClosure = some c) (hrun : x.run st = .ok v st') :
    c.id = st.nextClosure ∧ st'.store = st.store := by
  cases x with
  | make =>
    cases h
    cases hrun
    exact ⟨rfl, rfl⟩
  | _ => cases h

namespace Activity

def values : Activity → List Value
  | eval _ _ _ => []
  | call _ callee args => callee :: args

/-- The closure that an activity made if it came to this end: a function node makes the one it comes
to. -/
def made? : Record → Option Closure
  | (A, .ok v _) =>
    match A.node? with
    | some (.function _ _) => v.asClosure?
    | _ => none
  | (_, .error _ _) => none

theorem exists_function_of_made? {x : Record} {c : Closure} (h : made? x = some c) :
    ∃ A v st, x = (A, .ok v st) ∧ ∃ span body, A.node? = some (.function span body) := by
  obtain ⟨A, r⟩ := x
  cases r with
  | error s st => cases h
  | ok v st =>
    unfold made? at h
    dsimp only at h
    split at h
    next span body hn => exact ⟨A, v, st, rfl, span, body, hn⟩
    next => cases h

theorem Plain.made? {A : Activity} (hA : A.Plain) (v : Value) (st : State) :
    Activity.made? (A, .ok v st) = none := by
  unfold Activity.made?
  dsimp only
  split
  next span body hn => exact absurd hn (hA.2 span body)
  next => rfl

theorem made?_effect (A : Activity) (vs : List Value) (st : State) :
    made? (A, (A.effect vs st.store).run st) =
      (A.effect vs st.store).closure? st.nextClosure := by
  have h := A.ending vs st.store
  generalize A.effect vs st.store = x at h ⊢
  cases h with
  | give hA _ => exact hA.made? _ _
  | trace _ hA _ => exact hA.made? _ _
  | bind hA _ _ => exact hA.made? _ _
  | print hn => simp [made?, Effect.run, Effect.closure?, node?, hn]
  | make hn _ =>
    simp [made?, Effect.run, Effect.closure?, node?, hn, EvalM.lift, State.newClosure, Value.asClosure?]
  | refuse kind => rfl
  | fault => rfl

/-- A property of all the values in a result: of the one it comes to, and of those bound by then. -/
def Holds (P : Value → Prop) : EStateM.Result Stop State Value → Prop
  | .ok v st => P v ∧ st.store.All P
  | .error _ st => st.store.All P

def Status.Holds (P : Value → Prop) : Status → Prop
  | parts vs st => (∀ v ∈ vs, P v) ∧ st.store.All P
  | ended r => Activity.Holds P r

theorem values_part? {A B : Activity} {st : State} {vs : List Value} (h : A.part? st vs = some B) :
    ∀ v ∈ B.values, v ∈ vs := by
  cases A with
  | call it callee args =>
    obtain ⟨c, -, rfl⟩ := part?_call h
    simp [values]
  | eval it e i =>
    obtain ⟨n, _, h⟩ := Option.bind_eq_some_iff.mp h
    unfold nodePart? at h
    split at h
    next c args =>
      obtain ⟨ids, _, h⟩ := Option.bind_eq_some_iff.mp h
      split at h
      · cases h
        simp [values]
      · obtain ⟨j, _, rfl⟩ := Option.map_eq_some_iff.mp h
        simp [values]
    next =>
      obtain ⟨j, _, rfl⟩ := Option.map_eq_some_iff.mp h
      simp [values]

section Conservation
variable {P : Value → Prop} {A : Activity} {st st₁ : State}

theorem Entered.all (h : Entered st A st₁) (hA : ∀ v ∈ A.values, P v) (hst : st.store.All P) :
    st₁.store.All P := by
  cases h with
  | stays => exact hst
  | traced => exact hst
  | @bound it c args bindings hb =>
    refine Store.forall_get?_bindAll ?_ _ bindings ?_
    · intro e n v hv
      exact hst e n v ((Store.get?_push _ _ e n).symm.trans hv)
    · intro b hmem
      have hzip := List.of_mem_zip (hb.subset hmem)
      exact hA b.2 (List.mem_cons_of_mem _ hzip.2)

theorem Ending.holds {vs : List Value} {x : Effect} (h : Ending A vs st.store x)
    (hscalar : ∀ v, v.asClosure? = none → P v) (hvs : ∀ v ∈ vs, P v) (hst : st.store.All P)
    (hmade : ∀ c, x.closure? st.nextClosure = some c → P (.closure c)) :
    Activity.Holds P (x.run st) := by
  have hknown {v : Value} (hv : Known vs st.store v) : P v := by
    rcases hv with hv | hv | ⟨e, n, hv⟩
    · exact hscalar v hv
    · exact hvs v hv
    · exact hst e n v hv
  cases h with
  | give _ hv => exact ⟨hknown hv, hst⟩
  | trace _ _ hv => exact ⟨hknown hv, hst⟩
  | @bind it f i vs s v e n entry _ hv _ =>
    refine ⟨hvs v hv, ?_⟩
    have hentry : (entry.elim st st.log).store = st.store := by cases entry <;> rfl
    have hbind := Store.forall_get?_bind hst e n (hvs v hv)
    rw [← hentry] at hbind
    exact hbind
  | print hn => exact ⟨hvs _ (List.mem_singleton_self _), hst⟩
  | make hn _ =>
    exact ⟨hmade _ rfl, hst⟩
  | refuse kind => exact hst
  | fault => exact hst

/-- What holds of scalars, of the values that an activity finds and of the closures that are made on its
course holds of all values that there are on that course. -/
theorem Course.holds {status : Status} {log : List Record} (h : A.Course st status log)
    (hscalar : ∀ v, v.asClosure? = none → P v) (hA : ∀ v ∈ A.values, P v) (hst : st.store.All P)
    (hmade : ∀ c ∈ log.filterMap made?, P (.closure c)) :
    status.Holds P ∧ ∀ x ∈ log, Activity.Holds P x.2 := by
  induction h with
  | @refuse A st s st₁ h =>
    have hall := (entered_of_error h).1.all hA hst
    refine ⟨hall, fun x hx => ?_⟩
    rw [List.mem_singleton.mp hx]
    exact hall
  | enter h => exact ⟨⟨by simp, (entered_of_ok h).all hA hst⟩, by simp⟩
  | @part A B st vs st₁ v st₂ log log' _ hB _ ih ihB =>
    rw [List.filterMap_append] at hmade
    obtain ⟨⟨hvs, hst₁⟩, hlog⟩ := ih hA hst fun c hc => hmade c (List.mem_append_left _ hc)
    obtain ⟨⟨hv, hst₂⟩, hlog'⟩ := ihB (fun w hw => hvs w (values_part? hB w hw)) hst₁
      fun c hc => hmade c (List.mem_append_right _ hc)
    refine ⟨⟨?_, hst₂⟩, ?_⟩
    · intro w hw
      rcases List.mem_append.mp hw with hw | hw
      · exact hvs w hw
      · rwa [List.mem_singleton.mp hw]
    · intro x hx
      exact (List.mem_append.mp hx).elim (hlog x) (hlog' x)
  | @stop A B st vs st₁ s st₂ log log' _ hB _ ih ihB =>
    rw [List.filterMap_append, List.filterMap_append, List.append_assoc] at hmade
    obtain ⟨⟨hvs, hst₁⟩, hlog⟩ := ih hA hst fun c hc => hmade c (List.mem_append_left _ hc)
    obtain ⟨hst₂, hlog'⟩ := ihB (fun w hw => hvs w (values_part? hB w hw)) hst₁
      fun c hc => hmade c (List.mem_append_right _ (List.mem_append_left _ hc))
    refine ⟨hst₂, ?_⟩
    intro x hx
    rcases List.mem_append.mp hx with hx | hx
    · exact (List.mem_append.mp hx).elim (hlog x) (hlog' x)
    · rw [List.mem_singleton.mp hx]
      exact hst₂
  | @finish A st vs st₁ log _ hB ih =>
    rw [filterMap_concat, made?_effect] at hmade
    obtain ⟨⟨hvs, hst₁⟩, hlog⟩ := ih hA hst fun c hc => hmade c (List.mem_append_left _ hc)
    have hlast := (A.ending vs st₁.store).holds hscalar hvs hst₁ fun c hc =>
      hmade c (List.mem_append_right _ (by simp [hc]))
    refine ⟨hlast, ?_⟩
    intro x hx
    rcases List.mem_append.mp hx with hx | hx
    · exact hlog x hx
    · rw [List.mem_singleton.mp hx]
      exact hlast

end Conservation

/-- Closures with the numbers from `n` on and up to `m`, in their order. -/
def Numbered (n : Nat) (cs : List Closure) (m : Nat) : Prop :=
  cs.map Closure.id = List.range' n cs.length ∧ m = n + cs.length

theorem Numbered.append {n m k : Nat} {cs ds : List Closure} (h : Numbered n cs m)
    (h' : Numbered m ds k) : Numbered n (cs ++ ds) k := by
  obtain ⟨hcs, rfl⟩ := h
  obtain ⟨hds, rfl⟩ := h'
  refine ⟨?_, by simp [Nat.add_assoc]⟩
  rw [List.map_append, hcs, hds, List.length_append, List.range'_append_1]

theorem numbered_nil (n : Nat) : Numbered n [] n := ⟨rfl, rfl⟩

theorem Numbered.mem {n m : Nat} {cs : List Closure} (h : Numbered n cs m) {c : Closure} (hc : c ∈ cs) :
    n ≤ c.id ∧ c.id < m := by
  have hid : c.id ∈ List.range' n cs.length := h.1 ▸ List.mem_map_of_mem hc
  rw [List.mem_range'_1] at hid
  exact h.2 ▸ hid

theorem Numbered.le {n m : Nat} {cs : List Closure} (h : Numbered n cs m) : n ≤ m :=
  h.2 ▸ Nat.le_add_right n cs.length

theorem Numbered.nodup {n m : Nat} {cs : List Closure} (h : Numbered n cs m) :
    (cs.map Closure.id).Nodup := h.1 ▸ List.nodup_range'

def Status.state : Status → State
  | parts _ st => st
  | ended r => (Run.split r).2

private theorem Entered.next_eq {A : Activity} {st st₁ : State} (h : Entered st A st₁) :
    st₁.nextClosure = st.nextClosure := by
  cases h <;> rfl

private theorem numbered_effect (x : Effect) (st : State) :
    Numbered st.nextClosure (x.closure? st.nextClosure).toList
      (Run.split (x.run st)).2.nextClosure := by
  cases x with
  | make => exact ⟨rfl, rfl⟩
  | bind v e n entry => cases entry <;> exact numbered_nil _
  | _ => exact numbered_nil _

/-- The closures that are made on a course are numbered from where the numbers stood on. -/
theorem Course.numbered {A : Activity} {st : State} {status : Status} {log : List Record}
    (h : A.Course st status log) :
    Numbered st.nextClosure (log.filterMap made?) status.state.nextClosure := by
  induction h with
  | refuse h => exact (entered_of_error h).1.next_eq ▸ numbered_nil _
  | enter h => exact (entered_of_ok h).next_eq ▸ numbered_nil _
  | part _ _ _ ih ihB =>
    rw [List.filterMap_append]
    exact ih.append ihB
  | stop _ _ _ ih ihB =>
    rw [List.filterMap_append, List.filterMap_append]
    exact (ih.append ihB).append (numbered_nil _)
  | @finish A st vs st₁ log _ _ ih =>
    rw [filterMap_concat, made?_effect]
    exact ih.append (numbered_effect _ st₁)

/-- A value that is no closure, or one with a number below `n`. -/
def Older (n : Nat) (v : Value) : Prop := ∀ c, v = .closure c → c.id < n

private theorem older_scalar (n : Nat) (v : Value) (hv : v.asClosure? = none) : Older n v := by
  rintro c rfl
  cases hv

theorem Older.mono {n m : Nat} (hnm : n ≤ m) (v : Value) (h : Older n v) : Older m v :=
  fun c hc => Nat.lt_of_lt_of_le (h c hc) hnm

/-- Every closure that was made in a chronicle has a number from `n` on, and at that time all that was
bound and all that any activity had come to was older. -/
structure Fresh (n : Nat) (log : List Record) : Prop where
  new : ∀ A v st c, (A, .ok v st) ∈ log → made? (A, .ok v st) = some c →
    n ≤ c.id ∧ st.store.All (Older c.id)
  unlike : log.Pairwise fun y x => ∀ c, made? x = some c → ∀ v st, y.2 = .ok v st → Older c.id v

private theorem fresh_error (n : Nat) (A : Activity) (s : Stop) (st : State) : Fresh n [(A, .error s st)] :=
  ⟨by simp, List.pairwise_singleton _ _⟩

theorem Fresh.append {n m : Nat} {log log' : List Record} (h : Fresh n log) (h' : Fresh m log')
    (hnm : n ≤ m) (hlog : ∀ x ∈ log, Holds (Older m) x.2) : Fresh n (log ++ log') := by
  refine ⟨?_, List.pairwise_append.mpr ⟨h.unlike, h'.unlike, ?_⟩⟩
  · intro A v st c hx hc
    rcases List.mem_append.mp hx with hx | hx
    · exact h.new A v st c hx hc
    · obtain ⟨hid, hst⟩ := h'.new A v st c hx hc
      exact ⟨Nat.le_trans hnm hid, hst⟩
  · rintro y hy ⟨B, r⟩ hx c hc v st hv
    have hy := hlog y hy
    rw [hv] at hy
    cases r with
    | error s st => cases hc
    | ok w st => exact hy.1.mono (h'.new B w st c hx hc).1

section Fresh
variable {A : Activity} {st : State} {status : Status} {log : List Record}

/-- If all that there is at the start is older than the next number, it stays so. -/
theorem Course.older (h : A.Course st status log) (hA : ∀ v ∈ A.values, Older st.nextClosure v)
    (hst : st.store.All (Older st.nextClosure)) :
    status.Holds (Older status.state.nextClosure) ∧
      ∀ x ∈ log, Activity.Holds (Older status.state.nextClosure) x.2 := by
  have hnumbers := h.numbered
  refine h.holds (older_scalar _) (fun v hv => (hA v hv).mono hnumbers.le) (hst.mono ?_) ?_
  · intro v hv
    exact hv.mono hnumbers.le
  · rintro c hc _ ⟨⟩
    exact (hnumbers.mem hc).2

/-- Then the closures that are made on a course are fresh. -/
theorem Course.fresh (h : A.Course st status log) (hA : ∀ v ∈ A.values, Older st.nextClosure v)
    (hst : st.store.All (Older st.nextClosure)) : Fresh st.nextClosure log := by
  induction h with
  | refuse => exact fresh_error _ _ _ _
  | enter => exact ⟨by simp, .nil⟩
  | @part A B st vs st₁ v st₂ log log' hparts hB _ ih ihB =>
    obtain ⟨⟨hvs, hst₁⟩, hlog⟩ := hparts.older hA hst
    exact (ih hA hst).append (ihB (fun w hw => hvs w (values_part? hB w hw)) hst₁)
      hparts.numbered.le hlog
  | @stop A B st vs st₁ s st₂ log log' hparts hB hpart ih ihB =>
    obtain ⟨⟨hvs, hst₁⟩, hlog⟩ := hparts.older hA hst
    have hB' : ∀ w ∈ B.values, Older st₁.nextClosure w := fun w hw => hvs w (values_part? hB w hw)
    rw [List.append_assoc]
    refine (ih hA hst).append (m := st₁.nextClosure) ?_ hparts.numbered.le hlog
    exact (ihB hB' hst₁).append (fresh_error _ _ _ _) hpart.numbered.le (hpart.older hB' hst₁).2
  | @finish A st vs st₁ log hparts _ ih =>
    obtain ⟨⟨_, hst₁⟩, hlog⟩ := hparts.older hA hst
    refine (ih hA hst).append (m := st₁.nextClosure) ?_ hparts.numbered.le hlog
    refine ⟨?_, List.pairwise_singleton _ _⟩
    intro B v st' c hx hc
    obtain ⟨rfl, hrun⟩ := Prod.mk.inj (List.mem_singleton.mp hx)
    rw [hrun, made?_effect] at hc
    obtain ⟨hid, hstore⟩ := Effect.of_closure? hc hrun.symm
    rw [hid, hstore]
    exact ⟨Nat.le_refl _, hst₁⟩

end Fresh

end Activity
end Treewalk
