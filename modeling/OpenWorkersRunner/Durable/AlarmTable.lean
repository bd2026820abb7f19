import OpenWorkersRunner.Lib.Table
import OpenWorkersRunner.Durable.AlarmInvariant

/-!
# Durable Object alarms: the table

`Alarms.machine` is one object.  Here the objects stand together: `durable_object_alarms` is one
table, `claim` takes the earliest due rows of it in one statement, and a restart clears every mark.
-/

namespace OpenWorkersRunner.Alarms

abbrev ObjectRef := String × String

/-- `durable_object_alarms`. -/
abbrev Index := AList fun _ : ObjectRef => Row

structure State where
  index : Index
  parts : ObjectRef → Parts

namespace State

def view (s : State) (k : ObjectRef) : Obj := ⟨s.parts k, s.index.lookup k⟩

def put (s : State) (k : ObjectRef) (o : Obj) : State where
  index :=
    match o.row with
    | some row => s.index.insert k row
    | none => s.index.erase k
  parts := Function.update s.parts k o.toParts

@[simp] theorem view_put_self (s : State) (k : ObjectRef) (o : Obj) : (s.put k o).view k = o := by
  obtain ⟨parts, row⟩ := o
  cases row <;> simp [view, put]

theorem view_put_of_ne (s : State) {j k : ObjectRef} (h : j ≠ k) (o : Obj) :
    (s.put k o).view j = s.view j := by
  obtain ⟨parts, row⟩ := o
  cases row <;> simp [view, put, h]

end State

/-- Whether `taken` is an answer of the statement of `claim`: due rows, at most `limit`, and a due
row is left out only for `limit` rows that are no later. -/
def claimable (index : Index) (now : Int) (limit : Nat) (taken : List ObjectRef) : Bool :=
  decide taken.Nodup && decide (taken.length ≤ limit) &&
    (taken.all fun k => (index.lookup k).any (Row.due now)) &&
    index.entries.all fun e =>
      !e.2.due now || taken.contains e.1 ||
        (taken.length == limit && taken.all fun k =>
          (index.lookup k).all fun row => decide (row.scheduledAt ≤ e.2.scheduledAt))

inductive TableAct
  | obj (k : ObjectRef) (a : Act)
  | claim (now : Int) (limit : Nat) (taken : List ObjectRef)
  | restart

namespace State

def claimAll (s : State) (now : Int) : List ObjectRef → Option State
  | [] => some s
  | k :: taken => ((s.view k).claim now).bind fun o => (s.put k o).claimAll now taken

/-- `claim`. -/
def claim (s : State) (now : Int) (limit : Nat) (taken : List ObjectRef) : Option State :=
  if claimable s.index now limit taken then s.claimAll now taken else none

/-- `UPDATE durable_object_alarms SET delivering = false WHERE delivering`, in a new process. -/
def restart (s : State) : State where
  index := s.index.mapVal fun row => { row with delivering := false }
  parts := fun k => (s.view k).restart.toParts

def step (s : State) : TableAct → Option State
  | .obj _ (.claim _) => none
  | .obj _ .restart => none
  | .obj k a => ((s.view k).step a).map (s.put k)
  | .claim now limit taken => s.claim now limit taken
  | .restart => some s.restart

end State

def table : Machine State TableAct where
  init := ⟨∅, fun _ => Obj.empty.toParts⟩
  step := State.step

/-! ## Every object is in a state of its own -/

def Lift (ok : Obj → Act → Prop) (s : State) : TableAct → Prop
  | .obj k a => ok (s.view k) a
  | .claim now _ taken => ∀ k ∈ taken, ok (s.view k) (.claim now)
  | .restart => ∀ k, ok (s.view k) .restart

theorem State.view_restart (s : State) (k : ObjectRef) : s.restart.view k = (s.view k).restart := by
  simp [State.view, State.restart, Obj.restart]

variable {s : State}

theorem State.view_claimAll {s' : State} {now : Int} {taken : List ObjectRef} (hn : taken.Nodup)
    (h : s.claimAll now taken = some s') (k : ObjectRef) :
    if k ∈ taken then (s.view k).step (.claim now) = some (s'.view k)
    else s'.view k = s.view k := by
  induction taken generalizing s with
  | nil => cases h; simp
  | cons j taken ih =>
    obtain ⟨o, ho, ht⟩ := Option.bind_eq_some_iff.1 h
    rw [List.nodup_cons] at hn
    have ih := ih hn.2 ht
    by_cases hk : k = j
    · subst hk
      rw [if_neg hn.1, view_put_self] at ih
      rw [if_pos (List.mem_cons_self), ih]
      exact ho
    · rw [view_put_of_ne s hk] at ih
      simpa only [List.mem_cons, hk, false_or] using ih

theorem claimable_nodup {idx : Index} {now : Int} {lim : Nat} {taken : List ObjectRef}
    (h : claimable idx now lim taken = true) : taken.Nodup := by
  simp only [claimable, Bool.and_eq_true, decide_eq_true_eq] at h
  exact h.1.1.1

theorem State.view_step {ok : Obj → Act → Prop} {s' : State} {a : TableAct} (hok : Lift ok s a)
    (h : s.step a = some s') (k : ObjectRef) :
    s'.view k = s.view k ∨ ∃ b, ok (s.view k) b ∧ (s.view k).step b = some (s'.view k) := by
  cases a with
  | obj j a =>
    have hob : ((s.view j).step a).map (s.put j) = some s' := by
      cases a <;> first | exact h | cases h
    obtain ⟨o, ho, rfl⟩ := Option.map_eq_some_iff.1 hob
    by_cases hkj : k = j
    · subst hkj
      exact .inr ⟨a, hok, by rw [view_put_self]; exact ho⟩
    · exact .inl (view_put_of_ne s hkj o)
  | claim now lim taken =>
    simp only [State.step, State.claim] at h
    split at h
    · have hk := view_claimAll (claimable_nodup ‹_›) h k
      split at hk
      · exact .inr ⟨.claim now, hok k ‹_›, hk⟩
      · exact .inl hk
    · cases h
  | restart =>
    cases h
    exact .inr ⟨.restart, hok k, by rw [view_restart]; rfl⟩

/-- **Every object of a reachable state of the table is in a reachable state of its own.** -/
theorem reach_view {ok : Obj → Act → Prop} (h : table.Reach (Lift ok) s) (k : ObjectRef) :
    machine.Reach ok (s.view k) := by
  refine Machine.Reach.project (N := machine) (fun s => s.view k) ?_ (fun s a s' hok hs => ?_) h
  · simp [table, machine, State.view, Obj.empty]
  · exact State.view_step hok hs k

end OpenWorkersRunner.Alarms
