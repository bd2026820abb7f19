import OpenWorkersRunner.Durable.AlarmRetries

/-!
# The count a new alarm starts with

The count of failed runs belongs to an alarm, but it is kept in the index row, which outlives the
alarm: `lower` keeps it, and it is the `follow` at the end of `set` that puts it back to zero.
-/

namespace OpenWorkersRunner.Alarms

open Function Option

/-! ## Who holds the lock -/

def Obj.LockOfCall (o : Obj) : Prop := ∀ i, o.lock = some i → o.calls i ≠ none

variable {o o' : Obj}

theorem Obj.LockOfCall.goto {i : Nat} {c : Call} (h : o.LockOfCall)
    (hcl : o'.calls = update o.calls i (some c))
    (hlo : o'.lock = o.lock ∨ o'.lock = some i) : o'.LockOfCall := by
  intro j hj
  rw [hcl]
  by_cases hji : j = i
  · subst hji
    rw [update_self]
    exact some_ne_none c
  · rw [update_of_ne hji]
    rcases hlo with hl | hl
    · exact h j (hl.symm.trans hj)
    · exact absurd (mem_unique hj hl) hji

theorem Obj.LockOfCall.done {i : Nat} (h : o.LockOfCall) (hcl : o'.calls = update o.calls i none)
    (hl : o'.lock = if o.lock = some i then none else o.lock) : o'.LockOfCall := by
  intro j hj
  rw [hl] at hj
  split at hj
  · cases hj
  next hi =>
    have hji : j ≠ i := by
      rintro rfl
      exact hi hj
    rw [hcl, update_of_ne hji]
    exact h j hj

theorem Obj.Step.lockOfCall {a : Act} (hs : o.Step a o') (h : o.LockOfCall) : o'.LockOfCall := by
  cases hs with
  | lowerFails hc | writeFails hc | follow hc | followFails hc | stopSet hc | settle hc
  | settleFails hc =>
    exact h.done rfl rfl
  | restart => exact fun i hi => by cases hi
  | acquireSet hl hc | acquireEnded hl hc | acquirePending hl hc => exact h.goto rfl (.inr rfl)
  | beginSet atMs => exact h.goto rfl (.inl rfl)
  | claim hr hd => exact h.goto rfl (.inl rfl)
  | lower hc | writeSome hc | writeNone hc | read hc | readFails hc | clear hc | clearFails hc =>
    exact h.goto rfl (.inl rfl)
  | lookup x hc | endRun x hc | reread x hc => exact h.goto rfl (.inl rfl)

theorem lockOfCall_of_reach {ok : Obj → Act → Prop} (h : machine.Reach ok o) : o.LockOfCall := by
  refine h.invariant (I := Obj.LockOfCall) (fun i hi => ?_) fun o a o' _ hi _ hs =>
    (Obj.step_of_eq hs).lockOfCall hi
  cases hi

theorem Obj.LockOfCall.lock_eq_none (h : o.LockOfCall) (hq : o.Quiet) : o.lock = none := by
  cases hl : o.lock with
  | none => rfl
  | some i => exact absurd (hq i) (h i hl)

/-! ## What brings no count back -/

/-- A delivery that brings no count of failed runs to the alarm `t`: it has none, or it has run
another alarm and will find `t` in the file. -/
def Delivery.Fresh (t : Int) (d : Delivery) : Prop :=
  match d.phase with
  | .started | .found => d.retryCount = 0
  | .running atMs => atMs = t → d.retryCount = 0
  | .ended atMs _ | .reading atMs _ => atMs ≠ t
  | .pending alarm _ | .settling alarm _ => ∀ s count, alarm = some (s, count) → count = 0
  | .clearing _ => False

/-- The steps after the alarm `t` was set, until its first run ends: nobody writes the file, it can
be read again after a run, and a delivery with failed runs behind it is not refused. -/
def setStays (t : Int) (o : Obj) : Act → Bool
  | .write _ ok => !ok
  | .reread _ ok _ => ok
  | .endRun i outcome _ =>
    match o.calls i with
    | some (.deliver d) =>
      if outcome = .refused then d.retryCount = 0 else d.phase ≠ .running t
    | _ => true
  | _ => true

structure Unfailed (t : Int) (o : Obj) : Prop where
  file : o.file = some t
  row : ∀ r, o.row = some r → r.retryCount = 0
  fresh : ∀ i d, o.calls i = some (.deliver d) → d.Fresh t

theorem lower_retryCount {row : Option Row} {atMs : Int}
    (h : ∀ r, row = some r → r.retryCount = 0) : (lower row atMs).retryCount = 0 := by
  cases row with
  | none => rfl
  | some r => exact h r rfl

theorem follow_retryCount {row : Option Row} {alarm : Option (Int × Nat)} {underWay : UnderWay}
    {r : Row} (h : ∀ s count, alarm = some (s, count) → count = 0)
    (hr : follow row alarm underWay = some r) : r.retryCount = 0 := by
  cases alarm with
  | none => cases hr
  | some x =>
    obtain ⟨s, count⟩ := x
    obtain rfl := h s count rfl
    cases row <;> cases hr <;> rfl

section Step

variable {t : Int} {o o' : Obj} {i : Nat}

theorem Unfailed.goto {c : Call} (h : Unfailed t o)
    (hcl : o'.calls = update o.calls i (some c)) (hf : o'.file = o.file)
    (hro : ∀ r, o'.row = some r → r.retryCount = 0)
    (hc : ∀ d, c = .deliver d → d.Fresh t) : Unfailed t o' := by
  refine ⟨hf.trans h.file, hro, fun j d hj => ?_⟩
  rw [hcl] at hj
  by_cases hji : j = i
  · subst hji
    rw [update_self] at hj
    exact hc d (some.inj hj)
  · rw [update_of_ne hji] at hj
    exact h.fresh j d hj

theorem Unfailed.done (h : Unfailed t o) (hcl : o'.calls = update o.calls i none)
    (hf : o'.file = o.file) (hro : ∀ r, o'.row = some r → r.retryCount = 0) :
    Unfailed t o' := by
  refine ⟨hf.trans h.file, hro, fun j d hj => ?_⟩
  rw [hcl] at hj
  by_cases hji : j = i
  · subst hji
    rw [update_self] at hj
    cases hj
  · rw [update_of_ne hji] at hj
    exact h.fresh j d hj

theorem Unfailed.deliver {d' : Delivery} (h : Unfailed t o) (hd : d'.Fresh t) :
    Unfailed t (o.goto i (.deliver d')) :=
  h.goto rfl rfl h.row fun d hd' => by cases hd'; exact hd

/-- **A step keeps the new alarm without a failed run**, until its first run ends. -/
theorem Unfailed.step {a : Act} (h : Unfailed t o) (hok : setStays t o a = true)
    (hs : o.Step a o') : Unfailed t o' := by
  cases hs with
  | beginSet atMs => exact h.goto rfl rfl h.row fun d hd => by cases hd
  | acquireSet hl hc => exact h.goto rfl rfl h.row fun d hd => by cases hd
  | acquireEnded hl hc | acquirePending hl hc =>
    have hf := h.fresh _ _ hc
    exact h.goto rfl rfl h.row fun d hd => by cases hd; exact hf
  | lower hc =>
    refine h.goto rfl rfl (fun r hr => ?_) fun d hd => by cases hd
    cases hr
    exact lower_retryCount h.row
  | writeSome hc | writeNone hc => cases hok
  | lowerFails hc | writeFails hc | followFails hc | stopSet hc | settleFails hc =>
    exact h.done rfl rfl h.row
  | @follow i atMs hc =>
    refine h.done rfl rfl fun r hr => follow_retryCount (fun s count ha => ?_) hr
    cases atMs <;> cases ha
    rfl
  | settle hc =>
    exact h.done rfl rfl fun r hr => follow_retryCount (h.fresh _ _ hc) hr
  | @claim now row hr hd =>
    refine h.goto rfl rfl (fun r hr' => ?_) fun d hd => ?_
    · cases hr'
      exact h.row row hr
    · cases hd
      exact congrArg Int.toNat (h.row row hr)
  | lookup ans hc =>
    have hcn : _ = 0 := h.fresh _ _ hc
    refine h.deliver ?_
    cases ans with
    | found => exact hcn
    | gone => exact fun s count ha => by cases ha
    | failed => exact fun s count ha => by cases ha; exact hcn
  | @read i n seen nowMs hc =>
    have hcn : n = 0 := h.fresh _ _ hc
    refine h.deliver ?_
    rw [h.file]
    by_cases hle : t ≤ nowMs
    · simp only [hle, if_true]
      exact fun _ => hcn
    · simp only [hle, if_false]
      exact fun s count ha => by cases ha; exact hcn
  | readFails hc =>
    have hcn : _ = 0 := h.fresh _ _ hc
    exact h.deliver fun s count ha => by cases ha; exact hcn
  | @endRun i n seen atMs nowMs out hc =>
    simp only [setStays, hc] at hok
    refine h.deliver ?_
    cases out with
    | refused => exact fun s count ha => by cases ha; exact of_decide_eq_true hok
    | ok | failed =>
      rintro rfl
      exact of_decide_eq_true hok rfl
  | @reread i n seen atMs nowMs failed ok hc =>
    have hne : t ≠ atMs := fun heq => h.fresh _ _ hc heq.symm
    obtain rfl : ok = true := hok
    refine h.deliver ?_
    -- the delivery finds `t`, which is not the alarm it ran
    simp only [if_true, h.file, next, ne_eq, hne, not_false_eq_true]
    exact fun s count ha => by cases ha; rfl
  | clear hc | clearFails hc => exact (h.fresh _ _ hc).elim
  | restart =>
    refine ⟨h.file, fun r hr => ?_, fun j d hj => by cases hj⟩
    obtain ⟨r', hr', rfl⟩ := map_eq_some_iff.1 hr
    exact h.row r' hr'

end Step

/-- **A new alarm starts with no failed run**, under a condition.  Say `set` comes to the end of
setting the alarm `t`, the `follow` is written or finds no failed run in the row, and no delivery in
progress brings a count (`Delivery.Fresh`).  Then, as long as the alarm stays and no run of it has
ended (`setStays`), whoever runs it is given the retry count 0; and once it waits in the index with
no call in progress, it gets `MAX_RETRIES + 1` runs before it is dropped (`Counted`). -/
theorem new_alarm_first_run {o o₁ o₂ : Obj} {i : Nat} {t : Int} {ok : Bool}
    (h : machine.Reachable o) (hc : o.calls i = some (.set (some t) .written))
    (hfollow : ok = false → ∀ r, o.row = some r → r.retryCount = 0)
    (hfresh : ∀ j d, o.calls j = some (.deliver d) → d.Fresh t)
    (h₁ : machine.step o (.follow i ok) = some o₁)
    (h₂ : (machine.startAt o₁).Reach (fun o a => setStays t o a = true) o₂) :
    (∀ j d, o₂.calls j = some (.deliver d) → d.phase = .running t → d.retryCount = 0) ∧
      (o₂.Quiet → ∀ r, o₂.row = some r → r.delivering = false →
        ∀ (as : List Act) (w : Watched), (∀ a ∈ as, a.fails = true) →
          watched.run ⟨o₂, ⟨[], [], []⟩⟩ as = some w → Counted t as w) := by
  have hfile : o.file = some t := ((inv_of_reach h).ok _ _ hc).1
  have hs : o.Step (.follow i ok) o₁ := Obj.step_of_eq h₁
  have hstr : Unfailed t o₁ := by
    have hold : ∀ {o' : Obj}, o'.calls = Function.update o.calls i none →
        ∀ j d, o'.calls j = some (.deliver d) → d.Fresh t := by
      intro o' hclosed j d hj
      rw [hclosed] at hj
      by_cases hji : j = i
      · subst hji
        rw [update_self] at hj
        cases hj
      · rw [update_of_ne hji] at hj
        exact hfresh j d hj
    cases hs with
    | @follow _ atMs hc' =>
      refine ⟨hfile, fun r hr => follow_retryCount (fun s count hal => ?_) hr, hold rfl⟩
      cases atMs <;> cases hal
      rfl
    | followFails hc' => exact ⟨hfile, hfollow rfl, hold rfl⟩
  have hend : Unfailed t o₂ ∧ o₂.LockOfCall := by
    refine h₂.invariant (I := fun o => Unfailed t o ∧ o.LockOfCall)
      ⟨hstr, hs.lockOfCall (lockOfCall_of_reach h)⟩ ?_
    intro o a o' _ hi hok hs
    have hs' : o.Step a o' := Obj.step_of_eq hs
    exact ⟨hi.1.step hok hs', hs'.lockOfCall hi.2⟩
  refine ⟨fun j d hj hrun => ?_, fun hq r hr hd as w ha hw => ?_⟩
  · have hd := hend.1.fresh j d hj
    rw [Delivery.Fresh, hrun] at hd
    exact hd rfl
  · obtain ⟨s, count, delivering⟩ := r
    obtain rfl : count = 0 := hend.1.row _ hr
    obtain rfl : delivering = false := hd
    exact counted_of_quiet hq (hend.2.lock_eq_none hq) hend.1.file hr ha hw

def failsOnce : List Act :=
  [.beginSet (some 10), .acquire 0, .lower 0 true, .write 0 true, .follow 0 true] ++
    failedRun 1 20 ++ [.settle 1 true]

def setWritten (i : Nat) (t : Int) : List Act :=
  [.beginSet (some t), .acquire i, .lower i true, .write i true]

def setInSecondRun : List Act :=
  failsOnce ++ [.claim 2020, .lookup 2 .found 2020, .read 2 true 2020] ++ setWritten 3 5000

def newAlarmRuns : List Act :=
  [.endRun 2 .failed 2030, .acquire 2, .reread 2 true 2030, .settle 2 true, .claim 5000,
    .lookup 4 .found 5000, .read 4 true 5000]

theorem new_alarm_first_run_zero :
    ∃ o o₁ o₂ d, machine.Reachable o ∧ machine.step o (.follow 3 true) = some o₁ ∧
      (machine.startAt o₁).Reach (fun o a => setStays 5000 o a = true) o₂ ∧
      o₂.calls 4 = some (.deliver d) ∧ d.phase = .running 5000 ∧ d.retryCount = 0 := by
  obtain ⟨o, ho, hc, hcount, hc₀, hc₁, hc₂, hstep⟩ := machine.exists_of_run setInSecondRun
    (fun o => o.calls 3 = some (.set (some 5000) .written) ∧ o.count = 4 ∧ o.calls 0 = none ∧
      o.calls 1 = none ∧ o.calls 2 = some (.deliver ⟨1, some 10, .running 10⟩) ∧
      (machine.step o (.follow 3 true)).any fun o₁ : Obj =>
        ((machine.startAt o₁).runIf (setStays 5000) o₁ newAlarmRuns).any fun o₂ : Obj =>
          o₂.calls 4 = some (.deliver ⟨0, some 5000, .running 5000⟩)) (by decide +kernel)
  obtain ⟨o₁, h₁, hrun⟩ := (any_eq_true _ _).mp hstep
  obtain ⟨o₂, h₂, hcall⟩ := Machine.exists_reach_of_runIf (M := machine.startAt o₁)
    (setStays 5000) (fun _ _ _ h => h) newAlarmRuns _ hrun
  have hfr : ∀ j d, o.calls j = some (.deliver d) → d.Fresh 5000 := by
    intro j d hj
    have hlt := (inv_of_reach ho).lt _ _ hj
    rw [hcount] at hlt
    rcases j with _ | _ | _ | _ | j
    · rw [hc₀] at hj; cases hj
    · rw [hc₁] at hj; cases hj
    · rw [hc₂] at hj; cases hj; exact fun h => absurd h (by decide)
    · rw [hc] at hj; cases hj
    · omega
  have h := new_alarm_first_run ho hc (fun h => by cases h) hfr h₁ h₂
  exact ⟨o, o₁, o₂, _, ho, h₁, h₂, hcall, rfl, h.1 4 _ hcall rfl⟩

def sixRuns (i : Nat) : List Act :=
  List.flatten [
    failedRun i 6000, [.settle i true], failedRun (i + 1) 10000, [.settle (i + 1) true],
    failedRun (i + 2) 20000, [.settle (i + 2) true], failedRun (i + 3) 40000,
    [.settle (i + 3) true], failedRun (i + 4) 80000, [.settle (i + 4) true],
    failedRun (i + 5) 150000, [.clear (i + 5) true 150000, .settle (i + 5) true]]

/-- A delivery of the alarm that failed once is refused; before it settles, the alarm 5000 is
set. -/
def setAfterRefusal : List Act :=
  failsOnce ++ [.claim 2020, .lookup 2 .found 2020, .read 2 true 2020, .endRun 2 .refused 2020] ++
    setWritten 3 5000

/-- A new alarm is run first with the retry count 1, and is dropped after six runs, from where
`set` has written it and goes on to `follow`, which succeeds or not. -/
def InheritsCount (ok : Bool) : Prop :=
  ∃ (w₁ w₂ : Watched) (i : Nat) (as : List Act), watched.Reachable w₁ ∧
    w₁.obj.calls i = some (.set (some 5000) .written) ∧ (∀ a ∈ as, a.fails = true) ∧
    watched.run w₁ (.follow i ok :: as) = some w₂ ∧
    w₂.log.given = w₁.log.given ++ [1, 2, 3, 4, 5, 6] ∧ w₂.obj.file = none ∧ w₂.obj.row = none

theorem inheritsCount_of_run {ok : Bool} (start : List Act) (i : Nat) (as : List Act)
    (h : ((watched.run watched.init start).any fun w1 =>
      w1.obj.calls i = some (.set (some 5000) .written) ∧ (∀ a ∈ as, a.fails = true) ∧
      (watched.run w1 (.follow i ok :: as)).any fun w2 =>
        w2.log.given = w1.log.given ++ [1, 2, 3, 4, 5, 6] ∧ w2.obj.file = none ∧
          w2.obj.row = none) = true) : InheritsCount ok := by
  obtain ⟨w1, hw1, hc, hf, hen⟩ := watched.exists_of_run start _ h
  obtain ⟨w2, hw2, hen⟩ := (any_eq_true _ _).1 hen
  exact ⟨w1, w2, i, as, hw1, hc, hf, hw2, of_decide_eq_true hen⟩

theorem new_alarm_inherits_count : InheritsCount false ∧ InheritsCount true := by
  constructor
  · exact inheritsCount_of_run (failsOnce ++ setWritten 2 5000) 2 (sixRuns 3) (by decide +kernel)
  · exact inheritsCount_of_run setAfterRefusal 3 ([.acquire 2, .settle 2 true] ++ sixRuns 4)
      (by decide +kernel)

end OpenWorkersRunner.Alarms
