import OpenWorkersRunner.Lib.Counts
import OpenWorkersRunner.D1.ServiceStep

/-!
# D1: the length of the queue

`submit` counts a call in `waiting` before `run` and takes it off after it.  The second is a
statement after an await, so a caller that is dropped inside `run` leaves its count behind:
`waiting` is the number of calls in progress and of calls that were dropped (`balanced_of_reach`).
Once `max_queue` callers were dropped, every call is refused, with nothing in progress
(`callers_leave_their_count`).
-/

namespace OpenWorkersRunner.D1

open Function Option

variable {config : Config}

namespace Call

def inProgress (c : Call) : Bool :=
  match c.stage with
  | .refused | .queued | .locked | .opening | .running _ _ _ | .returned => true
  | _ => false

def dropped (c : Call) : Bool :=
  match c.stage with
  | .cancelled _ => true
  | _ => false

def counts (c : Call) : Bool := c.inProgress || c.dropped

def overloaded (c : Call) : Bool :=
  c.stage = .refused ||
    match c.result with
    | some (.error .overloaded _) => true
    | _ => false

inductive CountMove (c : Call) (x : Handle) (c' : Call) (x' : Handle) : Prop
  | kept (hc : c'.counts = c.counts) (hx : x'.waiting = x.waiting)
  | added (hc : c.counts = false) (hc' : c'.counts = true) (hx : x'.waiting = x.waiting + 1)
  | removed (hc : c.counts = true) (hc' : c'.counts = false) (hx : x'.waiting = x.waiting - 1)

variable {i : Nat} {c c' : Call} {x x' : Handle} {a : CallAct}

theorem counts_withJob (job : Job) :
    Call.counts { c with stage := c.stage.withJob job } = c.counts := by
  cases hst : c.stage <;> simp [counts, inProgress, dropped, Stage.withJob, hst]

theorem dropped_withJob (job : Job) :
    Call.dropped { c with stage := c.stage.withJob job } = c.dropped := by
  cases hst : c.stage <;> simp [dropped, Stage.withJob, hst]

theorem overloaded_withJob (job : Job) :
    Call.overloaded { c with stage := c.stage.withJob job } = c.overloaded := by
  cases hst : c.stage <;> simp [overloaded, Stage.withJob, hst]

theorem Step.countMove (h : c.Step config i x a c' x') : CountMove c x c' x' := by
  cases h with
  | counted hc => exact .added (by simp [counts, inProgress, dropped, hc]) rfl rfl
  | refused hc => exact .added (by simp [counts, inProgress, dropped, hc]) rfl rfl
  | refuse hc => exact .removed (by simp [counts, inProgress, hc]) rfl rfl
  | uncount hc => exact .removed (by simp [counts, inProgress, hc]) rfl rfl
  | endStatement ok hc => exact .kept (counts_withJob _) rfl
  | finish panicked hc => exact .kept (counts_withJob _) rfl
  | _ => exact .kept (by simp_all [counts, inProgress, dropped]) rfl

theorem Step.not_dropped (h : c.Step config i x a c' x') (hc : c.dropped = false)
    (ha : a ≠ .run .cancel) : c'.dropped = false := by
  cases h with
  | endStatement ok hj => rw [dropped_withJob]; exact hc
  | finish panicked hj => rw [dropped_withJob]; exact hc
  | cancelQueued hst => exact absurd rfl ha
  | cancelOpening hst => exact absurd rfl ha
  | cancelRunning hst => exact absurd rfl ha
  | _ => first | exact hc | rfl

/-- `Overloaded` is answered when the queue is full, and when the deadline passes while another call
holds the connection. -/
theorem Step.overloaded (h : c.Step config i x a c' x') (hc : c.overloaded = false)
    (hc' : c'.overloaded = true) :
    (c.stage = .entered ∧ config.maxQueue ≤ x.waiting) ∨ (c.stage = .queued ∧ x.guard ≠ none) := by
  cases h with
  | refused hst hf => exact .inl ⟨hst, hf⟩
  | expire hst hh => exact .inr ⟨hst, hh⟩
  | refuse hst => simp [Call.overloaded, hst] at hc
  | notOpened failure hst =>
    cases failure <;> simp [Call.overloaded, OpenFailure.done, internalError] at hc'
  | learn hst =>
    rename_i panicked
    cases panicked <;> simp [Call.overloaded, internalError] at hc'
  | endStatement ok hj =>
    rw [overloaded_withJob, hc] at hc'
    cases hc'
  | finish panicked hj =>
    rw [overloaded_withJob, hc] at hc'
    cases hc'
  | _ => simp_all [Call.overloaded]

theorem counts_of_guards (h : c.guards = true) : c.counts = true := by
  cases hst : c.stage <;> simp_all [guards, jobRuns, counts, inProgress, dropped, Stage.job]

end Call

namespace State

variable {s t : State} {taken : Key → Prop}

def live (p : Call → Bool) (s : State) (i : Nat) : Option Nat :=
  (s.calls i).bind fun c => if p c then some c.handle else none

def number (p : Call → Bool) (s : State) (h : Nat) : Nat := Counts.census (s.live p) s.called h

variable {i : Nat} {p : Call → Bool} {c : Call}

theorem live_eq_some {h : Nat} :
    s.live p i = some h ↔ ∃ c, s.calls i = some c ∧ p c = true ∧ c.handle = h := by
  simp [live, bind_eq_some_iff]

theorem number_congr {p q : Call → Bool} {h : Nat}
    (hp : ∀ i c, s.calls i = some c → c.handle = h → p c = q c) : s.number p h = s.number q h := by
  refine Counts.census_congr fun i => ?_
  rw [live_eq_some, live_eq_some]
  refine exists_congr fun c => and_congr_right fun hc => and_congr_left fun hh => ?_
  rw [hp i c hc hh]

theorem number_eq_zero {h : Nat} (hp : ∀ i c, s.calls i = some c → c.handle = h → p c = false) :
    s.number p h = 0 := by
  refine Counts.census_eq_zero fun i hi => ?_
  obtain ⟨c, hc, hpc, hh⟩ := live_eq_some.1 hi
  rw [hp i c hc hh] at hpc
  cases hpc

theorem live_of_update (p : Call → Bool) (ht : t.calls = update s.calls i (some c)) :
    t.live p = update (s.live p) i (if p c then some c.handle else none) := by
  funext j
  rw [live, ht]
  by_cases hj : j = i
  · subst hj
    rw [update_self, update_self, bind_some]
  · rw [update_of_ne hj, update_of_ne hj, live]

theorem live_self (hc : s.calls i = some c) : s.live p i = if p c then some c.handle else none := by
  rw [live, hc]
  rfl

section put

variable {p : Call → Bool} {i : Nat} {c c' : Call} (x' : Handle)

theorem number_put_kept (hc : s.calls i = some c) (hh : c'.handle = c.handle) (hp : p c' = p c) :
    (s.put i c' x').number p = s.number p := by
  funext h
  rw [number, live_of_update p rfl, hh, hp, ← live_self hc, update_eq_self]
  rfl

theorem number_put_added (hc : s.calls i = some c) (hi : i < s.called)
    (hh : c'.handle = c.handle) (hp : p c = false) (hp' : p c' = true) :
    (s.put i c' x').number p
      = update (s.number p) c.handle (s.number p c.handle + 1) := by
  have hl : s.live p i = none := by rw [live_self hc, hp]; rfl
  funext h
  rw [number, live_of_update p rfl, hh, if_pos hp']
  exact congrFun (Counts.census_add hi hl c.handle) h

theorem number_put_removed (hc : s.calls i = some c) (hi : i < s.called)
    (hp : p c = true) (hp' : p c' = false) :
    (s.put i c' x').number p
      = update (s.number p) c.handle (s.number p c.handle - 1) := by
  have hl : s.live p i = some c.handle := by rw [live_self hc, if_pos hp]
  funext h
  rw [number, live_of_update p rfl, if_neg (by rw [hp']; exact Bool.false_ne_true)]
  exact congrFun (Counts.census_end hi hl) h

end put

/-! ## What `waiting` counts -/

def Balanced (s : State) : Prop :=
  ∀ h x, s.handles h = some x → x.waiting = s.number Call.counts h

theorem Balanced.enter (hs : s.Balanced) (key : Key) (h : Nat) : (s.enter key h).Balanced := by
  intro g x hx
  -- a call that begins is not counted yet
  have hl : (s.enter key h).live Call.counts
      = update (s.live Call.counts) s.called none :=
    live_of_update (c := ⟨key, h, .entered, none⟩) Call.counts rfl
  rw [hs g x hx, number, number, hl]
  exact (congrFun (Counts.census_idle _ _) g).symm

theorem Balanced.create (hs : s.Balanced) (hw : s.Wired) (key : Key) (now : Nat) :
    (s.create key now).Balanced := by
  intro g x hx
  rcases update_some_eq_some hx with ⟨rfl, rfl⟩ | ⟨-, hx⟩
  · refine (number_eq_zero fun i c hc hh => ?_).symm
    obtain ⟨-, y, hy, -⟩ := hw.call hc
    have hlt := hw.handle hy
    omega
  · exact hs g x hx

theorem Balanced.put (hs : s.Balanced) (hw : s.Wired) {c' : Call} {x x' : Handle}
    (hc : s.calls i = some c) (hx : s.handles c.handle = some x) (hh : c'.handle = c.handle)
    (hm : Call.CountMove c x c' x') : (s.put i c' x').Balanced := by
  have hi := (hw.call hc).1
  have hold := hs c.handle x hx
  intro g y hy
  rcases handles_put hy with ⟨rfl, rfl⟩ | ⟨hne, hy⟩
  · rw [hh]
    cases hm with
    | kept hp hwa => rw [number_put_kept y hc hh hp, hwa, hold]
    | added hp hp' hwa =>
      rw [number_put_added y hc hi hh hp hp', update_self, hwa, hold]
    | removed hp hp' hwa =>
      rw [number_put_removed y hc hi hp hp', update_self, hwa, hold]
  · rw [hh] at hne
    cases hm with
    | kept hp _ => rw [number_put_kept x' hc hh hp, hs g y hy]
    | added hp hp' _ =>
      rw [number_put_added x' hc hi hh hp hp', update_of_ne hne, hs g y hy]
    | removed hp hp' _ =>
      rw [number_put_removed x' hc hi hp hp', update_of_ne hne, hs g y hy]

theorem Balanced.aside (hs : s.Balanced) (ht : s.Aside taken t) : t.Balanced := by
  intro h x' hx'
  obtain ⟨x, hx, hk⟩ := ht.handle_before hx'
  have hl : t.live Call.counts = s.live Call.counts := by
    funext i
    rw [live, live, ht.calls]
  rw [hk.waiting, hs h x hx, number, number, hl, ht.called]

/-- **`waiting` is the number of calls in progress and of calls whose caller was dropped.** -/
theorem balanced_of_reach {ok : State → Act → Prop} (hs : (machine config).Reach ok s) :
    s.Balanced :=
  invariant_of_reach (I := Balanced) (fun _ _ hx => (by cases hx)) (fun _ hr _ => hr.enter _ _)
    (fun now hw hr _ => hr.create hw _ now)
    (fun hr hb _ hc hx h => hb.put (wired_of_reach hr) hc hx h.keys.2.1 h.countMove)
    (fun _ hb _ ht => hb.aside ht) hs

/-! ## Without dropped callers -/

def keepsCallers (h : Nat) (s : State) : Act → Bool
  | .call i (.run .cancel) => (s.calls i).all fun c => c.handle != h
  | _ => true

theorem not_dropped_of_reach {h : Nat}
    (hs : (machine config).Reach (fun s a => s.keepsCallers h a = true) s) :
    ∀ i c, s.calls i = some c → c.handle = h → c.dropped = false := by
  refine invariant_of_reach
    (I := fun s => ∀ i c, s.calls i = some c → c.handle = h → c.dropped = false)
    (fun _ _ hc => (by cases hc)) (fun _ hr _ => ?_) (fun now _ hr _ => hr)
    (fun {s i act c c' x x'} _ hI hok hc _ hst => ?_) (fun _ hI _ ht => ?_) hs
  · intro i c hc hh
    rcases update_some_eq_some hc with ⟨-, rfl⟩ | ⟨-, hc⟩
    · rfl
    · exact hr i c hc hh
  · intro j d hd hh
    rcases update_some_eq_some hd with ⟨-, rfl⟩ | ⟨-, hd⟩
    · have hh' : c.handle = h := hst.keys.2.1.symm.trans hh
      refine hst.not_dropped (hI i c hc hh') fun hca => ?_
      rw [hca, keepsCallers, hc, all_some, hh'] at hok
      simp at hok
    · exact hI j d hd hh
  · intro i c hc
    rw [ht.calls] at hc
    exact hI i c hc

end State

/-- **`waiting` is exact** in the runs in which no caller of the handle is dropped: it is the number
of calls in progress, and a call is not refused with no other one in progress. -/
theorem waiting_exact (config : Config) (h : Nat) {s : State}
    (hs : (machine config).Reach (fun s a => s.keepsCallers h a = true) s) {x : Handle}
    (hx : s.handles h = some x) :
    x.waiting = s.number Call.inProgress h ∧
      (0 < config.maxQueue → ∀ i a c c' t, s.calls i = some c → c.handle = h →
        c.overloaded = false →
        (∀ j d, j ≠ i → s.calls j = some d → d.handle = h → d.inProgress = false) →
        (machine config).step s (.call i a) = some t → t.calls i = some c' →
        c'.overloaded = false) := by
  have hdropped := State.not_dropped_of_reach hs
  have hwait : x.waiting = s.number Call.inProgress h := by
    rw [State.balanced_of_reach hs h x hx]
    refine State.number_congr fun i c hc hh => ?_
    rw [Call.counts, hdropped i c hc hh, Bool.or_false]
  refine ⟨hwait, fun hq i a c c' t hc hh hover hother hstep hc' => ?_⟩
  by_contra hover'
  rw [Bool.not_eq_false] at hover'
  have hcase : (c.stage = .entered ∧ config.maxQueue ≤ x.waiting) ∨
      (c.stage = .queued ∧ x.guard ≠ none) := by
    have hmove : s.Step config (.call i a) t := State.step_of_eq hstep
    cases hmove with
    | call hc₀ hx₀ h₀ =>
      obtain rfl : c = _ := Option.mem_unique hc hc₀
      obtain rfl : x = _ := Option.some.inj (hx.symm.trans (hh ▸ hx₀))
      rw [State.calls_put_self, some_inj] at hc'
      exact h₀.overloaded hover (hc' ▸ hover')
    | thin ht =>
      rw [ht.calls, hc, some_inj] at hc'
      rw [← hc', hover] at hover'
      cases hover'
  rcases hcase with ⟨hst, hfull⟩ | ⟨hst, hheld⟩
  · -- the queue is full, with nobody in it
    have hzero : s.number Call.inProgress h = 0 := State.number_eq_zero fun j d hd hdh => by
      by_cases hj : j = i
      · subst hj
        obtain rfl : c = d := Option.mem_unique hc hd
        rw [Call.inProgress, hst]
      · exact hother j d hj hd hdh
    omega
  · -- the connection is held, and only a call in progress can hold it
    obtain ⟨j, hj⟩ := ne_none_iff_exists'.1 hheld
    obtain ⟨d, hd, hdh, hguard⟩ := (State.guarded_of_reach hs h x hx j).1 hj
    have hne : j ≠ i := by
      rintro rfl
      obtain rfl : c = d := Option.mem_unique hc hd
      rw [Call.guards, hst, Call.jobRuns, hst] at hguard
      cases hguard
    have hcount := Call.counts_of_guards hguard
    rw [Call.counts, hother j d hne hd hdh, hdropped j d hd hdh] at hcount
    cases hcount

def oneAfterAnother (k : Key) : List Act :=
  Act.submit k none 0 :: startJob 0 ++
    [Act.call 0 (.job (.finish false)), .call 0 (.run .learn), .call 0 (.submit .uncount),
      .submit k none 1]

theorem waiting_exact_one_after_another :
    ∃ s t x c', (machine ⟨1, 256, 300, false⟩).Reach (fun s a => s.keepsCallers 0 a = true) s ∧
      s.handles 0 = some x ∧ x.waiting = s.number Call.inProgress 0 ∧
      (machine ⟨1, 256, 300, false⟩).step s (.call 1 (.submit .count)) = some t ∧
      t.calls 1 = some c' ∧ c'.overloaded = false := by
  obtain ⟨s, hs, hp⟩ := Machine.exists_reach_of_runIf (M := machine ⟨1, 256, 300, false⟩)
    (State.keepsCallers 0) (fun _ _ _ h => h) (oneAfterAnother (.database 1))
    (fun s => (s.handles 0).isSome && s.called == 2 &&
      ((s.calls 0).all fun c => !c.inProgress) &&
      ((s.calls 1).any fun c => c.handle == 0 && !c.overloaded) &&
      (s.step ⟨1, 256, 300, false⟩ (.call 1 (.submit .count))).any fun t => (t.calls 1).isSome)
    (by decide)
  simp only [Bool.and_eq_true, any_eq_true, isSome_iff_exists, beq_iff_eq] at hp
  obtain ⟨⟨⟨⟨⟨x, hx⟩, hcalled⟩, hfirst⟩, c, hc, hh, hover⟩, t, ht, c', hc'⟩ := hp
  obtain ⟨hwait, hroom⟩ := waiting_exact _ 0 hs hx
  refine ⟨s, t, x, c', hs, hx, hwait, ht, hc', ?_⟩
  refine hroom (by decide) 1 (.submit .count) c c' t hc hh (by simpa using hover) ?_ ht hc'
  intro j d hj hd _
  have hlt := ((State.wired_of_reach hs).call hd).1
  obtain rfl : j = 0 := by omega
  rw [hd, all_some, Bool.not_eq_true'] at hfirst
  exact hfirst

def droppedBefore (k : Key) : List Act :=
  Act.submit k none 0 :: startJob 0 ++
    [Act.call 0 (.run .cancel), .call 0 (.job (.finish false)), .submit k none 1]

/-- **A caller that was dropped leaves its count**, and with a queue of one the next call is refused
though nothing is in progress. -/
theorem callers_leave_their_count :
    (¬ ∀ config s h x, (machine config).Reachable s → s.handles h = some x →
      x.waiting = s.number Call.inProgress h) ∧
    ¬ ∀ config s, 0 < config.maxQueue → (machine config).Reachable s →
      ∀ i a c c' t, s.calls i = some c → c.overloaded = false →
        (∀ j d, j ≠ i → s.calls j = some d → d.handle = c.handle → d.inProgress = false) →
        (machine config).step s (.call i a) = some t → t.calls i = some c' →
        c'.overloaded = false := by
  obtain ⟨s, hs, hp⟩ := (machine ⟨1, 256, 300, false⟩).exists_of_run (droppedBefore (.database 1))
    (fun s => ((s.handles 0).any fun x => x.waiting != s.number Call.inProgress 0) &&
      s.called == 2 && ((s.calls 0).all fun c => !c.inProgress) &&
      ((s.calls 1).any fun c => !c.overloaded) &&
      (s.step ⟨1, 256, 300, false⟩ (.call 1 (.submit .count))).any fun t =>
        (t.calls 1).any fun c => c.overloaded) (by decide)
  simp only [Bool.and_eq_true, any_eq_true, beq_iff_eq, bne_iff_ne] at hp
  obtain ⟨⟨⟨⟨⟨x, hx, hwait⟩, hcalled⟩, hfirst⟩, c, hc, hover⟩, t, ht, c', hc', hover'⟩ := hp
  refine ⟨fun h => hwait (h _ s 0 x hs hx), fun h => ?_⟩
  have hnot := h _ s (by decide) hs 1 (.submit .count) c c' t hc (by simpa using hover)
    (fun j d hj hd _ => ?_) ht hc'
  · rw [hover'] at hnot
    cases hnot
  · have hlt := ((State.wired_of_reach hs).call hd).1
    obtain rfl : j = 0 := by omega
    rw [hd, all_some, Bool.not_eq_true'] at hfirst
    exact hfirst

end OpenWorkersRunner.D1
