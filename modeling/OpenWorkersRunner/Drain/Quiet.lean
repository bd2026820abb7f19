import OpenWorkersRunner.Drain.Wakeups

/-!
# What still runs at the final snapshots

`main` calls `d1::shutdown` once the shutdown message is there: "no call writes anymore, so this
snapshot holds every commit".  The message is sent by who reads zero permits, and work can start
without having had one then: a request between its drain check and its permit, a cron between that
of `dispatch` and its permit, an event of a Durable Object, an alarm that was claimed.
-/

namespace OpenWorkersRunner.Drain

open List Parties Option

def Task.runs : Task → Bool
  | .running _ => true
  | _ => false

def Call.runs : Call → Bool
  | .spawned _ task => task.runs
  | _ => false

def Call.pending : Call → Bool
  | .checked _ => true
  | _ => false

def Call.still : Call → Bool
  | .leaving _ _ => true
  | .spawned _ task => !task.runs
  | _ => false

theorem Call.not_runs_of_still (c : Call) (h : c.still = true) : c.runs = false := by
  cases c <;> simp_all [Call.still, Call.runs]

structure Objects.Quiet (o : Objects) : Prop where
  queued : o.queued = 0
  serving : o.serving = 0
  accepting : o.accepting = 0
  opened : o.opened = 0

structure Alarms.Quiet (m : Alarms) : Prop where
  loop : m.loop ≠ .claiming
  loading : m.loading = 0
  delivering : m.delivering = 0

structure Quiet (s : State) : Prop where
  draining : s.draining = true
  calls : ∀ c ∈ s.calls, c.still = true
  objects : s.objects.Quiet
  alarms : s.alarms.Quiet
  scheduler : s.scheduler ≠ .dispatching

/-! ## Quiet is for good -/

theorem Call.still_step {free : Kind → Bool} {c c' : Call} {act : CallAct}
    (h : c.step free act = some c') (hst : c.still = true) :
    c'.still = true ∧ act ≠ .callObject := by
  revert h hst
  fun_cases Call.step free c act <;> rintro ⟨⟩
  all_goals simp [Call.still, Task.runs]

theorem Objects.Quiet.step {free : Kind → Bool} {o o' : Objects} {act : ObjectAct}
    (hq : o.Quiet) (h : o.step free act = some o') : o'.Quiet := by
  obtain ⟨hqd, hse, ha, ho⟩ := hq
  cases act with
  | notify =>
    simp only [Objects.step, ite_none_right_eq_some, some.injEq] at h
    obtain ⟨-, rfl⟩ := h
    exact ⟨hqd, hse, ha, ho⟩
  | serve | drop | finish | call | frame | accept | opened | refuse | close =>
    simp [Objects.step, hqd, hse, ha, ho] at h

theorem Alarms.Quiet.step {stopped : Bool} {m m' : Alarms} {act : AlarmAct}
    (hq : m.Quiet) (h : m.step true stopped act = some m') : m'.Quiet ∧ act ≠ .post := by
  obtain ⟨hlo, hl, hd⟩ := hq
  cases act with
  | poll | wake | stop =>
    simp only [Alarms.step, ite_none_right_eq_some, some.injEq] at h
    obtain ⟨-, rfl⟩ := h
    exact ⟨⟨by simp, hl, hd⟩, by simp⟩
  | claim | post | skip | settle => simp [Alarms.step, hlo, hl, hd] at h

theorem Scheduler.quiet_step {stopped free : Bool} {m m' : Scheduler} {act : SchedulerAct}
    (h : m.step true stopped free act = some m') : m' ≠ .dispatching := by
  cases m <;> cases act <;> simp [Scheduler.step] at h <;> simp [← h]

variable {a : Action} {limits : Limits} {s t : State} {m : Monitor}

theorem Quiet.step (hq : Quiet s) (h : Step limits s a t) : Quiet t := by
  cases h with
  | drain => exact ⟨rfl, hq.calls, hq.objects, hq.alarms, hq.scheduler⟩
  | caller | monitor | main => exact ⟨hq.draining, hq.calls, hq.objects, hq.alarms, hq.scheduler⟩
  | refused => exact hq
  | request hse => simp [hq.draining] at hse
  | @call i act c next hc hn =>
    obtain ⟨hst, hac⟩ := Call.still_step hn (hq.calls c (mem_of_getElem? hc))
    refine ⟨hq.draining, forall_mem_set hq.calls hst, ?_, hq.alarms, hq.scheduler⟩
    simpa [Objects.withEvent, hac] using hq.objects
  | object hn => exact ⟨hq.draining, hq.calls, hq.objects.step hn, hq.alarms, hq.scheduler⟩
  | @alarm act next hn =>
    rw [hq.draining] at hn
    obtain ⟨ha, hac⟩ := hq.alarms.step hn
    refine ⟨hq.draining, hq.calls, ?_, ha, hq.scheduler⟩
    simpa [Objects.withEvent, hac] using hq.objects
  | cron hd => exact absurd hd hq.scheduler
  | scheduler hac hn =>
    rw [hq.draining] at hn
    exact ⟨hq.draining, hq.calls, hq.objects, hq.alarms, Scheduler.quiet_step hn⟩

/-! ## Who reads zero -/

def Decides (s : State) : Action → Prop
  | .caller j => s.callers[j]? = some (.counted 0) ∧ s.sockets = 0
  | .monitor => s.monitor = .counted 0 ∧ s.sockets = 0
  | _ => False

/-- Nothing is under way: no permit was taken since they were counted, and nothing goes on without
one, no request and no cron between its drain check and its permit, no event of an object, no
alarm. -/
structure NothingUnderWay (s : State) : Prop where
  permits : s.permits = 0
  calls : ∀ c ∈ s.calls, c.pending = false
  queued : s.objects.queued = 0
  serving : s.objects.serving = 0
  alarms : s.alarms.Quiet
  scheduler : s.scheduler ≠ .dispatching

def ReadsTrue (s : State) (a : Action) : Prop := Decides s a → NothingUnderWay s

theorem Call.still_of_permits {c : Call} (hp : c.permits = 0) (hpn : c.pending = false) :
    c.still = true := by
  obtain ⟨hw, hsk⟩ := Nat.add_eq_zero_iff.mp hp
  cases c with
  | checked => cases hpn
  | admitted | failed => cases hw
  | leaving => rfl
  | spawned handler task =>
    match task with
    | .running .worker => cases hw
    | .running .socket => cases hsk
    | .released | .ended => rfl

theorem NothingUnderWay.quiet (h : NothingUnderWay s) (hd : s.draining = true) :
    Quiet s := by
  have hp := h.permits
  rw [State.permits_eq, Objects.sockets] at hp
  refine ⟨hd, fun c hc => ?_, ⟨h.queued, h.serving, by omega, by omega⟩, h.alarms, h.scheduler⟩
  have hle := le_total Call.permits hc
  exact Call.still_of_permits (by omega) (h.calls c hc)

def Decided (s : State) : Prop :=
  s.sent = true ∨ .sending ∈ s.callers ∨ s.monitor = .sending

theorem Monitor.notifyIf_eq_sending {notifies : Bool} :
    m.notifyIf notifies = .sending ↔ m = .sending := by
  cases m <;> cases notifies <;> simp [Monitor.notifyIf, Monitor.notify]

theorem Monitor.Moves.eq_counted {draining : Bool} {workers sockets : ℕ}
    (h : m.Moves draining workers sockets .sending) : m = .counted 0 ∧ sockets = 0 := by
  cases h with
  | decides hre hsk => exact ⟨hre ▸ rfl, hsk⟩

theorem decided_of_step (h : Step limits s a t) (hd : Decided t) :
    Decided s ∨ Decides s a := by
  cases h with
  | drain => exact .inl (by simpa [Decided] using hd)
  | @caller j c next hc hn =>
    rcases hd with hse | hca | hm
    · rcases (Bool.or_eq_true _ _).mp hse with hse | hsent
      · exact .inl (.inl hse)
      · obtain rfl : c = .sending := by simpa using hsent
        exact .inl (.inr (.inl (mem_of_getElem? hc)))
    · rcases mem_or_eq_of_mem_set hca with hme | rfl
      · exact .inl (.inr (.inl hme))
      · cases hn with
        | decides hre hsk => exact .inr ⟨hre ▸ hc, hsk⟩
    · exact .inl (.inr (.inr hm))
  | @monitor next hn =>
    rcases hd with hse | hca | hm
    · rcases (Bool.or_eq_true _ _).mp hse with hse | hsent
      · exact .inl (.inl hse)
      · exact .inl (.inr (.inr (by simpa using hsent)))
    · exact .inl (.inr (.inl hca))
    · obtain rfl : next = .sending := hm
      exact .inr hn.eq_counted
  | call | object =>
    simp only [Decided, Monitor.notifyIf_eq_sending] at hd
    exact .inl hd
  | refused | request | alarm | cron | scheduler | main => exact .inl hd

/-! ## Runs -/

def Monitor.counts : Monitor → Bool
  | .counting | .counted _ => true
  | _ => false

theorem Monitor.counts_notifyIf (m : Monitor) (notifies : Bool) :
    (m.notifyIf notifies).counts = m.counts := by
  cases m <;> cases notifies <;> rfl

theorem Monitor.Moves.counts_or {next : Monitor} {draining : Bool} {workers sockets : ℕ}
    (h : m.Moves draining workers sockets next) (hco : next.counts = true) :
    m.counts = true ∨ draining = true := by
  cases h with
  | starts hd => exact .inr hd
  | counts => exact .inl rfl
  | creates | wakes | ignores | decides | leaves | sends => cases hco

/-- What holds in every run in which whoever reads zero finds nothing under way. -/
structure Settled (s : State) : Prop where
  quiet : Decided s → Quiet s
  draining : s.callers ≠ [] ∨ s.monitor.counts = true → s.draining = true
  main : s.main ≠ .serving → s.sent = true

theorem Settled.draining_of_decides (hs : Settled s) (h : Decides s a) : s.draining = true := by
  cases a with
  | caller j =>
    refine hs.draining (.inl ?_)
    intro hn
    simp [Decides, hn] at h
  | monitor => exact hs.draining (.inr (by rw [h.1]; rfl))
  | drain | request | call | object | alarm | scheduler | main => cases h

theorem Settled.step (hs : Settled s) (hok : ReadsTrue s a) (h : Step limits s a t) :
    Settled t := by
  refine ⟨fun hd => ?_, ?_, ?_⟩
  · rcases decided_of_step h hd with hbe | hde
    · exact (hs.quiet hbe).step h
    · exact ((hok hde).quiet (hs.draining_of_decides hde)).step h
  · cases h with
    | drain => exact fun _ => rfl
    | caller => exact fun hco => hs.draining (hco.imp_left (by simp))
    | monitor hn =>
      rintro (hca | hco)
      · exact hs.draining (.inl hca)
      · exact (hn.counts_or hco).elim (fun h => hs.draining (.inr h)) id
    | call | object =>
      simp only [Monitor.counts_notifyIf]
      exact hs.draining
    | refused | request | alarm | cron | scheduler | main => exact hs.draining
  · cases h with
    | caller | monitor => exact fun hm => by simp [hs.main hm]
    | @main next hn =>
      intro _
      cases hm : s.main with
      | serving => exact (by simpa [Main.step, hm] using hn : s.sent = true ∧ _).1
      | stopping | closing | final => exact hs.main (by simp [hm])
    | drain | refused | request | call | object | alarm | cron | scheduler => exact hs.main

/-- **Nothing runs at the final snapshots, where whoever reads zero finds nothing under way.** -/
theorem nothing_runs_at_final {limits : Limits} {s : State}
    (hs : (machine limits).Reach ReadsTrue s) (hfinal : s.main = .final) :
    (∀ c ∈ s.calls, c.runs = false) ∧ s.objects.queued = 0 ∧ s.objects.serving = 0 := by
  have hset : Settled s := by
    refine hs.invariant ⟨?_, ?_, nofun⟩ fun _ _ _ _ hs hok h => hs.step hok (step_eq h)
    · simp [machine, start, Decided]
    · simp [machine, start, Monitor.counts]
  have hqt := hset.quiet (.inl (hset.main (by simp [hfinal])))
  exact ⟨fun c hc => c.not_runs_of_still (hqt.calls c hc), hqt.objects.queued, hqt.objects.serving⟩

def toFinal : List Action := [.main, .scheduler .tick, .main, .main]

def lateRequest : List Action :=
  [Action.request, .drain, .caller 0, .caller 0, .caller 0] ++ toFinal ++
    [Action.call 0 .acquire, .call 0 (.runFetch true)]

theorem task_runs_at_final :
    ¬ ∀ s, (machine two).Reachable s → s.main = .final →
      (∀ c ∈ s.calls, c.runs = false) ∧ s.objects.queued = 0 ∧ s.objects.serving = 0 := by
  intro h
  obtain ⟨s, hs, hfin, hclosed⟩ := (machine two).exists_of_run lateRequest
    (fun s => s.main = .final ∧ s.calls = [.spawned (.awaiting false) (.running .worker)])
    (by decide)
  have hruns := (h s hs hfin).1 _ (hclosed ▸ mem_cons_self)
  cases hruns

instance (s : State) (a : Action) : Decidable (Decides s a) :=
  match a with
  | .caller _ | .monitor => inferInstanceAs (Decidable (_ ∧ _))
  | .drain | .request | .call .. | .object _ | .alarm _ | .scheduler _ | .main =>
    inferInstanceAs (Decidable False)

def State.isIdle (s : State) : Bool :=
  s.permits = 0 ∧ (∀ c ∈ s.calls, c.pending = false) ∧ s.objects.queued = 0 ∧
    s.objects.serving = 0 ∧ s.alarms.loop ≠ .claiming ∧ s.alarms.loading = 0 ∧
    s.alarms.delivering = 0 ∧ s.scheduler ≠ .dispatching

theorem nothingUnderWay_of_isIdle (h : s.isIdle = true) : NothingUnderWay s := by
  simp only [State.isIdle, decide_eq_true_eq] at h
  obtain ⟨hp, hcl, hq, hse, hl, hlo, hd, hsc⟩ := h
  exact ⟨hp, hcl, hq, hse, ⟨hl, hlo, hd⟩, hsc⟩

def drainedTask : List Action := heardTask ++ [Action.monitor] ++ toFinal

theorem nothing_runs_at_final_task :
    ∃ s, (machine two).Reach ReadsTrue s ∧ s.main = .final ∧
      (∀ c ∈ s.calls, c.runs = false) ∧ s.objects.queued = 0 ∧ s.objects.serving = 0 := by
  obtain ⟨s, hs, hfin⟩ := Machine.exists_reach_of_runIf (M := machine two)
    (fun s a => decide (Decides s a → s.isIdle = true))
    (fun _ _ _ h hdec => nothingUnderWay_of_isIdle (of_decide_eq_true h hdec)) drainedTask
    (fun s => s.main = .final) (by decide)
  exact ⟨s, hs, hfin, nothing_runs_at_final hs hfin⟩

end OpenWorkersRunner.Drain
