import OpenWorkersRunner.Drain.Runner

/-!
# A drain that hangs

The runner is hung when it drains, every permit is back, the shutdown message is not sent, and
nobody will look again: the monitor waits for a notification, nobody owes one, and everyone that
drains has made its check.
-/

namespace OpenWorkersRunner.Drain

open Parties

/-! ## Who will look -/

def Caller.checks : Caller → ℕ
  | .stored => 1
  | .counted read => if read = 0 then 1 else 0
  | .sending => 1
  | .finished => 0

def Monitor.attends : Monitor → ℕ
  | .creating => 0
  | .waiting notified => notified.toNat
  | .woken => 1
  | .counting => 1
  | .counted read => if read = 0 then 1 else 0
  | .sending => 1
  | .stopped => 0

/-- Whether a notification is lost on the monitor: it read what it read, and has no future yet. -/
def Monitor.deaf : Monitor → Bool
  | .creating => true
  | .counted read => read ≠ 0
  | _ => false

namespace State

def permits (s : State) : ℕ := s.workers + s.sockets

def checking (s : State) : ℕ := total Caller.checks s.callers

def attention (s : State) : ℕ := s.monitor.attends + s.owing + s.checking

def Drained (s : State) : Prop := s.draining = true ∧ s.permits = 0 ∧ s.sent = false

/-- The runner is drained, the monitor waits, and nobody will notify it or look for itself. -/
structure Hung (s : State) : Prop where
  drained : s.Drained
  blocked : s.monitor = .waiting false
  not_owing : s.owing = 0
  not_checking : s.checking = 0

end State

def CallAct.silent : CallAct → Bool
  | .dropSlot | .dropUpgrade | .tradeLate => true
  | _ => false

def Action.silent : Action → Bool
  | .call _ act => act.silent
  | .object act => act = .refuse
  | _ => false

def Action.notifies : Action → Bool
  | .call _ act => act.notifies
  | .object act => act = .notify
  | _ => false

/-- The last permit does not go back in silence, and the last notification is not lost, unless
somebody else will look. -/
structure Heeded (s : State) (a : Action) : Prop where
  silent : a.silent = true → s.draining = true → s.sent = false → s.permits = 1 → 0 < s.attention
  lost : a.notifies = true → s.Drained → s.monitor.deaf = true → 1 < s.owing + s.checking

/-! ## What a step changes -/

def Call.permits (c : Call) : ℕ := c.workers + c.sockets

theorem State.permits_eq (s : State) :
    s.permits = total Call.permits s.calls + s.objects.sockets := by
  have hsu : ∀ l : List Call,
      total Call.permits l = total Call.workers l + total Call.sockets l := by
    intro l
    induction l with
    | nil => rfl
    | cons c l ih =>
      simp only [total_cons, ih, Call.permits]
      omega
  rw [State.permits, State.workers, State.sockets, hsu]
  omega

structure Effect (silent notifies : Bool) (permits permits' owing owing' : ℕ) : Prop where
  of_silent : silent = true → permits = permits' + 1 ∧ owing = owing'
  of_notifies : notifies = true → permits = permits' ∧ owing = owing' + 1
  of_neither : silent = false → notifies = false →
    (permits ≤ permits' ∧ owing = owing') ∨ owing < owing'

theorem Call.step_effect {free : Kind → Bool} {c c' : Call} {act : CallAct}
    (h : c.step free act = some c') :
    Effect act.silent act.notifies c.permits c'.permits c.owing c'.owing := by
  revert h
  fun_cases Call.step free c act <;> rintro ⟨⟩
  all_goals
    constructor <;>
      simp [CallAct.silent, CallAct.notifies, Call.permits, Call.workers, Call.sockets, Call.owing,
        Handler.sockets, Handler.owing, Task.workers, Task.sockets, Task.owing]
  all_goals omega

theorem Objects.step_effect {free : Kind → Bool} {o o' : Objects} {act : ObjectAct}
    (h : o.step free act = some o') :
    Effect (act = .refuse) (act = .notify) o.sockets o'.sockets o.closing o'.closing := by
  cases act <;> simp only [Objects.step, Option.ite_none_right_eq_some, Option.some.injEq] at h <;>
    obtain ⟨hp, rfl⟩ := h <;> constructor <;> simp [Objects.sockets] <;> omega

/-! ## The invariant -/

structure Watched (s : State) : Prop where
  watched : s.Drained → 0 < s.attention
  stopped : s.monitor = .stopped → s.sent = true

theorem Monitor.attends_notify {m : Monitor} (hd : m.deaf = false) (hst : m ≠ .stopped) :
    m.notify.attends = 1 := by
  cases m <;> simp_all [Monitor.deaf, Monitor.notify, Monitor.attends]

theorem Monitor.attends_le_notifyIf (m : Monitor) (notifies : Bool) :
    m.attends ≤ (m.notifyIf notifies).attends := by
  cases m <;> cases notifies <;>
    simp [Monitor.notifyIf, Monitor.notify, Monitor.attends, Bool.toNat_le]

theorem Monitor.notifyIf_eq_stopped {m : Monitor} {notifies : Bool} :
    m.notifyIf notifies = .stopped ↔ m = .stopped := by
  cases m <;> cases notifies <;> simp [Monitor.notifyIf, Monitor.notify]

theorem watched_of_effect {s t : State} {a : Action} {permits permits' owing owing' : ℕ}
    (hw : Watched s) (hok : Heeded s a)
    (hef : Effect a.silent a.notifies permits permits' owing owing')
    (hpe : t.permits + permits = s.permits + permits')
    (ho : t.owing + owing = s.owing + owing')
    (hmo : t.monitor = s.monitor.notifyIf a.notifies) (hdr : t.draining = s.draining)
    (hse : t.sent = s.sent) (hca : t.callers = s.callers) : Watched t := by
  have hch : t.checking = s.checking := by rw [State.checking, hca, State.checking]
  refine ⟨fun ⟨hd, hp, hs⟩ => ?_, fun hst => ?_⟩
  · rw [hdr] at hd
    rw [hse] at hs
    have ha := s.monitor.attends_le_notifyIf a.notifies
    rw [State.attention, hmo, hch]
    by_cases hsi : a.silent = true
    · -- The permit was the last one, and somebody will look.
      obtain ⟨hon, hsa⟩ := hef.of_silent hsi
      have := hok.silent hsi hd hs (by omega)
      rw [State.attention] at this
      omega
    by_cases hn : a.notifies = true
    · obtain ⟨hsa, hpa⟩ := hef.of_notifies hn
      have hdra : s.Drained := ⟨hd, by omega, hs⟩
      by_cases hde : s.monitor.deaf = true
      · have := hok.lost hn hdra hde
        omega
      · have hgo : s.monitor ≠ .stopped := by
          intro h
          simp [hw.stopped h] at hs
        have := Monitor.attends_notify (by simpa using hde) hgo
        rw [Monitor.notifyIf, if_pos hn]
        omega
    · rcases hef.of_neither (by simpa using hsi) (by simpa using hn) with
        ⟨hm, hsa⟩ | hdeb
      · have := hw.watched ⟨hd, by omega, hs⟩
        rw [State.attention] at this
        omega
      · omega
  · rw [hmo, Monitor.notifyIf_eq_stopped] at hst
    rw [hse, hw.stopped hst]

theorem Caller.Moves.checks {c next : Caller} (h : c.Moves 0 0 next) (hse : c ≠ .sending) :
    next.checks = c.checks := by
  cases h with
  | counts => rfl
  | decides hre => simp [Caller.checks, hre]
  | leaves hm => simpa [Caller.checks] using hm
  | sends => exact absurd rfl hse

theorem Monitor.Moves.attends {m next : Monitor} (h : m.Moves true 0 0 next)
    (hse : m ≠ .sending) : m.attends ≤ next.attends := by
  cases h with
  | creates | wakes | starts | counts => simp [Monitor.attends]
  | ignores hd => cases hd
  | decides hre => simp [Monitor.attends, hre]
  | leaves hm => simpa [Monitor.attends] using hm
  | sends => exact absurd rfl hse

theorem Monitor.Moves.eq_sending {m : Monitor} {draining : Bool} {workers sockets : ℕ}
    (h : m.Moves draining workers sockets .stopped) : m = .sending := by
  cases h
  rfl

theorem Watched.step {lims : Limits} {s t : State} {a : Action} (hw : Watched s)
    (hok : Heeded s a) (h : Step lims s a t) : Watched t := by
  -- A step that returns nothing and leaves the debts.
  have hm : ∀ permits, Effect false false 0 permits 0 0 := fun permits =>
    ⟨nofun, nofun, fun _ _ => .inl ⟨Nat.zero_le permits, rfl⟩⟩
  cases h with
  | drain =>
    refine ⟨fun _ => ?_, hw.stopped⟩
    simp only [State.attention, State.checking, total_concat, Caller.checks]
    omega
  | @caller j c next hc hn =>
    have hset := total_set Caller.checks (b := next) hc
    refine ⟨fun ⟨hd, hp, hs⟩ => ?_, fun hst => by simp [hw.stopped hst]⟩
    obtain ⟨hse, hsent⟩ : s.sent = false ∧ c ≠ .sending := by simpa using hs
    have hz : s.workers = 0 ∧ s.sockets = 0 := Nat.add_eq_zero_iff.1 hp
    rw [hz.1, hz.2] at hn
    have hch := hn.checks hsent
    have := hw.watched ⟨hd, hp, hse⟩
    simp only [State.attention, State.checking, State.owing] at this ⊢
    omega
  | @monitor next hn =>
    refine ⟨fun ⟨hd, hp, hs⟩ => ?_, fun hst => ?_⟩
    · obtain ⟨hse, hsent⟩ : s.sent = false ∧ s.monitor ≠ .sending := by simpa using hs
      have hz : s.workers = 0 ∧ s.sockets = 0 := Nat.add_eq_zero_iff.1 hp
      rw [hz.1, hz.2, show s.draining = true from hd] at hn
      have ha := hn.attends hsent
      have := hw.watched ⟨hd, hp, hse⟩
      simp only [State.attention, State.checking, State.owing] at this ⊢
      omega
    · obtain rfl : next = .stopped := hst
      simp [hn.eq_sending]
  | refused => exact hw
  | request =>
    refine watched_of_effect hw hok (hm 0) ?_ ?_ rfl rfl rfl rfl
    · simp [State.permits_eq, Call.permits, Call.workers, Call.sockets]
    · simp [State.owing, Call.owing]
  | @call i act c next hc hn =>
    have hp := total_set Call.permits (b := next) hc
    have ho := total_set Call.owing (b := next) hc
    refine watched_of_effect hw hok (Call.step_effect hn) ?_ ?_ rfl rfl rfl rfl
    · simp only [State.permits_eq, Objects.sockets, Objects.withEvent]
      omega
    · simp only [State.owing, Objects.withEvent]
      omega
  | @object act next hn =>
    refine watched_of_effect hw hok (Objects.step_effect hn) ?_ ?_ rfl rfl rfl rfl
    · simp only [State.permits_eq]
      omega
    · simp only [State.owing]
      omega
  | alarm =>
    refine watched_of_effect hw hok (hm 0) ?_ rfl rfl rfl rfl rfl
    simp [State.permits_eq, Objects.sockets, Objects.withEvent]
  | cron =>
    refine watched_of_effect hw hok (hm 1) ?_ ?_ rfl rfl rfl rfl
    · simp only [State.permits_eq, total_concat, Call.permits, Call.workers, Call.sockets,
        Handler.sockets, Task.workers, Task.sockets, Bool.toNat_false]
      omega
    · simp [State.owing, Call.owing, Handler.owing, Task.owing]
  | scheduler | main => exact watched_of_effect hw hok (hm 0) rfl rfl rfl rfl rfl rfl

/-- **A drain hangs only where it is not heeded.**  In every run in which the last permit does not
go back in silence, and the last notification is not lost on the monitor, with nobody left to look,
the runner is never hung. -/
theorem drain_does_not_hang {limits : Limits} {s : State}
    (hs : (machine limits).Reach Heeded s) : ¬ s.Hung := by
  have hw : Watched s := by
    refine hs.invariant ⟨fun h => ?_, nofun⟩ fun _ _ _ _ hw hok h => hw.step hok (step_eq h)
    simp [machine, start, State.Drained] at h
  intro hung
  have hatt := hw.watched hung.drained
  simp [State.attention, hung.blocked, hung.not_owing, hung.not_checking, Monitor.attends]
    at hatt

instance (s : State) : Decidable s.Drained :=
  inferInstanceAs (Decidable (_ ∧ _ ∧ _))

def State.isHung (s : State) : Bool :=
  s.Drained ∧ s.monitor = .waiting false ∧ s.owing = 0 ∧ s.checking = 0

theorem State.isHung_iff (s : State) : s.isHung = true ↔ s.Hung := by
  simp only [isHung, decide_eq_true_eq]
  exact ⟨fun ⟨h1, h2, h3, h4⟩ => ⟨h1, h2, h3, h4⟩, fun h => ⟨h.1, h.2, h.3, h.4⟩⟩

def refusedUpgrade : List Action :=
  [.request, .call 0 .upgrade, .call 0 .acquire, .call 0 (.runFetch true), .monitor,
    -- The drain finds the task and the socket permit, and leaves it to the monitor.
    .drain, .caller 0, .caller 0,
    -- The task ends; the monitor finds the socket permit, and waits for the next notification.
    .call 0 .leave, .call 0 .finish, .call 0 .notifyTask, .monitor, .monitor, .monitor, .monitor,
    .monitor,
    -- The handler drops the socket permit.
    .call 0 .dropUpgrade]

def two : Limits := fun _ => 2

theorem drain_hangs : ¬ ∀ s, (machine two).Reachable s → ¬ s.Hung := by
  intro h
  obtain ⟨s, hs, hhung⟩ := (machine two).exists_of_run
    refusedUpgrade (·.isHung) (by decide)
  exact h s hs (s.isHung_iff.mp hhung)

def isHeeded (s : State) (a : Action) : Bool :=
  (a.silent && s.draining && !s.sent && decide (s.permits = 1) && decide (s.attention = 0) ||
    a.notifies && decide s.Drained && s.monitor.deaf && decide (s.owing + s.checking ≤ 1)) = false

theorem heeded_of_isHeeded {s : State} {a : Action} (h : isHeeded s a = true) : Heeded s a := by
  simp only [isHeeded, decide_eq_true_eq, Bool.or_eq_false_iff] at h
  constructor
  · intro hsi hd hs hp
    have := h.1
    simp [hsi, hd, hs, hp] at this
    omega
  · intro hn hdr hde
    have := h.2
    simp [hn, hdr, hde] at this
    omega

def heardTask : List Action :=
  [.request, .call 0 .acquire, .call 0 (.runFetch true), .monitor, .drain, .caller 0, .caller 0,
    .call 0 .leave, .call 0 .finish, .call 0 .notifyTask, .monitor, .monitor, .monitor, .monitor]

theorem drain_does_not_hang_task :
    ∃ s, (machine two).Reach Heeded s ∧ s.monitor = .sending ∧ s.Drained ∧ ¬ s.Hung := by
  obtain ⟨s, hs, hp⟩ := Machine.exists_reach_of_runIf (M := machine two)
    isHeeded (fun _ _ _ => heeded_of_isHeeded) heardTask
    (fun s => s.monitor = .sending ∧ s.Drained) (by decide)
  exact ⟨s, hs, hp.1, hp.2, drain_does_not_hang hs⟩

end OpenWorkersRunner.Drain
