import OpenWorkersRunner.Lib.Machine
import OpenWorkersRunner.Lib.Parties

/-!
# A runner that drains (`bin/main.rs`, `worker_pool.rs`)

A signal, or `POST /admin/drain`, sets `IS_DRAINING` and reads the number of active tasks: the
permits of two semaphores that are out, one for workers and one for WebSockets.  Who reads zero
sends the shutdown message.  Until then, the drain monitor reads the number each time it is woken,
and a task that ends wakes it.
-/

namespace OpenWorkersRunner.Drain

open Option Parties

/-! ## Requests and their tasks -/

inductive Kind
  | worker
  | socket
deriving DecidableEq

/-- The handler of a request whose task was spawned.  `upgrade` is whether it holds the socket
permit of an upgrade. -/
inductive Handler
  | awaiting (upgrade : Bool)
  | traded
  | leaving (upgrade : Bool)
deriving DecidableEq

inductive Task
  | running (held : Kind)
  | released
  | ended
deriving DecidableEq

inductive Call
  | checked (upgrade : Bool)
  | admitted (upgrade : Bool)
  | failed (upgrade : Bool)
  | leaving (slot upgrade : Bool)
  | spawned (handler : Handler) (task : Task)
deriving DecidableEq

def Handler.sockets : Handler → ℕ
  | .awaiting upgrade => upgrade.toNat
  | .traded => 0
  | .leaving upgrade => upgrade.toNat

def Handler.owing : Handler → ℕ
  | .awaiting _ => 0
  | .traded => 1
  | .leaving _ => 0

def Task.workers : Task → ℕ
  | .running .worker => 1
  | _ => 0

def Task.sockets : Task → ℕ
  | .running .socket => 1
  | _ => 0

def Task.owing : Task → ℕ
  | .released => 1
  | _ => 0

def Call.workers : Call → ℕ
  | .checked _ => 0
  | .admitted _ => 1
  | .failed _ => 1
  | .leaving slot _ => slot.toNat
  | .spawned _ task => task.workers

def Call.sockets : Call → ℕ
  | .checked upgrade => upgrade.toNat
  | .admitted upgrade => upgrade.toNat
  | .failed upgrade => upgrade.toNat
  | .leaving _ upgrade => upgrade.toNat
  | .spawned handler task => handler.sockets + task.sockets

def Call.owing : Call → ℕ
  | .spawned handler task => handler.owing + task.owing
  | _ => 0

inductive CallAct
  | upgrade
  | acquire
  | runFetch (prepared : Bool)
  | callObject
  | finish
  | notifyTask
  | trade
  | notifyTrade
  | tradeLate
  | leave
  | dropSlot
  | dropUpgrade
deriving DecidableEq

def Call.step (free : Kind → Bool) : Call → CallAct → Option Call
  | .checked false, .upgrade => if free .socket then some (.checked true) else none
  | .checked upgrade, .acquire => if free .worker then some (.admitted upgrade) else none
  | .checked upgrade, .leave => some (.leaving false upgrade)
  | .admitted upgrade, .runFetch true => some (.spawned (.awaiting upgrade) (.running .worker))
  | .admitted upgrade, .runFetch false => some (.failed upgrade)
  | .failed upgrade, .leave => some (.leaving true upgrade)
  | .leaving true upgrade, .dropSlot => some (.leaving false upgrade)
  | .leaving slot true, .dropUpgrade => some (.leaving slot false)
  | .spawned handler (.running held), .callObject => some (.spawned handler (.running held))
  | .spawned handler (.running _), .finish => some (.spawned handler .released)
  | .spawned handler .released, .notifyTask => some (.spawned handler .ended)
  | .spawned (.awaiting true) (.running _), .trade => some (.spawned .traded (.running .socket))
  | .spawned .traded task, .notifyTrade => some (.spawned (.leaving false) task)
  | .spawned (.awaiting true) .released, .tradeLate => some (.spawned (.leaving false) .released)
  | .spawned (.awaiting true) .ended, .tradeLate => some (.spawned (.leaving false) .ended)
  | .spawned (.awaiting upgrade) task, .leave => some (.spawned (.leaving upgrade) task)
  | .spawned (.leaving true) task, .dropUpgrade => some (.spawned (.leaving false) task)
  | _, _ => none

/-! ## Durable Objects -/

structure Objects where
  queued : ℕ
  serving : ℕ
  accepting : ℕ
  opened : ℕ
  closing : ℕ
deriving DecidableEq

def Objects.sockets (o : Objects) : ℕ := o.accepting + o.opened

inductive ObjectAct
  | serve
  | drop
  | finish
  | call
  | frame
  | accept
  | opened
  | refuse
  | close
  | notify
deriving DecidableEq

def Objects.step (free : Kind → Bool) (o : Objects) : ObjectAct → Option Objects
  | .serve =>
    if 0 < o.queued then some { o with queued := o.queued - 1, serving := o.serving + 1 } else none
  | .drop => if 0 < o.queued then some { o with queued := o.queued - 1 } else none
  | .finish => if 0 < o.serving then some { o with serving := o.serving - 1 } else none
  | .call => if 0 < o.serving then some { o with queued := o.queued + 1 } else none
  | .frame => if 0 < o.opened then some { o with queued := o.queued + 1 } else none
  | .accept =>
    if 0 < o.serving ∧ free .socket then some { o with accepting := o.accepting + 1 } else none
  | .opened =>
    if 0 < o.accepting then
      some { o with accepting := o.accepting - 1, opened := o.opened + 1 }
    else none
  | .refuse => if 0 < o.accepting then some { o with accepting := o.accepting - 1 } else none
  | .close =>
    if 0 < o.opened then some { o with opened := o.opened - 1, closing := o.closing + 1 } else none
  | .notify => if 0 < o.closing then some { o with closing := o.closing - 1 } else none

/-! ## Work by the clock -/

inductive AlarmLoop
  | polling
  | claiming
  | waiting
  | ended
deriving DecidableEq

structure Alarms where
  loop : AlarmLoop
  loading : ℕ
  delivering : ℕ
deriving DecidableEq

inductive AlarmAct
  | poll
  | claim (due : ℕ)
  | wake
  | stop
  | post
  | skip
  | settle
deriving DecidableEq

def Alarms.step (draining stopped : Bool) (m : Alarms) : AlarmAct → Option Alarms
  | .poll =>
    if m.loop = .polling then some { m with loop := if draining then .ended else .claiming }
    else none
  | .claim due =>
    if m.loop = .claiming then some { m with loop := .waiting, loading := m.loading + due }
    else none
  | .wake => if m.loop = .waiting then some { m with loop := .polling } else none
  | .stop => if m.loop = .waiting ∧ stopped then some { m with loop := .ended } else none
  | .post =>
    if 0 < m.loading then
      some { m with loading := m.loading - 1, delivering := m.delivering + 1 }
    else none
  | .skip => if 0 < m.loading then some { m with loading := m.loading - 1 } else none
  | .settle => if 0 < m.delivering then some { m with delivering := m.delivering - 1 } else none

inductive Scheduler
  | ticking
  | claimed
  | dispatching
  | ended
deriving DecidableEq

inductive SchedulerAct
  | tick
  | stop
  | dispatch
  | acquire
  | skip
  | next
deriving DecidableEq

def Scheduler.step (draining stopped free : Bool) : Scheduler → SchedulerAct → Option Scheduler
  | .ticking, .tick => some (if draining then .ended else .claimed)
  | .ticking, .stop => if stopped then some .ended else none
  | .claimed, .dispatch => some (if draining then .claimed else .dispatching)
  | .dispatching, .acquire => if free then some .claimed else none
  | .dispatching, .skip => some .claimed
  | .claimed, .next => some .ticking
  | _, _ => none

/-! ## The drain -/

inductive Caller
  | stored
  | counted (workers : ℕ)
  | sending
  | finished
deriving DecidableEq

inductive Monitor
  | creating
  | waiting (notified : Bool)
  | woken
  | counting
  | counted (workers : ℕ)
  | sending
  | stopped
deriving DecidableEq

def Monitor.notify : Monitor → Monitor
  | .waiting _ => .waiting true
  | m => m

def Caller.step (workers sockets : ℕ) : Caller → Option Caller
  | .stored => some (.counted workers)
  | .counted read => some (if read + sockets = 0 then .sending else .finished)
  | .sending => some .finished
  | .finished => none

def Monitor.step (draining : Bool) (workers sockets : ℕ) : Monitor → Option Monitor
  | .creating => some (.waiting false)
  | .waiting notified => if notified then some .woken else none
  | .woken => some (if draining then .counting else .creating)
  | .counting => some (.counted workers)
  | .counted read => some (if read + sockets = 0 then .sending else .creating)
  | .sending => some .stopped
  | .stopped => none

inductive Caller.Moves (workers sockets : ℕ) : Caller → Caller → Prop
  | counts : Caller.Moves workers sockets .stored (.counted workers)
  | decides {read : ℕ} (hread : read = 0) (hsockets : sockets = 0) :
      Caller.Moves workers sockets (.counted read) .sending
  | leaves {read : ℕ} (hmore : read + sockets ≠ 0) :
      Caller.Moves workers sockets (.counted read) .finished
  | sends : Caller.Moves workers sockets .sending .finished

theorem Caller.step_eq {workers sockets : ℕ} {c next : Caller}
    (h : c.step workers sockets = some next) : c.Moves workers sockets next := by
  cases c with
  | stored => cases h; exact .counts
  | counted read =>
    obtain rfl := some.inj h
    split
    · exact .decides (by omega) (by omega)
    · exact .leaves ‹_›
  | sending => cases h; exact .sends
  | finished => cases h

inductive Monitor.Moves (draining : Bool) (workers sockets : ℕ) : Monitor → Monitor → Prop
  | creates : Monitor.Moves draining workers sockets .creating (.waiting false)
  | wakes : Monitor.Moves draining workers sockets (.waiting true) .woken
  | starts (hdraining : draining = true) : Monitor.Moves draining workers sockets .woken .counting
  | ignores (hdraining : draining = false) : Monitor.Moves draining workers sockets .woken .creating
  | counts : Monitor.Moves draining workers sockets .counting (.counted workers)
  | decides {read : ℕ} (hread : read = 0) (hsockets : sockets = 0) :
      Monitor.Moves draining workers sockets (.counted read) .sending
  | leaves {read : ℕ} (hmore : read + sockets ≠ 0) :
      Monitor.Moves draining workers sockets (.counted read) .creating
  | sends : Monitor.Moves draining workers sockets .sending .stopped

theorem Monitor.step_eq {draining : Bool} {workers sockets : ℕ} {m next : Monitor}
    (h : m.step draining workers sockets = some next) : m.Moves draining workers sockets next := by
  cases m with
  | creating => cases h; exact .creates
  | waiting notified =>
    cases notified with
    | true => cases h; exact .wakes
    | false => cases h
  | woken =>
    cases draining with
    | true => cases h; exact .starts rfl
    | false => cases h; exact .ignores rfl
  | counting => cases h; exact .counts
  | counted read =>
    obtain rfl := some.inj h
    split
    · exact .decides (by omega) (by omega)
    · exact .leaves ‹_›
  | sending => cases h; exact .sends
  | stopped => cases h

inductive Main
  | serving
  | stopping
  | closing
  | final
deriving DecidableEq

def Main.step (sent : Bool) (scheduler : Scheduler) : Main → Option Main
  | .serving => if sent then some .stopping else none
  | .stopping => if scheduler = .ended then some .closing else none
  | .closing => some .final
  | .final => none

/-! ## The machine -/

structure State where
  draining : Bool
  calls : List Call
  objects : Objects
  alarms : Alarms
  scheduler : Scheduler
  callers : List Caller
  monitor : Monitor
  sent : Bool
  main : Main
deriving DecidableEq

namespace State

def workers (s : State) : ℕ := total Call.workers s.calls

def sockets (s : State) : ℕ := total Call.sockets s.calls + s.objects.sockets

def owing (s : State) : ℕ := total Call.owing s.calls + s.objects.closing

end State

inductive Action
  | drain
  | caller (j : ℕ)
  | monitor
  | request
  | call (i : ℕ) (act : CallAct)
  | object (act : ObjectAct)
  | alarm (act : AlarmAct)
  | scheduler (act : SchedulerAct)
  | main
deriving DecidableEq

abbrev Limits := Kind → ℕ

def State.free (limits : Limits) (s : State) : Kind → Bool
  | .worker => s.workers < limits .worker
  | .socket => s.sockets < limits .socket

def CallAct.notifies : CallAct → Bool
  | .notifyTask | .notifyTrade => true
  | _ => false

def Objects.withEvent (o : Objects) (more : Bool) : Objects :=
  { o with queued := o.queued + more.toNat }

def Monitor.notifyIf (m : Monitor) (notifies : Bool) : Monitor :=
  if notifies then m.notify else m

def step (limits : Limits) (s : State) : Action → Option State
  | .drain => some { s with draining := true, callers := s.callers ++ [.stored] }
  | .caller j =>
    s.callers[j]?.bind fun caller =>
      (caller.step s.workers s.sockets).map fun next =>
        { s with callers := s.callers.set j next, sent := s.sent || caller = .sending }
  | .monitor =>
    (s.monitor.step s.draining s.workers s.sockets).map fun next =>
      { s with monitor := next, sent := s.sent || s.monitor = .sending }
  | .request => some (if s.draining then s else { s with calls := s.calls ++ [.checked false] })
  | .call i act =>
    s.calls[i]?.bind fun call =>
      (call.step (s.free limits) act).map fun next =>
        { s with
          calls := s.calls.set i next
          objects := s.objects.withEvent (act = .callObject)
          monitor := s.monitor.notifyIf act.notifies }
  | .object act =>
    (s.objects.step (s.free limits) act).map fun next =>
      { s with objects := next, monitor := s.monitor.notifyIf (act = .notify) }
  | .alarm act =>
    (s.alarms.step s.draining (s.main ≠ .serving) act).map fun next =>
      { s with alarms := next, objects := s.objects.withEvent (act = .post) }
  | .scheduler act =>
    (s.scheduler.step s.draining (s.main ≠ .serving) (s.free limits .worker) act).map fun next =>
      { s with
        scheduler := next
        calls :=
          if act = .acquire then s.calls ++ [.spawned (.leaving false) (.running .worker)]
          else s.calls }
  | .main => (s.main.step s.sent s.scheduler).map fun next => { s with main := next }

def start : State where
  draining := false
  calls := []
  objects := ⟨0, 0, 0, 0, 0⟩
  alarms := ⟨.polling, 0, 0⟩
  scheduler := .ticking
  callers := []
  monitor := .creating
  sent := false
  main := .serving

def machine (limits : Limits) : Machine State Action := ⟨start, step limits⟩

/-! ## What a step does -/

inductive Step (limits : Limits) (s : State) : Action → State → Prop
  | drain : Step limits s .drain { s with draining := true, callers := s.callers ++ [.stored] }
  | caller {j : ℕ} {caller next : Caller} (h : s.callers[j]? = some caller)
      (hnext : caller.Moves s.workers s.sockets next) :
      Step limits s (.caller j)
        { s with callers := s.callers.set j next, sent := s.sent || caller = .sending }
  | monitor {next : Monitor} (hnext : s.monitor.Moves s.draining s.workers s.sockets next) :
      Step limits s .monitor { s with monitor := next, sent := s.sent || s.monitor = .sending }
  | refused (h : s.draining = true) : Step limits s .request s
  | request (h : s.draining = false) :
      Step limits s .request { s with calls := s.calls ++ [.checked false] }
  | call {i : ℕ} {act : CallAct} {call next : Call} (h : s.calls[i]? = some call)
      (hnext : call.step (s.free limits) act = some next) :
      Step limits s (.call i act)
        { s with
          calls := s.calls.set i next
          objects := s.objects.withEvent (act = .callObject)
          monitor := s.monitor.notifyIf act.notifies }
  | object {act : ObjectAct} {next : Objects}
      (hnext : s.objects.step (s.free limits) act = some next) :
      Step limits s (.object act)
        { s with objects := next, monitor := s.monitor.notifyIf (act = .notify) }
  | alarm {act : AlarmAct} {next : Alarms}
      (hnext : s.alarms.step s.draining (s.main ≠ .serving) act = some next) :
      Step limits s (.alarm act)
        { s with alarms := next, objects := s.objects.withEvent (act = .post) }
  | cron (h : s.scheduler = .dispatching) :
      Step limits s (.scheduler .acquire)
        { s with
          scheduler := .claimed
          calls := s.calls ++ [.spawned (.leaving false) (.running .worker)] }
  | scheduler {act : SchedulerAct} {next : Scheduler} (hact : act ≠ .acquire)
      (hnext : s.scheduler.step s.draining (s.main ≠ .serving) (s.free limits .worker) act =
        some next) :
      Step limits s (.scheduler act) { s with scheduler := next }
  | main {next : Main} (hnext : s.main.step s.sent s.scheduler = some next) :
      Step limits s .main { s with main := next }

theorem Scheduler.step_acquire {draining stopped free : Bool} {m next : Scheduler}
    (h : m.step draining stopped free .acquire = some next) :
    m = .dispatching ∧ next = .claimed := by
  cases m with
  | dispatching =>
    have hf : free = true ∧ .claimed = next := by simpa [Scheduler.step] using h
    exact ⟨rfl, hf.2.symm⟩
  | ticking | claimed | ended => cases h

theorem step_eq {lims : Limits} {s t : State} {a : Action}
    (h : (machine lims).step s a = some t) : Step lims s a t := by
  cases a with
  | drain => cases h; exact .drain
  | caller j =>
    obtain ⟨caller, hcl, h⟩ := bind_eq_some_iff.1 h
    obtain ⟨next, hn, rfl⟩ := map_eq_some_iff.1 h
    exact .caller hcl (Caller.step_eq hn)
  | monitor =>
    obtain ⟨next, hn, rfl⟩ := map_eq_some_iff.1 h
    exact .monitor (Monitor.step_eq hn)
  | request =>
    obtain rfl := some.inj h
    by_cases hd : s.draining
    · rw [if_pos hd]
      exact .refused hd
    · rw [if_neg hd]
      exact .request (by simpa using hd)
  | call i act =>
    obtain ⟨call, hca, h⟩ := bind_eq_some_iff.1 h
    obtain ⟨next, hn, rfl⟩ := map_eq_some_iff.1 h
    exact .call hca hn
  | object act =>
    obtain ⟨next, hn, rfl⟩ := map_eq_some_iff.1 h
    exact .object hn
  | alarm act =>
    obtain ⟨next, hn, rfl⟩ := map_eq_some_iff.1 h
    exact .alarm hn
  | scheduler act =>
    obtain ⟨next, hn, rfl⟩ := map_eq_some_iff.1 h
    by_cases ha : act = .acquire
    · subst ha
      obtain ⟨hsc, rfl⟩ := Scheduler.step_acquire hn
      exact .cron hsc
    · simp only [ha, if_false]
      exact .scheduler ha hn
  | main =>
    obtain ⟨next, hn, rfl⟩ := map_eq_some_iff.1 h
    exact .main hn

end OpenWorkersRunner.Drain
