import Mathlib.Data.List.Nodup
import OpenWorkersRunner.Lib.Machine
import OpenWorkersRunner.Logs.Store

/-!
# From the sink to the table (`log.rs`, `logs.rs`)

`LogSink::send` reserves a place in the queue and then puts the line there, as `try_send` does; the
task of `store` takes lines in batches, and closes the queue when it is stopped.  A closed queue
ends when it is empty and no place is reserved.
-/

namespace OpenWorkersRunner.Logs.Handover

open List Option

inductive Task
  | selecting (stopping : Bool)
  | inserting (batch : List ℕ) (stopping : Bool)
  | counting (stopping : Bool)
  | returned
deriving DecidableEq

def Task.batch : Task → List ℕ
  | .inserting batch _ => batch
  | _ => []

/-- The channel and the task; then the lines sent while it was open, those put in the queue, those
refused as it was full, those handed to `insert`, and the drops reported. -/
structure State where
  queue : List ℕ
  reserved : List ℕ
  pending : ℕ
  dropped : ℕ
  closed : Bool
  task : Task
  next : ℕ
  opened : List ℕ
  pushed : List ℕ
  full : List ℕ
  inserted : List ℕ
  reported : ℕ
deriving DecidableEq

inductive Act
  | send
  | push (line : ℕ)
  | count
  | hangUp
  | recvMany (n : ℕ)
  | finish
  | stop
  | insert
  | swap
deriving DecidableEq

def State.step (capacity : ℕ) (s : State) : Act → Option State
  | .send =>
    if s.closed then some { s with next := s.next + 1 }
    else if s.queue.length + s.reserved.length < capacity then
      some { s with
        next := s.next + 1, opened := s.next :: s.opened, reserved := s.next :: s.reserved }
    else
      some { s with
        next := s.next + 1, opened := s.next :: s.opened, full := s.next :: s.full
        pending := s.pending + 1 }
  | .push line =>
    if line ∈ s.reserved then
      some { s with
        reserved := s.reserved.erase line, queue := s.queue ++ [line]
        pushed := s.pushed ++ [line] }
    else none
  | .count =>
    if 0 < s.pending then some { s with pending := s.pending - 1, dropped := s.dropped + 1 }
    else none
  -- the last sender is dropped
  | .hangUp => some { s with closed := true }
  | .recvMany n =>
    match s.task with
    | .selecting stopping =>
      if 0 < n ∧ n ≤ storeBatchLines ∧ n ≤ s.queue.length then
        some { s with queue := s.queue.drop n, task := .inserting (s.queue.take n) stopping }
      else none
    | _ => none
  | .finish =>
    match s.task with
    | .selecting _ =>
      if s.closed = true ∧ s.queue = [] ∧ s.reserved = [] then some { s with task := .returned }
      else none
    | _ => none
  | .stop =>
    match s.task with
    | .selecting false => some { s with closed := true, task := .selecting true }
    | _ => none
  | .insert =>
    match s.task with
    | .inserting batch stopping =>
      some { s with inserted := s.inserted ++ batch, task := .counting stopping }
    | _ => none
  | .swap =>
    match s.task with
    | .counting stopping =>
      some { s with reported := s.reported + s.dropped, dropped := 0, task := .selecting stopping }
    | _ => none

def machine (capacity : ℕ) : Machine State Act where
  init := ⟨[], [], 0, 0, false, .selecting false, 0, [], [], [], [], 0⟩
  step := State.step capacity

structure Conserved (s : State) : Prop where
  fresh : ∀ n ∈ s.opened, n < s.next
  places : ∀ n, s.opened.count n = s.reserved.count n + s.pushed.count n + s.full.count n
  nodup : s.opened.Nodup
  order : s.pushed = s.inserted ++ s.task.batch ++ s.queue
  counted : s.dropped + s.reported + s.pending = s.full.length
  ended : s.task = .returned → s.closed = true ∧ s.reserved = [] ∧ s.queue = []

variable {capacity : ℕ} {s t : State}

namespace Conserved

theorem send (hs : Conserved s) (h : s.step capacity .send = some t) : Conserved t := by
  have hf : ∀ n ∈ s.next :: s.opened, n < s.next + 1 := by
    intro n hn
    rcases mem_cons.1 hn with rfl | hn
    · exact Nat.lt_succ_self _
    · exact Nat.lt_succ_of_lt (hs.fresh n hn)
  have hnd : (s.next :: s.opened).Nodup :=
    nodup_cons.2 ⟨fun h => Nat.lt_irrefl _ (hs.fresh _ h), hs.nodup⟩
  rw [State.step] at h
  split at h
  · cases h
    exact ⟨fun n hn => Nat.lt_succ_of_lt (hs.fresh n hn), hs.places, hs.nodup, hs.order,
      hs.counted, hs.ended⟩
  next ho =>
    have hen : s.task ≠ .returned := fun h => ho (hs.ended h).1
    have hp := hs.places
    have hcn := hs.counted
    split at h
    · cases h
      refine ⟨hf, fun n => ?_, hnd, hs.order, hcn, fun h => absurd h hen⟩
      dsimp only
      rw [count_cons, count_cons, hp]
      omega
    · cases h
      refine ⟨hf, fun n => ?_, hnd, hs.order, ?_, fun h => absurd h hen⟩
      · dsimp only
        rw [count_cons, count_cons, hp]
        omega
      · dsimp only
        rw [length_cons]
        omega

theorem push (hs : Conserved s) {line : ℕ} (h : s.step capacity (.push line) = some t) :
    Conserved t := by
  obtain ⟨hm, h⟩ := ite_none_right_eq_some.1 h
  cases h
  refine ⟨hs.fresh, fun n => ?_, hs.nodup, ?_, hs.counted, fun h => ?_⟩
  · have hp := count_pos_iff.2 hm
    dsimp only
    rw [hs.places, count_erase, count_append, count_singleton]
    by_cases heq : line = n
    · subst heq
      simp only [beq_self_eq_true, if_true]
      omega
    · rw [beq_eq_false_iff_ne.2 heq]
      simp
  · dsimp only
    rw [hs.order, append_assoc]
  · rw [(hs.ended h).2.1] at hm
    cases hm

/-- **What a step keeps.** -/
theorem step (hs : Conserved s) {a : Act} (h : s.step capacity a = some t) : Conserved t := by
  cases a with
  | send => exact hs.send h
  | push line => exact hs.push h
  | count =>
    obtain ⟨hp, h⟩ := ite_none_right_eq_some.1 h
    cases h
    have hcn := hs.counted
    exact ⟨hs.fresh, hs.places, hs.nodup, hs.order, by dsimp only; omega, hs.ended⟩
  | hangUp =>
    cases h
    exact ⟨hs.fresh, hs.places, hs.nodup, hs.order, hs.counted, fun h => ⟨rfl, (hs.ended h).2⟩⟩
  | recvMany n =>
    rw [State.step] at h
    split at h
    next ht =>
      obtain ⟨-, h⟩ := ite_none_right_eq_some.1 h
      cases h
      refine ⟨hs.fresh, hs.places, hs.nodup, ?_, hs.counted, nofun⟩
      have ho := hs.order
      rw [ht] at ho
      dsimp only [Task.batch] at ho ⊢
      rw [ho, append_nil, append_assoc, take_append_drop]
    · cases h
  | finish =>
    rw [State.step] at h
    split at h
    next ht =>
      obtain ⟨⟨hcl, hq, hre⟩, h⟩ := ite_none_right_eq_some.1 h
      cases h
      have ho := hs.order
      rw [ht] at ho
      exact ⟨hs.fresh, hs.places, hs.nodup, ho, hs.counted, fun _ => ⟨hcl, hre, hq⟩⟩
    · cases h
  | stop =>
    rw [State.step] at h
    split at h
    next ht =>
      cases h
      have ho := hs.order
      rw [ht] at ho
      exact ⟨hs.fresh, hs.places, hs.nodup, ho, hs.counted, nofun⟩
    · cases h
  | insert =>
    rw [State.step] at h
    split at h
    next ht =>
      cases h
      have ho := hs.order
      rw [ht] at ho
      refine ⟨hs.fresh, hs.places, hs.nodup, ?_, hs.counted, nofun⟩
      dsimp only [Task.batch] at ho ⊢
      rw [ho, append_nil]
    · cases h
  | swap =>
    rw [State.step] at h
    split at h
    next ht =>
      cases h
      have ho := hs.order
      rw [ht] at ho
      have hcn := hs.counted
      exact ⟨hs.fresh, hs.places, hs.nodup, ho, by dsimp only; omega, nofun⟩
    · cases h

end Conserved

/-- **No line is lost or doubled**: each one sent while the queue is open is in one place of those
between the sink and `insert`, which gets them in the order of the queue, or it is counted as
refused; and when the task has returned, it is handed over or counted. -/
theorem log_lines_conserved (capacity : ℕ) {s : State} (hs : (machine capacity).Reachable s) :
    (∀ n ∈ s.opened, s.reserved.count n + s.pushed.count n + s.full.count n = 1) ∧
      s.pushed = s.inserted ++ s.task.batch ++ s.queue ∧
      s.dropped + s.reported + s.pending = s.full.length ∧
      (s.task = .returned → s.reserved = [] ∧ s.queue = [] ∧
        ∀ n ∈ s.opened, s.inserted.count n + s.full.count n = 1) := by
  have hcons : Conserved s :=
    hs.invariant (I := Conserved)
      ⟨fun _ h => absurd h not_mem_nil, fun _ => rfl, nodup_nil, rfl, rfl,
        fun h => Task.noConfusion h⟩
      fun _ _ _ _ hI _ h => hI.step h
  have hone : ∀ n ∈ s.opened, s.reserved.count n + s.pushed.count n + s.full.count n = 1 :=
    fun n hn => (hcons.places n).symm.trans (count_eq_one_of_mem hcons.nodup hn)
  refine ⟨hone, hcons.order, hcons.counted, fun hret => ?_⟩
  obtain ⟨-, hres, hq⟩ := hcons.ended hret
  refine ⟨hres, hq, fun n hn => ?_⟩
  have hord := hcons.order
  rw [hret, hq] at hord
  have hpush : s.pushed = s.inserted := by simpa [Task.batch] using hord
  have hn := hone n hn
  rwa [hres, hpush, count_nil, Nat.zero_add] at hn

theorem log_lines_conserved_stopped :
    ∃ s, (machine 1).Reachable s ∧ s.opened = [1, 0] ∧ s.inserted = [0] ∧ s.full = [1] ∧
      s.dropped + s.reported + s.pending = s.full.length := by
  obtain ⟨s, hs, hopen, hins, hfull⟩ := (machine 1).exists_of_run
    [.send, .send, .stop, .push 0, .send, .recvMany 1, .insert, .count, .swap, .finish]
    (fun s => s.opened = [1, 0] ∧ s.inserted = [0] ∧ s.full = [1])
    (by decide)
  exact ⟨s, hs, hopen, hins, hfull, (log_lines_conserved 1 hs).2.2.1⟩

end OpenWorkersRunner.Logs.Handover
