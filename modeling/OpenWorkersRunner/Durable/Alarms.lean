import OpenWorkersRunner.Lib.Machine
import Mathlib.Algebra.Ring.Int.Defs
import Mathlib.Logic.Function.Basic
import Mathlib.Order.Basic

/-!
# Durable Object alarms: one object

The alarm of an object is a row of its SQLite file; `durable_object_alarms` in PostgreSQL is the
index of due alarms.  This file is `src/durable/alarms.rs` for one object: what each SQL statement
does to its row of the index, and the steps of `alarms::set` and of `deliver`, cut at every await
and at every point where a write can fail.  `Durable/AlarmTable.lean` puts the objects together
under `claim`, which takes several rows at once.
-/

namespace OpenWorkersRunner.Alarms

/-! ## The index row and the statements that write it -/

def maxRetries : Nat := 6

structure Row where
  scheduledAt : Int
  retryCount : Int
  delivering : Bool
deriving DecidableEq

inductive UnderWay
  | keep
  | ends
deriving DecidableEq

def lower (row : Option Row) (atMs : Int) : Row :=
  match row with
  | none => { scheduledAt := atMs, retryCount := 0, delivering := false }
  | some r => { r with scheduledAt := min r.scheduledAt atMs }

def follow (row : Option Row) (alarm : Option (Int × Nat)) (underWay : UnderWay) : Option Row :=
  match alarm with
  | some (atMs, retryCount) =>
    match row with
    | none => some { scheduledAt := atMs, retryCount := retryCount, delivering := false }
    | some r =>
      some { scheduledAt := atMs, retryCount := retryCount,
             delivering := r.delivering && !decide (underWay = .ends) }
  | none => none

def settle (row : Option Row) (alarm : Option (Int × Nat)) : Option Row :=
  follow row alarm .ends

def retryAt (nowMs : Int) (retryCount : Nat) : Int :=
  nowMs + 1000 * 2 ^ min retryCount maxRetries

def settleLater (nowMs : Int) (retryCount : Nat) : Option (Int × Nat) :=
  some (retryAt nowMs 0, retryCount)

inductive Next
  | clear
  | keep (atMs : Int) (retryCount : Nat)
deriving DecidableEq

/-- What follows the run of the alarm `atMs`, from the alarm of the file after the run and the
failed runs so far, this one included. -/
def next (atMs : Int) (current : Option Int) (failedRuns : Option Nat) (nowMs : Int) : Next :=
  match current with
  | none => .clear
  | some current =>
    if current ≠ atMs then .keep current 0
    else
      match failedRuns with
      | none => .clear
      | some failed =>
        if failed ≤ maxRetries then .keep (retryAt nowMs failed) failed else .clear

/-! ## The calls in progress -/

inductive SetPhase
  | waiting
  | locked
  | lowered
  | written
deriving DecidableEq

inductive Why
  | early
  | notStarted
  | gone
  | failed (reread : Bool)
  | current
  | uncleared
deriving DecidableEq

def Why.retryOf (why : Why) (seen : Option Int) : Option Int :=
  match why with
  | .notStarted | .failed _ => seen
  | _ => none

inductive Phase
  | started
  | found
  | running (atMs : Int)
  | ended (atMs : Int) (failed : Bool)
  | pending (alarm : Option (Int × Nat)) (why : Why)
  | reading (atMs : Int) (failed : Bool)
  | clearing (atMs : Int)
  | settling (alarm : Option (Int × Nat)) (why : Why)
deriving DecidableEq

structure Delivery where
  retryCount : Nat
  seen : Option Int
  phase : Phase
deriving DecidableEq

inductive Call
  | set (atMs : Option Int) (phase : SetPhase)
  | deliver (d : Delivery)
deriving DecidableEq

def Call.holds : Call → Bool
  | .set _ .waiting => false
  | .set _ _ => true
  | .deliver d =>
    match d.phase with
    | .reading _ _ | .clearing _ | .settling _ _ => true
    | _ => false

structure Parts where
  file : Option Int
  lock : Option Nat
  calls : Nat → Option Call
  count : Nat
  retryOf : Option Int
  markedBy : Option Nat

/-- An object: its file, its row of the index, its lock and the calls on its alarm. -/
structure Obj extends Parts where
  row : Option Row

def Obj.empty : Obj where
  file := none
  lock := none
  calls := fun _ => none
  count := 0
  retryOf := none
  markedBy := none
  row := none

def Obj.goto (o : Obj) (i : Nat) (c : Call) : Obj :=
  { o with calls := Function.update o.calls i (some c) }

def Obj.done (o : Obj) (i : Nat) : Obj :=
  { o with
    lock := if o.lock = some i then none else o.lock
    calls := Function.update o.calls i none }

/-! ## The steps -/

inductive Lookup
  | failed
  | gone
  | found
deriving DecidableEq

inductive Outcome
  | ok
  | failed
  | refused
deriving DecidableEq

inductive Act
  | beginSet (atMs : Option Int)
  | acquire (i : Nat)
  | lower (i : Nat) (ok : Bool)
  | write (i : Nat) (ok : Bool)
  | follow (i : Nat) (ok : Bool)
  | stopSet (i : Nat)
  | claim (now : Int)
  | lookup (i : Nat) (answer : Lookup) (nowMs : Int)
  | read (i : Nat) (ok : Bool) (nowMs : Int)
  | endRun (i : Nat) (outcome : Outcome) (nowMs : Int)
  | reread (i : Nat) (ok : Bool) (nowMs : Int)
  | clear (i : Nat) (ok : Bool) (nowMs : Int)
  | settle (i : Nat) (ok : Bool)
  | restart
deriving DecidableEq

def Row.due (now : Int) (row : Row) : Bool :=
  !row.delivering && decide (row.scheduledAt ≤ now)

namespace Obj

def beginSet (o : Obj) (atMs : Option Int) : Obj :=
  { o.goto o.count (.set atMs .waiting) with count := o.count + 1 }

def acquire (o : Obj) (i : Nat) : Option Obj :=
  if o.lock ≠ none then none
  else
    match o.calls i with
    | some (.set atMs .waiting) => some { o.goto i (.set atMs .locked) with lock := some i }
    | some (.deliver ⟨retryCount, seen, .ended atMs failed⟩) =>
      some { o.goto i (.deliver ⟨retryCount, seen, .reading atMs failed⟩) with lock := some i }
    | some (.deliver ⟨retryCount, seen, .pending alarm why⟩) =>
      some { o.goto i (.deliver ⟨retryCount, seen, .settling alarm why⟩) with lock := some i }
    | _ => none

def lower (o : Obj) (i : Nat) (ok : Bool) : Option Obj :=
  match o.calls i with
  | some (.set (some atMs) .locked) =>
    if ok then
      some { o.goto i (.set (some atMs) .lowered) with
        row := some (Alarms.lower o.row atMs)
        retryOf := o.row.bind fun _ => o.retryOf }
    else some (o.done i)
  | _ => none

/-- The write of the file; only a deletion has not lowered the index before.  When it fails,
`set` answers the error. -/
def write (o : Obj) (i : Nat) (ok : Bool) : Option Obj :=
  match o.calls i with
  | some (.set (some atMs) .lowered) =>
    some (if ok then { o.goto i (.set (some atMs) .written) with file := some atMs } else o.done i)
  | some (.set none .locked) =>
    some (if ok then { o.goto i (.set none .written) with file := none } else o.done i)
  | _ => none

def follow (o : Obj) (i : Nat) (ok : Bool) : Option Obj :=
  match o.calls i with
  | some (.set atMs .written) =>
    some (if ok then
      { o.done i with
        row := Alarms.follow o.row (atMs.map fun atMs => (atMs, 0)) .keep
        retryOf := none }
    else o.done i)
  | _ => none

def stopSet (o : Obj) (i : Nat) : Option Obj :=
  match o.calls i with
  | some (.set _ _) => some (o.done i)
  | _ => none

def claim (o : Obj) (now : Int) : Option Obj :=
  match o.row with
  | none => none
  | some row =>
    if row.due now then
      some { o.goto o.count (.deliver ⟨row.retryCount.toNat, o.file, .started⟩) with
        row := some { row with delivering := true }
        count := o.count + 1
        markedBy := some o.count }
    else none

def lookup (o : Obj) (i : Nat) (answer : Lookup) (nowMs : Int) : Option Obj :=
  match o.calls i with
  | some (.deliver ⟨retryCount, seen, .started⟩) =>
    some <| o.goto i <| .deliver ⟨retryCount, seen, match answer with
      | .failed => .pending (settleLater nowMs retryCount) .notStarted
      | .gone => .pending none .gone
      | .found => .found⟩
  | _ => none

def read (o : Obj) (i : Nat) (ok : Bool) (nowMs : Int) : Option Obj :=
  match o.calls i with
  | some (.deliver ⟨retryCount, seen, .found⟩) =>
    some <| o.goto i <| .deliver <| if ok then
        ⟨retryCount, o.file, match o.file with
          | none => .pending none .early
          | some atMs =>
            if atMs ≤ nowMs then .running atMs else .pending (some (atMs, retryCount)) .early⟩
      else ⟨retryCount, seen, .pending (settleLater nowMs retryCount) .notStarted⟩
  | _ => none

def endRun (o : Obj) (i : Nat) (outcome : Outcome) (nowMs : Int) : Option Obj :=
  match o.calls i with
  | some (.deliver ⟨retryCount, seen, .running atMs⟩) =>
    some <| o.goto i <| .deliver ⟨retryCount, seen, match outcome with
      | .ok => .ended atMs false
      | .failed => .ended atMs true
      | .refused => .pending (settleLater nowMs retryCount) .notStarted⟩
  | _ => none

/-- The file is read again under the lock, and `next` decides.  A file that cannot be read
counts as one that still holds the alarm. -/
def reread (o : Obj) (i : Nat) (ok : Bool) (nowMs : Int) : Option Obj :=
  match o.calls i with
  | some (.deliver ⟨retryCount, seen, .reading atMs failed⟩) =>
    let current := if ok then o.file else some atMs
    let failedRuns := if failed then some (retryCount + 1) else none
    some <| o.goto i <| .deliver ⟨retryCount, seen,
      match Alarms.next atMs current failedRuns nowMs with
      | .clear => .clearing atMs
      | .keep keptAt count =>
        .settling (some (keptAt, count)) (if current = some atMs then .failed ok else .current)⟩
  | _ => none

/-- `clear_alarm`: the alarm that ran goes from the file if it is still there, and the answer is
the alarm after that. -/
def clear (o : Obj) (i : Nat) (ok : Bool) (nowMs : Int) : Option Obj :=
  match o.calls i with
  | some (.deliver ⟨retryCount, seen, .clearing atMs⟩) =>
    some <| if ok then
        let remaining := if o.file = some atMs then none else o.file
        { o.goto i (.deliver ⟨retryCount, seen,
            .settling (remaining.map fun atMs => (atMs, 0)) .current⟩) with file := remaining }
      else
        o.goto i (.deliver ⟨retryCount, seen,
          .settling (some (retryAt nowMs retryCount, retryCount)) .uncleared⟩)
  | _ => none

def settle (o : Obj) (i : Nat) (ok : Bool) : Option Obj :=
  match o.calls i with
  | some (.deliver ⟨_, seen, .settling alarm why⟩) =>
    some (if ok then
      { o.done i with
        row := Alarms.settle o.row alarm
        retryOf := why.retryOf seen }
    else o.done i)
  | _ => none

def restart (o : Obj) : Obj :=
  { o with
    lock := none
    calls := fun _ => none
    row := o.row.map fun row => { row with delivering := false } }

def step (o : Obj) : Act → Option Obj
  | .beginSet atMs => some (o.beginSet atMs)
  | .acquire i => o.acquire i
  | .lower i ok => o.lower i ok
  | .write i ok => o.write i ok
  | .follow i ok => o.follow i ok
  | .stopSet i => o.stopSet i
  | .claim now => o.claim now
  | .lookup i answer nowMs => o.lookup i answer nowMs
  | .read i ok nowMs => o.read i ok nowMs
  | .endRun i outcome nowMs => o.endRun i outcome nowMs
  | .reread i ok nowMs => o.reread i ok nowMs
  | .clear i ok nowMs => o.clear i ok nowMs
  | .settle i ok => o.settle i ok
  | .restart => some o.restart

end Obj

def machine : Machine Obj Act where
  init := Obj.empty
  step := Obj.step

def Obj.Delivering (o : Obj) (i : Nat) : Prop := ∃ d, o.calls i = some (.deliver d)

def Obj.Quiet (o : Obj) : Prop := ∀ i, o.calls i = none

end OpenWorkersRunner.Alarms
