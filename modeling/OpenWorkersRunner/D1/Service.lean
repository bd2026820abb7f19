import OpenWorkersRunner.Lib.Machine
import OpenWorkersRunner.Lib.Table

/-!
# D1: the service that runs jobs on databases

This file is the service of `src/d1/mod.rs`: `submit`, which queues a job for a database and runs
it on the connection of the database; the blocking job itself, as far as other tasks can tell
(`sqlite.rs`: its statements, its transactions, the interrupt that reaches one); the table
`databases` with the four ways an entry leaves it; and `snapshot_all`, which copies changed
databases to the archive.
-/

namespace OpenWorkersRunner.D1

/-! ## Data -/

/-- The key of a file: `<id>` of a database, or `objects/<namespace id>/<object id>` of an
object. -/
inductive Key
  | database (id : BitVec 128)
  | object (namespaceId : BitVec 128) (objectId : BitVec 256)
deriving DecidableEq

def Key.isOf (namespaceId : BitVec 128) : Key → Bool
  | .database _ => false
  | .object ns _ => ns == namespaceId

/-- What `submit`, `handle` and `close_idle` read of `Config`, and whether there is an archive. -/
structure Config where
  maxQueue : Nat
  maxOpen : Nat
  idle : Nat
  archive : Bool
deriving DecidableEq

inductive D1ErrorKind
  | overloaded
  | unavailable
deriving DecidableEq

inductive Done
  | error (kind : D1ErrorKind) (message : String)
  | objectError (message : String)
  | reported
deriving DecidableEq

/-- `internal_error`. -/
def internalError : Done := .error .unavailable "internal error"

inductive OpenFailure
  | directory
  | restore
  | full (reason : String)
  | file
  | panicked
deriving DecidableEq

def OpenFailure.done : OpenFailure → Done
  | .directory => .error .unavailable "the database cannot be opened"
  | .restore => .error .unavailable "the database cannot be restored from its last snapshot"
  | .full reason => .objectError ("the storage is full: " ++ reason)
  | .file => .error .unavailable "the database cannot be opened"
  | .panicked => internalError

structure Connection where
  number : Nat
  statement : Option Bool
  pending : Option Nat
deriving DecidableEq

structure Interrupt where
  raisedBy : Nat
  holder : Option Nat
  statementOf : Option Nat
deriving DecidableEq

/-- `Handle`: the connection of a database behind its lock, its queue length, and how far its latest
snapshot reaches. -/
structure Handle where
  key : Key
  database : Option Connection
  guard : Option Nat
  waiting : Nat
  lastUsed : Nat
  commits : Nat
  saved : Nat
  unsavedSince : Option Nat
  connections : Nat
  visible : List Nat
  recorded : List Nat
  interrupts : List Interrupt
deriving DecidableEq

namespace Handle

def new (key : Key) (now : Nat) : Handle where
  key := key
  database := none
  guard := none
  waiting := 0
  lastUsed := now
  commits := 0
  saved := 0
  unsavedSince := none
  connections := 0
  visible := []
  recorded := []
  interrupts := []

def unsaved (x : Handle) : Bool := x.commits != x.saved

def isOpen (x : Handle) : Bool := x.guard.isSome || x.database.isSome

def close (x : Handle) : Handle :=
  { x with database := if x.guard = none then none else x.database }

/-- `InterruptHandle::interrupt` for a connection: it reaches the statement that runs on it, if the
connection is still open. -/
def interrupt (x : Handle) (i number : Nat) : Handle :=
  let reached (d : Connection) : Bool := d.number = number
  { x with
    database := x.database.map fun d =>
      if reached d then { d with statement := d.statement.map fun _ => true } else d
    interrupts := x.interrupts ++ ((x.database.filter reached).map fun d =>
        ⟨i, x.guard, d.statement.bind fun _ => x.guard⟩).toList }

end Handle

inductive Job
  | active
  | failed
  | done (panicked : Bool)
deriving DecidableEq

def Job.runs : Job → Bool
  | .active | .failed => true
  | .done _ => false

inductive Stage
  | entered
  | refused
  | queued
  | locked
  | opening
  | running (number : Nat) (late : Bool) (job : Job)
  | returned
  | uncounted
  | touched
  | loaded (commits : Nat)
  | settled
  | comparing (commits : Nat)
  | noting
  | ended
  | cancelled (job : Option Job)
deriving DecidableEq

def Stage.job : Stage → Option Job
  | .running _ _ job => some job
  | .cancelled job => job
  | _ => none

def Stage.withJob (job : Job) : Stage → Stage
  | .running number late _ => .running number late job
  | .cancelled _ => .cancelled (some job)
  | stage => stage

structure Call where
  key : Key
  handle : Nat
  stage : Stage
  result : Option Done
deriving DecidableEq

namespace Call

def holds (c : Call) : Bool :=
  match c.stage with
  | .ended | .cancelled _ => false
  | _ => true

def jobRuns (c : Call) : Bool := c.stage.job.any Job.runs

def guards (c : Call) : Bool :=
  match c.stage with
  | .locked | .opening => true
  | _ => c.jobRuns

end Call

/-! ## The steps of a call -/

inductive SubmitAct
  | count
  | refuse
  | uncount
  | touch (now : Nat)
  | load
  | store
  | compare
  | check
  | note (now : Nat)
deriving DecidableEq

inductive RunAct
  | lock
  | expire
  | openFile
  | opened
  | notOpened (failure : OpenFailure)
  | spawn
  | deadline
  | learn
  | cancel
deriving DecidableEq

inductive JobAct
  | beginStatement
  | hook
  | visible
  | rollback
  | endStatement (ok : Bool)
  | finish (panicked : Bool)
deriving DecidableEq

namespace Call

def submit (config : Config) (c : Call) (x : Handle) (a : SubmitAct) : Option (Call × Handle) :=
  match a, c.stage with
  | .count, .entered =>
    some ({ c with stage := if x.waiting ≥ config.maxQueue then .refused else .queued },
      { x with waiting := x.waiting + 1 })
  | .refuse, .refused =>
    some ({ c with
        stage := .ended
        result := some (.error .overloaded "too many queries are waiting for this database") },
      { x with waiting := x.waiting - 1 })
  | .uncount, .returned =>
    some ({ c with stage := .uncounted }, { x with waiting := x.waiting - 1 })
  | .touch now, .uncounted => some ({ c with stage := .touched }, { x with lastUsed := now })
  | .load, .touched =>
    some ({ c with stage := if config.archive then .settled else .loaded x.commits }, x)
  | .store, .loaded commits => some ({ c with stage := .settled }, { x with saved := commits })
  | .compare, .settled => some ({ c with stage := .comparing x.commits }, x)
  | .check, .comparing commits =>
    some ({ c with stage := if commits = x.saved then .ended else .noting }, x)
  | .note now, .noting =>
    some ({ c with stage := .ended }, { x with unsavedSince := some (x.unsavedSince.getD now) })
  | _, _ => none

/-- `run`, as the call `i`.  `InterruptOnDrop` raises an interrupt when the caller is dropped while
its job is with the blocking threads; a caller dropped earlier drops the guard, if it has one. -/
def run (i : Nat) (c : Call) (x : Handle) (a : RunAct) : Option (Call × Handle) :=
  match a, c.stage with
  | .lock, .queued =>
    if x.guard = none then some ({ c with stage := .locked }, { x with guard := some i }) else none
  | .expire, .queued =>
    if x.guard = none then none
    else
      some ({ c with
          stage := .returned
          result := some (.error .overloaded "timed out waiting for the database") },
        x)
  | .openFile, .locked => if x.database = none then some ({ c with stage := .opening }, x) else none
  | .opened, .opening =>
    some ({ c with stage := .locked }, { x with
        database := some ⟨x.connections, none, none⟩
        connections := x.connections + 1 })
  | .notOpened failure, .opening =>
    some ({ c with stage := .returned, result := some failure.done }, { x with guard := none })
  | .spawn, .locked =>
    x.database.map fun d => ({ c with stage := .running d.number false .active }, x)
  | .deadline, .running number false job =>
    some ({ c with stage := .running number true job }, x.interrupt i number)
  | .learn, .running _ _ (.done panicked) =>
    some ({ c with
        stage := .returned
        result := some (if panicked then internalError else .reported) },
      x)
  | .cancel, .queued => some ({ c with stage := .cancelled none }, x)
  | .cancel, .opening => some ({ c with stage := .cancelled none }, { x with guard := none })
  | .cancel, .running number _ job =>
    some ({ c with stage := .cancelled (some job) }, x.interrupt i number)
  | _, _ => none

def runJob (c : Call) (x : Handle) (a : JobAct) : Option (Call × Handle) :=
  x.database.bind fun d =>
    match a, c.stage.job with
    | .beginStatement, some .active =>
      if d.statement = none then
        some (c, { x with database := some { d with statement := some false } })
      else none
    | .hook, some .active =>
      if d.statement ≠ none ∧ d.pending = none then
        some (c, { x with
            database := some { d with pending := some x.commits }
            commits := x.commits + 1 })
      else none
    | .visible, some .active =>
      d.pending.map fun k =>
        (c, { x with database := some { d with pending := none }, visible := x.visible ++ [k] })
    | .rollback, some .active =>
      d.pending.map fun _ => (c, { x with database := some { d with pending := none } })
    | .endStatement ok, some .active =>
      if d.statement ≠ none ∧ d.pending = none then
        some ({ c with stage := c.stage.withJob (if ok then .active else .failed) },
          { x with database := some { d with statement := none } })
      else none
    | .finish panicked, some .active | .finish panicked, some .failed =>
      if d.statement = none then
        some ({ c with stage := c.stage.withJob (.done panicked) }, { x with guard := none })
      else none
    | _, _ => none

end Call

inductive CallAct
  | submit (a : SubmitAct)
  | run (a : RunAct)
  | job (a : JobAct)
deriving DecidableEq

def Call.step (config : Config) (i : Nat) (c : Call) (x : Handle) : CallAct → Option (Call × Handle)
  | .submit a => c.submit config x a
  | .run a => c.run i x a
  | .job a => c.runJob x a

/-! ## Snapshots -/

inductive SnapshotStage
  | loaded
  | copied (copy : List Nat)
  | recorded
  | stored
  | reloaded (commits : Nat)
deriving DecidableEq

structure Snapshot where
  handle : Nat
  started : Nat
  covered : Nat
  stage : SnapshotStage
deriving DecidableEq

inductive PassAct
  | load (h now : Nat)
  | copy
  | record
  | store
  | reload
  | note
  | fail
  | finish
  | cancel
deriving DecidableEq

def Snapshot.step (p : Snapshot) (x : Handle) (a : PassAct) : Option (Option Snapshot × Handle) :=
  match a, p.stage with
  | .copy, .loaded => some (some { p with stage := .copied x.visible }, x)
  | .record, .copied copy => some (some { p with stage := .recorded }, { x with recorded := copy })
  | .store, .recorded => some (some { p with stage := .stored }, { x with saved := p.covered })
  | .reload, .stored => some (some { p with stage := .reloaded x.commits }, x)
  | .note, .reloaded commits =>
    some (none, { x with unsavedSince := if commits ≠ p.covered then some p.started else none })
  | .fail, .loaded | .fail, .copied _ | .fail, .recorded => some (none, x)
  | _, _ => none

def Snapshot.awaits (p : Snapshot) : Bool :=
  match p.stage with
  | .loaded | .copied _ | .recorded => true
  | _ => false

structure Pass where
  todo : List Nat
  current : Option Snapshot
deriving DecidableEq

def Pass.count (p : Pass) (h : Nat) : Nat :=
  p.todo.count h + (p.current.any fun snapshot => snapshot.handle == h).toNat

/-! ## The service -/

/-- `databases`, the handles, the calls, and the pass of `snapshot_all` that holds `snapshots`. -/
structure State where
  databases : AList fun _ : Key => Nat
  handles : Nat → Option Handle
  made : Nat
  calls : Nat → Option Call
  called : Nat
  pass : Option Pass

namespace State

def empty : State where
  databases := ∅
  handles := fun _ => none
  made := 0
  calls := fun _ => none
  called := 0
  pass := none

def strongCount (s : State) (h : Nat) : Nat :=
  s.databases.entries.countP (fun entry => entry.2 = h)
    + (List.range s.called).countP (fun i => (s.calls i).any fun c => c.holds && c.handle == h)
    + s.pass.elim 0 fun p => p.count h

def setHandle (s : State) (h : Nat) (x : Handle) : State :=
  { s with handles := Function.update s.handles h (some x) }

def put (s : State) (i : Nat) (c : Call) (x : Handle) : State :=
  { s.setHandle c.handle x with calls := Function.update s.calls i (some c) }

def entries (s : State) : List (Key × Nat × Handle) :=
  s.databases.entries.filterMap fun entry => (s.handles entry.2).map fun x => (entry.1, entry.2, x)

def candidates (s : State) : List (Key × Nat × Handle) :=
  s.entries.filter fun entry => s.strongCount entry.2.1 == 1 && entry.2.2.isOpen

/-- The candidates that were used least recently.  The table is walked in any order, so `handle` can
take any of them. -/
def oldest (s : State) : List (Key × Nat × Handle) :=
  s.candidates.filter fun entry =>
    s.candidates.all fun other => entry.2.2.lastUsed ≤ other.2.2.lastUsed

def openCount (s : State) : Nat := s.entries.countP fun entry => entry.2.2.isOpen

/-- Makes room for a new entry: the entry of `victim` goes, or only its connection when it has
commits that no snapshot holds. -/
def evict (config : Config) (s : State) (victim : Option Key) : Option State :=
  if s.openCount ≥ config.maxOpen then
    match victim with
    | none => if s.oldest = [] then some s else none
    | some key =>
      (s.oldest.find? fun entry => entry.1 = key).map fun entry =>
        if entry.2.2.unsaved then s.setHandle entry.2.1 entry.2.2.close
        else { s with databases := s.databases.erase key }
  else some s

def create (s : State) (key : Key) (now : Nat) : State :=
  { s.setHandle s.made (.new key now) with
    databases := s.databases.insert key s.made
    made := s.made + 1 }

def handle (config : Config) (s : State) (key : Key) (victim : Option Key) (now : Nat) :
    Option (State × Nat) :=
  match s.databases.lookup key with
  | some h => some (s, h)
  | none => (s.evict config victim).map fun t => (t.create key now, t.made)

def enter (s : State) (key : Key) (h : Nat) : State :=
  { s with
    calls := Function.update s.calls s.called (some ⟨key, h, .entered, none⟩)
    called := s.called + 1 }

def stepCall (config : Config) (s : State) (i : Nat) (a : CallAct) : Option State :=
  (s.calls i).bind fun c =>
    (s.handles c.handle).bind fun x =>
      (c.step config i x a).map fun r => s.put i r.1 r.2

def detach (s : State) (p : Key → Bool) : Option State :=
  if s.databases.entries.any fun entry => p entry.1 && decide (s.strongCount entry.2 > 1) then none
  else some { s with databases := s.databases.retain fun key _ => !p key }

/-- Removes the entry of a deleted database and deletes its files, which can fail.  Answers whether
they are gone. -/
def removeFiles (s : State) (id : BitVec 128) (deleted : Bool) : State × Bool :=
  match s.detach fun key => key = .database id with
  | some t => (t, deleted)
  | none => (s, false)

def removeNamespaceFiles (s : State) (namespaceId : BitVec 128) (deleted : Bool) : State × Bool :=
  match s.detach (Key.isOf namespaceId) with
  | some t => (t, deleted)
  | none => (s, false)

/-- Removes the entry of a database and moves its files aside, so its next call restores the latest
snapshot; `moved` is the error of a file that cannot be moved. -/
def resetToSnapshot (config : Config) (s : State) (id : BitVec 128) (moved : Except String Unit) :
    State × Except String Unit :=
  if config.archive then
    match s.detach fun key => key = .database id with
    | some t => (t, moved.mapError fun e => "move aside: " ++ e)
    | none => (s, .error "the database is in use; retry")
  else (s, .error "snapshots are off on this runner")

def isIdle (config : Config) (s : State) (now h : Nat) (x : Handle) : Bool :=
  s.strongCount h == 1 && decide (now - x.lastUsed ≥ config.idle)

/-- Drops the connections nobody used for `idle`.  A database with commits that no snapshot holds
keeps its entry. -/
def closeIdle (config : Config) (s : State) (now : Nat) : State :=
  { s with
    databases := s.databases.retain fun _ h =>
      (s.handles h).all fun x => !s.isIdle config now h x || x.unsaved
    handles := fun h =>
      (s.handles h).map fun x =>
        if s.databases.lookup x.key = some h ∧ s.isIdle config now h x then x.close else x }

def snapshotAll (config : Config) (s : State) : Option State :=
  if config.archive ∧ s.pass = none then
    some
      { s with
        pass := some
          { todo := (s.entries.filter fun entry => entry.2.2.unsaved).map fun entry => entry.2.1
            current := none } }
  else none

/-- The pass makes a step.  The table is walked in any order, so any handle can be the next. -/
def stepPass (s : State) (a : PassAct) : Option State :=
  s.pass.bind fun p =>
    match a, p.current with
    | .load h now, none =>
      if h ∈ p.todo then
        (s.handles h).map fun x =>
          { s with pass := some ⟨p.todo.erase h, some ⟨h, now, x.commits, .loaded⟩⟩ }
      else none
    | .finish, none => if p.todo = [] then some { s with pass := none } else none
    | .cancel, some snapshot => if snapshot.awaits then some { s with pass := none } else none
    | a, some snapshot =>
      (s.handles snapshot.handle).bind fun x =>
        (snapshot.step x a).map fun r =>
          { s.setHandle snapshot.handle r.2 with pass := some { p with current := r.1 } }
    | _, none => none

end State

/-! ## The machine -/

inductive Act
  | submit (key : Key) (victim : Option Key) (now : Nat)
  | call (i : Nat) (a : CallAct)
  | closeIdle (now : Nat)
  | removeFiles (id : BitVec 128) (deleted : Bool)
  | removeNamespaceFiles (namespaceId : BitVec 128) (deleted : Bool)
  | resetToSnapshot (id : BitVec 128) (moved : Except String Unit)
  | snapshotAll
  | pass (a : PassAct)

def State.step (config : Config) (s : State) : Act → Option State
  | .submit key victim now => (s.handle config key victim now).map fun r => r.1.enter key r.2
  | .call i a => s.stepCall config i a
  | .closeIdle now => some (s.closeIdle config now)
  | .removeFiles id deleted => some (s.removeFiles id deleted).1
  | .removeNamespaceFiles namespaceId deleted => some (s.removeNamespaceFiles namespaceId deleted).1
  | .resetToSnapshot id moved => some (s.resetToSnapshot config id moved).1
  | .snapshotAll => s.snapshotAll config
  | .pass a => s.stepPass a

def machine (config : Config) : Machine State Act where
  init := State.empty
  step := State.step config

end OpenWorkersRunner.D1
