import OpenWorkersRunner.D1.ServiceStep

/-!
# D1: the files of the databases (`src/d1/mod.rs`, `restore_snapshot` of `src/d1/archive.rs`)

The service of `OpenWorkersRunner.D1.Service` keeps its data in files, and this file puts them
beside it: `<id>.sqlite` with `-wal` and `-shm`, and the scratch files of a restore and of a
snapshot.
-/

namespace OpenWorkersRunner.D1.Files

/-! ## Data -/

inductive Suffix
  | sqlite
  | wal
  | shm
  | restoreScratch
  | snapshotScratch
deriving DecidableEq

def suffixes : List Suffix := [.sqlite, .wal, .shm]

structure Name where
  key : Key
  suffix : Suffix
deriving DecidableEq

def Name.isLeftover : Name → Bool
  | ⟨.database _, .restoreScratch⟩ | ⟨.database _, .snapshotScratch⟩ => true
  | _ => false

inductive Opening
  | directory
  | checking
  | fetching
  | restoring (snapshot : Nat)
  | written
  | restored
  | opening
  | preparing (file : Nat)
  | opened (file : Nat)
  | failed (failure : OpenFailure)
deriving DecidableEq

def Opening.isBlocking : Opening → Bool
  | .restoring _ | .written | .opening | .preparing _ => true
  | _ => false

inductive Work
  | reset (id : BitVec 128)
  | remove (id : BitVec 128)
  | removeNamespace (namespaceId : BitVec 128)
deriving DecidableEq

def Work.covers : Work → Key → Bool
  | .reset id, key | .remove id, key => key = .database id
  | .removeNamespace namespaceId, key => key.isOf namespaceId

structure Upkeep where
  work : Work
  todo : List Suffix
  found : Bool
  taken : List Name
deriving DecidableEq

inductive Answer
  | reset (result : Except String Unit)
  | removed (gone : Bool)
deriving DecidableEq

structure Outcome where
  work : Work
  answer : Answer
  taken : List Name
  called : Nat
  made : Nat
  snapshots : Key → Nat

structure State where
  service : D1.State
  files : AList fun _ : Name => Nat
  directories : BitVec 128 → Bool
  made : Nat
  source : Nat → Nat
  snapshots : Key → Nat
  openings : Nat → Option Opening
  connections : Nat → Option Nat
  upkeep : Option Upkeep
  outcomes : List Outcome
  aside : List (BitVec 128 × Nat)
  wrote : Nat → List Nat

namespace State

def empty : State where
  service := .empty
  files := ∅
  directories := fun _ => false
  made := 0
  source := fun _ => 0
  snapshots := fun _ => 0
  openings := fun _ => none
  connections := fun _ => none
  upkeep := none
  outcomes := []
  aside := []
  wrote := fun _ => []

def file (s : State) (key : Key) (suffix : Suffix) : Option Nat := s.files.lookup ⟨key, suffix⟩

def hasDirectory (s : State) : Key → Bool
  | .database _ => true
  | .object namespaceId _ => s.directories namespaceId

def makeDirectory (s : State) (key : Key) : State :=
  { s with directories := fun namespaceId => key.isOf namespaceId || s.directories namespaceId }

def make (s : State) (name : Name) (snapshots : Nat) : State :=
  { s with
    files := s.files.insert name s.made
    source := Function.update s.source s.made snapshots
    made := s.made + 1 }

def remove (s : State) (name : Name) : State := { s with files := s.files.erase name }

def goto (s : State) (i : Nat) (o : Opening) : State :=
  { s with openings := Function.update s.openings i (some o) }

end State

/-! ## From the lock to the open file -/

inductive Install
  | renamed
  | corrupt
  | notRenamed
deriving DecidableEq

inductive OpenAct
  | createDirectory (ok : Bool)
  | exists
  | fetch (ok : Bool)
  | write (ok : Bool)
  | install (result : Install)
  | full (reason : String)
  | spawn
  | connect (ok : Bool)
  | prepare (failure : Option OpenFailure)
  | learn
deriving DecidableEq

namespace State

def learn (config : Config) (s : State) (i : Nat) (a : RunAct)
    (connections : Nat → Option Nat) : Option State :=
  (s.service.step config (.call i (.run a))).map fun t =>
    { s with
      service := t
      connections := connections
      openings := Function.update s.openings i none }

def stepOpening (config : Config) (s : State) (i : Nat) (c : Call) (o : Opening) (a : OpenAct) :
    Option State :=
  match a, o with
  | .createDirectory true, .directory => some ((s.makeDirectory c.key).goto i .checking)
  | .createDirectory false, .directory => some (s.goto i (.failed .directory))
  | .exists, .checking =>
    some (s.goto i
      (if !config.archive || (s.file c.key .sqlite).isSome then .restored else .fetching))
  | .fetch true, .fetching =>
    some (s.goto i
      (if s.snapshots c.key = 0 then .restored else .restoring (s.snapshots c.key)))
  | .fetch false, .fetching => some (s.goto i (.failed .restore))
  | .write true, .restoring snapshot =>
    if s.hasDirectory c.key then
      some ((s.make ⟨c.key, .restoreScratch⟩ snapshot).goto i .written)
    else none
  | .write false, .restoring _ => some (s.goto i (.failed .restore))
  | .install .renamed, .written =>
    (s.file c.key .restoreScratch).map fun f =>
      { s.remove ⟨c.key, .restoreScratch⟩ with
        files := (s.remove ⟨c.key, .restoreScratch⟩).files.insert ⟨c.key, .sqlite⟩ f
        openings := Function.update s.openings i (some .restored) }
  | .install .corrupt, .written =>
    some ((s.remove ⟨c.key, .restoreScratch⟩).goto i (.failed .restore))
  | .install .notRenamed, .written => some (s.goto i (.failed .restore))
  | .full reason, .restored =>
    match c.key with
    | .object _ _ =>
      if s.file c.key .sqlite = none then some (s.goto i (.failed (.full reason))) else none
    | .database _ => none
  | .spawn, .restored => some (s.goto i .opening)
  | .connect true, .opening =>
    match s.file c.key .sqlite with
    | some f => some (s.goto i (.preparing f))
    | none =>
      if s.hasDirectory c.key then
        some ((s.make ⟨c.key, .sqlite⟩ 0).goto i (.preparing s.made))
      else none
  | .connect false, .opening => some (s.goto i (.failed .file))
  | .prepare none, .preparing f => some (s.goto i (.opened f))
  | .prepare (some .file), .preparing _ => some (s.goto i (.failed .file))
  | .prepare (some .panicked), .preparing _ => some (s.goto i (.failed .panicked))
  | .learn, .opened f =>
    s.learn config i .opened (Function.update s.connections c.handle (some f))
  | .learn, .failed failure => s.learn config i (.notOpened failure) s.connections
  | _, _ => none

/-- The opening of the call `i` makes a step: its thread, or the caller if it is still there. -/
def stepOpen (config : Config) (s : State) (i : Nat) (a : OpenAct) : Option State :=
  (s.service.calls i).bind fun c =>
    (s.openings i).bind fun o =>
      if o.isBlocking || c.stage == .opening then s.stepOpening config i c o a else none

end State

/-! ## What SQLite does beside -/

inductive Maker
  | handle (h : Nat)
  | opening (i : Nat)
  | snapshot (key : Key)
deriving DecidableEq

namespace State

def isLive (s : State) (h : Nat) (x : Handle) : Bool :=
  x.database.isSome && (s.service.databases.lookup x.key == some h || x.guard.isSome)

def maker (s : State) : Maker → Option (Key × Nat)
  | .handle h =>
    (s.service.handles h).bind fun x =>
      if s.isLive h x then (s.connections h).map fun f => (x.key, f) else none
  | .opening i =>
    (s.service.calls i).bind fun c =>
      match s.openings i with
      | some (.preparing f) => some (c.key, f)
      | _ => none
  | .snapshot key => (s.file key .sqlite).map fun f => (key, f)

def makeBeside (s : State) (m : Maker) (suffix : Suffix) : Option State :=
  (s.maker m).bind fun r =>
    if suffix ∈ [.wal, .shm, .snapshotScratch] ∧ s.hasDirectory r.1 ∧ s.file r.1 suffix = none then
      some { s with files := s.files.insert ⟨r.1, suffix⟩ r.2 }
    else none

end State

/-! ## Files that are moved and deleted -/

inductive UpkeepAct
  | start (work : Work)
  | exists
  | take (error : Option String)
  | takeEntry (objectId : BitVec 256) (suffix : Suffix)
  | finish
deriving DecidableEq

namespace State

def start (s : State) (service : D1.State) (work : Work) : State :=
  { s with service := service, upkeep := some ⟨work, suffixes, false, []⟩ }

def answer (s : State) (work : Work) (taken : List Name) (answer : Answer) : State :=
  { s with
    upkeep := none
    outcomes := s.outcomes ++ [⟨work, answer, taken, s.service.called, s.made, s.snapshots⟩] }

def begin (config : Config) (s : State) : Work → State
  | .reset id =>
    match s.service.resetToSnapshot config id (.ok ()) with
    | (t, .ok ()) => s.start t (.reset id)
    | (_, .error e) => s.answer (.reset id) [] (.reset (.error e))
  | .remove id =>
    match s.service.removeFiles id true with
    | (t, true) => s.start t (.remove id)
    | (_, false) => s.answer (.remove id) [] (.removed false)
  | .removeNamespace namespaceId =>
    match s.service.removeNamespaceFiles namespaceId true with
    | (t, true) => s.start t (.removeNamespace namespaceId)
    | (_, false) => s.answer (.removeNamespace namespaceId) [] (.removed false)

def take (s : State) (u : Upkeep) (name : Name) (todo : List Suffix) : State :=
  { s.remove name with
    upkeep := some
      { u with
        todo := todo
        found := false
        taken := u.taken ++ (if (s.files.lookup name).isSome then [name] else []) } }

def stepUpkeep (s : State) (u : Upkeep) (a : UpkeepAct) : Option State :=
  match u.work, a, u.todo with
  | .reset id, .exists, suffix :: todo =>
    if u.found then none
    else
      some
        { s with
          upkeep := some
            (if (s.file (.database id) suffix).isSome then { u with found := true }
              else { u with todo := todo }) }
  | .reset id, .take none, suffix :: todo =>
    if u.found then
      (s.file (.database id) suffix).map fun f =>
        { s.take u ⟨.database id, suffix⟩ todo with
          aside := if suffix = .sqlite then s.aside ++ [(id, f)] else s.aside }
    else none
  | .reset id, .take (some e), _ :: _ =>
    if u.found then
      some (s.answer (.reset id) u.taken (.reset (.error ("move aside: " ++ e))))
    else none
  | .reset id, .finish, [] => some (s.answer (.reset id) u.taken (.reset (.ok ())))
  | .remove id, .take none, suffix :: todo => some (s.take u ⟨.database id, suffix⟩ todo)
  | .remove id, .take (some _), _ :: _ => some (s.answer (.remove id) u.taken (.removed false))
  | .remove id, .finish, [] => some (s.answer (.remove id) u.taken (.removed true))
  | .removeNamespace namespaceId, .takeEntry objectId suffix, todo =>
    some (s.take u ⟨.object namespaceId objectId, suffix⟩ todo)
  | .removeNamespace namespaceId, .take (some _), _ =>
    some (s.answer (.removeNamespace namespaceId) u.taken (.removed false))
  | .removeNamespace namespaceId, .finish, _ =>
    -- the directory itself goes last, and only when it is empty
    if s.files.entries.all fun entry => !entry.1.key.isOf namespaceId then
      some
        ({ s with directories := Function.update s.directories namespaceId false }.answer
          (.removeNamespace namespaceId) u.taken (.removed true))
    else none
  | _, _, _ => none

end State

/-! ## The machine -/

inductive Act
  | service (a : D1.Act)
  | opening (i : Nat) (a : OpenAct)
  | makeBeside (m : Maker) (suffix : Suffix)
  | unlink (name : Name)
  | upkeep (a : UpkeepAct)
  | crash

namespace State

/-- The openings after a step of the service.  Where no thread works for it, an opening ends with
its caller. -/
def openingsAfter (s : State) : D1.Act → Nat → Option Opening
  | .call i (.run .openFile) => Function.update s.openings i (some .directory)
  | .call i (.run .cancel) =>
    if (s.openings i).any Opening.isBlocking then s.openings else Function.update s.openings i none
  | _ => s.openings

def wroteAfter (s : State) : D1.Act → Nat → List Nat
  | .submit _ _ _ => Function.update s.wrote s.service.called []
  | .call i (.job .visible) =>
    Function.update s.wrote i
      (s.wrote i ++ ((s.service.calls i).bind fun c => s.connections c.handle).toList)
  | _ => s.wrote

def recordedKey (s : State) : D1.Act → Option Key
  | .pass .record =>
    (s.service.pass.bind Pass.current).bind fun p => (s.service.handles p.handle).map Handle.key
  | _ => none

def snapshotsAfter (s : State) (a : D1.Act) : Key → Nat :=
  match s.recordedKey a with
  | some key => Function.update s.snapshots key (s.snapshots key + 1)
  | none => s.snapshots

def after (s : State) (a : D1.Act) (t : D1.State) : State :=
  { s with
    service := t
    openings := s.openingsAfter a
    wrote := s.wroteAfter a
    snapshots := s.snapshotsAfter a }

/-- The steps of the service that are steps here: those that touch files are cut further, and a
caller is dropped at an await only. -/
def allows (s : State) : D1.Act → Bool
  | .removeFiles _ _ | .removeNamespaceFiles _ _ | .resetToSnapshot _ _ => false
  | .call _ (.run .opened) | .call _ (.run (.notOpened _)) => false
  | .call i (.run .cancel) => s.openings i != some .directory && s.openings i != some .checking
  | _ => true

def crash (s : State) : State :=
  { s with
    service := .empty
    files := s.files.retain fun name _ => !name.isLeftover
    openings := fun _ => none
    connections := fun _ => none
    upkeep := none
    outcomes := []
    wrote := fun _ => [] }

def step (config : Config) (s : State) : Act → Option State
  | .service a => if s.allows a then (s.service.step config a).map (s.after a) else none
  | .opening i a => s.stepOpen config i a
  | .makeBeside m suffix => s.makeBeside m suffix
  | .unlink name => if name.suffix = .sqlite then none else some (s.remove name)
  | .upkeep a =>
    match s.upkeep, a with
    | none, .start work => some (s.begin config work)
    | some u, a => s.stepUpkeep u a
    | none, _ => none
  | .crash => some s.crash

end State

def machine (config : Config) : Machine State Act where
  init := .empty
  step := State.step config

end OpenWorkersRunner.D1.Files
