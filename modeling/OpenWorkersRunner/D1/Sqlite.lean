import OpenWorkersRunner.Lib.Prog
import Mathlib.Algebra.GroupWithZero.Nat

/-!
# D1: what a job does on its connection

This file is `src/d1/sqlite.rs` and `src/d1/sqlite/object.rs`: what `Database::run` does for each
kind of job, as a program that asks SQLite.  It prepares statements, runs them one after the other,
and goes on with what they return; whether a statement fails, and what it finds, is the answer of
SQLite.
-/

namespace OpenWorkersRunner.D1.Sqlite

/-! ## Data -/

inductive SqlPrimitive
  | null
  | bool (value : Bool)
  | int (value : Int)
  | float (bits : UInt64)
  | string (value : String)
  | bytes (value : List UInt8)
deriving DecidableEq

inductive D1ErrorKind
  | sql
  | range
  | interrupted
  | overloaded
  | unavailable
  | type
deriving DecidableEq

structure D1Error where
  kind : D1ErrorKind
  message : String
  statement : Option Nat
deriving DecidableEq

structure SqliteError where
  code : Option Nat
  message : Option String
  failure : String
  text : String
deriving DecidableEq

def codeName : Nat → String
  | 1 => "SQLITE_ERROR"
  | 2 => "SQLITE_INTERNAL"
  | 3 => "SQLITE_PERM"
  | 4 => "SQLITE_ABORT"
  | 5 => "SQLITE_BUSY"
  | 6 => "SQLITE_LOCKED"
  | 7 => "SQLITE_NOMEM"
  | 8 => "SQLITE_READONLY"
  | 9 => "SQLITE_INTERRUPT"
  | 10 => "SQLITE_IOERR"
  | 11 => "SQLITE_CORRUPT"
  | 13 => "SQLITE_FULL"
  | 14 => "SQLITE_CANTOPEN"
  | 17 => "SQLITE_SCHEMA"
  | 18 => "SQLITE_TOOBIG"
  | 19 => "SQLITE_CONSTRAINT"
  | 20 => "SQLITE_MISMATCH"
  | 21 => "SQLITE_MISUSE"
  | 23 => "SQLITE_AUTH"
  | 25 => "SQLITE_RANGE"
  | 26 => "SQLITE_NOTADB"
  | _ => "SQLITE_ERROR"

def sqlError (err : SqliteError) : D1Error :=
  match err.code with
  | none => ⟨.sql, err.text, none⟩
  | some extended =>
    let code := extended % 256
    { kind := if code = 9 then .interrupted else if code = 13 then .overloaded else .sql
      message := err.message.getD err.failure ++ ": " ++ codeName code
      statement := none }

inductive Role
  | work
  | control
  | measure
deriving DecidableEq

structure Statement where
  role : Role
  sql : String
  params : List SqlPrimitive
deriving DecidableEq

inductive Shape
  | nothing
  | changes
  | int
  | text
  | blob
  | entries
  | rows
deriving DecidableEq

def Shape.Result : Shape → Type
  | .nothing => Unit
  | .changes => Nat
  | .int => Option Int
  | .text => Option String
  | .blob => Option (List UInt8)
  | .entries => List (String × List UInt8)
  | .rows => List (List SqlPrimitive)

structure Prepared where
  sql : String
  parameters : List (Option String)
  readonly : Bool
  columns : List String
  bindFailure : Option SqliteError
deriving DecidableEq

inductive Ask
  | prepare (sql : String)
  | next (sql : String) (index : Nat)
  | isAutocommit
  | setGuest (on : Bool)
  | execute (shape : Shape) (statement : Statement)
deriving DecidableEq

def Ask.Answer : Ask → Type
  | .prepare _ => Except SqliteError Prepared
  | .next _ _ => Except SqliteError (Option Prepared)
  | .isAutocommit => Bool
  | .setGuest _ => Unit
  | .execute shape _ => Except SqliteError shape.Result

abbrev Conn := Prog Ask Ask.Answer

def prepare (sql : String) : ExceptT SqliteError Conn Prepared :=
  ExceptT.mk (Prog.call (Ask.prepare sql) : Conn (Except SqliteError Prepared))

def nextStatement (sql : String) (index : Nat) : ExceptT SqliteError Conn (Option Prepared) :=
  ExceptT.mk (Prog.call (Ask.next sql index) : Conn (Except SqliteError (Option Prepared)))

def isAutocommit : Conn Bool := Prog.call Ask.isAutocommit

def setGuest (on : Bool) : Conn Unit := Prog.call (Ask.setGuest on)

def execute (shape : Shape) (statement : Statement) : ExceptT SqliteError Conn shape.Result :=
  ExceptT.mk (Prog.call (Ask.execute shape statement) : Conn (Except SqliteError shape.Result))

def executeD1 (shape : Shape) (statement : Statement) : ExceptT D1Error Conn shape.Result :=
  (execute shape statement).adapt sqlError

def executeText (shape : Shape) (statement : Statement) : ExceptT String Conn shape.Result :=
  (execute shape statement).adapt SqliteError.text

def check {ε : Type} (r : Except ε Unit) : ExceptT ε Conn Unit := ExceptT.mk (pure r)

def refuse {ε : Type} (case : Bool) (err : ε) : Except ε Unit := if case then .error err else .ok ()

structure Database where
  pageSize : Nat
  resultBytes : Nat
  paused : Option String
  full : Option String
deriving DecidableEq

/-! ## The statements of the runner -/

def unrestricted {α : Type} (p : Conn α) : Conn α := do
  setGuest false
  let result ← p
  setGuest true
  pure result

def trusted (role : Role) (sql : String) : ExceptT D1Error Conn Unit :=
  ExceptT.mk (unrestricted (executeD1 .nothing ⟨role, sql, []⟩).run)

def rollback : Conn Unit := do
  match ← isAutocommit with
  | true => pure ()
  | false =>
    let _ ← (trusted .control "ROLLBACK").run
    pure ()

def pages (pragma : String) : Conn Nat := do
  match ← (execute .int ⟨.measure, "PRAGMA " ++ pragma, []⟩).run with
  | .ok (some count) => pure count.toNat
  | _ => pure 0

namespace Database

def usedBytes (d : Database) : Conn Nat := do
  let used ← unrestricted do
    let count ← pages "page_count"
    let free ← pages "freelist_count"
    pure (count - free)
  pure (used * d.pageSize)

def size (d : Database) : Conn Nat := do
  let count ← unrestricted (pages "page_count")
  pure (count * d.pageSize)

def checkWrites (d : Database) : Except D1Error Unit :=
  match d.paused with
  | some reason => .error ⟨.overloaded, "writes are paused: " ++ reason, none⟩
  | none => .ok ()

end Database

/-! ## The operations of a D1 database -/

structure D1Statement where
  sql : String
  params : List SqlPrimitive
deriving DecidableEq

inductive D1Rows
  | all
  | first
deriving DecidableEq

structure D1StatementResult where
  columns : List String
  rows : List (List SqlPrimitive)
  changedDb : Bool
  sizeAfter : Nat
deriving DecidableEq

inductive D1Result
  | query (result : D1StatementResult)
  | batch (results : List D1StatementResult)
  | exec (count : Nat)
  | error (err : D1Error)
deriving DecidableEq

structure Migration where
  name : String
  sql : String
  checksum : String
deriving DecidableEq

def isNamed (name : String) : Bool :=
  [":", "@", "$"].any fun sign => sign.isPrefixOf name

def bind (stmt : Prepared) (params : List SqlPrimitive) : Except D1Error Unit :=
  match stmt.parameters.findSome? fun name => name.filter isNamed with
  | some name =>
    .error ⟨.sql, "named parameter " ++ name ++ " is not supported, use ?NNN", none⟩
  | none =>
    if params.length ≠ stmt.parameters.length then
      .error ⟨.range,
        "Wrong number of parameter bindings for SQL query: " ++ toString stmt.parameters.length ++
          " expected, " ++ toString params.length ++ " given",
        none⟩
    else
      match stmt.bindFailure with
      | some err => .error (sqlError err)
      | none => .ok ()

def valueSize : SqlPrimitive → Nat
  | .null => 1
  | .bool _ | .int _ | .float _ => 8
  | .string value => value.utf8ByteSize
  | .bytes value => value.length

def rowsSize (rows : List (List SqlPrimitive)) : Nat :=
  (rows.map fun row => (row.map valueSize).sum).sum

namespace Database

variable (d : Database)

/-- Runs a statement of a guest.  When only the first row is asked for, the others are not kept. -/
def query (statement : D1Statement) (rows : D1Rows) : ExceptT D1Error Conn D1StatementResult := do
  let stmt ← (prepare statement.sql).adapt sqlError
  check (bind stmt statement.params)
  check (if stmt.readonly then .ok () else d.checkWrites)
  let found ← executeD1 .rows ⟨.work, stmt.sql, statement.params⟩
  let values : List (List SqlPrimitive) := if rows = .first then found.take 1 else found
  check (refuse (d.resultBytes < rowsSize values)
    ⟨.overloaded, "result larger than " ++ toString d.resultBytes ++ " bytes", none⟩)
  let sizeAfter ← d.size
  pure ⟨stmt.columns, values, !stmt.readonly, sizeAfter⟩

def queries : Nat → List D1Statement → ExceptT D1Error Conn (List D1StatementResult)
  | _, [] => pure []
  | index, statement :: rest => do
    let result ← (d.query statement .all).adapt fun err => { err with statement := some index }
    let results ← queries (index + 1) rest
    pure (result :: results)

def inTransaction {α : Type} (body : ExceptT D1Error Conn α) : ExceptT D1Error Conn α := do
  trusted .control "BEGIN IMMEDIATE"
  let rolledBack {β : Type} (p : ExceptT D1Error Conn β) : ExceptT D1Error Conn β :=
    tryCatch p fun err => do
      rollback
      throw err
  let result ← rolledBack body
  rolledBack (trusted .control "COMMIT")
  pure result

def batch (statements : List D1Statement) : Conn D1Result := do
  match ← (inTransaction (d.queries 0 statements)).run with
  | .ok results => pure (.batch results)
  | .error err => pure (.error err)

/-- The statements of a script, from this number on, in a text of at most `bytes` more bytes: a
statement takes at least one.  The error names the statement that failed; the ones before it are
not undone here. -/
def scriptFrom (sql : String) : Nat → Nat → ExceptT D1Error Conn Nat
  | 0, count => pure count
  | bytes + 1, count => do
    let named (err : D1Error) : D1Error := { err with statement := some count }
    match ← (nextStatement sql count).adapt fun err => named (sqlError err) with
    | none => pure count
    | some stmt =>
      check (refuse (stmt.parameters ≠ []) (named ⟨.sql, "exec() does not take parameters", none⟩))
      check ((if stmt.readonly then .ok () else d.checkWrites).mapError named)
      (execute .nothing ⟨.work, stmt.sql, []⟩).adapt fun err => named (sqlError err)
      scriptFrom sql bytes (count + 1)

def script (sql : String) : ExceptT D1Error Conn Nat := d.scriptFrom sql sql.utf8ByteSize 0

def exec (sql : String) : Conn D1Result := do
  match ← (d.script sql).run with
  | .ok count => pure (.exec count)
  | .error err => pure (.error err)

def migrationsTable : String :=
  "CREATE TABLE IF NOT EXISTS d1_migrations (
    id INTEGER PRIMARY KEY AUTOINCREMENT,
    name TEXT NOT NULL UNIQUE,
    checksum TEXT NOT NULL,
    applied_at TEXT NOT NULL DEFAULT CURRENT_TIMESTAMP
)"

def selectChecksum : String := "SELECT checksum FROM d1_migrations WHERE name = ?1"

def insertMigration : String := "INSERT INTO d1_migrations (name, checksum) VALUES (?1, ?2)"

def migrateInTransaction (migration : Migration) : ExceptT D1Error Conn Nat := do
  trusted .work migrationsTable
  let applied : Option String ←
    executeD1 .text ⟨.work, selectChecksum, [.string migration.name]⟩
  match applied with
  | some checksum =>
    if checksum = migration.checksum then pure 0
    else
      throw ⟨.sql, "migration " ++ migration.name ++ " was applied with another checksum", none⟩
  | none =>
    let count ← d.script migration.sql
    let _ ← executeD1 .changes
      ⟨.work, insertMigration, [.string migration.name, .string migration.checksum]⟩
    pure count

def migrate (migration : Migration) : Conn D1Result := do
  let applied : ExceptT D1Error Conn Nat := do
    check d.checkWrites
    inTransaction (d.migrateInTransaction migration)
  match ← applied.run with
  | .ok count => pure (.exec count)
  | .error err => pure (.error err)

end Database

/-! ## The storage of an object -/

inductive ObjectStorageOp
  | getAlarm
  | setAlarm (at_ : Option Int)
  | get (keys : List String)
  | list (start startAfter stop keyPrefix : Option String) (reverse : Bool) (limit : Option Nat)
  | write (puts : List (String × List UInt8)) (deletes : List String) (deleteAll : Bool)
deriving DecidableEq

inductive ObjectStorageResult
  | alarm (at_ : Option Int)
  | values (values : List (Option (List UInt8)))
  | entries (entries : List (String × List UInt8))
  | written (deleted : Nat)
  | error (message : String)
deriving DecidableEq

def table : String :=
  "CREATE TABLE IF NOT EXISTS kv (key TEXT PRIMARY KEY, value BLOB NOT NULL) WITHOUT ROWID"

def alarmTable : String :=
  "CREATE TABLE IF NOT EXISTS alarm (id INTEGER PRIMARY KEY CHECK (id = 0), at INTEGER NOT NULL)"

def selectValue : String := "SELECT value FROM kv WHERE key = ?1"

def insertEntry : String :=
  "INSERT INTO kv (key, value) VALUES (?1, ?2) " ++
    "ON CONFLICT (key) DO UPDATE SET value = excluded.value"

def deleteEntry : String := "DELETE FROM kv WHERE key = ?1"

def deleteAllEntries : String := "DELETE FROM kv"

def selectAlarm : String := "SELECT at FROM alarm"

def insertAlarm : String :=
  "INSERT INTO alarm (id, at) VALUES (0, ?1) ON CONFLICT (id) DO UPDATE SET at = excluded.at"

def deleteAlarm : String := "DELETE FROM alarm"

def deleteAlarmAt : String := "DELETE FROM alarm WHERE at = ?1"

/-- The texts of `object.rs`, but for the statements of lists. -/
def objectTexts : List String :=
  [table, alarmTable, selectAlarm, deleteAlarm, insertAlarm, deleteAlarmAt, deleteAllEntries,
    selectValue, deleteEntry, insertEntry]

def maxKeyBytes : Nat := 2048
def maxValueBytes : Nat := 128 * 1024
def maxKeys : Nat := 128

def checkKey (key : String) : Except String Unit :=
  if key.utf8ByteSize > maxKeyBytes then
    .error ("a key is at most " ++ toString maxKeyBytes ++ " bytes")
  else .ok ()

def checkKeys (keys : List String) : Except String Unit :=
  if keys.length > maxKeys then .error ("a call takes at most " ++ toString maxKeys ++ " keys")
  else keys.forM checkKey

def checkPuts (puts : List (String × List UInt8)) : Except String Unit :=
  if puts.length > maxKeys then .error ("a put takes at most " ++ toString maxKeys ++ " keys")
  else
    puts.forM fun (key, value) => do
      checkKey key
      if value.length > maxValueBytes then
        .error ("the value of '" ++ key ++ "' is over " ++ toString maxValueBytes ++ " bytes")

def numbered (clause : String) (number : Nat) : String :=
  String.ofList (clause.toList.flatMap fun c =>
    if c = '?' then '?' :: (toString number).toList else [c])

def listStatement (start startAfter stop keyPrefix : Option String) (reverse : Bool)
    (limit : Option Nat) : Statement :=
  let bounds : List (String × String) :=
    [start.map fun value => (" AND key >= ?", value),
      startAfter.map fun value => (" AND key > ?", value),
      stop.map fun value => (" AND key < ?", value),
      keyPrefix.map fun value => (" AND substr(key, 1, length(?)) = ?", value)].filterMap id
  let clauses := (bounds.zipIdx 1).map fun (bound, number) => numbered bound.1 number
  let order := if reverse then " ORDER BY key DESC" else " ORDER BY key ASC"
  let last := limit.elim "" fun _ => numbered " LIMIT ?" (bounds.length + 1)
  { role := .work
    sql := "SELECT key, value FROM kv WHERE 1" ++ String.join clauses ++ order ++ last
    params := bounds.map (fun bound => SqlPrimitive.string bound.2) ++
      (limit.map fun limit => SqlPrimitive.int (min limit (2 ^ 63 - 1) : Nat)).toList }

def getValues : List String → ExceptT String Conn (List (Option (List UInt8)))
  | [] => pure []
  | key :: keys => do
    let value ← executeText .blob ⟨.work, selectValue, [.string key]⟩
    let values ← getValues keys
    pure (value :: values)

def deleteEntries : Bool → ExceptT String Conn Unit
  | true => do
    let _ ← executeText .changes ⟨.work, deleteAllEntries, []⟩
    pure ()
  | false => pure ()

def deleteKeys : List String → ExceptT String Conn Nat
  | [] => pure 0
  | key :: keys => do
    let count : Nat ← executeText .changes ⟨.work, deleteEntry, [.string key]⟩
    let counts ← deleteKeys keys
    pure (count + counts)

def putEntries : List (String × List UInt8) → ExceptT String Conn Unit
  | [] => pure ()
  | (key, value) :: puts => do
    let _ ← executeText .changes ⟨.work, insertEntry, [.string key, .bytes value]⟩
    putEntries puts

def alarm : ExceptT String Conn (Option Int) :=
  executeText .int ⟨.work, selectAlarm, []⟩

def dropTransaction : Conn Unit := do
  match ← isAutocommit with
  | true => pure ()
  | false =>
    let _ ← (execute .nothing ⟨.control, "ROLLBACK", []⟩).run
    pure ()

namespace Database

variable (d : Database)

def checkWritesText : Except String Unit := d.checkWrites.mapError D1Error.message

def writeEntries (puts : List (String × List UInt8)) (deletes : List String) (deleteAll : Bool) :
    ExceptT String Conn Nat := do
  let _ ← executeText .nothing ⟨.control, "BEGIN DEFERRED", []⟩
  let body : ExceptT String Conn Nat := do
    deleteEntries deleteAll
    let deleted ← deleteKeys deletes
    putEntries puts
    let _ ← executeText .nothing ⟨.control, "COMMIT", []⟩
    pure deleted
  tryCatch body fun err => do
    dropTransaction
    throw err

def objectOp (op : ObjectStorageOp) : ExceptT String Conn ObjectStorageResult := do
  let _ ← executeText .changes ⟨.work, table, []⟩
  let _ ← executeText .changes ⟨.work, alarmTable, []⟩
  match op with
  | .getAlarm => .alarm <$> alarm
  | .setAlarm at_ =>
    check d.checkWritesText
    let _ ← executeText .changes
      (match at_ with
      | some at_ => ⟨.work, insertAlarm, [.int at_]⟩
      | none => ⟨.work, deleteAlarm, []⟩)
    pure (.alarm at_)
  | .get keys =>
    check (checkKeys keys)
    let _ ← (prepare selectValue).adapt SqliteError.text
    .values <$> getValues keys
  | .list start startAfter stop keyPrefix reverse limit =>
    let statement := listStatement start startAfter stop keyPrefix reverse limit
    let _ ← (prepare statement.sql).adapt SqliteError.text
    let found : List (String × List UInt8) ← executeText .entries statement
    check (refuse
      (d.resultBytes < (found.map fun entry => entry.1.utf8ByteSize + entry.2.length).sum)
      "the list is too large; list with a limit")
    pure (.entries found)
  | .write puts deletes deleteAll =>
    check (checkKeys deletes)
    check (checkPuts puts)
    check d.checkWritesText
    check (d.full.elim (.ok ()) fun reason =>
      refuse (puts ≠ []) ("the storage is full: " ++ reason))
    .written <$> writeEntries puts deletes deleteAll

/-- What an operation on an object answers: its statements are the runner's, and its error is a
result. -/
def answered (p : ExceptT String Conn ObjectStorageResult) : Conn ObjectStorageResult := do
  match ← unrestricted p.run with
  | .ok result => pure result
  | .error message => pure (.error message)

def object (op : ObjectStorageOp) : Conn ObjectStorageResult := answered (d.objectOp op)

def clearAlarm (at_ : Int) : Conn ObjectStorageResult := answered do
  check d.checkWritesText
  let _ ← executeText .changes ⟨.work, alarmTable, []⟩
  let _ ← executeText .changes ⟨.work, deleteAlarmAt, [.int at_]⟩
  .alarm <$> alarm

end Database

/-! ## Jobs -/

inductive D1Op
  | query (statement : D1Statement) (rows : D1Rows)
  | batch (statements : List D1Statement)
  | exec (sql : String)
deriving DecidableEq

inductive Job
  | op (op : D1Op)
  | migrate (migration : Migration)
  | object (op : ObjectStorageOp)
  | clearAlarm (at_ : Int)
deriving DecidableEq

inductive Done
  | d1 (result : D1Result)
  | object (result : ObjectStorageResult)
deriving DecidableEq

/-- `Database::run`. -/
def Database.run (d : Database) : Job → Conn Done
  | .op (.query statement rows) => do
    match ← (d.query statement rows).run with
    | .ok result => pure (.d1 (.query result))
    | .error err => pure (.d1 (.error err))
  | .op (.batch statements) => .d1 <$> d.batch statements
  | .op (.exec sql) => .d1 <$> d.exec sql
  | .migrate migration => .d1 <$> d.migrate migration
  | .object op => .object <$> d.object op
  | .clearAlarm at_ => .object <$> d.clearAlarm at_

/-- The closure that `Service::run` gives to `spawn_blocking`: the job, and for an object the bytes
it uses after it. -/
def Database.job (d : Database) (job : Job) (measure : Bool) : Conn (Done × Option Nat) := do
  let result ← d.run job
  match measure with
  | true =>
    let bytes ← d.usedBytes
    pure (result, some bytes)
  | false => pure (result, none)

/-! ## After a failure -/

def Ask.isWork : Ask → Bool
  | .execute _ statement => statement.role == .work
  | _ => false

def Ask.fails : (q : Ask) → q.Answer → Prop
  | .execute _ statement, .error _ => statement.role ≠ .measure
  | _, _ => False

def Stops {ε α : Type} (p : ExceptT ε Conn α) : Prop :=
  p.run.StopsAfter Ask.fails (fun q => q.isWork = false) (fun r => ∃ err, r = .error err)
    fun _ => True

def StopsWork {α : Type} (p : Conn α) : Prop :=
  p.StopsAfter Ask.fails (fun q => q.isWork = false) (fun _ => True) fun _ => True

def NoWork {α : Type} (p : Conn α) : Prop := p.Only (fun q => q.isWork = false) fun _ => True

section Rules

variable {ε ε' α β : Type}

theorem stops_check (r : Except ε Unit) : Stops (check r) := trivial

theorem stops_pure (a : α) : Stops (pure a : ExceptT ε Conn α) := trivial

theorem stops_throw (err : ε) : Stops (throw err : ExceptT ε Conn α) := trivial

variable {p : ExceptT ε Conn α}

theorem Stops.bind {f : α → ExceptT ε Conn β} (hp : Stops p) (hf : ∀ a, Stops (f a)) :
    Stops (p >>= f) := by
  refine Prog.StopsAfter.bind (Prog.StopsAfter.mono ?_ ?_ hp)
  · rintro _ ⟨err, rfl⟩
    exact ⟨err, rfl⟩
  · intro r _
    cases r with
    | ok a => exact hf a
    | error err => trivial

theorem Stops.adapt (hp : Stops p) (f : ε → ε') : Stops (p.adapt f) := by
  refine Prog.StopsAfter.bind (Prog.StopsAfter.mono ?_ (fun _ _ => trivial) hp)
  rintro _ ⟨err, rfl⟩
  exact ⟨f err, rfl⟩

theorem Stops.map (hp : Stops p) (f : α → β) : Stops (f <$> p) :=
  Stops.bind hp fun a => stops_pure (f a)

theorem NoWork.stopsWork {p : Conn α} (hp : NoWork p) : StopsWork p := Prog.Only.stopsAfter hp

theorem stops_unrestricted (hp : Stops p) : Stops (ExceptT.mk (unrestricted p.run)) := by
  have hre : Stops (ExceptT.mk (do
      let result ← p.run
      setGuest true
      pure result)) := by
    refine Prog.StopsAfter.bind (Prog.StopsAfter.mono ?_ ?_ hp)
    · rintro _ ⟨err, rfl⟩
      exact ⟨rfl, fun _ => ⟨err, rfl⟩⟩
    · exact fun r _ _ => ⟨False.elim, trivial⟩
  exact fun _ => ⟨False.elim, hre⟩

theorem NoWork.bind {p : Conn α} {f : α → Conn β} (hp : NoWork p) (hf : ∀ a, NoWork (f a)) :
    NoWork (p >>= f) :=
  (Prog.only_bind p f).2 (Prog.Only.mono (fun a _ => hf a) hp)

theorem NoWork.unrestricted {p : Conn α} (hp : NoWork p) : NoWork (unrestricted p) :=
  ⟨rfl, fun _ => hp.bind fun _ => ⟨rfl, fun _ => trivial⟩⟩

theorem StopsWork.bind {p : Conn α} {f : α → Conn β} (hp : StopsWork p) (hf : ∀ a, NoWork (f a)) :
    StopsWork (p >>= f) :=
  Prog.StopsAfter.bind (Prog.StopsAfter.mono (fun a _ => hf a) (fun a _ => (hf a).stopsWork) hp)

theorem Stops.stopsWork (hp : Stops p) : StopsWork p.run :=
  Prog.StopsAfter.mono (fun _ _ => trivial) (fun _ _ => trivial) hp

theorem stops_tryCatch (hp : Stops p) {undo : Conn PUnit} (hu : NoWork undo) :
    Stops (tryCatch p fun err => do
      undo
      throw err) := by
  have ht (err : ε) : (ExceptT.run (do
      undo
      throw err : ExceptT ε Conn α)).Only (fun q => q.isWork = false)
        fun r => ∃ err, r = .error err := by
    refine (Prog.only_bind _ _).2 ((Prog.only_bind _ _).2 (Prog.Only.mono (fun _ _ => ?_) hu))
    exact ⟨err, rfl⟩
  refine Prog.StopsAfter.bind (Prog.StopsAfter.mono ?_ ?_ hp)
  · rintro _ ⟨err, rfl⟩
    exact ht err
  · intro r _
    cases r with
    | ok a => trivial
    | error err =>
      exact Prog.StopsAfter.mono (fun _ h => h) (fun _ _ => trivial) (ht err).stopsAfter

end Rules

/-! ### Statements -/

theorem stops_execute (shape : Shape) (stmt : Statement) :
    Stops (execute shape stmt) := by
  intro ans
  refine ⟨fun hf => ?_, trivial⟩
  cases ans with
  | ok res => cases hf
  | error err => exact ⟨err, rfl⟩

theorem stops_executeD1 (shape : Shape) (stmt : Statement) :
    Stops (executeD1 shape stmt) := (stops_execute shape stmt).adapt sqlError

theorem stops_executeText (shape : Shape) (stmt : Statement) :
    Stops (executeText shape stmt) := (stops_execute shape stmt).adapt SqliteError.text

theorem stops_trusted (role : Role) (sql : String) : Stops (trusted role sql) :=
  stops_unrestricted (stops_executeD1 _ _)

theorem stops_prepare (sql : String) : Stops (prepare sql) := fun _ => ⟨nofun, trivial⟩

theorem stops_nextStatement (sql : String) (idx : Nat) : Stops (nextStatement sql idx) :=
  fun _ => ⟨nofun, trivial⟩

theorem noWork_rollback : NoWork rollback := by
  refine ⟨rfl, fun autocommit => ?_⟩
  cases autocommit with
  | true => trivial
  | false => exact ⟨rfl, fun _ => ⟨rfl, fun _ => ⟨rfl, fun _ => trivial⟩⟩⟩

theorem noWork_dropTransaction : NoWork dropTransaction := by
  refine ⟨rfl, fun autocommit => ?_⟩
  cases autocommit with
  | true => trivial
  | false => exact ⟨rfl, fun _ => trivial⟩

theorem noWork_pages (pragma : String) : NoWork (pages pragma) := by
  refine ⟨rfl, fun ans => ?_⟩
  match ans with
  | .ok (some _) | .ok none | .error _ => trivial

namespace Database

variable (d : Database)

theorem stops_size {ε : Type} : Stops (d.size : ExceptT ε Conn Nat) := by
  refine fun _ => ⟨False.elim, fun ans => ⟨fun hf => ?_, ?_⟩⟩
  · cases ans with
    | ok res => cases hf
    | error err => exact absurd rfl hf
  · match ans with
    | .ok (some _) | .ok none | .error _ => exact fun _ => ⟨False.elim, trivial⟩

theorem noWork_usedBytes : NoWork d.usedBytes := by
  refine (NoWork.unrestricted ?_).bind fun _ => trivial
  exact (noWork_pages _).bind fun _ => (noWork_pages _).bind fun _ => trivial

theorem stops_query (statement : D1Statement) (rows : D1Rows) : Stops (d.query statement rows) := by
  refine ((stops_prepare _).adapt _).bind fun stmt => ?_
  refine (stops_check _).bind fun _ => (stops_check _).bind fun _ => ?_
  exact (stops_executeD1 _ _).bind fun found => (stops_check _).bind fun _ =>
    d.stops_size.bind fun _ => stops_pure _

theorem stops_queries (idx : Nat) (stmts : List D1Statement) :
    Stops (d.queries idx stmts) := by
  induction stmts generalizing idx with
  | nil => exact stops_pure _
  | cons stmt rest ih =>
    exact ((d.stops_query stmt .all).adapt _).bind fun _ =>
      (ih (idx + 1)).bind fun _ => stops_pure _

theorem stops_inTransaction {α : Type} {body : ExceptT D1Error Conn α} (hbo : Stops body) :
    Stops (inTransaction body) := by
  refine (stops_trusted _ _).bind fun _ => ?_
  refine (stops_tryCatch hbo noWork_rollback).bind fun res => ?_
  exact (stops_tryCatch (stops_trusted _ _) noWork_rollback).bind fun _ => stops_pure _

theorem stops_scriptFrom (sql : String) (bs count : Nat) :
    Stops (d.scriptFrom sql bs count) := by
  induction bs generalizing count with
  | zero => exact stops_pure _
  | succ bs ih =>
    refine ((stops_nextStatement sql count).adapt _).bind fun found => ?_
    cases found with
    | none => exact stops_pure _
    | some stmt =>
      exact (stops_check _).bind fun _ => (stops_check _).bind fun _ =>
        ((stops_execute _ _).adapt _).bind fun _ => ih (count + 1)

theorem stops_script (sql : String) : Stops (d.script sql) := d.stops_scriptFrom sql _ 0

theorem stops_migrateInTransaction (mig : Migration) :
    Stops (d.migrateInTransaction mig) := by
  refine (stops_trusted _ _).bind fun _ => (stops_executeD1 _ _).bind fun applied => ?_
  cases applied with
  | some sum =>
    simp only
    split
    · exact stops_pure _
    · exact stops_throw _
  | none =>
    exact (d.stops_script mig.sql).bind fun _ =>
      (stops_executeD1 _ _).bind fun _ => stops_pure _

end Database

theorem stops_getValues (keys : List String) : Stops (getValues keys) := by
  induction keys with
  | nil => exact stops_pure _
  | cons key keys ih =>
    exact (stops_executeText _ _).bind fun _ => ih.bind fun _ => stops_pure _

theorem stops_deleteEntries (deleteAll : Bool) : Stops (deleteEntries deleteAll) := by
  cases deleteAll with
  | true => exact (stops_executeText _ _).bind fun _ => stops_pure _
  | false => exact stops_pure _

theorem stops_deleteKeys (keys : List String) : Stops (deleteKeys keys) := by
  induction keys with
  | nil => exact stops_pure _
  | cons key keys ih =>
    exact (stops_executeText _ _).bind fun _ => ih.bind fun _ => stops_pure _

theorem stops_putEntries (puts : List (String × List UInt8)) : Stops (putEntries puts) := by
  induction puts with
  | nil => exact stops_pure _
  | cons entry puts ih => exact (stops_executeText _ _).bind fun _ => ih

namespace Database

variable (d : Database)

theorem stops_writeEntries (puts : List (String × List UInt8)) (deletes : List String)
    (deleteAll : Bool) : Stops (writeEntries puts deletes deleteAll) := by
  refine (stops_executeText _ _).bind fun _ => stops_tryCatch ?_ noWork_dropTransaction
  exact (stops_deleteEntries deleteAll).bind fun _ => (stops_deleteKeys deletes).bind fun _ =>
    (stops_putEntries puts).bind fun _ => (stops_executeText _ _).bind fun _ => stops_pure _

theorem stops_objectOp (op : ObjectStorageOp) : Stops (d.objectOp op) := by
  refine (stops_executeText _ _).bind fun _ => (stops_executeText _ _).bind fun _ => ?_
  cases op with
  | getAlarm => exact (stops_executeText _ _).map _
  | setAlarm at_ =>
    exact (stops_check _).bind fun _ => (stops_executeText _ _).bind fun _ => stops_pure _
  | get keys =>
    exact (stops_check _).bind fun _ => ((stops_prepare _).adapt _).bind fun _ =>
      (stops_getValues keys).map _
  | list start startAfter stop pre reverse lim =>
    exact ((stops_prepare _).adapt _).bind fun _ => (stops_executeText _ _).bind fun found =>
      (stops_check _).bind fun _ => stops_pure _
  | write puts deletes deleteAll =>
    exact (stops_check _).bind fun _ => (stops_check _).bind fun _ => (stops_check _).bind fun _ =>
      (stops_check _).bind fun _ => (stops_writeEntries puts deletes deleteAll).map _

theorem stopsWork_answered {p : ExceptT String Conn ObjectStorageResult} (hp : Stops p) :
    StopsWork (answered p) :=
  (stops_unrestricted hp).stopsWork.bind fun r => by cases r <;> trivial

theorem stopsWork_run (job : Job) : StopsWork (d.run job) := by
  have hd1 {p : Conn D1Result} (hp : StopsWork p) : StopsWork (Done.d1 <$> p) :=
    hp.bind fun _ => trivial
  have ho {p : Conn ObjectStorageResult} (hp : StopsWork p) :
      StopsWork (Done.object <$> p) := hp.bind fun _ => trivial
  cases job with
  | op op =>
    cases op with
    | query stmt rows =>
      exact (d.stops_query stmt rows).stopsWork.bind fun r => by cases r <;> trivial
    | batch stmts =>
      exact hd1 ((stops_inTransaction (d.stops_queries 0 stmts)).stopsWork.bind
        fun r => by cases r <;> trivial)
    | exec sql => exact hd1 ((d.stops_script sql).stopsWork.bind fun r => by cases r <;> trivial)
  | migrate mig =>
    have hm := (stops_check d.checkWrites).bind fun _ =>
      stops_inTransaction (d.stops_migrateInTransaction mig)
    exact hd1 (hm.stopsWork.bind fun r => by cases r <;> trivial)
  | object op => exact ho (stopsWork_answered (d.stops_objectOp op))
  | clearAlarm at_ =>
    refine ho (stopsWork_answered ?_)
    exact (stops_check _).bind fun _ => (stops_executeText _ _).bind fun _ =>
      (stops_executeText _ _).bind fun _ => (stops_executeText _ _).map _

/-- **After a statement of a job has failed, the job begins no work**, whatever the job is and
wherever it stands; only a pragma that measures may fail unnoticed. -/
theorem stopsWork_job (job : Job) (measure : Bool) : StopsWork (d.job job measure) := by
  refine (d.stopsWork_run job).bind fun res => ?_
  cases measure with
  | true => exact d.noWork_usedBytes.bind fun _ => trivial
  | false => trivial

end Database
end OpenWorkersRunner.D1.Sqlite
