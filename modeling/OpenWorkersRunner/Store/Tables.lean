import OpenWorkersRunner.Lib.Prog
import OpenWorkersRunner.Lib.Table
import OpenWorkersRunner.Durable.Registry

/-!
# The store: a worker and its bindings, as the platform tables give them

This file is the part of `src/store.rs` that a request goes through: `resolve_worker_from_request`,
`get_worker_meta` with the lookup of each kind of binding, and `with_code`.  They are programs that
query Postgres; each query can fail, whatever the others do.
-/

namespace OpenWorkersRunner.Store

/-! ## Data -/

inductive WorkerIdentifier
  | id (id : String)
  | name (name : String)
deriving DecidableEq

inductive CodeType
  | javascript
  | typescript
  | wasm
  | snapshot
deriving DecidableEq

inductive BindingType
  | var
  | secret
  | assets
  | storage
  | kv
  | database
  | worker
  | d1
  | durableObject
deriving DecidableEq

inductive DatabaseProvider
  | platform
  | postgres
deriving DecidableEq

structure StorageSettings where
  bucket : String
  keyPrefix : Option String
  accessKeyId : String
  secretAccessKey : String
  endpoint : String
  region : Option String
  publicUrl : Option String
deriving DecidableEq

structure StorageConfig extends StorageSettings where
  id : String
deriving DecidableEq

structure KvConfig where
  id : String
  name : String
deriving DecidableEq

structure DatabaseSettings where
  name : String
  provider : DatabaseProvider
  connectionString : Option String
  schemaName : Option String
  maxRows : Int
  timeoutSeconds : Int
deriving DecidableEq

structure DatabaseConfig extends DatabaseSettings where
  id : String
deriving DecidableEq

structure WorkerBindingConfig where
  id : String
  name : Option String
deriving DecidableEq

structure IdKey where
  bytes : List UInt8
  length_eq : bytes.length = 32
deriving DecidableEq

structure NamespaceConfig extends Durable.NamespaceConfig where
  className : String
  key : IdKey
deriving DecidableEq

inductive Binding
  | var (key value : String)
  | secret (key value : String)
  | assets (key : String) (config : StorageConfig)
  | storage (key : String) (config : StorageConfig)
  | kv (key : String) (config : KvConfig)
  | database (key : String) (config : DatabaseConfig)
  | d1 (key databaseId : String)
  | worker (key : String) (config : WorkerBindingConfig)
  | durableObject (key : String) (ns : NamespaceConfig)
deriving DecidableEq

abbrev Env := AList fun _ : String => String

structure WorkerMeta where
  id : String
  name : Option String
  userId : String
  codeType : CodeType
  version : Int
  env : Env
  bindings : List Binding
  envUpdatedAt : Option Int
deriving DecidableEq

inductive WorkerSource
  | bytes (code : List UInt8)
  | cached (blob : List UInt8)
deriving DecidableEq

structure WorkerWithBindings extends WorkerMeta where
  code : WorkerSource
deriving DecidableEq

inductive BackendType
  | worker
  | storage
deriving DecidableEq

inductive AssetType
  | immutable
  | static
  | prerendered
deriving DecidableEq

def AssetType.fromPriority : Int → Option AssetType
  | 3 => some .immutable
  | 2 => some .static
  | 1 => some .prerendered
  | _ => none

structure RequestResolution where
  workerId : Option String
  projectId : Option String
  backendType : Option BackendType
  assetsStorageId : Option String
  assetType : Option AssetType
deriving DecidableEq

/-! ## Queries -/

inductive SqlxError
  | rowNotFound
  | database (code : Option String)
  | other
deriving DecidableEq

structure BasicWorker where
  id : String
  name : Option String
  userId : String
  codeType : CodeType
  version : Int
deriving DecidableEq

structure BindingRow where
  key : String
  value : Option String
  bindingType : BindingType
  updatedAtEpoch : Option Int
deriving DecidableEq

structure NamespaceRow where
  id : String
  userId : String
  workerId : String
  className : String
  key : List UInt8
deriving DecidableEq

structure ResolutionRow where
  workerId : Option String
  projectId : Option String
  backendType : Option BackendType
  assetsStorageId : Option String
  priority : Option Int
deriving DecidableEq

inductive Query
  | worker (identifier : WorkerIdentifier)
  | bindings (workerId : String)
  | storageConfig (id : String)
  | d1Database (id userId : String)
  | durableObjectNamespace (id : String) (userId : Option String)
  | kvConfig (id : String)
  | databaseConfig (id : String)
  | workerBinding (id : String)
  | deploymentCode (workerId : String) (version : Int)
  | resolve (domain workerId workerName : Option String) (path : String)
deriving DecidableEq

abbrev Query.Row : Query → Type
  | .worker _ => BasicWorker
  | .bindings _ => List BindingRow
  | .storageConfig _ => StorageConfig
  | .d1Database _ _ => Option String
  | .durableObjectNamespace _ _ => Option NamespaceRow
  | .kvConfig _ => KvConfig
  | .databaseConfig _ => DatabaseConfig
  | .workerBinding _ => WorkerBindingConfig
  | .deploymentCode _ _ => List UInt8
  | .resolve _ _ _ _ => ResolutionRow

abbrev Query.Answer (q : Query) : Type := Except SqlxError q.Row

abbrev Conn := Prog Query Query.Answer

def query (q : Query) : Conn q.Answer := Prog.call q

/-! ## Lookups of bindings -/

def fetched {α : Type} : Except SqlxError α → Option α
  | .ok row => some row
  | .error _ => none

def fetchStorageConfig (configId : String) : Conn (Option StorageConfig) := do
  pure (fetched (← query (.storageConfig configId)))

def fetchD1Database (databaseId userId : String) : Conn (Option String) := do
  pure (fetched (← query (.d1Database databaseId userId))).join

def NamespaceRow.config (row : NamespaceRow) : Option NamespaceConfig :=
  if h : row.key.length = 32 then
    some ⟨⟨row.id, row.userId, row.workerId⟩, row.className, ⟨row.key, h⟩⟩
  else none

def fetchDurableObjectNamespace (namespaceId : String) (userId : Option String) :
    Conn (Except SqlxError (Option NamespaceConfig)) := do
  pure ((← query (.durableObjectNamespace namespaceId userId)).map fun row => row.bind (·.config))

def fetchKvConfig (configId : String) : Conn (Option KvConfig) := do
  pure (fetched (← query (.kvConfig configId)))

def fetchDatabaseConfig (configId : String) : Conn (Option DatabaseConfig) := do
  pure (fetched (← query (.databaseConfig configId)))

def fetchWorkerBindingConfig (workerId : String) : Conn (Option WorkerBindingConfig) := do
  pure (fetched (← query (.workerBinding workerId)))

/-! ## A worker and its bindings -/

def fetchBinding (userId : String) (row : BindingRow) : Conn (Option Binding) :=
  match row.value with
  | none => pure none
  | some value =>
    match row.bindingType with
    | .var => pure (some (.var row.key value))
    | .secret => pure (some (.secret row.key value))
    | .assets => do pure ((← fetchStorageConfig value).map (.assets row.key))
    | .storage => do pure ((← fetchStorageConfig value).map (.storage row.key))
    | .kv => do pure ((← fetchKvConfig value).map (.kv row.key))
    | .database => do pure ((← fetchDatabaseConfig value).map (.database row.key))
    | .d1 => do pure ((← fetchD1Database value userId).map (.d1 row.key))
    | .durableObject => do
      pure ((fetched (← fetchDurableObjectNamespace value (some userId))).join.map
        (.durableObject row.key))
    | .worker => do pure ((← fetchWorkerBindingConfig value).map (.worker row.key))

structure Gathered where
  bindings : List Binding
  env : Env
  envUpdatedAt : Option Int

namespace Gathered

def empty : Gathered := ⟨[], ∅, none⟩

def push (g : Gathered) (row : BindingRow) (binding : Option Binding) : Gathered where
  bindings := g.bindings ++ binding.toList
  env :=
    match binding with
    | some (.var key value) | some (.secret key value) => g.env.insert key value
    | _ => g.env
  envUpdatedAt :=
    match row.updatedAtEpoch with
    | none => g.envUpdatedAt
    | some epoch => some ((g.envUpdatedAt.map (max · epoch)).getD epoch)

@[simp] theorem push_bindings (g : Gathered) (row : BindingRow) (binding : Option Binding) :
    (g.push row binding).bindings = g.bindings ++ binding.toList := rfl

end Gathered

def readRows (userId : String) : List BindingRow → Gathered → Conn Gathered
  | [], g => pure g
  | row :: rows, g => do
    let binding ← fetchBinding userId row
    readRows userId rows (g.push row binding)

def BasicWorker.toMeta (basic : BasicWorker) (g : Gathered) : WorkerMeta :=
  ⟨basic.id, basic.name, basic.userId, basic.codeType, basic.version, g.env, g.bindings,
    g.envUpdatedAt⟩

def getWorkerMeta (identifier : WorkerIdentifier) : Conn (Option WorkerMeta) := do
  match ← query (.worker identifier) with
  | .error _ => pure none
  | .ok basic =>
    let rows ← query (.bindings basic.id)
    -- a failed query counts as no row
    let g ← readRows basic.userId ((fetched rows).getD []) .empty
    pure (some (basic.toMeta g))

def cachedCode (codeType : CodeType) (entry : Option (List UInt8)) : Option (List UInt8) :=
  match codeType with
  | .javascript | .typescript => entry
  | _ => none

def WorkerMeta.withCode (m : WorkerMeta) (entry : Option (List UInt8)) :
    Conn (Option WorkerWithBindings) :=
  match cachedCode m.codeType entry with
  | some blob => pure (some ⟨m, .cached blob⟩)
  | none => do
    pure ((fetched (← query (.deploymentCode m.id m.version))).map fun code => ⟨m, .bytes code⟩)

/-- No row, or an `x-worker-id` that is no UUID, is a request for no worker.  Any other error is the
database's. -/
def resolutionFrom : Except SqlxError ResolutionRow → Except SqlxError (Option RequestResolution)
  | .ok row =>
    .ok (some ⟨row.workerId, row.projectId, row.backendType, row.assetsStorageId,
      row.priority.bind AssetType.fromPriority⟩)
  | .error .rowNotFound => .ok none
  | .error (.database (some "22P02")) => .ok none
  | .error err => .error err

def resolveWorkerFromRequest (domain workerId workerName : Option String) (path : String) :
    Conn (Except SqlxError (Option RequestResolution)) := do
  pure (resolutionFrom (← query (.resolve domain workerId workerName path)))

/-! ## Tables -/

structure Owned (α : Type) where
  userId : String
  row : α
deriving DecidableEq

structure WorkerRow where
  name : Option String
  userId : String
  currentVersion : Int
  projectId : Option String
  environmentId : Option String
deriving DecidableEq

structure DeploymentRow where
  codeType : CodeType
  code : List UInt8
deriving DecidableEq

structure EnvironmentValue where
  environmentId : String
  userId : String
  row : BindingRow
deriving DecidableEq

structure D1Row where
  deleted : Bool
deriving DecidableEq

structure DurableObjectRow where
  workerId : Option String
  className : String
  key : List UInt8
  deleted : Bool
deriving DecidableEq

structure Tables where
  workers : AList fun _ : String => WorkerRow
  workerDeployments : AList fun _ : String × Int => DeploymentRow
  projects : AList fun _ : String => Option String
  environmentValues : List EnvironmentValue
  storageConfigs : AList fun _ : String => Owned StorageSettings
  kvConfigs : AList fun _ : String => Owned String
  databaseConfigs : AList fun _ : String => Owned DatabaseSettings
  d1Databases : AList fun _ : String => Owned D1Row
  durableObjectNamespaces : AList fun _ : String => Owned DurableObjectRow

def Tables.empty : Tables := ⟨∅, ∅, ∅, [], ∅, ∅, ∅, ∅, ∅⟩

abbrev Resolver :=
  Tables → Option String → Option String → Option String → String → Except SqlxError ResolutionRow

/-- `fetch_one`. -/
def fetchOne {α : Type} : Option α → Except SqlxError α
  | some row => .ok row
  | none => .error .rowNotFound

namespace Tables

variable (tables : Tables)

def basicWorker (id : String) (row : WorkerRow) : Option BasicWorker :=
  (tables.workerDeployments.lookup (id, row.currentVersion)).map fun deployment =>
    ⟨id, row.name, row.userId, deployment.codeType, row.currentVersion⟩

def environment (row : WorkerRow) : Option String :=
  ((row.projectId.bind tables.projects.lookup).join).or row.environmentId

def bindingRows (workerId : String) : List BindingRow :=
  match tables.workers.lookup workerId with
  | none => []
  | some row =>
    (tables.environmentValues.filter fun value =>
      tables.environment row == some value.environmentId && value.userId == row.userId).map
        EnvironmentValue.row

def answer (resolver : Resolver) : (q : Query) → q.Answer
  | .worker (.id id) => fetchOne ((tables.workers.lookup id).bind (tables.basicWorker id))
  | .worker (.name name) =>
    fetchOne (tables.workers.entries.findSome? fun e =>
      if e.2.name = some name then tables.basicWorker e.1 e.2 else none)
  | .bindings workerId => .ok (tables.bindingRows workerId)
  | .storageConfig id => fetchOne ((tables.storageConfigs.lookup id).map fun c => ⟨c.row, id⟩)
  | .d1Database id userId =>
    .ok ((tables.d1Databases.lookup id).bind fun d =>
      if d.userId = userId ∧ d.row.deleted = false then some id else none)
  | .durableObjectNamespace id userId =>
    .ok ((tables.durableObjectNamespaces.lookup id).bind fun n =>
      if userId.all (n.userId == ·) ∧ n.row.deleted = false then
        n.row.workerId.map fun workerId => ⟨id, n.userId, workerId, n.row.className, n.row.key⟩
      else none)
  | .kvConfig id => fetchOne ((tables.kvConfigs.lookup id).map fun c => ⟨id, c.row⟩)
  | .databaseConfig id => fetchOne ((tables.databaseConfigs.lookup id).map fun c => ⟨c.row, id⟩)
  | .workerBinding id => fetchOne ((tables.workers.lookup id).map fun w => ⟨id, w.name⟩)
  | .deploymentCode workerId version =>
    fetchOne ((tables.workerDeployments.lookup (workerId, version)).map DeploymentRow.code)
  | .resolve domain workerId workerName path => resolver tables domain workerId workerName path

end Tables

end OpenWorkersRunner.Store
