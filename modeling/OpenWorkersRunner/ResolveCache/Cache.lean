import OpenWorkersRunner.Lib.Lru
import OpenWorkersRunner.Store.Tables

/-!
# The resolve cache

This file is `src/resolve_cache.rs`: the worker a request resolves to, and that worker's bindings,
kept in memory so that a request does not query Postgres.  A trigger on the tables sends a
notification, and `listen` clears the cache when one arrives.
-/

namespace OpenWorkersRunner.ResolveCache

open Store

/-! ## The cache -/

def ttl : Nat := 60 * 1000000000

structure Key where
  host : Option String
  workerId : Option String
  workerName : Option String
  path : Option String
deriving DecidableEq

structure Stamp where
  generation : Nat
  readAt : Nat
deriving DecidableEq

structure Entry (α : Type) where
  value : α
  at_ : Nat
  stamp : Stamp

def Entry.fresh {α : Type} (e : Entry α) (now : Nat) : Bool := now - e.at_ < ttl

inductive Found
  | resolution (key : Key) (value : Option RequestResolution)
  | worker (meta_ : WorkerMeta)

structure Cache where
  resolutions : Lru 10000 Key (Entry (Option RequestResolution))
  workers : Lru 2000 String (Entry WorkerMeta)

namespace Cache

def empty : Cache := ⟨.empty, .empty⟩

variable (c : Cache)

def exactly (key : Key) (now : Nat) : Option (Entry (Option RequestResolution)) × Cache :=
  ((c.resolutions.get key).filter (·.fresh now), { c with resolutions := c.resolutions.touch key })

def resolution (key : Key) (now : Nat) : Option (Entry (Option RequestResolution)) × Cache :=
  match c.exactly { key with path := none } now with
  | (some entry, c) => (some entry, c)
  | (none, c) => c.exactly key now

def putResolution (key : Key) (entry : Entry (Option RequestResolution)) : Cache :=
  let standalone := entry.value.any fun r => r.projectId.isNone && r.workerId.isSome
  { c with
    resolutions := c.resolutions.put (if standalone then { key with path := none } else key) entry }

def worker (workerId : String) (now : Nat) : Option (Entry WorkerMeta) × Cache :=
  ((c.workers.get workerId).filter (·.fresh now), { c with workers := c.workers.touch workerId })

def putWorker (entry : Entry WorkerMeta) : Cache :=
  { c with workers := c.workers.put entry.value.id entry }

def stamps : List Stamp :=
  (c.resolutions.entries.map fun e => e.2.stamp) ++ c.workers.entries.map fun e => e.2.stamp

end Cache

inductive Want
  | resolution (host workerId workerName : Option String) (path : String)
  | worker (id : String)
deriving DecidableEq

def Cache.look (c : Cache) (want : Want) (now : Nat) : Option (Found × Stamp) × Cache :=
  match want with
  | .resolution host workerId workerName path =>
    let key : Key := ⟨host, workerId, workerName, some path⟩
    let r := c.resolution key now
    (r.1.map fun e => (.resolution key e.value, e.stamp), r.2)
  | .worker id =>
    let r := c.worker id now
    (r.1.map fun e => (.worker e.value, e.stamp), r.2)

def Cache.put (c : Cache) (found : Found) (now : Nat) (stamp : Stamp) : Cache :=
  match found with
  | .resolution key value => c.putResolution key ⟨value, now, stamp⟩
  | .worker m => c.putWorker ⟨m, now, stamp⟩

def Want.read : Want → Conn (Except SqlxError (Option Found))
  | .resolution host workerId workerName path => do
    pure ((← resolveWorkerFromRequest host workerId workerName path).map fun value =>
      some (.resolution ⟨host, workerId, workerName, some path⟩ value))
  | .worker id => do pure (.ok ((← getWorkerMeta (.id id)).map .worker))

/-! ## Lookups -/

inductive Answer
  | resolution (value : Option RequestResolution)
  | worker (value : Option WorkerWithBindings)

inductive Phase
  | start
  | loaded
  | begun (generation : Nat)
  | missed (generation : Option Nat)
  | reading (generation : Option Nat) (rest : Conn (Except SqlxError (Option Found)))
  | read (generation : Option Nat) (found : Found)
  | locked (generation : Option Nat) (found : Found)
  | armed (generation : Nat) (found : Found)
  | checked (generation : Nat) (found : Found)
  | known (meta_ : WorkerMeta)
  | codeless (meta_ : WorkerMeta)
  | coding (rest : Conn (Option WorkerWithBindings))
  | answered (answer : Answer)
  | ended

structure Lookup where
  want : Want
  phase : Phase
  connected : Bool
  floor : Nat
  began : Nat
  readAt : Nat

inductive LookupAct
  | loadEnabled
  | loadGeneration
  | look (now : Nat)
  | acquire (ok : Bool)
  | query (failure : Option SqlxError)
  | finish
  | lock
  | stillEnabled
  | stillGeneration
  | put (now : Nat)
  | code (entry : Option (List UInt8))
  | connect (ok : Bool) (entry : Option (List UInt8))
  | drop

def Found.next : Found → Phase
  | .resolution _ value => .answered (.resolution value)
  | .worker m => .known m

/-! ## The listener -/

inductive Stage
  | bumped
  | cleared
  | returned
deriving DecidableEq

structure Invalidation where
  generation : Nat
  seen : Nat
  stage : Stage
deriving DecidableEq

inductive Listener
  | top
  | connecting
  | rechecking
  | connected (j : Nat)
  | receiving
  | notified (j : Nat)
  | stopped
  | stopping (j : Nat)
  | sleeping
deriving DecidableEq

/-- `TRIGGERS`. -/
def triggersNeeded : Int := 10

inductive ListenAct
  | disable
  | fail
  | triggers (count : Int)
  | recheck
  | enable
  | notification
  | resume
  | lost
  | invalidate
  | sleep
  | wake
deriving DecidableEq

/-! ## The machine -/

structure State where
  enabled : Bool
  generation : Nat
  cache : Cache
  lock : Option Nat
  lookups : Nat → Option Lookup
  called : Nat
  invalidations : Nat → Option Invalidation
  invalidated : Nat
  listener : Listener
  tables : Tables
  changes : Nat
  settled : Nat

inductive Act
  | call (want : Want)
  | lookup (i : Nat) (a : LookupAct)
  | invalidate
  | clear (j : Nat)
  | ret (j : Nat)
  | listen (a : ListenAct)
  | change (tables : Tables)

def Lookup.step (resolver : Resolver) (s : State) (i : Nat) (l : Lookup) (a : LookupAct) :
    Option (Lookup × Cache × Option Nat) :=
  let go (phase : Phase) : Option (Lookup × Cache × Option Nat) :=
    some ({ l with phase := phase }, s.cache, s.lock)
  let release (found : Found) : Option (Lookup × Cache × Option Nat) :=
    some ({ l with phase := found.next }, s.cache, none)
  let begun (phase : Phase) : Option (Lookup × Cache × Option Nat) :=
    some ({ l with phase := phase, floor := s.settled, began := s.changes }, s.cache, s.lock)
  let reply (q : Query) (failure : Option SqlxError) : q.Answer :=
    failure.elim (s.tables.answer resolver q) .error
  match a, l.phase with
  | .loadEnabled, .start => if s.enabled then go .loaded else begun (.missed none)
  | .loadGeneration, .loaded => begun (.begun s.generation)
  | .look now, .begun generation =>
    if s.lock = none then
      match s.cache.look l.want now with
      | (some (found, stamp), c) =>
        some ({ l with phase := found.next, readAt := stamp.readAt }, c, none)
      | (none, c) => some ({ l with phase := .missed (some generation) }, c, none)
    else none
  | .acquire true, .missed generation =>
    some
      ({ l with phase := .reading generation l.want.read, connected := true, readAt := s.changes },
        s.cache, s.lock)
  | .acquire false, .missed _ => go .ended
  | .query failure, .reading generation (.ask q next) =>
    go (.reading generation (next (reply q failure)))
  | .finish, .reading generation (.done (.ok (some found))) => go (.read generation found)
  | .finish, .reading _ (.done (.ok none)) => go (.answered (.worker none))
  | .finish, .reading _ (.done (.error _)) => go .ended
  | .lock, .read generation found =>
    if s.lock = none then some ({ l with phase := .locked generation found }, s.cache, some i)
    else none
  | .stillEnabled, .locked none found => release found
  | .stillEnabled, .locked (some generation) found =>
    if s.enabled then go (.armed generation found) else release found
  | .stillGeneration, .armed generation found =>
    if s.generation = generation then go (.checked generation found) else release found
  | .put now, .checked generation found =>
    some ({ l with phase := found.next }, s.cache.put found now ⟨generation, l.readAt⟩, none)
  | .code entry, .known m =>
    match cachedCode m.codeType entry with
    | some blob => go (.answered (.worker (some ⟨m, .cached blob⟩)))
    | none => go (.codeless m)
  | .connect ok entry, .codeless m =>
    if ok || l.connected then go (.coding (m.withCode entry)) else go .ended
  | .query failure, .coding (.ask q next) => go (.coding (next (reply q failure)))
  | .finish, .coding (.done worker) => go (.answered (.worker worker))
  | .drop, .missed _ | .drop, .reading _ _ | .drop, .codeless _ | .drop, .coding _ => go .ended
  | _, _ => none

namespace State

def start (tables : Tables) : State where
  enabled := false
  generation := 0
  cache := .empty
  lock := none
  lookups _ := none
  called := 0
  invalidations _ := none
  invalidated := 0
  listener := .top
  tables := tables
  changes := 0
  settled := 0

variable (s : State)

def bump : State :=
  { s with
    generation := s.generation + 1
    invalidations := Function.update s.invalidations s.invalidated
      (some ⟨s.generation + 1, s.changes, .bumped⟩)
    invalidated := s.invalidated + 1 }

def hasReturned (j : Nat) : Bool := (s.invalidations j).any (·.stage == .returned)

def listen (a : ListenAct) : Option State :=
  match a, s.listener with
  | .disable, .top => some { s with enabled := false, listener := .connecting }
  | .fail, .connecting => some { s with listener := .stopped }
  | .triggers count, .connecting =>
    if count < triggersNeeded then some { s with listener := .rechecking }
    else some { s.bump with listener := .connected s.invalidated }
  | .recheck, .rechecking => some { s with listener := .stopped }
  | .enable, .connected j =>
    if s.hasReturned j then some { s with enabled := true, listener := .receiving } else none
  | .notification, .receiving => some { s.bump with listener := .notified s.invalidated }
  | .resume, .notified j => if s.hasReturned j then some { s with listener := .receiving } else none
  | .lost, .receiving => some { s with listener := .stopped }
  | .invalidate, .stopped => some { s.bump with listener := .stopping s.invalidated }
  | .sleep, .stopping j => if s.hasReturned j then some { s with listener := .sleeping } else none
  | .wake, .sleeping => some { s with listener := .top }
  | _, _ => none

def step (resolver : Resolver) : Act → Option State
  | .call want =>
    some { s with
      lookups := Function.update s.lookups s.called (some ⟨want, .start, false, 0, 0, 0⟩)
      called := s.called + 1 }
  | .lookup i a => do
    let l ← s.lookups i
    let (l, cache, lock) ← l.step resolver s i a
    some { s with lookups := Function.update s.lookups i (some l), cache := cache, lock := lock }
  | .invalidate => some s.bump
  | .clear j => do
    let inv ← s.invalidations j
    if inv.stage = .bumped ∧ s.lock = none then
      some { s with
        cache := .empty
        invalidations := Function.update s.invalidations j (some { inv with stage := .cleared }) }
    else none
  | .ret j => do
    let inv ← s.invalidations j
    if inv.stage = .cleared then
      some { s with
        invalidations := Function.update s.invalidations j (some { inv with stage := .returned })
        settled := max s.settled inv.seen }
    else none
  | .listen a => s.listen a
  | .change tables => some { s with tables := tables, changes := s.changes + 1 }

end State

def machine (resolver : Resolver) (tables : Tables) : Machine State Act where
  init := .start tables
  step := fun s a => s.step resolver a

end OpenWorkersRunner.ResolveCache
