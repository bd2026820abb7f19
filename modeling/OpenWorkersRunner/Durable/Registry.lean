import OpenWorkersRunner.Lib.Machine
import OpenWorkersRunner.Lib.Counts

/-!
# Durable Objects: the registry of the objects a runner serves

This file is the registry of `src/durable/mod.rs`: `admit`, which puts an event in the mailbox of
an object and starts a task for the object if none takes it; the task, from its spawn over the
load of the worker and the loop of `serve` to the drop of its `Running` guard; and `retire` and
`stop_namespace`, which take entries away from running tasks.
-/

namespace OpenWorkersRunner.Durable

/-! ## Data -/

/-- `MAX_RESIDENT_PER_ACCOUNT`. -/
def maxResidentPerAccount : Nat := 100

structure NamespaceConfig where
  id : String
  userId : String
  workerId : String
deriving DecidableEq

structure ObjectKey where
  namespaceId : String
  id : String
deriving DecidableEq

structure Mailbox (ε : Type) where
  queue : List ε
  closed : Bool
deriving DecidableEq

def Mailbox.send {ε : Type} (mailbox : Mailbox ε) (event : ε) : Option (Mailbox ε) :=
  if mailbox.closed then none else some { mailbox with queue := mailbox.queue ++ [event] }

inductive End
  | left
  | notLoaded
  | died
deriving DecidableEq

inductive Rest
  | running
  | released
  | gone
deriving DecidableEq

inductive Phase
  | waiting
  | loading
  | looping
  | leaving
  | lent
  | ended (how : End) (rest : Rest)
deriving DecidableEq

def Phase.serves : Phase → Bool
  | .loading | .looping | .leaving | .lent => true
  | _ => false

def Phase.loaded : Phase → Bool
  | .waiting | .loading => false
  | _ => true

def Phase.isOver : Phase → Bool
  | .ended _ _ => true
  | _ => false

def Phase.counted : Phase → Bool
  | .ended _ .released | .ended _ .gone => false
  | _ => true

def Phase.isGone : Phase → Bool
  | .ended _ .gone => true
  | _ => false

/-- The task that serves an object, with the mailbox it reads and its `Running` guard. -/
structure Task (ε : Type) where
  key : ObjectKey
  account : String
  previous : Option Nat
  mailbox : Mailbox ε
  depths : List Nat
  phase : Phase
deriving DecidableEq

/-- An entry of `objects`.  Its mailbox and its channel `done` are those of the task with its
generation. -/
structure Entry where
  generation : Nat
  workerId : String
  version : Option Int
deriving DecidableEq

structure DepthGuard where
  generation : Nat
  depth : Nat
deriving DecidableEq

structure Registry where
  objects : ObjectKey → Option Entry
  running : Counts String
  accounts : Counts String
  stopped : String → Bool
  retiring : ObjectKey → Option Nat

structure State (ε : Type) extends Registry where
  generation : Nat
  tasks : Nat → Option (Task ε)
  guards : List DepthGuard
  accepted : List (Nat × ε)
  taken : List (Nat × ε)

namespace State

variable {ε : Type}

def empty : State ε where
  objects := fun _ => none
  running := fun _ => none
  accounts := fun _ => none
  stopped := fun _ => false
  retiring := fun _ => none
  generation := 0
  tasks := fun _ => none
  guards := []
  accepted := []
  taken := []

def setTask (s : State ε) (i : Nat) (t : Task ε) : State ε :=
  { s with tasks := Function.update s.tasks i (some t) }

/-! ## `admit` -/

/-- The task whose mailbox takes the event, with the event in it: the task of the entry of the
object, unless it left a closed mailbox. -/
def deliver (s : State ε) (key : ObjectKey) (event : ε) : Option (Nat × Task ε) :=
  (s.objects key).bind fun entry =>
    (s.tasks entry.generation).bind fun t =>
      (t.mailbox.send event).map fun mailbox => (entry.generation, { t with mailbox := mailbox })

def enter (s : State ε) (i : Nat) (t : Task ε) (depth : Nat) (event : ε) : State ε :=
  { s.setTask i { t with depths := t.depths ++ [depth] } with
    guards := s.guards ++ [⟨i, depth⟩]
    accepted := s.accepted ++ [(i, event)] }

/-- Starts a task for the object, with the event in its mailbox.  It inherits the end of the
retiring task of the object, if there is one. -/
def spawn (s : State ε) (ns : NamespaceConfig) (key : ObjectKey) (event : ε) : State ε × Task ε :=
  ({ s with
      objects := Function.update s.objects key (some ⟨s.generation, ns.workerId, none⟩)
      running := s.running.add key.namespaceId
      accounts := s.accounts.add ns.userId
      retiring := Function.update s.retiring key none
      generation := s.generation + 1 },
    { key := key
      account := ns.userId
      previous := s.retiring key
      mailbox := ⟨[event], false⟩
      depths := []
      phase := .waiting })

def admitEvent (s : State ε) (ns : NamespaceConfig) (id : String) (depth : Nat) (event : ε) :
    Except String (State ε × DepthGuard) :=
  let key : ObjectKey := ⟨ns.id, id⟩
  if s.stopped key.namespaceId then .error "the Durable Object namespace was deleted"
  else
    match s.deliver key event with
    | some (i, t) => .ok (s.enter i t depth event, ⟨i, depth⟩)
    | none =>
      if (s.accounts ns.userId).getD 0 ≥ maxResidentPerAccount then
        .error "too many Durable Objects run for this account"
      else
        let (s', t) := s.spawn ns key event
        .ok (s'.enter s.generation t depth event, ⟨s.generation, depth⟩)

def dropGuard (s : State ε) (guard : DepthGuard) : Option (State ε) :=
  if guard ∈ s.guards then
    (s.tasks guard.generation).bind fun t =>
      (t.depths.idxOf? guard.depth).map fun index =>
        { s.setTask guard.generation
            { t with depths := (t.depths.set index (t.depths.getLastD 0)).dropLast } with
          guards := s.guards.erase guard }
  else none

/-! ## The task -/

def previousEnded (s : State ε) (t : Task ε) : Bool :=
  t.previous.all fun g => (s.tasks g).all fun u => u.phase.isGone

def move (s : State ε) (i : Nat) (phase : Phase) (f : Task ε → State ε) : Option (State ε) :=
  (s.tasks i).bind fun t => if t.phase = phase then some (f t) else none

def start (s : State ε) (i : Nat) : Option (State ε) :=
  (s.tasks i).bind fun t =>
    if t.phase = .waiting ∧ s.previousEnded t then some (s.setTask i { t with phase := .loading })
    else none

/-- The load gave a worker of this version, which goes into the entry of the task if it still has
one. -/
def loaded (s : State ε) (i : Nat) (version : Int) : Option (State ε) :=
  s.move i .loading fun t =>
    { s.setTask i { t with phase := .looping } with
      objects := Function.update s.objects t.key <| (s.objects t.key).map fun entry =>
          if entry.generation = i then { entry with version := some version } else entry }

def endServe (s : State ε) (i : Nat) (t : Task ε) (how : End) : State ε :=
  s.setTask i
    { t with phase := .ended how .running, mailbox := { t.mailbox with closed := true } }

def notLoaded (s : State ε) (i : Nat) : Option (State ε) :=
  s.move i .loading fun t => s.endServe i t .notLoaded

/-- The task takes the front of its mailbox and comes to `phase`, or to `otherwise` when the
mailbox is empty. -/
def take (s : State ε) (i : Nat) (t : Task ε) (phase otherwise : Phase) : State ε :=
  match t.mailbox.queue with
  | [] => s.setTask i { t with phase := otherwise }
  | event :: queue =>
    { s.setTask i { t with phase := phase, mailbox := { t.mailbox with queue := queue } } with
      taken := s.taken ++ [(i, event)] }

/-- The top of the loop: an event of the mailbox goes to a new object, which is `built` or not. -/
def tryRecv (s : State ε) (i : Nat) (built : Bool) : Option (State ε) :=
  s.move i .looping fun t => s.take i t (if built then .lent else .looping) .leaving

def recv (s : State ε) (i : Nat) : Option (State ε) :=
  s.move i .lent fun t => s.take i t .lent .lent

def objectEnds (s : State ε) (i : Nat) : Option (State ε) :=
  s.move i .lent fun t => s.setTask i { t with phase := .looping }

/-- Removes the entry of this task and closes its mailbox, unless a request came in meanwhile.
Answers whether the task can end. -/
def leave (s : State ε) (i : Nat) (t : Task ε) : State ε × Bool :=
  if t.mailbox.queue ≠ [] then (s, false)
  else
    ({ s.setTask i { t with mailbox := { t.mailbox with closed := true } } with
        objects :=
          if (s.objects t.key).any fun entry => entry.generation = i then
            Function.update s.objects t.key none
          else s.objects },
      true)

/-- The call of `leave` in the loop: nothing of the object runs after it answers that the task can
end. -/
def callLeave (s : State ε) (i : Nat) : Option (State ε) :=
  s.move i .leaving fun t =>
    match s.leave i t with
    | (s', false) => s'.setTask i { t with phase := .looping }
    | (s', true) => s'.endServe i t .left

def die (s : State ε) (i : Nat) : Option (State ε) :=
  (s.tasks i).bind fun t => if t.phase.serves then some (s.endServe i t .died) else none

/-- `Running::drop`. -/
def release (s : State ε) (i : Nat) : Option (State ε) :=
  (s.tasks i).bind fun t =>
    match t.phase with
    | .ended how .running =>
      (s.running.release t.key.namespaceId).bind fun running =>
        (s.accounts.release t.account).map fun accounts =>
          { s.setTask i { t with phase := .ended how .released } with
            running := running
            accounts := accounts
            retiring :=
              if s.retiring t.key = some i then Function.update s.retiring t.key none
              else s.retiring }
    | _ => none

def finish (s : State ε) (i : Nat) : Option (State ε) :=
  (s.tasks i).bind fun t =>
    match t.phase with
    | .ended how .released => some (s.setTask i { t with phase := .ended how .gone })
    | _ => none

/-! ## Entries that are taken away -/

def runs (workerId : String) (version : Int) (entry : Entry) : Bool :=
  entry.workerId == workerId && entry.version == some version

/-- Stops the objects that run `version` of the worker: they take no new request, and the next task
of the same object waits for their end. -/
def retire (s : State ε) (workerId : String) (version : Int) : State ε :=
  { s with
    objects := fun key => (s.objects key).filter fun entry => !runs workerId version entry
    retiring := fun key =>
      match (s.objects key).filter (runs workerId version) with
      | some entry => some entry.generation
      | none => s.retiring key }

def stopNamespace (s : State ε) (namespaceId : String) : State ε × Bool :=
  ({ s with
      stopped := Function.update s.stopped namespaceId true
      objects := fun key => if key.namespaceId = namespaceId then none else s.objects key },
    (s.running namespaceId).isNone)

end State

/-! ## The machine -/

inductive Act (ε : Type)
  | admitEvent (ns : NamespaceConfig) (id : String) (depth : Nat) (event : ε)
  | dropGuard (guard : DepthGuard)
  | start (i : Nat)
  | loaded (i : Nat) (version : Int)
  | notLoaded (i : Nat)
  | tryRecv (i : Nat) (built : Bool)
  | recv (i : Nat)
  | objectEnds (i : Nat)
  | leave (i : Nat)
  | die (i : Nat)
  | release (i : Nat)
  | finish (i : Nat)
  | retire (workerId : String) (version : Int)
  | stopNamespace (namespaceId : String)

def State.step {ε : Type} (s : State ε) : Act ε → Option (State ε)
  | .admitEvent ns id depth event =>
    match s.admitEvent ns id depth event with
    | .ok (s', _) => some s'
    | .error _ => some s
  | .dropGuard guard => s.dropGuard guard
  | .start i => s.start i
  | .loaded i version => s.loaded i version
  | .notLoaded i => s.notLoaded i
  | .tryRecv i built => s.tryRecv i built
  | .recv i => s.recv i
  | .objectEnds i => s.objectEnds i
  | .leave i => s.callLeave i
  | .die i => s.die i
  | .release i => s.release i
  | .finish i => s.finish i
  | .retire workerId version => some (s.retire workerId version)
  | .stopNamespace namespaceId => some (s.stopNamespace namespaceId).1

def machine (ε : Type) : Machine (State ε) (Act ε) where
  init := State.empty
  step := State.step

end OpenWorkersRunner.Durable
