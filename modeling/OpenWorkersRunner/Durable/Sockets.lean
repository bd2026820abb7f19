import OpenWorkersRunner.Lib.Parties
import OpenWorkersRunner.Durable.Exclusion

/-!
# Durable Objects: their sockets (`src/durable/sockets.rs`)

The runner holds the WebSockets of all objects in `SOCKETS`, so that they outlive the instance that
accepted them.  This file puts that table beside the registry: an instance accepts sockets while its
task runs it, and `stop_namespace`, `retire` and `serve` close them.
-/

namespace OpenWorkersRunner.Durable.Sockets

open Parties Option List

variable {ε : Type}

/-! ## The table -/

/-- `MAX_SOCKETS_PER_OBJECT`. -/
def maxSocketsPerObject : Nat := 32768

structure Socket where
  key : ObjectKey
  id : Nat
  attach : Bool
  tags : List String
  attachment : Option (List UInt8)
  hibernatable : Bool
  acceptedBy : Nat
deriving DecidableEq

structure ObjectSocket where
  id : Nat
  tags : List String
  attachment : Option (List UInt8)
deriving DecidableEq

def Socket.is (key : ObjectKey) (id : Nat) (x : Socket) : Bool := x.key = key && x.id = id

def accept (sockets : List Socket) (slot : Bool) (x : Socket) : Except String (List Socket) :=
  if slot = false then .error "too many WebSockets are open on this runner"
  else if maxSocketsPerObject ≤ (sockets.filter fun y => y.key = x.key).length then
    .error ("a Durable Object has at most " ++ toString maxSocketsPerObject ++ " WebSockets")
  else .ok (sockets.filter (fun y => !y.is x.key x.id) ++ [x])

/-- The response that carries the socket is out.  Answers false for a socket the object did not
accept, or that was handed over before. -/
def attach (sockets : List Socket) (key : ObjectKey) (id : Nat) : List Socket × Bool :=
  (sockets.map fun x => if x.is key id then { x with attach := false } else x,
    sockets.any fun x => x.is key id && x.attach)

def forget (sockets : List Socket) (key : ObjectKey) (id : Nat) : List Socket :=
  sockets.filter fun x => !x.is key id

def send (sockets : List Socket) (key : ObjectKey) (id : Nat) (closes : Bool) : List Socket :=
  if closes then forget sockets key id else sockets

def setAttachment (sockets : List Socket) (key : ObjectKey) (id : Nat)
    (value : Option (List UInt8)) : List Socket :=
  sockets.map fun x => if x.is key id then { x with attachment := value } else x

def hibernatable (sockets : List Socket) (key : ObjectKey) : List ObjectSocket :=
  (sockets.filter fun x => x.key = key && x.hibernatable).map fun x =>
    ⟨x.id, x.tags, x.attachment⟩

def closeWhere (sockets : List Socket) (which : Socket → Bool) : List Socket :=
  sockets.filter fun x => !which x

def closeObject (sockets : List Socket) (key : ObjectKey) : List Socket :=
  closeWhere sockets fun x => x.key = key

def closeNamespace (sockets : List Socket) (namespaceId : String) : List Socket :=
  closeWhere sockets fun x => x.key.namespaceId = namespaceId

def instanceEnded (sockets : List Socket) (key : ObjectKey) : List Socket :=
  closeWhere sockets fun x => x.key = key && !x.hibernatable

/-! ## The machine -/

structure Stop where
  namespaceId : String
  noneRuns : Bool
  returned : Bool
deriving DecidableEq

structure Retire where
  old : ObjectKey → Option Nat
  closed : ObjectKey → Bool

structure State (ε : Type) extends Durable.State ε where
  sockets : List Socket
  stops : List Stop
  retires : List Retire

inductive Act (ε : Type)
  | registry (a : Durable.Act ε)
  | objectEnds (i : Nat)
  | accept (i : Nat) (slot : Bool) (id : Nat) (tags : List String) (hibernatable : Bool)
  | attach (key : ObjectKey) (id : Nat)
  | send (key : ObjectKey) (id : Nat) (closes : Bool)
  | setAttachment (key : ObjectKey) (id : Nat) (value : Option (List UInt8))
  | forget (key : ObjectKey) (id : Nat)
  | stopNamespace (namespaceId : String)
  | closeNamespace (j : Nat)
  | retire (workerId : String) (version : Int)
  | closeObject (j : Nat) (key : ObjectKey)

def alone : Durable.Act ε → Bool
  | .objectEnds _ | .retire _ _ | .stopNamespace _ => false
  | _ => true

namespace State

/-- What the instance of the task `i` accepts.  An instance runs from its construction, at the top
of the loop of `serve`, to its end. -/
def acceptBy (s : State ε) (i : Nat) (slot : Bool) (id : Nat) (tags : List String)
    (hibernatable : Bool) : Option (State ε) :=
  (s.tasks i).bind fun t =>
    if t.phase = .looping ∨ t.phase = .lent then
      match accept s.sockets slot ⟨t.key, id, true, tags, none, hibernatable, i⟩ with
      | .ok sockets => some { s with sockets := sockets }
      | .error _ => some s
    else none

def step (s : State ε) : Act ε → Option (State ε)
  | .registry a =>
    if alone a then (s.toState.step a).map fun r => { s with toState := r } else none
  | .objectEnds i =>
    (s.tasks i).bind fun t =>
      (s.toState.objectEnds i).map fun r =>
        { s with toState := r, sockets := instanceEnded s.sockets t.key }
  | .accept i slot id tags hibernatable => s.acceptBy i slot id tags hibernatable
  | .attach key id => some { s with sockets := (attach s.sockets key id).1 }
  | .send key id closes => some { s with sockets := send s.sockets key id closes }
  | .setAttachment key id value => some { s with sockets := setAttachment s.sockets key id value }
  | .forget key id => some { s with sockets := forget s.sockets key id }
  | .stopNamespace namespaceId =>
    let (r, noneRuns) := s.toState.stopNamespace namespaceId
    some { s with toState := r, stops := s.stops ++ [⟨namespaceId, noneRuns, false⟩] }
  | .closeNamespace j =>
    s.stops[j]?.bind fun stop =>
      if stop.returned then none
      else
        some { s with
          sockets := closeNamespace s.sockets stop.namespaceId
          stops := s.stops.set j { stop with returned := true } }
  | .retire workerId version =>
    let old := fun key =>
      ((s.objects key).filter (State.runs workerId version)).map Entry.generation
    some { s with
      toState := s.toState.retire workerId version
      retires := s.retires ++ [⟨old, fun _ => false⟩] }
  | .closeObject j key =>
    s.retires[j]?.bind fun call =>
      if (call.old key).isSome ∧ call.closed key = false then
        some { s with
          sockets := closeObject s.sockets key
          retires := s.retires.set j { call with closed := Function.update call.closed key true } }
      else none

end State

def machine (ε : Type) : Machine (State ε) (Act ε) where
  init := ⟨Durable.State.empty, [], [], []⟩
  step := State.step

/-! ## What a step can do -/

inductive State.Step (s : State ε) : Act ε → State ε → Prop
  | registry {a : Durable.Act ε} {r : Durable.State ε} (halone : alone a = true)
      (h : s.toState.step a = some r) : State.Step s (.registry a) { s with toState := r }
  | objectEnds {i : Nat} {t : Task ε} {r : Durable.State ε} (ht : s.tasks i = some t)
      (h : s.toState.step (.objectEnds i) = some r) :
      State.Step s (.objectEnds i)
        { s with toState := r, sockets := instanceEnded s.sockets t.key }
  | accepted {i id : Nat} {t : Task ε} {slot hibernatable : Bool} {tags : List String}
      (ht : s.tasks i = some t) (hp : t.phase = .looping ∨ t.phase = .lent) :
      State.Step s (.accept i slot id tags hibernatable)
        { s with
          sockets := s.sockets.filter (fun y => !y.is t.key id) ++
            [⟨t.key, id, true, tags, none, hibernatable, i⟩] }
  | touched {a : Act ε} {sockets : List Socket}
      (h : ∀ x ∈ sockets, ∃ y ∈ s.sockets, x.key = y.key ∧ x.hibernatable = y.hibernatable ∧
        x.acceptedBy = y.acceptedBy) : State.Step s a { s with sockets := sockets }
  | stopNamespace (namespaceId : String) :
      State.Step s (.stopNamespace namespaceId)
        { s with
          toState := (s.toState.stopNamespace namespaceId).1
          stops := s.stops ++ [⟨namespaceId, (s.running namespaceId).isNone, false⟩] }
  | closeNamespace {j : Nat} {stop : Stop} (hj : s.stops[j]? = some stop) :
      State.Step s (.closeNamespace j)
        { s with
          sockets := closeNamespace s.sockets stop.namespaceId
          stops := s.stops.set j { stop with returned := true } }
  | retire (workerId : String) (version : Int) :
      State.Step s (.retire workerId version)
        { s with
          toState := s.toState.retire workerId version
          retires := s.retires ++ [⟨fun key =>
            ((s.objects key).filter (State.runs workerId version)).map Entry.generation,
            fun _ => false⟩] }
  | closeObject {j : Nat} {call : Retire} {key : ObjectKey} (hj : s.retires[j]? = some call) :
      State.Step s (.closeObject j key)
        { s with
          sockets := closeObject s.sockets key
          retires := s.retires.set j { call with closed := Function.update call.closed key true } }

namespace State

theorem step_of_eq {s t : State ε} {a : Act ε} (h : s.step a = some t) : s.Step a t := by
  have keep : ∀ sockets : List Socket, (∀ x ∈ sockets, x ∈ s.sockets) →
      State.Step s a { s with sockets := sockets } := fun sockets hsu =>
    .touched fun x hx => ⟨x, hsu x hx, rfl, rfl, rfl⟩
  have change : ∀ f : Socket → Socket, (∀ x, (f x).key = x.key ∧
      (f x).hibernatable = x.hibernatable ∧ (f x).acceptedBy = x.acceptedBy) →
      State.Step s a { s with sockets := s.sockets.map f } := by
    intro f hf
    refine .touched fun x hx => ?_
    obtain ⟨y, hy, rfl⟩ := mem_map.1 hx
    exact ⟨y, hy, hf y⟩
  cases a with
  | registry a =>
    obtain ⟨ha, h⟩ := ite_none_right_eq_some.1 h
    obtain ⟨r, hr, rfl⟩ := map_eq_some_iff.1 h
    exact .registry ha hr
  | objectEnds i =>
    obtain ⟨u, hu, h⟩ := bind_eq_some_iff.1 h
    obtain ⟨r, hr, rfl⟩ := map_eq_some_iff.1 h
    exact .objectEnds hu hr
  | accept i slot id tags hibernatable =>
    obtain ⟨u, hu, h⟩ := bind_eq_some_iff.1 h
    obtain ⟨hp, h⟩ := ite_none_right_eq_some.1 h
    rw [accept] at h
    split at h
    next sockets heq =>
      split at heq
      · cases heq
      split at heq
      · cases heq
      cases heq
      cases h
      exact .accepted hu hp
    · cases h
      exact keep s.sockets fun _ hx => hx
  | attach key id =>
    cases h
    refine change _ fun x => ?_
    split <;> exact ⟨rfl, rfl, rfl⟩
  | setAttachment key id val =>
    cases h
    refine change _ fun x => ?_
    split <;> exact ⟨rfl, rfl, rfl⟩
  | send key id closes =>
    cases h
    refine keep _ fun x hx => ?_
    rw [send] at hx
    split at hx
    · exact (mem_filter.1 hx).1
    · exact hx
  | forget key id =>
    cases h
    exact keep _ fun x hx => (mem_filter.1 hx).1
  | stopNamespace ns =>
    cases h
    exact .stopNamespace ns
  | closeNamespace j =>
    obtain ⟨stop, hj, h⟩ := bind_eq_some_iff.1 h
    split at h
    · cases h
    cases h
    exact .closeNamespace hj
  | retire wid ver =>
    cases h
    exact .retire wid ver
  | closeObject j key =>
    obtain ⟨call, hj, h⟩ := bind_eq_some_iff.1 h
    obtain ⟨-, h⟩ := ite_none_right_eq_some.1 h
    cases h
    exact .closeObject hj

theorem Step.toState_eq {s t : State ε} {a : Act ε} (h : s.Step a t) :
    t.toState = s.toState ∨ ∃ b, s.toState.step b = some t.toState := by
  cases h with
  | registry _ h | objectEnds _ h => exact .inr ⟨_, h⟩
  | accepted | touched | closeNamespace | closeObject => exact .inl rfl
  | stopNamespace n => exact .inr ⟨.stopNamespace n, rfl⟩
  | retire wid ver => exact .inr ⟨.retire wid ver, rfl⟩

end State

variable {s : State ε} {n : String}

theorem reachable_registry {ok : State ε → Act ε → Prop} (hs : (machine ε).Reach ok s) :
    (Durable.machine ε).Reachable s.toState := by
  refine hs.project State.toState rfl fun s a t _ h => ?_
  rcases (State.step_of_eq h).toState_eq with heq | ⟨b, hb⟩
  · exact .inl heq
  · exact .inr ⟨b, trivial, hb⟩

/-! ## Deleted namespaces -/

structure Ended (n : String) (s : Durable.State ε) : Prop where
  stopped : s.stopped n = true
  none : ∀ i t, s.tasks i = some t → t.key.namespaceId = n → t.phase.counted = false

/-- No task is new. -/
theorem Ended.task_before {s t : Durable.State ε} {a : Durable.Act ε} (hs : Ended n s)
    (h : s.Step a t) {i : Nat} {u : Task ε} (hu : t.tasks i = some u)
    (hn : u.key.namespaceId = n) :
    ∃ v, s.tasks i = some v ∧ v.key.namespaceId = n ∧
      (u.phase.counted = true → v.phase.counted = true) := by
  rcases h.phases with heq | ⟨j, v, v', hv, heq, hk, hon⟩ | ⟨v', heq, -, ho⟩
  · exact ⟨u, heq ▸ hu, hn, id⟩
  · rw [heq] at hu
    rcases update_some_eq_some hu with ⟨rfl, rfl⟩ | ⟨-, hu⟩
    · exact ⟨v, hv, hk ▸ hn, hon.counted⟩
    · exact ⟨u, hu, hn, id⟩
  · rw [heq] at hu
    rcases update_some_eq_some hu with ⟨-, rfl⟩ | ⟨-, hu⟩
    · rw [hn, hs.stopped] at ho
      cases ho
    · exact ⟨u, hu, hn, id⟩

theorem Ended.step {s t : Durable.State ε} {a : Durable.Act ε} (hs : Ended n s) (h : s.Step a t) :
    Ended n t := by
  refine ⟨h.stopped hs.stopped, fun i u hu hn => ?_⟩
  obtain ⟨v, hv, hvn, hcn⟩ := hs.task_before h hu hn
  rw [Bool.eq_false_iff]
  intro hu'
  have := hcn hu'
  rw [hs.none i v hv hvn] at this
  cases this

theorem ended_of_noneRuns {s : Durable.State ε} (hs : s.Counted) (h : (s.running n).isNone = true) :
    Ended n (s.stopNamespace n).1 := by
  refine ⟨Function.update_self .., fun i t ht hn => ?_⟩
  by_contra hcn
  have hl : s.live (fun t => t.key.namespaceId) i = some n :=
    hn ▸ State.Counted.live_eq (fun t => t.key.namespaceId) ht (by simpa using hcn)
  have hz : (s.running n).getD 0 = 0 := by rw [isNone_iff_eq_none.1 h, getD_none]
  rw [hs.running, Counts.tally, Counts.getD_ofNumbers] at hz
  exact absurd (Counts.census_pos (hs.lt i t ht) hl) (by rw [hz]; exact Nat.lt_irrefl 0)

structure Final (stop : Stop) (s : State ε) : Prop where
  ended : Ended stop.namespaceId s.toState
  sockets : stop.returned = true → ∀ x ∈ s.sockets, x.key.namespaceId ≠ stop.namespaceId

namespace Final

theorem mono {stop : Stop} {s t : State ε} (hs : Final stop s)
    (h : t.toState = s.toState ∨ ∃ b, s.toState.step b = some t.toState)
    (hsk : ∀ x ∈ t.sockets, ∃ y ∈ s.sockets, x.key = y.key) : Final stop t := by
  refine ⟨?_, fun hre x hx => ?_⟩
  · rcases h with heq | ⟨b, hb⟩
    · rw [heq]
      exact hs.ended
    · exact hs.ended.step (Durable.State.step_of_eq hb)
  · obtain ⟨y, hy, hk⟩ := hsk x hx
    rw [hk]
    exact hs.sockets hre y hy

theorem step {stop : Stop} {s t : State ε} {a : Act ε} (hs : Final stop s) (h : s.Step a t) :
    Final stop t := by
  have hre := h.toState_eq
  cases h with
  | registry | stopNamespace | retire => exact hs.mono hre fun x hx => ⟨x, hx, rfl⟩
  | objectEnds | closeNamespace | closeObject =>
    exact hs.mono hre fun x hx => ⟨x, (mem_filter.1 hx).1, rfl⟩
  | touched hsk =>
    refine hs.mono hre fun x hx => ?_
    obtain ⟨y, hy, hk, -⟩ := hsk x hx
    exact ⟨y, hy, hk⟩
  | accepted ht hp =>
    refine ⟨hs.ended, fun hret x hx => ?_⟩
    rcases mem_append.1 hx with hx | hx
    · exact hs.sockets hret x (mem_filter.1 hx).1
    · -- an instance that accepts runs in a task that is counted
      obtain rfl := mem_singleton.1 hx
      intro hn
      have hcn := hs.ended.none _ _ ht hn
      rcases hp with hp | hp <;> rw [hp] at hcn <;> cases hcn

end Final

theorem State.Step.stops {t : State ε} {a : Act ε} (h : s.Step a t) {stop : Stop}
    (hst : stop ∈ t.stops) :
    stop ∈ s.stops ∨
    (stop.noneRuns = (s.running stop.namespaceId).isNone ∧ stop.returned = false ∧
      t.toState = (s.toState.stopNamespace stop.namespaceId).1) ∨
    ∃ before ∈ s.stops, before.namespaceId = stop.namespaceId ∧
      before.noneRuns = stop.noneRuns ∧ t.toState = s.toState ∧
      t.sockets = Sockets.closeNamespace s.sockets stop.namespaceId := by
  cases h with
  | stopNamespace n =>
    rcases mem_append.1 hst with hm | hm
    · exact .inl hm
    · obtain rfl := mem_singleton.1 hm
      exact .inr (.inl ⟨rfl, rfl, rfl⟩)
  | @closeNamespace j before hj =>
    rcases eq_or_exists_of_mem_set hst with rfl | ⟨k, -, hk⟩
    · exact .inr (.inr ⟨before, mem_of_getElem? hj, rfl, rfl, rfl, rfl⟩)
    · exact .inl (mem_of_getElem? hk)
  | _ => exact .inl hst

theorem final_of_reach (hs : (machine ε).Reachable s) :
    ∀ stop ∈ s.stops, stop.noneRuns = true → Final stop s := by
  refine hs.invariant (I := fun s : State ε => ∀ stop ∈ s.stops, stop.noneRuns = true →
    Final stop s) (fun _ h => by cases h) fun s a t hs hf _ h stop hstored hno => ?_
  have hst := State.step_of_eq h
  rcases hst.stops hstored with hm | ⟨ha, hre, heq⟩ |
    ⟨before, hm, hn, ha, heq, hsk⟩
  · exact (hf stop hm hno).step hst
  · refine ⟨?_, fun h => absurd (hre.symm.trans h) (by decide)⟩
    rw [heq]
    exact ended_of_noneRuns (counted_of_reach (reachable_registry hs)) (ha ▸ hno)
  · refine ⟨?_, fun _ x hx => ?_⟩
    · rw [heq, ← hn]
      exact (hf before hm (ha.trans hno)).ended
    · rw [hsk] at hx
      simpa using (mem_filter.1 hx).2

theorem Ended.lt_of_step {s t : Durable.State ε} {a : Durable.Act ε} (hs : Ended n s)
    (h : s.Step a t) {g : Nat} (hlt : ∀ i u, s.tasks i = some u → u.key.namespaceId = n → i < g) :
    ∀ i u, t.tasks i = some u → u.key.namespaceId = n → i < g := by
  intro i u hu hn
  obtain ⟨v, hv, hvn, -⟩ := hs.task_before h hu hn
  exact hlt i v hv hvn

/-- **After `stop_namespace` returned `true`, whatever happens then: no task of the namespace runs,
none has been started since, and no socket of an object of it is open.** -/
theorem stop_namespace_final {s t : State ε} {as : List (Act ε)} {stop : Stop}
    (hs : (machine ε).Reachable s) (hstop : stop ∈ s.stops) (htrue : stop.noneRuns = true)
    (hreturned : stop.returned = true) (hrun : (machine ε).run s as = some t) :
    (∀ i u, t.tasks i = some u → u.key.namespaceId = stop.namespaceId →
      u.phase.counted = false ∧ i < s.generation) ∧
    ∀ x ∈ t.sockets, x.key.namespaceId ≠ stop.namespaceId := by
  have hstr : ∀ i u, s.tasks i = some u → u.key.namespaceId = stop.namespaceId →
      i < s.generation := fun i u hu _ => (counted_of_reach (reachable_registry hs)).lt i u hu
  have hinv : Final stop t ∧ ∀ i u, t.tasks i = some u →
      u.key.namespaceId = stop.namespaceId → i < s.generation := by
    refine Machine.run_invariant (M := machine ε) (I := fun t => Final stop t ∧ ∀ i u,
      t.tasks i = some u → u.key.namespaceId = stop.namespaceId → i < s.generation)
      (fun r a r' hr h => ?_) ⟨final_of_reach hs stop hstop htrue, hstr⟩ hrun
    have hstep := State.step_of_eq h
    refine ⟨hr.1.step hstep, ?_⟩
    rcases hstep.toState_eq with heq | ⟨b, hb⟩
    · rw [heq]
      exact hr.2
    · exact hr.1.ended.lt_of_step (Durable.State.step_of_eq hb) hr.2
  obtain ⟨hfin, hlt⟩ := hinv
  exact ⟨fun i u hu hn => ⟨hfin.ended.none i u hu hn, hlt i u hu hn⟩, hfin.sockets hreturned⟩

def deleted : List (Act String) :=
  let ns : NamespaceConfig := ⟨"n", "account", "worker"⟩
  [.registry (.admitEvent ns "o" 0 "first"), .registry (.start 0), .registry (.loaded 0 1),
    .registry (.tryRecv 0 true), .accept 0 true 7 [] true, .objectEnds 0,
    .registry (.tryRecv 0 false), .registry (.leave 0), .registry (.release 0),
    .stopNamespace "n", .closeNamespace 0]

def afterwards : List (Act String) :=
  [.registry (.admitEvent ⟨"n", "account", "worker"⟩ "o" 0 "second")]

theorem stop_namespace_final_deleted :
    ∃ s t : State String, (machine String).Reachable s ∧ ⟨"n", true, true⟩ ∈ s.stops ∧
      (machine String).run s afterwards = some t ∧
      (∀ i u, t.tasks i = some u → u.key.namespaceId = "n" →
        u.phase.counted = false ∧ i < s.generation) ∧
      ∀ x ∈ t.sockets, x.key.namespaceId ≠ "n" := by
  obtain ⟨s, hs, hstop, hsome⟩ := (machine String).exists_of_run deleted
    (fun s => ⟨"n", true, true⟩ ∈ s.stops ∧ ((machine String).run s afterwards).isSome = true)
    (by decide)
  obtain ⟨t, ht⟩ := Option.isSome_iff_exists.mp hsome
  exact ⟨s, t, hs, hstop, ht, stop_namespace_final hs hstop rfl rfl ht⟩

end OpenWorkersRunner.Durable.Sockets
