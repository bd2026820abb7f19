import OpenWorkersRunner.D1.Directory
import OpenWorkersRunner.Durable.Sockets

/-!
# Durable Objects: the files of a deleted namespace

`clean_up_namespaces` of `src/d1/requests.rs` stops the objects of a deleted namespace and then
deletes its files, "so none writes a file again after its removal".  This file puts together the
three parties of that promise: the registry of `OpenWorkersRunner.Durable.Registry`, the service
with its files of `OpenWorkersRunner.D1.Files`, and the alarm deliveries of
`src/durable/alarms.rs`.
-/

namespace OpenWorkersRunner.Durable.Removal

open Option List

/-! ## Data -/

def hexDigits : Nat → Nat → List Char
  | 0, _ => []
  | k + 1, x => hexDigits k (x / 16) ++ [(x % 16).digitChar]

@[irreducible] def uuidText (id : BitVec 128) : String :=
  .ofList <| hexDigits 8 (id.toNat >>> 96) ++ '-' :: hexDigits 4 (id.toNat >>> 80) ++
    '-' :: hexDigits 4 (id.toNat >>> 64) ++ '-' :: hexDigits 4 (id.toNat >>> 48) ++
    '-' :: hexDigits 12 id.toNat

@[irreducible] def objectText (id : BitVec 256) : String := .ofList (hexDigits 64 id.toNat)

def objectKey (namespaceId : BitVec 128) (objectId : BitVec 256) : ObjectKey :=
  ⟨uuidText namespaceId, objectText objectId⟩

inductive Stage
  | claimed
  | found (ns : NamespaceConfig)
  | reading (ns : NamespaceConfig) (i : Nat)
  | due (ns : NamespaceConfig)
  | running
  | ran
  | rereading (i : Nat)
  | reread
  | clearing (i : Nat)
  | ended
deriving DecidableEq

def Stage.goesOn : Stage → Bool
  | .claimed | .ended => false
  | _ => true

def Stage.call : Stage → Option (Nat → Stage)
  | .found ns => some (.reading ns)
  | .ran => some .rereading
  | .reread => some .clearing
  | _ => none

/-- The storage call it waits for, and the stage after the answer; `more` when the alarm is due, or
is to be cleared. -/
def Stage.answer (more : Bool) : Stage → Option (Nat × Stage)
  | .reading ns i => some (i, if more then .due ns else .ended)
  | .rereading i => some (i, if more then .reread else .ended)
  | .clearing i => some (i, .ended)
  | _ => none

structure Delivery where
  namespaceId : BitVec 128
  objectId : BitVec 256
  stage : Stage
deriving DecidableEq

inductive Lookup
  | unread
  | gone
  | found (userId workerId : String)
deriving DecidableEq

inductive DeliverAct (ε : Type)
  | lookup (answer : Lookup)
  | call (victim : Option D1.Key) (now : Nat)
  | answer (more : Bool)
  | alarm (event : ε)
  | endRun

structure State (ε : Type) where
  registry : Durable.State ε
  files : D1.Files.State
  deleted : BitVec 128 → Bool
  deliveries : List Delivery
  sweep : Option (BitVec 128)

inductive Act (ε : Type)
  | registry (a : Durable.Act ε)
  | files (a : D1.Files.Act)
  | storage (i : Nat) (namespaceId : BitVec 128) (objectId : BitVec 256) (victim : Option D1.Key)
      (now : Nat)
  | claim (namespaceId : BitVec 128) (objectId : BitVec 256)
  | deliver (d : Nat) (a : DeliverAct ε)
  | delete (namespaceId : BitVec 128)
  | stop (namespaceId : BitVec 128)
  | remove

variable {ε : Type}

def alone : Durable.Act ε → Bool
  | .stopNamespace _ => false
  | _ => true

def outside : D1.Files.Act → Bool
  | .service (.submit (.object _ _) _ _) => false
  | .upkeep (.start (.removeNamespace _)) => false
  | .crash => false
  | _ => true

namespace State

/-! ## The machine -/

def goto (s : State ε) (d : Nat) (x : Delivery) (stage : Stage) : State ε :=
  { s with deliveries := s.deliveries.set d { x with stage := stage } }

def lookup (s : State ε) (x : Delivery) : Lookup → Option Stage
  | .unread | .gone => some .ended
  | .found userId workerId =>
    if s.deleted x.namespaceId then none
    else some (.found ⟨uuidText x.namespaceId, userId, workerId⟩)

def submit (config : D1.Config) (s : State ε) (namespaceId : BitVec 128) (objectId : BitVec 256)
    (victim : Option D1.Key) (now : Nat) : Option (State ε) :=
  (s.files.step config (.service (.submit (.object namespaceId objectId) victim now))).map
    fun files => { s with files := files }

def stepDelivery (config : D1.Config) (s : State ε) (d : Nat) (x : Delivery) :
    DeliverAct ε → Option (State ε)
  | .lookup answer =>
    if x.stage = .claimed then (s.lookup x answer).map (s.goto d x) else none
  | .call victim now =>
    x.stage.call.bind fun next =>
      (s.submit config x.namespaceId x.objectId victim now).map fun t =>
        t.goto d x (next s.files.service.called)
  | .answer more =>
    (x.stage.answer more).bind fun r =>
      if (s.files.service.calls r.1).any fun c => c.stage == .ended then some (s.goto d x r.2)
      else none
  | .alarm event =>
    match x.stage with
    | .due ns =>
      match s.registry.admitEvent ns (objectText x.objectId) 0 event with
      | .ok (r, _) => some { s.goto d x .running with registry := r }
      | .error _ => some (s.goto d x .ended)
    | _ => none
  | .endRun => if x.stage = .running then some (s.goto d x .ran) else none

def stop (s : State ε) (namespaceId : BitVec 128) : State ε :=
  let (r, noneRuns) := s.registry.stopNamespace (uuidText namespaceId)
  { s with registry := r, sweep := if noneRuns then some namespaceId else none }

def step (config : D1.Config) (s : State ε) : Act ε → Option (State ε)
  | .registry a =>
    if alone a then (s.registry.step a).map fun r => { s with registry := r } else none
  | .files a =>
    if outside a then (s.files.step config a).map fun t => { s with files := t } else none
  | .storage i namespaceId objectId victim now =>
    (s.registry.tasks i).bind fun t =>
      if t.phase.counted ∧ t.key = objectKey namespaceId objectId then
        s.submit config namespaceId objectId victim now
      else none
  | .claim namespaceId objectId =>
    some { s with deliveries := s.deliveries ++ [⟨namespaceId, objectId, .claimed⟩] }
  | .deliver d a => s.deliveries[d]?.bind fun x => s.stepDelivery config d x a
  | .delete namespaceId =>
    some { s with deleted := Function.update s.deleted namespaceId true }
  | .stop namespaceId =>
    if s.deleted namespaceId ∧ s.sweep = none then some (s.stop namespaceId) else none
  | .remove =>
    s.sweep.bind fun namespaceId =>
      (s.files.step config (.upkeep (.start (.removeNamespace namespaceId)))).map fun t =>
        { s with files := t, sweep := none }

end State

def machine (ε : Type) (config : D1.Config) : Machine (State ε) (Act ε) where
  init := ⟨.empty, .empty, fun _ => false, [], none⟩
  step := State.step config

/-! ## What a step can do -/

namespace State

variable {config : D1.Config}

inductive Step (config : D1.Config) (s : State ε) : Act ε → State ε → Prop
  | registry {a : Durable.Act ε} {r : Durable.State ε} (h : s.registry.step a = some r) :
      Step config s (.registry a) { s with registry := r }
  | files {a : D1.Files.Act} {t : D1.Files.State} (ha : outside a = true)
      (h : s.files.step config a = some t) : Step config s (.files a) { s with files := t }
  | storage {i now : Nat} {task : Task ε} {n : BitVec 128} {o : BitVec 256}
      {victim : Option D1.Key} {t : D1.Files.State} (htask : s.registry.tasks i = some task)
      (hcounted : task.phase.counted = true) (hkey : task.key = objectKey n o)
      (h : s.files.step config (.service (.submit (.object n o) victim now)) = some t) :
      Step config s (.storage i n o victim now) { s with files := t }
  | claim (n : BitVec 128) (o : BitVec 256) :
      Step config s (.claim n o) { s with deliveries := s.deliveries ++ [⟨n, o, .claimed⟩] }
  | deliver {d : Nat} {x : Delivery} {a : DeliverAct ε} {stage : Stage} {r : Durable.State ε}
      (hx : s.deliveries[d]? = some x)
      (hgoes : stage.goesOn = true → x.stage.goesOn = true ∨ s.deleted x.namespaceId = false)
      (hr : r = s.registry ∨ ∃ b, s.registry.step b = some r) :
      Step config s (.deliver d a) { s.goto d x stage with registry := r }
  | call {d now : Nat} {x : Delivery} {victim : Option D1.Key} {stage : Stage}
      {t : D1.Files.State} (hx : s.deliveries[d]? = some x) (hgoes : x.stage.goesOn = true)
      (h : s.files.step config (.service (.submit (.object x.namespaceId x.objectId) victim now)) =
        some t) :
      Step config s (.deliver d (.call victim now)) { s.goto d x stage with files := t }
  | delete (n : BitVec 128) :
      Step config s (.delete n) { s with deleted := Function.update s.deleted n true }
  | stop {n : BitVec 128} (hdeleted : s.deleted n = true) : Step config s (.stop n) (s.stop n)
  | remove {n : BitVec 128} {t : D1.Files.State} (hsweep : s.sweep = some n)
      (h : s.files.step config (.upkeep (.start (.removeNamespace n))) = some t) :
      Step config s .remove { s with files := t, sweep := none }

variable {s t : State ε}

theorem goesOn_of_call {stage : Stage} {next : Nat → Stage} (h : stage.call = some next) :
    stage.goesOn = true := by
  unfold Stage.call at h
  split at h <;> first | rfl | cases h

theorem goesOn_of_answer {stage : Stage} {more : Bool} {r : Nat × Stage}
    (h : stage.answer more = some r) : stage.goesOn = true := by
  unfold Stage.answer at h
  split at h <;> first | rfl | cases h

theorem step_delivery {d : Nat} {x : Delivery} {a : DeliverAct ε} (hx : s.deliveries[d]? = some x)
    (h : s.stepDelivery config d x a = some t) : s.Step config (.deliver d a) t := by
  cases a with
  | lookup answer =>
    rw [stepDelivery] at h
    split at h
    · obtain ⟨stage, hst, rfl⟩ := map_eq_some_iff.1 h
      refine .deliver hx (fun hgoes => .inr ?_) (.inl rfl)
      unfold State.lookup at hst
      split at hst
      · cases hst
        cases hgoes
      · cases hst
        cases hgoes
      · split at hst
        · cases hst
        next hd =>
          simpa using hd
    · cases h
  | call victim now =>
    obtain ⟨next, hn, h⟩ := bind_eq_some_iff.1 h
    obtain ⟨r, hr, rfl⟩ := map_eq_some_iff.1 h
    obtain ⟨files, hf, rfl⟩ := map_eq_some_iff.1 hr
    exact .call hx (goesOn_of_call hn) hf
  | answer more =>
    obtain ⟨r, hr, h⟩ := bind_eq_some_iff.1 h
    split at h
    · cases h
      exact .deliver hx (fun _ => .inl (goesOn_of_answer hr)) (.inl rfl)
    · cases h
  | alarm ev =>
    rw [stepDelivery] at h
    split at h
    next ns hst =>
      have hgoes : x.stage.goesOn = true := by rw [hst]; rfl
      split at h
      next r guard ha =>
        cases h
        refine .deliver hx (fun _ => .inl hgoes)
          (.inr ⟨.admitEvent ns (objectText x.objectId) 0 ev, ?_⟩)
        rw [Durable.State.step, ha]
      · cases h
        exact .deliver hx (fun _ => .inl hgoes) (.inl rfl)
    · cases h
  | endRun =>
    rw [stepDelivery] at h
    split at h
    next hst =>
      cases h
      exact .deliver hx (fun _ => .inl (by rw [hst]; rfl)) (.inl rfl)
    · cases h

variable {a : Act ε}

theorem step_of_eq (h : s.step config a = some t) : s.Step config a t := by
  cases a with
  | registry a =>
    rw [step] at h
    split at h
    · obtain ⟨r, hr, rfl⟩ := map_eq_some_iff.1 h
      exact .registry hr
    · cases h
  | files a =>
    rw [step] at h
    split at h
    · obtain ⟨r, hr, rfl⟩ := map_eq_some_iff.1 h
      exact .files ‹_› hr
    · cases h
  | storage i n o victim now =>
    obtain ⟨task, ht, h⟩ := bind_eq_some_iff.1 h
    split at h
    next hco =>
      obtain ⟨r, hr, rfl⟩ := map_eq_some_iff.1 h
      exact .storage ht hco.1 hco.2 hr
    · cases h
  | claim n o => cases h; exact .claim n o
  | deliver d a =>
    obtain ⟨x, hx, h⟩ := bind_eq_some_iff.1 h
    exact step_delivery hx h
  | delete n => cases h; exact .delete n
  | stop n =>
    rw [step] at h
    split at h
    next hco =>
      cases h
      exact .stop hco.1
    · cases h
  | remove =>
    obtain ⟨n, hn, h⟩ := bind_eq_some_iff.1 h
    obtain ⟨r, hr, rfl⟩ := map_eq_some_iff.1 h
    exact .remove hn hr

theorem Step.registry_after (h : s.Step config a t) :
    t.registry = s.registry ∨ ∃ b, s.registry.step b = some t.registry := by
  cases h with
  | registry h => exact .inr ⟨_, h⟩
  | deliver hx hgoes hr => exact hr
  | stop => exact .inr ⟨.stopNamespace _, rfl⟩
  | _ => exact .inl rfl

theorem Step.files_after (h : s.Step config a t) :
    t.files = s.files ∨ ∃ b, s.files.step config b = some t.files := by
  cases h with
  | files ha h => exact .inr ⟨_, h⟩
  | storage ht hcn hk h => exact .inr ⟨_, h⟩
  | call hx hgoes h => exact .inr ⟨_, h⟩
  | remove hsw h => exact .inr ⟨_, h⟩
  | _ => exact .inl rfl

end State

variable {config : D1.Config} {s t : State ε}

theorem reachable_registry {ok : State ε → Act ε → Prop} (hs : (machine ε config).Reach ok s) :
    (Durable.machine ε).Reachable s.registry := by
  refine hs.project State.registry rfl fun s a t _ h => ?_
  rcases (State.step_of_eq h).registry_after with heq | ⟨b, hb⟩
  · exact .inl heq
  · exact .inr ⟨b, trivial, hb⟩

theorem reachable_files {ok : State ε → Act ε → Prop} (hs : (machine ε config).Reach ok s) :
    (D1.Files.machine config).Reachable s.files := by
  refine hs.project State.files rfl fun s a t _ h => ?_
  rcases (State.step_of_eq h).files_after with heq | ⟨b, hb⟩
  · exact .inl heq
  · exact .inr ⟨b, trivial, hb⟩

namespace State

/-! ## After `remove_namespace_files` has begun -/

variable {n : BitVec 128}

structure Over (n : BitVec 128) (s : State ε) : Prop where
  ended : Sockets.Ended (uuidText n) s.registry
  deleted : s.deleted n = true
  delivered : ∀ x ∈ s.deliveries, x.namespaceId = n → x.stage.goesOn = false
  unheld : s.files.service.Unheld n

variable {a : Act ε}

theorem ended_step (hs : Sockets.Ended (uuidText n) s.registry) (h : s.Step config a t) :
    Sockets.Ended (uuidText n) t.registry := by
  rcases h.registry_after with heq | ⟨b, hb⟩
  · rw [heq]
    exact hs
  · exact hs.step (Durable.State.step_of_eq hb)

theorem Step.deleted (h : s.Step config a t) (hs : s.deleted n = true) : t.deleted n = true := by
  cases h with
  | delete m =>
    by_cases hm : n = m
    · rw [hm]
      exact Function.update_self ..
    · exact (Function.update_of_ne hm _ _).trans hs
  | _ => exact hs

namespace Over

theorem avoids_outside {a : D1.Files.Act} (ha : outside a = true) : D1.Files.State.Avoids n a := by
  unfold D1.Files.State.Avoids
  split
  next key victim now =>
    cases key with
    | database id => rfl
    | object m o => cases ha
  · trivial

theorem not_storage (hs : s.Over n) {i : Nat} {task : Task ε} {m : BitVec 128} {o : BitVec 256}
    (ht : s.registry.tasks i = some task) (hcn : task.phase.counted = true)
    (hk : task.key = objectKey m o) : D1.Key.isOf n (.object m o) = false := by
  by_contra his
  obtain rfl : m = n := by simpa [D1.Key.isOf] using his
  have := hs.ended.none i task ht (by rw [hk]; rfl)
  rw [hcn] at this
  cases this

theorem not_call (hs : s.Over n) {d : Nat} {x : Delivery} (hx : s.deliveries[d]? = some x)
    (hgoes : x.stage.goesOn = true) : x.namespaceId ≠ n := by
  intro hn
  have := hs.delivered x (mem_of_getElem? hx) hn
  rw [hgoes] at this
  cases this

theorem files_after {a : Act ε} (hs : s.Over n) (h : s.Step config a t) :
    t.files = s.files ∨ ∃ b, D1.Files.State.Avoids n b ∧ s.files.step config b = some t.files := by
  cases h with
  | files ha h => exact .inr ⟨_, avoids_outside ha, h⟩
  | @storage i now task m o victim files ht hcn hk h =>
    exact .inr ⟨.service (.submit (.object m o) victim now), hs.not_storage ht hcn hk, h⟩
  | @call d now x victim stage files hx hgoes h =>
    refine .inr ⟨.service (.submit (.object x.namespaceId x.objectId) victim now), ?_, h⟩
    simpa [D1.Files.State.Avoids, D1.Key.isOf] using hs.not_call hx hgoes
  | @remove m files hsw h => exact .inr ⟨.upkeep (.start (.removeNamespace m)), trivial, h⟩
  | _ => exact .inl rfl

/-- **What a step keeps.** -/
theorem step {a : Act ε} (hs : s.Over n) (h : s.Step config a t) : t.Over n := by
  refine ⟨ended_step hs.ended h, h.deleted hs.deleted, ?_, ?_⟩
  · cases h with
    | claim m o =>
      intro x hx hn
      rcases mem_append.1 hx with hx | hx
      · exact hs.delivered x hx hn
      · obtain rfl := mem_singleton.1 hx
        rfl
    | deliver hx hgoes hr =>
      refine Parties.forall_mem_set hs.delivered fun hn => ?_
      by_contra ho
      rcases hgoes (by simpa using ho) with hgoes | hf
      · exact hs.not_call hx hgoes hn
      · rw [hn, hs.deleted] at hf
        cases hf
    | call hx hgoes h =>
      have hne := hs.not_call hx hgoes
      exact Parties.forall_mem_set hs.delivered fun hn => absurd hn hne
    | _ => exact hs.delivered
  · rcases hs.files_after h with heq | ⟨b, hb, hfs⟩
    · rw [heq]
      exact hs.unheld
    · exact D1.Files.State.unheld_step hs.unheld hb (D1.Files.State.step_of_eq hfs)

end Over

/-! ## The removal -/

/-- **The condition**: when `remove_namespace_files` begins, no delivery of the namespace goes on.
-/
def Awaited (n : BitVec 128) (s : State ε) : Act ε → Prop
  | .remove => s.sweep = some n → ∀ x ∈ s.deliveries, x.namespaceId = n → x.stage.goesOn = false
  | _ => True

structure Swept (n : BitVec 128) (s : State ε) : Prop where
  stopped : s.sweep = some n → Sockets.Ended (uuidText n) s.registry ∧ s.deleted n = true
  begun : ∀ u, s.files.upkeep = some u → u.work = .removeNamespace n → s.Over n
  done : s.files.Removed n → s.Over n ∧ s.files.Cleared n

theorem Step.sweep_before (h : s.Step config a t) (hsw : t.sweep = some n) :
    s.sweep = some n ∨ s.deleted n = true ∧ (s.registry.running (uuidText n)).isNone = true ∧
      t.registry = (s.registry.stopNamespace (uuidText n)).1 := by
  cases h with
  | @stop m hd =>
    rw [State.stop] at hsw
    dsimp only at hsw
    split at hsw
    · cases hsw
      exact .inr ⟨hd, ‹_›, rfl⟩
    · cases hsw
  | remove => cases hsw
  | _ => exact .inl hsw

theorem Step.begins (h : s.Step config a t) {u : D1.Files.Upkeep} (hu : t.files.upkeep = some u)
    (hw : u.work = .removeNamespace n) :
    (∃ v, s.files.upkeep = some v ∧ v.work = .removeNamespace n) ∨
      a = .remove ∧ s.sweep = some n ∧ t.registry = s.registry ∧ t.deleted = s.deleted ∧
        t.deliveries = s.deliveries ∧
        s.files.service.detach (D1.Files.Work.covers (.removeNamespace n)) = some t.files.service ∧
        ∃ b, s.files.service.step config b = some t.files.service := by
  -- who makes a step of the files that is not the start of a removal
  have ho : ∀ b, s.files.step config b = some t.files → b ≠ .upkeep (.start (.removeNamespace n)) →
      ∃ v, s.files.upkeep = some v ∧ v.work = .removeNamespace n := by
    intro b hb hne
    rcases (D1.Files.State.step_of_eq hb).upkeep_before hu with ⟨v, hv, hsa⟩ | ⟨hstr, -⟩
    · exact ⟨v, hv, hsa.trans hw⟩
    · rw [hw] at hstr
      exact absurd hstr hne
  cases h with
  | files ha h =>
    refine .inl (ho _ h ?_)
    rintro rfl
    cases ha
  | storage ht hcn hk h => exact .inl (ho _ h (by simp))
  | call hx hgoes h => exact .inl (ho _ h (by simp))
  | @remove m files hsw h =>
    rcases (D1.Files.State.step_of_eq h).upkeep_before hu with
      ⟨v, hv, hsa⟩ | ⟨hstr, hd, hst⟩
    · exact .inl ⟨v, hv, hsa.trans hw⟩
    · rw [hw] at hstr hd
      obtain rfl : m = n := by simpa using hstr
      exact .inr ⟨rfl, hsw, rfl, rfl, rfl, hd, _, hst⟩
  | _ => exact .inl ⟨u, hu, hw⟩

theorem Swept.step {ok : State ε → Act ε → Prop} (hrc : (machine ε config).Reach ok s)
    (hs : s.Swept n) (hok : Awaited n s a) (h : s.Step config a t) : t.Swept n := by
  constructor
  · intro hsw
    rcases h.sweep_before hsw with hold | ⟨hde, hn, heq⟩
    · obtain ⟨hen, hde⟩ := hs.stopped hold
      exact ⟨ended_step hen h, h.deleted hde⟩
    · refine ⟨?_, h.deleted hde⟩
      rw [heq]
      exact Sockets.ended_of_noneRuns (counted_of_reach (reachable_registry hrc)) hn
  · intro u hu hw
    rcases h.begins hu hw with ⟨v, hv, hsa⟩ |
      ⟨rfl, hsw, hreg, hde, hd, hdet, b, hst⟩
    · exact (hs.begun v hv hsa).step h
    · obtain ⟨hen, hgo⟩ := hs.stopped hsw
      refine ⟨hreg ▸ hen, hde ▸ hgo, hd ▸ hok hsw, ?_⟩
      exact D1.State.unheld_of_detach (D1.Files.State.reachable_service (reachable_files hrc))
        (fun _ hk => hk) hdet hst
  · intro hre
    rcases h.files_after with heq | ⟨b, hb⟩
    · rw [heq] at hre ⊢
      obtain ⟨ho, hcl⟩ := hs.done hre
      exact ⟨ho.step h, hcl⟩
    · have hf := D1.Files.State.step_of_eq hb
      rcases hf.removed hre with hold | ⟨u, hu, hw, -, hcl⟩
      · obtain ⟨ho, hcl⟩ := hs.done hold
        exact ⟨ho.step h, hcl.step ho.unheld hf⟩
      · exact ⟨(hs.begun u hu hw).step h, hcl⟩

theorem swept_of_reach (hs : (machine ε config).Reach (Awaited n) s) : s.Swept n := by
  refine hs.invariant (I := Swept n) ?_ fun s a t hrc hI hok h =>
    hI.step hrc hok (step_of_eq h)
  constructor
  · intro h
    cases h
  · intro u hu
    cases hu
  · rintro ⟨o, ho, -⟩
    cases ho

end State

/-- **A removed namespace stays removed.**  Once `remove_namespace_files` has answered true, after
`stop_namespace` did, there is no directory of the namespace and no file in it. -/
theorem removed_stays_removed (config : D1.Config) (n : BitVec 128) {s : State ε}
    (hs : (machine ε config).Reach (State.Awaited n) s) (hremoved : s.files.Removed n) :
    s.files.directories n = false ∧ ∀ o suffix, s.files.file (.object n o) suffix = none := by
  obtain ⟨hdir, hfs⟩ := ((State.swept_of_reach hs).done hremoved).2
  exact ⟨hdir, fun o suffix => hfs ⟨.object n o, suffix⟩ (by simp [D1.Key.isOf])⟩

def awaitedNow (n : BitVec 128) (s : State ε) : Act ε → Bool
  | .remove => s.deliveries.all fun x => x.namespaceId != n || !x.stage.goesOn
  | _ => true

theorem awaited_of_now {n : BitVec 128} {a : Act ε} (h : awaitedNow n s a = true) :
    s.Awaited n a := by
  unfold State.Awaited
  split
  · intro _ x hx hn
    have := all_eq_true.1 h x hx
    simpa [hn] using this
  · trivial

def objectRuns : List (Act String) :=
  [Act.registry (.admitEvent ⟨uuidText 1, "account", "worker"⟩ (objectText 2) 0 "first"),
    .registry (.start 0), .registry (.loaded 0 1), .registry (.tryRecv 0 true),
    .storage 0 1 2 none 0] ++
  (D1.Files.openFirst 0 ++ [D1.Files.Act.makeBeside (.handle 0) .wal] ++ D1.Files.commit 0 ++
    D1.Files.reply 0 ++ D1.Files.snapshotOf 0).map .files ++
  [Act.registry (.objectEnds 0), .registry (.tryRecv 0 false), .registry (.leave 0),
    .registry (.release 0), .registry (.finish 0)]

def cleanUp : List (Act String) :=
  [.delete 1, .stop 1, .remove, .files (.upkeep (.takeEntry 2 .sqlite)),
    .files (.upkeep (.takeEntry 2 .wal)), .files (.upkeep .finish)]

def removedNow (s : State String) : Bool :=
  s.files.outcomes.any fun o => o.work == .removeNamespace 1 && o.answer == .removed true

theorem removed_of_now {s : State String} (h : removedNow s = true) : s.files.Removed 1 := by
  obtain ⟨o, ho, h⟩ := any_eq_true.1 h
  rw [Bool.and_eq_true, beq_iff_eq, beq_iff_eq] at h
  exact ⟨o, ho, h⟩

theorem removed_stays_removed_late :
    ∃ s : State String, (machine String ⟨64, 256, 300, true⟩).Reach (State.Awaited 1) s ∧
      s.files.Removed 1 ∧ s.deliveries = [⟨1, 2, .ended⟩] ∧ s.files.directories 1 = false ∧
      ∀ o suffix, s.files.file (.object 1 o) suffix = none := by
  obtain ⟨s, hs, hp⟩ := Machine.exists_reach_of_runIf (M := machine String ⟨64, 256, 300, true⟩)
    (awaitedNow 1) (fun _ _ _ h => awaited_of_now h)
    (objectRuns ++ cleanUp ++ [Act.claim 1 2, .deliver 0 (.lookup .gone),
      .registry (.admitEvent ⟨uuidText 1, "account", "worker"⟩ (objectText 2) 0 "second")])
    (fun s => removedNow s ∧ s.deliveries = [⟨1, 2, .ended⟩]) (by decide +kernel)
  have hrem := removed_of_now hp.1
  exact ⟨s, hs, hrem, hp.2, removed_stays_removed _ 1 hs hrem⟩

def readAlarm : List (Act String) :=
  .deliver 0 (.call none 0) ::
    ([.service (.call 1 (.submit .count)), .service (.call 1 (.run .lock)),
      .service (.call 1 (.run .openFile)), .opening 1 (.createDirectory true), .opening 1 .exists,
      .opening 1 (.fetch true), .opening 1 (.write true),
      .opening 1 (.install .renamed)] : List D1.Files.Act).map .files

/-- **A removed namespace has a file again**: a delivery had found the namespace before it was
deleted, and restores the file. -/
theorem file_of_removed_namespace : ¬ ∀ (config : D1.Config) (n : BitVec 128) (s : State String),
    (machine String config).Reachable s → s.files.Removed n →
      s.files.directories n = false ∧ ∀ o suffix, s.files.file (.object n o) suffix = none := by
  intro h
  obtain ⟨s, hs, hp⟩ := (machine String ⟨64, 256, 300, true⟩).exists_of_run
    (objectRuns ++ [Act.claim 1 2, .deliver 0 (.lookup (.found "account" "worker"))] ++ cleanUp ++
      readAlarm)
    (fun s => removedNow s ∧ s.files.file (.object 1 2) .sqlite = some 1) (by decide +kernel)
  have hnone := (h _ 1 s hs (removed_of_now hp.1)).2 2 .sqlite
  rw [hp.2] at hnone
  cases hnone

end OpenWorkersRunner.Durable.Removal
