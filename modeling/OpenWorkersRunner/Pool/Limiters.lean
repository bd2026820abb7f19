import OpenWorkersRunner.Drain.Runner
import OpenWorkersRunner.Lib.Table

/-!
# The permits of one worker (`worker_pool.rs`, `bin/main.rs`)

A request takes two permits: one of its worker, from a semaphore in `WORKER_LIMITERS`, and then one
of all workers, from `WORKER_SEMAPHORE`.  The first is there so that "a single hot worker cannot
monopolize the global worker pool".
-/

namespace OpenWorkersRunner.Pool

open Option

open Drain (Kind Call CallAct)
open Parties

/-! ## Requests -/

structure Limits where
  workers : ℕ
  sockets : ℕ
  perWorker : ℕ
deriving DecidableEq

/-- `MIN_PRUNE_AT`. -/
def minPruneAt : ℕ := 1024

inductive Stage
  | waiting
  | refused
  | permitted (call : Call)
  | left (call : Call)
deriving DecidableEq

structure Request where
  worker : String
  limiter : ℕ
  stage : Stage
deriving DecidableEq

def handlerEnds : Call → Bool
  | .leaving false false | .spawned (.leaving false) _ => true
  | _ => false

namespace Request

def refers (r : Request) : Bool :=
  match r.stage with
  | .waiting | .permitted _ => true
  | .refused | .left _ => false

def isPermitted (r : Request) : Bool :=
  match r.stage with
  | .permitted _ => true
  | _ => false

def holds (kind : Kind) (r : Request) : ℕ :=
  match r.stage, kind with
  | .permitted call, .worker | .left call, .worker => call.workers
  | .permitted call, .socket | .left call, .socket => call.sockets
  | _, _ => 0

def outlives (r : Request) : Bool :=
  match r.stage with
  | .left call => call.workers != 0
  | _ => false

end Request

/-! ## The semaphores -/

structure State where
  semaphores : AList fun _ : String => ℕ
  pruneAt : ℕ
  made : ℕ
  requests : List Request
  others : Kind → ℕ

namespace State

def strongCount (s : State) (limiter : ℕ) : ℕ :=
  1 + total (fun r => (r.limiter == limiter && r.refers).toNat) s.requests

def taken (s : State) (limiter : ℕ) : ℕ :=
  total (fun r => (r.limiter == limiter && r.isPermitted).toNat) s.requests

def held (s : State) (worker : String) : ℕ :=
  total (fun r => if r.worker = worker then r.holds .worker else 0) s.requests

def outliving (s : State) (worker : String) : ℕ :=
  total (fun r => (r.worker == worker && r.outlives).toNat) s.requests

def free (limits : Limits) (s : State) (kind : Kind) : Bool :=
  total (Request.holds kind) s.requests + s.others kind < match kind with
    | .worker => limits.workers
    | .socket => limits.sockets

def prune (s : State) : State :=
  if s.semaphores.entries.length ≥ s.pruneAt then
    let semaphores := s.semaphores.retain fun _ limiter => s.strongCount limiter > 1
    { s with
      semaphores := semaphores
      pruneAt := max (semaphores.entries.length * 2) minPruneAt }
  else s

def getWorkerSemaphore (s : State) (worker : String) : State × ℕ :=
  match s.prune.semaphores.lookup worker with
  | some limiter => (s.prune, limiter)
  | none =>
    ({ s.prune with
        semaphores := s.prune.semaphores.insert worker s.prune.made
        made := s.prune.made + 1 },
      s.prune.made)

end State

/-! ## The machine -/

inductive RequestAct
  | permit
  | refuse
  | call (a : CallAct)
  | release
deriving DecidableEq

inductive Act
  | arrive (worker : String)
  | request (i : ℕ) (a : RequestAct)
  | other (kind : Kind) (takes : Bool)
deriving DecidableEq

namespace State

def stepRequest (limits : Limits) (s : State) (r : Request) : RequestAct → Option Stage
  | .permit =>
    if r.stage = .waiting ∧ s.taken r.limiter < limits.perWorker then
      some (.permitted (.checked false))
    else none
  | .refuse => if r.stage = .waiting then some .refused else none
  | .call a =>
    match r.stage with
    | .permitted call => (call.step (s.free limits) a).map .permitted
    | .left call => (call.step (s.free limits) a).map .left
    | _ => none
  | .release =>
    match r.stage with
    | .permitted call => if handlerEnds call then some (.left call) else none
    | _ => none

def step (limits : Limits) (s : State) : Act → Option State
  | .arrive worker =>
    let (t, limiter) := s.getWorkerSemaphore worker
    some { t with requests := t.requests ++ [⟨worker, limiter, .waiting⟩] }
  | .request i a =>
    s.requests[i]?.bind fun r =>
      (s.stepRequest limits r a).map fun stage =>
        { s with requests := s.requests.set i { r with stage := stage } }
  | .other kind true =>
    if s.free limits kind then
      some { s with others := Function.update s.others kind (s.others kind + 1) }
    else none
  | .other kind false =>
    if s.others kind = 0 then none
    else some { s with others := Function.update s.others kind (s.others kind - 1) }

end State

def machine (limits : Limits) : Machine State Act where
  init := ⟨∅, minPruneAt, 0, [], fun _ => 0⟩
  step := State.step limits

/-! ## What is kept -/

namespace State

variable {limits : Limits} {s t : State}

/-- A worker has one semaphore: whoever has an `Arc` of one finds it in the map.  And no semaphore
gives out more permits than it has. -/
structure Limited (limits : Limits) (s : State) : Prop where
  listed : ∀ r ∈ s.requests, r.refers = true → s.semaphores.lookup r.worker = some r.limiter
  bounded : ∀ limiter, s.taken limiter ≤ limits.perWorker

theorem lookup_prune {r : Request} (hr : r ∈ s.requests) (hrf : r.refers = true)
    (h : s.semaphores.lookup r.worker = some r.limiter) :
    s.prune.semaphores.lookup r.worker = some r.limiter := by
  rw [prune]
  split
  · refine AList.lookup_retain_eq_some.2 ⟨h, ?_⟩
    have hle := le_total (fun x : Request => (x.limiter == r.limiter && x.refers).toNat) hr
    simp only [beq_self_eq_true, Bool.true_and, hrf, Bool.toNat_true] at hle
    simp only [gt_iff_lt, decide_eq_true_eq, strongCount]
    omega
  · exact h

theorem requests_prune (s : State) : s.prune.requests = s.requests := by
  rw [prune]
  split <;> rfl

theorem requests_getWorkerSemaphore (s : State) (worker : String) :
    (s.getWorkerSemaphore worker).1.requests = s.requests := by
  rw [getWorkerSemaphore]
  split <;> exact s.requests_prune

theorem lookup_getWorkerSemaphore (s : State) (worker : String) :
    (s.getWorkerSemaphore worker).1.semaphores.lookup worker =
      some (s.getWorkerSemaphore worker).2 := by
  rw [getWorkerSemaphore]
  split
  · assumption
  · exact AList.lookup_insert _

theorem lookup_getWorkerSemaphore_of_refers {r : Request} (worker : String)
    (hr : r ∈ s.requests) (hrf : r.refers = true)
    (h : s.semaphores.lookup r.worker = some r.limiter) :
    (s.getWorkerSemaphore worker).1.semaphores.lookup r.worker = some r.limiter := by
  have hk := lookup_prune hr hrf h
  rw [getWorkerSemaphore]
  split
  · exact hk
  next hn =>
    have hne : r.worker ≠ worker := by
      rintro rfl
      rw [hn] at hk
      cases hk
    exact (AList.lookup_insert_ne hne).trans hk

/-- What a request can come to: it keeps its `Arc` or drops it, and gets a permit of its worker only
when one is free. -/
theorem stepRequest_eq {r : Request} {a : RequestAct} {stage : Stage}
    (h : s.stepRequest limits r a = some stage) :
    (Request.refers { r with stage := stage } = true → r.refers = true) ∧
      (Request.isPermitted { r with stage := stage } = true →
        r.isPermitted = true ∨ s.taken r.limiter < limits.perWorker) := by
  obtain ⟨worker, lim, before⟩ := r
  unfold stepRequest at h
  split at h
  · split at h
    next hf =>
      obtain ⟨rfl, hlt⟩ := hf
      exact ⟨fun _ => rfl, fun _ => .inr hlt⟩
    · cases h
  · split at h
    · cases h
      simp [Request.refers, Request.isPermitted]
    · cases h
  · split at h
    · obtain ⟨call, -, rfl⟩ := map_eq_some_iff.1 h
      rename_i hst
      obtain rfl := hst
      exact ⟨fun _ => rfl, fun _ => .inl rfl⟩
    · obtain ⟨call, -, rfl⟩ := map_eq_some_iff.1 h
      simp [Request.refers, Request.isPermitted]
    · cases h
  · split at h
    · split at h
      · cases h
        simp [Request.refers, Request.isPermitted]
      · cases h
    · cases h

namespace Limited

theorem arrive (hs : s.Limited limits) (worker : String) :
    Limited limits
      { (s.getWorkerSemaphore worker).1 with
        requests := (s.getWorkerSemaphore worker).1.requests ++
          [⟨worker, (s.getWorkerSemaphore worker).2, .waiting⟩] } := by
  rw [requests_getWorkerSemaphore]
  constructor
  · intro r hr hrf
    rcases List.mem_append.1 hr with hr | hr
    · exact lookup_getWorkerSemaphore_of_refers worker hr hrf (hs.listed r hr hrf)
    · obtain rfl := List.mem_singleton.1 hr
      exact s.lookup_getWorkerSemaphore worker
  · -- a request that waits has no permit
    intro lim
    have hbo := hs.bounded lim
    rw [taken] at hbo ⊢
    simpa [Request.isPermitted] using hbo

theorem request (hs : s.Limited limits) {i : ℕ} {r : Request} {a : RequestAct} {stage : Stage}
    (hr : s.requests[i]? = some r) (h : s.stepRequest limits r a = some stage) :
    Limited limits { s with requests := s.requests.set i { r with stage := stage } } := by
  obtain ⟨hrf, hp⟩ := stepRequest_eq h
  constructor
  · refine forall_mem_set hs.listed fun hst => ?_
    exact hs.listed r (List.mem_of_getElem? hr) (hrf hst)
  · intro lim
    have hbo := hs.bounded lim
    rw [taken] at hbo ⊢
    have hse := total_set (fun x : Request => (x.limiter == lim && x.isPermitted).toNat)
      (b := { r with stage := stage }) hr
    dsimp only at hse ⊢
    cases hn : Request.isPermitted { r with stage := stage } with
    | false =>
      rw [hn, Bool.and_false, Bool.toNat_false] at hse
      omega
    | true =>
      rcases hp hn with hold | hlt
      · rw [hn, hold] at hse
        omega
      · by_cases heq : r.limiter = lim
        · subst heq
          rw [taken] at hlt
          have hle := Bool.toNat_le (r.limiter == r.limiter && true)
          rw [hn] at hse
          omega
        · rw [beq_eq_false_iff_ne.2 heq, Bool.false_and, Bool.false_and] at hse
          omega

/-- **What a step keeps.** -/
theorem step {a : Act} (hs : s.Limited limits) (h : s.step limits a = some t) :
    t.Limited limits := by
  cases a with
  | arrive worker =>
    cases h
    exact hs.arrive worker
  | request i a =>
    obtain ⟨r, hr, h⟩ := bind_eq_some_iff.1 h
    obtain ⟨stage, hst, rfl⟩ := map_eq_some_iff.1 h
    exact hs.request hr hst
  | other kind takes =>
    cases takes with
    | true =>
      rw [State.step] at h
      split at h
      · cases h
        exact ⟨hs.listed, hs.bounded⟩
      · cases h
    | false =>
      rw [State.step] at h
      split at h
      · cases h
      · cases h
        exact ⟨hs.listed, hs.bounded⟩

end Limited

theorem limited_of_reach (hs : (machine limits).Reachable s) : s.Limited limits := by
  refine hs.invariant (I := Limited limits) ⟨?_, ?_⟩ fun _ _ _ _ hI _ h => hI.step h
  · intro r hr
    cases hr
  · exact fun _ => Nat.zero_le _

/-! ## The permits of one worker -/

/-- The requests of a worker that have a permit of it are within the limit: they all have it of one
semaphore. -/
theorem Limited.permitted_le (hs : s.Limited limits) (worker : String) :
    total (fun r : Request => (r.worker == worker && r.isPermitted).toNat) s.requests ≤
      limits.perWorker := by
  have hl : ∀ r ∈ s.requests, (r.worker == worker && r.isPermitted) = true →
      s.semaphores.lookup worker = some r.limiter := by
    intro r hr h
    rw [Bool.and_eq_true, beq_iff_eq] at h
    obtain ⟨rfl, hp⟩ := h
    refine hs.listed r hr ?_
    unfold Request.isPermitted at hp
    split at hp
    · rw [Request.refers, ‹r.stage = _›]
    · cases hp
  cases hlk : s.semaphores.lookup worker with
  | none =>
    rw [total_eq_zero]
    · exact Nat.zero_le _
    · intro r hr
      by_contra hne
      have := hl r hr (by simpa using hne)
      rw [hlk] at this
      cases this
  | some lim =>
    refine Nat.le_trans (total_le_total fun r hr => ?_) (hs.bounded lim)
    cases hr' : (r.worker == worker && r.isPermitted) with
    | false => exact Nat.zero_le _
    | true =>
      obtain rfl := some.inj (hlk.symm.trans (hl r hr hr'))
      rw [Bool.and_eq_true] at hr'
      rw [hr'.2, beq_self_eq_true]
      exact Nat.le_refl _

theorem workers_le_one (call : Call) : call.workers ≤ 1 := by
  cases call with
  | checked => exact Nat.zero_le 1
  | admitted | failed => exact Nat.le_refl 1
  | leaving slot upgrade => exact Bool.toNat_le slot
  | spawned handler task =>
    rw [Drain.Call.workers]
    unfold Drain.Task.workers
    split
    · exact Nat.le_refl 1
    · exact Nat.zero_le 1

/-- A permit of all workers comes with the permit of the worker, or its task has outlived the
handler. -/
theorem holds_le (r : Request) : r.holds .worker ≤ r.isPermitted.toNat + r.outlives.toNat := by
  obtain ⟨worker, lim, stage⟩ := r
  cases stage with
  | waiting | refused => exact Nat.zero_le _
  | permitted call => exact workers_le_one call
  | left call =>
    change call.workers ≤ 0 + (call.workers != 0).toNat
    rcases Nat.le_one_iff_eq_zero_or_eq_one.1 (workers_le_one call) with h | h <;>
      rw [h] <;> decide

/-- **What a worker can hold**: its limit, and a permit for each task that outlived its handler. -/
theorem held_le (hs : (machine limits).Reachable s) (worker : String) :
    s.held worker ≤ limits.perWorker + s.outliving worker := by
  have hp := (limited_of_reach hs).permitted_le worker
  have hle : s.held worker ≤ total (fun r : Request => (r.worker == worker && r.isPermitted).toNat +
      (r.worker == worker && r.outlives).toNat) s.requests := by
    refine total_le_total fun r _ => ?_
    by_cases hw : r.worker = worker
    · rw [if_pos hw, hw, beq_self_eq_true, Bool.true_and, Bool.true_and]
      exact holds_le r
    · rw [if_neg hw]
      exact Nat.zero_le _
  rw [total_add] at hle
  exact Nat.le_trans hle (Nat.add_le_add_right hp _)

end State

/-- **A worker is within its limit** as long as no task of it that has a permit has outlived its
handler. -/
theorem permits_bounded (limits : Limits) (worker : String) {s : State}
    (hs : (machine limits).Reachable s)
    (h : ∀ r ∈ s.requests, r.worker = worker → r.outlives = false) :
    s.held worker ≤ limits.perWorker := by
  have hle := State.held_le hs worker
  have hzero : s.outliving worker = 0 := by
    refine total_eq_zero fun r hr => ?_
    by_cases hw : r.worker = worker
    · rw [h r hr hw, Bool.and_false]
      rfl
    · rw [beq_eq_false_iff_ne.2 hw]
      rfl
  rwa [hzero] at hle

def started (worker : String) (i : ℕ) : List Act :=
  [.arrive worker, .request i .permit, .request i (.call .acquire),
    .request i (.call (.runFetch true))]

theorem permits_bounded_waiting :
    ∃ s, (machine ⟨2, 0, 1⟩).Reachable s ∧ s.held "a" = 1 ∧ s.held "a" ≤ 1 := by
  obtain ⟨s, hs, hp⟩ := (machine ⟨2, 0, 1⟩).exists_of_run
    (started "a" 0 ++ [Act.arrive "a"] ++ started "b" 2)
    (fun s => s.held "a" == 1 && s.requests.all fun r => !r.outlives)
    (by decide)
  rw [Bool.and_eq_true, beq_iff_eq] at hp
  refine ⟨s, hs, hp.1, permits_bounded ⟨2, 0, 1⟩ "a" hs fun r hr _ => ?_⟩
  simpa using List.all_eq_true.1 hp.2 r hr

/-- **A worker holds more than its limit**: its first task has answered, and goes on. -/
theorem permits_unbounded : ¬ ∀ (limits : Limits) (worker : String) (s : State),
    (machine limits).Reachable s → s.held worker ≤ limits.perWorker := by
  intro h
  obtain ⟨s, hs, hp⟩ := (machine ⟨2, 0, 1⟩).exists_of_run
    (started "a" 0 ++ [Act.request 0 (.call .leave), .request 0 .release] ++ started "a" 1)
    (fun s => s.held "a" = 2) (by decide)
  have hle := h ⟨2, 0, 1⟩ "a" s hs
  rw [hp] at hle
  exact absurd hle (by decide)

/-! ## Pruning -/

namespace State

variable {limits : Limits} {s t : State}

structure Distinct (s : State) : Prop where
  made : ∀ {w l}, s.semaphores.lookup w = some l → l < s.made
  inj : ∀ {w w' l}, s.semaphores.lookup w = some l → s.semaphores.lookup w' = some l → w = w'

theorem lookup_of_lookup_prune {w : String} {l : ℕ}
    (h : s.prune.semaphores.lookup w = some l) : s.semaphores.lookup w = some l := by
  rw [prune] at h
  split at h
  · exact (AList.lookup_retain_eq_some.1 h).1
  · exact h

theorem made_prune (s : State) : s.prune.made = s.made := by
  rw [prune]
  split <;> rfl

theorem Distinct.getWorkerSemaphore (hs : s.Distinct) (worker : String) :
    (s.getWorkerSemaphore worker).1.Distinct := by
  have hm : ∀ {w l}, s.prune.semaphores.lookup w = some l → l < s.prune.made := by
    intro w l h
    rw [made_prune]
    exact hs.made (lookup_of_lookup_prune h)
  have hin : ∀ {w w' l}, s.prune.semaphores.lookup w = some l →
      s.prune.semaphores.lookup w' = some l → w = w' :=
    fun h h' => hs.inj (lookup_of_lookup_prune h) (lookup_of_lookup_prune h')
  rw [State.getWorkerSemaphore]
  split
  · exact ⟨hm, hin⟩
  · refine ⟨fun {w l} h => ?_, fun {w w' l} h h' => ?_⟩
    · by_cases hw : w = worker
      · subst hw
        rw [AList.lookup_insert] at h
        cases h
        exact Nat.lt_succ_self _
      · rw [AList.lookup_insert_ne hw] at h
        exact Nat.lt_succ_of_lt (hm h)
    · by_cases hw : w = worker <;> by_cases hw' : w' = worker
      · rw [hw, hw']
      · subst hw
        rw [AList.lookup_insert] at h
        rw [AList.lookup_insert_ne hw'] at h'
        cases h
        exact absurd (hm h') (Nat.lt_irrefl _)
      · subst hw'
        rw [AList.lookup_insert] at h'
        rw [AList.lookup_insert_ne hw] at h
        cases h'
        exact absurd (hm h) (Nat.lt_irrefl _)
      · rw [AList.lookup_insert_ne hw] at h
        rw [AList.lookup_insert_ne hw'] at h'
        exact hin h h'

theorem Distinct.step {a : Act} (hs : s.Distinct) (h : s.step limits a = some t) :
    t.Distinct := by
  cases a with
  | arrive worker =>
    cases h
    exact ⟨(hs.getWorkerSemaphore worker).made, (hs.getWorkerSemaphore worker).inj⟩
  | request i a =>
    obtain ⟨r, -, h⟩ := bind_eq_some_iff.1 h
    obtain ⟨stage, -, rfl⟩ := map_eq_some_iff.1 h
    exact ⟨hs.made, hs.inj⟩
  | other kind takes =>
    cases takes <;> rw [State.step] at h <;> split at h <;> cases h <;> exact ⟨hs.made, hs.inj⟩

theorem distinct_of_reach (hs : (machine limits).Reachable s) : s.Distinct := by
  refine hs.invariant (I := Distinct) ⟨?_, ?_⟩ fun _ _ _ _ hI _ h => hI.step h
  · intro w l h
    cases h
  · intro w w' l h
    cases h

theorem exists_of_strongCount {limiter : ℕ} (h : s.strongCount limiter > 1) :
    ∃ r ∈ s.requests, r.refers = true ∧ r.limiter = limiter := by
  by_contra hn
  have hz :
      total (fun r : Request => (r.limiter == limiter && r.refers).toNat) s.requests = 0 := by
    refine total_eq_zero fun r hr => ?_
    by_contra hne
    have ht : (r.limiter == limiter && r.refers) = true := by simpa using hne
    rw [Bool.and_eq_true, beq_iff_eq] at ht
    exact hn ⟨r, hr, ht.2, ht.1⟩
  rw [strongCount, hz] at h
  exact absurd h (Nat.lt_irrefl _)

end State

/-- **Semaphores survive pruning**: a worker has no more permits out than its limit, whoever has an
`Arc` of a semaphore finds it in the map, and a call that prunes leaves those and its own. -/
theorem worker_semaphores_survive (limits : Limits) (worker : String) {s : State}
    (hs : (machine limits).Reachable s) :
    total (fun r : Request => (r.worker == worker && r.isPermitted).toNat) s.requests ≤
        limits.perWorker ∧
      (∀ r ∈ s.requests, r.refers = true → s.semaphores.lookup r.worker = some r.limiter) ∧
      (s.pruneAt ≤ s.semaphores.entries.length → ∀ w l,
        (s.getWorkerSemaphore worker).1.semaphores.lookup w = some l ↔
          w = worker ∧ l = (s.getWorkerSemaphore worker).2 ∨
            ∃ r ∈ s.requests, r.refers = true ∧ r.worker = w ∧ r.limiter = l) := by
  have hlim := State.limited_of_reach hs
  have hdist := State.distinct_of_reach hs
  refine ⟨hlim.permitted_le worker, hlim.listed, fun hprun w l => ⟨fun h => ?_, ?_⟩⟩
  · by_cases hw : w = worker
    · subst hw
      exact .inl ⟨rfl, Option.mem_unique h (s.lookup_getWorkerSemaphore w)⟩
    · right
      have hkept : s.prune.semaphores.lookup w = some l := by
        rw [State.getWorkerSemaphore] at h
        split at h
        · exact h
        · exact (AList.lookup_insert_ne hw).symm.trans h
      rw [State.prune, if_pos hprun] at hkept
      obtain ⟨hlk, hcount⟩ := AList.lookup_retain_eq_some.1 hkept
      obtain ⟨r, hr, hrf, rfl⟩ := State.exists_of_strongCount (of_decide_eq_true hcount)
      exact ⟨r, hr, hrf, hdist.inj (hlim.listed r hr hrf) hlk, rfl⟩
  · rintro (⟨rfl, rfl⟩ | ⟨r, hr, hrf, rfl, rfl⟩)
    · exact s.lookup_getWorkerSemaphore w
    · exact State.lookup_getWorkerSemaphore_of_refers worker hr hrf
        (hlim.listed r hr hrf)

theorem worker_semaphores_survive_waiting :
    ∃ s, (machine ⟨2, 0, 1⟩).Reachable s ∧ s.requests.length = 4 ∧
      total (fun r : Request => (r.worker == "a" && r.isPermitted).toNat) s.requests ≤ 1 := by
  obtain ⟨s, hs, hp⟩ := (machine ⟨2, 0, 1⟩).exists_of_run
    (started "a" 0 ++ [Act.arrive "a", .arrive "b", .request 1 .refuse, .arrive "b"])
    (fun s => s.requests.length = 4) (by decide)
  exact ⟨s, hs, hp, (worker_semaphores_survive ⟨2, 0, 1⟩ "a" hs).1⟩

end OpenWorkersRunner.Pool
