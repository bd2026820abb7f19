import OpenWorkersRunner.ResolveCache.CacheStep
import OpenWorkersRunner.Store.Bindings

/-!
# The resolve cache: what a failed query leaves in it

`worker` keeps what `get_worker_meta` gives it, and `get_worker_meta` does not tell a query that
failed from one that found nothing.  So a failure that takes a binding away is kept until the entry
expires.
-/

namespace OpenWorkersRunner.ResolveCache

open Option Store

variable (resolver : Resolver) (tables : Tables)

/-! ## The invariant -/

/-- What a lookup has found is right: a worker has the variables and bindings of the database. -/
def Want.Right : Want → Found → Prop
  | .worker id, .worker m => tables.Exact resolver id m
  | .resolution _ _ _ _, .resolution _ _ => True
  | _, _ => False

def Want.Allows (want : Want) (q : Query) (answer : q.Answer) : Prop :=
  match want with
  | .worker _ => tables.Harmlessly resolver q answer
  | .resolution _ _ _ _ => True

def Want.RightWorker (want : Want) (worker : Option WorkerWithBindings) : Prop :=
  ∀ id w, want = .worker id → worker = some w → tables.Exact resolver id w.toWorkerMeta

def Phase.Right (want : Want) : Phase → Prop
  | .reading _ rest => rest.Ends (want.Allows resolver tables)
      fun r => ∀ found, r = .ok (some found) → want.Right resolver tables found
  | .read _ found | .locked _ found | .armed _ found | .checked _ found =>
    want.Right resolver tables found
  | .known m | .codeless m => want.Right resolver tables (.worker m)
  | .coding rest => rest.Ends (fun _ _ => True) (want.RightWorker resolver tables)
  | .answered (.worker worker) => want.RightWorker resolver tables worker
  | _ => True

/-- The database does not change, and a query for a worker fails only where it would find
nothing. -/
def State.Unharmed (s : State) : Act → Prop
  | .lookup i (.query (some _)) => ∀ l id generation q next, s.lookups i = some l →
      l.want = .worker id → l.phase = .reading generation (.ask q next) → tables.Harmless resolver q
  | .change _ => False
  | _ => True

structure State.Right (s : State) : Prop where
  tables_eq : s.tables = tables
  entries : ∀ id entry, (id, entry) ∈ s.cache.workers.entries → tables.Exact resolver id entry.value
  lookups : ∀ i l, s.lookups i = some l → l.phase.Right resolver tables l.want

variable {resolver tables}

theorem State.right_start : (State.start tables).Right resolver tables where
  tables_eq := rfl
  entries _ _ h := absurd h (Lru.not_mem_empty _)
  lookups := by simp [start]

/-! ## Programs -/

theorem Want.read_right (want : Want) :
    want.read.Ends (want.Allows resolver tables)
      fun r => ∀ found, r = .ok (some found) → want.Right resolver tables found := by
  cases want with
  | resolution host wid workerName path =>
    intro ans _ found hf
    cases hv : resolutionFrom ans with
    | error err => simp [hv, Except.map] at hf
    | ok val =>
      simp only [hv, Except.map, Except.ok.injEq, some_inj] at hf
      subst hf
      trivial
  | worker id =>
    refine (Prog.ends_bind _ _).2 ((Tables.getWorkerMeta_exact id).mono ?_)
    intro r hr found hf
    obtain ⟨m, hm, rfl⟩ := map_eq_some_iff.1 (Except.ok.inj hf)
    exact hr m hm

theorem withCode_right {want : Want} {m : WorkerMeta} (entry : Option (List UInt8))
    (h : want.Right resolver tables (.worker m)) :
    (m.withCode entry).Ends (fun _ _ => True) (want.RightWorker resolver tables) := by
  unfold WorkerMeta.withCode
  split
  · rintro id w rfl ⟨⟩
    exact h
  · intro ans _ id w hwa hw
    obtain ⟨code, -, rfl⟩ := map_eq_some_iff.1 hw
    subst hwa
    exact h

/-! ## Steps -/

theorem Found.right_next {want : Want} {found : Found} (h : want.Right resolver tables found) :
    found.next.Right resolver tables want := by
  cases found with
  | resolution key val => trivial
  | worker m => exact h

theorem Lookup.Step.right {s : State} {i : Nat} {l l' : Lookup} {a : LookupAct} {cache : Cache}
    {lock : Option Nat} (hs : s.Right resolver tables) (hl : s.lookups i = some l)
    (hu : s.Unharmed resolver tables (.lookup i a))
    (h : l.Step resolver s i a l' cache lock) : l'.phase.Right resolver tables l'.want := by
  have hri := hs.lookups i l hl
  cases h with
  | @hit gen found stamp now hp hf hlo =>
    refine Found.right_next ?_
    cases hwa : l.want with
    | worker id =>
      rw [hwa] at hlo
      obtain ⟨entry, hen, rfl⟩ := Cache.look_worker_mem hlo
      exact hs.entries id entry hen
    | resolution host wid workerName path =>
      rw [hwa] at hlo
      obtain ⟨key, val, rfl⟩ := Cache.look_resolution hlo
      trivial
  | acquires hp => exact l.want.read_right
  | asks failure hp =>
    rw [hp] at hri
    refine hri _ ?_
    unfold Want.Allows
    split
    case h_2 => trivial
    case h_1 id hwa =>
      cases failure with
      | none => exact .inl (by rw [hs.tables_eq]; rfl)
      | some err => exact .inr ⟨⟨err, rfl⟩, hu l id _ _ _ hl hwa hp⟩
  | reads hp =>
    rw [hp] at hri
    exact hri _ rfl
  | nobody hp => exact fun id w _ hw => nomatch hw
  | locks hp | arms hp | checks hp | uncached entry hp =>
    rw [hp] at hri
    exact hri
  | notOn hp | notSame hp | puts now hp =>
    rw [hp] at hri
    exact Found.right_next hri
  | cached entry hp hco =>
    rw [hp] at hri
    rintro id w hwa ⟨⟩
    rw [hwa] at hri
    exact hri
  | connects ok entry hp =>
    rw [hp] at hri
    exact withCode_right entry hri
  | fetches failure hp =>
    rw [hp] at hri
    exact hri _ trivial
  | answers hp =>
    rw [hp] at hri
    exact hri
  | off | on | begins | miss | ends => trivial

variable {s : State}

theorem Lookup.Step.workers {i : Nat} {l l' : Lookup} {a : LookupAct} {cache : Cache}
    {lock : Option Nat} (hri : l.phase.Right resolver tables l.want)
    (h : l.Step resolver s i a l' cache lock) {id : String} {entry : Entry WorkerMeta}
    (hen : (id, entry) ∈ cache.workers.entries) :
    (id, entry) ∈ s.cache.workers.entries ∨ tables.Exact resolver id entry.value := by
  cases h with
  | hit now | miss now => exact .inl ((Cache.look_within _ _ _).workers _ hen)
  | puts now hp =>
    refine (Cache.workers_put hen).symm.imp_right ?_
    rintro ⟨rfl, rfl⟩
    rw [hp] at hri
    cases hw : l.want with
    | worker id =>
      rw [hw] at hri
      -- the worker that was asked for is the one that was found
      have hid : entry.value.id = id := hri.1
      rw [hid]
      exact hri
    | resolution => rw [hw] at hri; exact hri.elim
  | _ => exact .inl hen

theorem State.Right.step {t : State} {a : Act} (hs : s.Right resolver tables)
    (hu : s.Unharmed resolver tables a) (h : s.Step resolver a t) :
    t.Right resolver tables := by
  cases h with
  | call want =>
    refine ⟨hs.tables_eq, hs.entries, fun i l hl => ?_⟩
    rcases update_some_eq_some hl with ⟨rfl, rfl⟩ | ⟨-, hl⟩
    · trivial
    · exact hs.lookups i l hl
  | lookup hl h =>
    refine ⟨hs.tables_eq, fun id entry hen => ?_, fun k lk hk => ?_⟩
    · exact (h.workers (hs.lookups _ _ hl) hen).elim (hs.entries id entry) fun hex => hex
    · rcases update_some_eq_some hk with ⟨rfl, rfl⟩ | ⟨-, hk⟩
      · exact h.right hs hl hu
      · exact hs.lookups k lk hk
  | clear =>
    exact ⟨hs.tables_eq, fun _ _ hen => absurd hen (Lru.not_mem_empty _), hs.lookups⟩
  | listen h => cases h <;> exact ⟨hs.tables_eq, hs.entries, hs.lookups⟩
  | invalidate | ret => exact ⟨hs.tables_eq, hs.entries, hs.lookups⟩
  | change => exact hu.elim

/-- **A read gives a worker its variables and bindings exactly if the queries that failed would have
found nothing; and in every run in which only such queries fail, the workers that are kept and
returned have theirs.** -/
theorem worker_reads_exact (resolver : Resolver) (tables : Tables) :
    (∀ (failures : Nat → Option SqlxError) (id : String),
      (∀ m, tables.read resolver failures (.id id) = some m → tables.Exact resolver id m) ↔
        ∀ x ∈ (getWorkerMeta (.id id)).asked (tables.reply resolver failures) 0,
          (failures x.1).isSome = true → tables.Harmless resolver x.2) ∧
    ∀ s, (machine resolver tables).Reach (State.Unharmed resolver tables) s →
      (∀ id entry, (id, entry) ∈ s.cache.workers.entries → tables.Exact resolver id entry.value) ∧
      ∀ i l id w, s.lookups i = some l → l.want = .worker id →
        l.phase = .answered (.worker (some w)) → tables.Exact resolver id w.toWorkerMeta := by
  refine ⟨read_exact_iff resolver tables, fun s hs => ?_⟩
  have hri : s.Right resolver tables := hs.invariant State.right_start
    fun _ _ _ _ hs hunh h => hs.step hunh (State.step_eq h)
  refine ⟨hri.entries, fun i l id w hl hwant hph => ?_⟩
  have hl := hri.lookups i l hl
  rw [hph] at hl
  exact hl id w hwant rfl

def State.unharmedNow (s : State) : Act → Bool
  | .lookup i (.query (some _)) => (s.lookups i).all fun l =>
    match l.phase with
    | .reading _ (.ask (.worker _) _) => true
    | _ => false
  | .change _ => false
  | _ => true

theorem State.unharmed_of_unharmedNow {a : Act} (h : s.unharmedNow a = true) :
    s.Unharmed resolver tables a := by
  unfold unharmedNow at h
  split at h
  · intro l id gen q next hl _ hp
    simp only [hl, all_some, hp] at h
    split at h
    next heq =>
      cases heq
      trivial
    · cases h
  · cases h
  · unfold Unharmed
    split <;> simp_all

def readWorker (i : Nat) (worker bindings binding : Option SqlxError) : List Act :=
  [.loadEnabled, .loadGeneration, .look 0, .acquire true, .query worker, .query bindings,
    .query binding, .finish].map (.lookup i)

def storeWorker (i : Nat) : List Act :=
  [.lock, .stillEnabled, .stillGeneration, .put 0, .code (some [])].map (.lookup i)

def Phase.answer : Phase → Option WorkerWithBindings
  | .answered (.worker worker) => worker
  | _ => none

theorem Phase.eq_of_answer {p : Phase} {w : WorkerWithBindings} (h : p.answer = some w) :
    p = .answered (.worker (some w)) := by
  unfold Phase.answer at h
  split at h
  · rw [h]
  · cases h

theorem worker_reads_exact_storage : ∃ (s : State) (l : Lookup) (w : WorkerWithBindings),
    (machine (fun _ _ _ _ _ => .error .rowNotFound) foreignStorage).Reach
        (State.Unharmed (fun _ _ _ _ _ => .error .rowNotFound) foreignStorage) s ∧
      s.lookups 0 = some l ∧ l.phase = .answered (.worker (some w)) ∧ w.bindings.length = 1 ∧
      foreignStorage.Exact (fun _ _ _ _ _ => .error .rowNotFound) "w" w.toWorkerMeta := by
  obtain ⟨s, hs, hp⟩ := Machine.exists_reach_of_runIf
    (M := machine (fun _ _ _ _ _ => .error .rowNotFound) foreignStorage) State.unharmedNow
    (fun _ _ _ => State.unharmed_of_unharmedNow)
    (turnOn ++ Act.call (.worker "w") :: readWorker 0 none none none ++ storeWorker 0)
    (fun s => (s.lookups 0).any fun l => l.want == .worker "w" &&
      l.phase.answer.any fun w => w.bindings.length == 1) (by decide)
  obtain ⟨l, hl, hp⟩ := (any_eq_true _ _).1 hp
  rw [Bool.and_eq_true, beq_iff_eq] at hp
  obtain ⟨hwant, hp⟩ := hp
  obtain ⟨w, hw, hlen⟩ := (any_eq_true _ _).1 hp
  have hph := Phase.eq_of_answer hw
  exact ⟨s, l, w, hs, hl, hph, by simpa using hlen,
    ((worker_reads_exact _ _).2 s hs).2 0 l "w" w hl hwant hph⟩

theorem worker_without_binding : ¬ ∀ (resolver : Resolver) (tables : Tables) (s : State),
    (machine resolver tables).Reach (fun _ a => ∀ tables', a ≠ .change tables') s →
      ∀ id entry, (id, entry) ∈ s.cache.workers.entries → tables.Exact resolver id entry.value := by
  intro h
  have hsame (s : State) (a : Act) (_ : (machine (fun _ _ _ _ _ => .error .rowNotFound)
      foreignStorage).Reach (fun _ a => ∀ tables', a ≠ .change tables') s)
      (ha : (match a with | .change _ => false | _ => true) = true) :
      ∀ tables', a ≠ .change tables' := by
    rintro tables' rfl
    cases ha
  obtain ⟨s, hs, hp⟩ := Machine.exists_reach_of_runIf
    (fun _ a => match a with | .change _ => false | _ => true) hsame
    (turnOn ++ .call (.worker "w") ::
      ([.loadEnabled, .loadGeneration, .look 0, .acquire true, .query none, .query (some .other),
        .finish].map (.lookup 0) ++ storeWorker 0))
    (fun s => s.cache.workers.entries.any fun e => e.1 == "w" && e.2.value.bindings.isEmpty)
    (by decide)
  obtain ⟨⟨id, entry⟩, hentry, hp⟩ := List.any_eq_true.1 hp
  rw [Bool.and_eq_true, beq_iff_eq, List.isEmpty_iff] at hp
  obtain ⟨rfl, hempty⟩ := hp
  obtain ⟨-, e, he, -, hbind⟩ := h _ _ s hs _ entry hentry
  have hone : (foreignStorage.workerMeta (fun _ _ _ _ _ => .error .rowNotFound) (.id "w")).map
      (fun m => m.bindings.length) = some 1 := by decide
  rw [he, map_some, ← hbind, hempty] at hone
  cases hone

end OpenWorkersRunner.ResolveCache
