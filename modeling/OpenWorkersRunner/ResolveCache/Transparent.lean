import OpenWorkersRunner.ResolveCache.CacheStep

/-!
# The resolve cache: what `resolve` returns is what the database says

A resolution is stored for every path if it is that of a standalone worker, and for its own path
otherwise, and a lookup asks for every path first.  So one answer in the wrong class would send
every path of a project to one worker.
-/

namespace OpenWorkersRunner.ResolveCache

open Option Store

variable (resolver : Resolver) (tables : Tables)

def resolved (host workerId workerName : Option String) (path : String) :
    Except SqlxError (Option RequestResolution) :=
  resolutionFrom (resolver tables host workerId workerName path)

def standalone (r : RequestResolution) : Bool := r.projectId.isNone && r.workerId.isSome

def PathFree : Prop :=
  ∀ host workerId workerName path r,
    resolved resolver tables host workerId workerName path = .ok (some r) → standalone r = true →
      ∀ path', resolved resolver tables host workerId workerName path' = .ok (some r)

def Key.Says (key : Key) (value : Option RequestResolution) : Prop :=
  ∀ path, key.path = none ∨ key.path = some path →
    resolved resolver tables key.host key.workerId key.workerName path = .ok value

variable (fails : SqlxError → Prop)

def Want.Says : Want → Found → Prop
  | .resolution host workerId workerName path, .resolution key value =>
    key = ⟨host, workerId, workerName, some path⟩ ∧
      resolved resolver tables host workerId workerName path = .ok value
  | .worker _, .worker _ => True
  | _, _ => False

def Want.Reads (want : Want) : Except SqlxError (Option Found) → Prop
  | .ok none => True
  | .ok (some found) => want.Says resolver tables found
  | .error err =>
    match want with
    | .resolution host workerId workerName path =>
      resolved resolver tables host workerId workerName path = .error err ∨ fails err
    | .worker _ => True

def Answers (q : Query) (answer : q.Answer) : Prop :=
  answer = tables.answer resolver q ∨ ∃ err, fails err ∧ answer = .error err

def Phase.Says (want : Want) : Phase → Prop
  | .reading _ rest => rest.Ends (Answers resolver tables fails) (want.Reads resolver tables fails)
  | .read _ found | .locked _ found | .armed _ found | .checked _ found =>
    want.Says resolver tables found
  | .answered (.resolution value) => ∀ host workerId workerName path,
      want = .resolution host workerId workerName path →
        resolved resolver tables host workerId workerName path = .ok value
  | _ => True

def Steady : Act → Prop
  | .change _ => False
  | .lookup _ (.query (some err)) => fails err
  | _ => True

structure State.Says (s : State) : Prop where
  tables_eq : s.tables = tables
  entries : ∀ key entry, (key, entry) ∈ s.cache.resolutions.entries →
    key.Says resolver tables entry.value
  lookups : ∀ i l, s.lookups i = some l → l.phase.Says resolver tables fails l.want

variable {resolver tables fails}

/-! ## Reading and finding -/

theorem Want.read_says (hfl : ∀ err, fails err → resolutionFrom (.error err) = .error err)
    (want : Want) :
    want.read.Ends (Answers resolver tables fails) (want.Reads resolver tables fails) := by
  cases want with
  | resolution host wid workerName path =>
    rintro ans (rfl | ⟨err, hf, rfl⟩)
    · show Want.Reads resolver tables fails _
        ((resolved resolver tables host wid workerName path).map _)
      cases hv : resolved resolver tables host wid workerName path with
      | error err => exact .inl hv
      | ok val => exact ⟨rfl, hv⟩
    · show Want.Reads resolver tables fails _ ((resolutionFrom (.error err)).map _)
      rw [hfl err hf]
      exact .inr hf
  | worker id =>
    refine (Prog.ends_bind _ _).2 (Prog.ends_of_forall (fun m => ?_) _)
    cases m <;> trivial

variable {s : State}

theorem State.Says.look (hs : s.Says resolver tables fails)
    {host wid workerName : Option String} {path : String} {now : Nat}
    {entry : Entry (Option RequestResolution)}
    (h : (s.cache.resolution ⟨host, wid, workerName, some path⟩ now).1 = some entry) :
    resolved resolver tables host wid workerName path = .ok entry.value := by
  obtain ⟨key, hk, hm⟩ := Cache.resolution_mem h
  rcases hk with rfl | rfl
  · exact hs.entries _ entry hm path (.inl rfl)
  · exact hs.entries _ entry hm path (.inr rfl)

theorem Found.says_next {want : Want} {found : Found} (h : want.Says resolver tables found) :
    found.next.Says resolver tables fails want := by
  cases found with
  | worker m => trivial
  | resolution key val =>
    rintro host wid workerName path rfl
    exact h.2

theorem says_put (hp : PathFree resolver tables) {host wid workerName : Option String}
    {path : String} {value : Option RequestResolution}
    (h : resolved resolver tables host wid workerName path = .ok value) :
    Key.Says resolver tables
      (if value.any standalone then ⟨host, wid, workerName, none⟩
        else ⟨host, wid, workerName, some path⟩) value := by
  split
  next ha =>
    obtain ⟨r, rfl, hr⟩ := (any_eq_true _ _).1 ha
    exact fun path' _ => hp host wid workerName path r h hr path'
  · rintro path' (hn | hso)
    · cases hn
    · cases hso
      exact h

/-! ## Steps -/

theorem Lookup.Step.says (hfl : ∀ err, fails err → resolutionFrom (.error err) = .error err)
    {i : Nat} {l l' : Lookup} {a : LookupAct} {cache : Cache} {lock : Option Nat}
    (hs : s.Says resolver tables fails) (hl : s.lookups i = some l)
    (hst : Steady fails (.lookup i a)) (h : l.Step resolver s i a l' cache lock) :
    l'.phase.Says resolver tables fails l'.want := by
  have ha := hs.lookups i l hl
  cases h with
  | @hit gen found stamp now hp hf hlo =>
    cases hw : l.want with
    | worker id =>
      rw [hw] at hlo
      obtain ⟨entry, -, rfl⟩ := Cache.look_worker_mem hlo
      trivial
    | resolution host wid workerName path =>
      rw [hw] at hlo
      obtain ⟨entry, hen, heq⟩ := map_eq_some_iff.1 hlo
      cases heq
      have hfn : Want.Says resolver tables (.resolution host wid workerName path)
          (.resolution ⟨host, wid, workerName, some path⟩ entry.value) :=
        ⟨rfl, hs.look hen⟩
      exact Found.says_next hfn
  | acquires hp => exact l.want.read_says hfl
  | asks failure hp =>
    rw [hp] at ha
    refine ha _ ?_
    cases failure with
    | none => exact .inl (by rw [hs.tables_eq]; rfl)
    | some err => exact .inr ⟨err, hst, rfl⟩
  | reads hp | locks hp | arms hp | checks hp =>
    rw [hp] at ha
    exact ha
  | notOn hp | notSame hp | puts now hp =>
    rw [hp] at ha
    exact Found.says_next ha
  | off | on | begins | miss | nobody | cached | uncached | connects | fetches | answers | ends =>
    trivial

theorem Lookup.Step.resolutions (hpa : PathFree resolver tables) {i : Nat} {l l' : Lookup}
    {a : LookupAct} {cache : Cache} {lock : Option Nat}
    (ha : l.phase.Says resolver tables fails l.want) (h : l.Step resolver s i a l' cache lock)
    {key : Key} {entry : Entry (Option RequestResolution)}
    (hen : (key, entry) ∈ cache.resolutions.entries) :
    (key, entry) ∈ s.cache.resolutions.entries ∨ key.Says resolver tables entry.value := by
  cases h with
  | hit now | miss now => exact .inl ((Cache.look_within _ _ _).resolutions _ hen)
  | @puts gen found now hp =>
    rw [hp] at ha
    cases found with
    | worker m => exact .inl hen
    | resolution key' val =>
      rcases Lru.mem_of_mem_put hen with heq | hen
      · cases heq
        cases hw : l.want with
        | worker id => rw [hw] at ha; exact ha.elim
        | resolution host wid workerName path =>
          rw [hw] at ha
          obtain ⟨rfl, hv⟩ := ha
          exact .inr (says_put hpa hv)
      · exact .inl hen
  | _ => exact .inl hen

theorem State.Says.step (hf : ∀ err, fails err → resolutionFrom (.error err) = .error err)
    (hp : PathFree resolver tables) {t : State} {a : Act} (hs : s.Says resolver tables fails)
    (hst : Steady fails a) (h : s.Step resolver a t) : t.Says resolver tables fails := by
  cases h with
  | call want =>
    refine ⟨hs.tables_eq, hs.entries, fun i l hl => ?_⟩
    rcases update_some_eq_some hl with ⟨rfl, rfl⟩ | ⟨-, hl⟩
    · trivial
    · exact hs.lookups i l hl
  | lookup hl h =>
    refine ⟨hs.tables_eq, fun key entry hen => ?_, fun k lk hk => ?_⟩
    · exact (h.resolutions hp (hs.lookups _ _ hl) hen).elim (hs.entries key entry)
        fun ha => ha
    · rcases update_some_eq_some hk with ⟨rfl, rfl⟩ | ⟨-, hk⟩
      · exact h.says hf hs hl hst
      · exact hs.lookups k lk hk
  | clear =>
    exact ⟨hs.tables_eq, fun _ _ hen => absurd hen (Lru.not_mem_empty _), hs.lookups⟩
  | listen h => cases h <;> exact ⟨hs.tables_eq, hs.entries, hs.lookups⟩
  | invalidate | ret => exact ⟨hs.tables_eq, hs.entries, hs.lookups⟩
  | change => exact hst.elim

/-- **The cache is transparent.**  Queries may fail with errors that say nothing about the request
(`fails`).  While the database does not change, a call of `resolve` that returns a value returns
the resolver's, one that returns an error returns the resolver's or that of a failure, and what the
cache has for a request, under either key, is the resolver's answer. -/
theorem resolve_transparent (resolver : Resolver) (tables : Tables)
    (hpath : PathFree resolver tables) (fails : SqlxError → Prop)
    (hfails : ∀ err, fails err → resolutionFrom (.error err) = .error err) {s : State}
    (hs : (machine resolver tables).Reach (fun _ a => Steady fails a) s)
    (host workerId workerName : Option String) (path : String) :
    (∀ i l, s.lookups i = some l → l.want = .resolution host workerId workerName path →
      (∀ value, l.phase = .answered (.resolution value) →
        resolved resolver tables host workerId workerName path = .ok value) ∧
      ∀ generation err, l.phase = .reading generation (.done (.error err)) →
        resolved resolver tables host workerId workerName path = .error err ∨ fails err) ∧
    ∀ now entry, (s.cache.resolution ⟨host, workerId, workerName, some path⟩ now).1 = some entry →
      resolved resolver tables host workerId workerName path = .ok entry.value := by
  have hans : s.Says resolver tables fails := by
    refine hs.invariant (I := State.Says resolver tables fails) ⟨rfl, ?_, ?_⟩
      fun _ _ _ _ hs hst h => hs.step hfails hpath hst (State.step_eq h)
    · exact fun _ _ hentry => absurd hentry (Lru.not_mem_empty _)
    · intro i l hl
      cases hl
  refine ⟨fun i l hl hwant => ⟨fun value hph => ?_, fun generation err hph => ?_⟩,
    fun now entry h => hans.look h⟩
  · have hph' := hans.lookups i l hl
    rw [hph] at hph'
    exact hph' host workerId workerName path hwant
  · have hph' := hans.lookups i l hl
    rw [hph, hwant] at hph'
    exact hph'

/-- A resolver with a standalone worker at `a`, and a project at `b` whose worker depends on the
path. -/
def twoHosts : Resolver := fun _ host _ _ path =>
  if host = some "a" then .ok ⟨some "w", none, none, none, none⟩
  else if host = some "b" then .ok ⟨some path, some "p", none, none, none⟩
  else .error .rowNotFound

def lookOnly (i now : Nat) : List Act :=
  [.loadEnabled, .loadGeneration, .look now].map (.lookup i)

def Phase.resolution : Phase → Option (Option RequestResolution)
  | .answered (.resolution value) => some value
  | _ => none

theorem Phase.eq_of_resolution {p : Phase} {val : Option RequestResolution}
    (h : p.resolution = some val) : p = .answered (.resolution val) := by
  unfold Phase.resolution at h
  split at h
  · rw [some.inj h]
  · cases h

theorem resolve_transparent_hit : ∃ (s : State) (l : Lookup) (value : Option RequestResolution),
    (machine twoHosts .empty).Reach (fun _ a => Steady (fun _ => False) a) s ∧
      s.lookups 1 = some l ∧ l.phase = .answered (.resolution value) ∧ l.connected = false ∧
      resolved twoHosts .empty (some "a") none none "/b" = .ok value := by
  have hpath : PathFree twoHosts .empty := by
    intro host workerId workerName path r hr hstands path'
    simp only [resolved, twoHosts] at hr ⊢
    split at hr
    · rename_i hhost
      rw [if_pos hhost]
      exact hr
    · split at hr
      · cases hr
        cases hstands
      · cases hr
  have hst (s : State) (a : Act) (_ : (machine twoHosts .empty).Reach
      (fun _ a => Steady (fun _ => False) a) s)
      (ha : (match a with
        | .change _ | .lookup _ (.query (some _)) => false
        | _ => true) = true) : Steady (fun _ => False) a := by
    unfold Steady
    split <;> simp_all
  obtain ⟨s, hs, hp⟩ := Machine.exists_reach_of_runIf
    (fun _ a => match a with
      | .change _ | .lookup _ (.query (some _)) => false
      | _ => true) hst
    (turnOn ++ Act.call (.resolution (some "a") none none "/a") :: readAndStore 0 0 ++
      Act.call (.resolution (some "a") none none "/b") :: lookOnly 1 5)
    (fun s => (s.lookups 1).any fun l =>
      l.want == .resolution (some "a") none none "/b" && !l.connected && l.phase.resolution.isSome)
    (by decide)
  obtain ⟨l, hl, hp⟩ := (any_eq_true _ _).1 hp
  simp only [Bool.and_eq_true, beq_iff_eq, Bool.not_eq_true', isSome_iff_exists] at hp
  obtain ⟨⟨hwant, hconn⟩, value, hval⟩ := hp
  have hph := Phase.eq_of_resolution hval
  exact ⟨s, l, value, hs, hl, hph, hconn,
    ((resolve_transparent _ _ hpath _ (fun _ h => h.elim) hs _ _ _ _).1 1 l hl hwant).1 value
      hph⟩

end OpenWorkersRunner.ResolveCache
