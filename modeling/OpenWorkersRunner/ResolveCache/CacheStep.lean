import OpenWorkersRunner.ResolveCache.Cache

/-!
# The resolve cache: what a step can do

`Lookup.Step` and `State.Step` say once what the step functions do, each case with its guards, and
what is proved of every run is read off them.  `State.Listens` lists the steps of the listener: some
store `ENABLED`, some begin an invalidation, and all of them leave the rest alone.
-/

namespace OpenWorkersRunner.ResolveCache

open Option Store

/-! ## Entries -/

namespace Cache

variable {c : Cache}

structure Within (c' c : Cache) : Prop where
  resolutions : ∀ e ∈ c'.resolutions.entries, e ∈ c.resolutions.entries
  workers : ∀ e ∈ c'.workers.entries, e ∈ c.workers.entries

variable {stamp : Stamp} {now : Nat} {found : Found}

theorem Within.stamps {c' : Cache} (h : c'.Within c) (hst : stamp ∈ c'.stamps) :
    stamp ∈ c.stamps := by
  simp only [Cache.stamps, List.mem_append, List.mem_map] at hst ⊢
  rcases hst with ⟨e, he, rfl⟩ | ⟨e, he, rfl⟩
  · exact .inl ⟨e, h.resolutions e he, rfl⟩
  · exact .inr ⟨e, h.workers e he, rfl⟩

theorem exactly_within (c : Cache) (key : Key) (now : Nat) : (c.exactly key now).2.Within c where
  resolutions _ he := Lru.mem_of_mem_touch he
  workers _ he := he

theorem exactly_mem {key : Key} {entry : Entry (Option RequestResolution)}
    (h : (c.exactly key now).1 = some entry) : (key, entry) ∈ c.resolutions.entries :=
  Lru.mem_of_get (filter_eq_some_iff.1 h).1

theorem resolution_within (c : Cache) (key : Key) (now : Nat) :
    (c.resolution key now).2.Within c := by
  unfold resolution
  have hp := exactly_within c { key with path := none } now
  split
  next h =>
    rwa [h] at hp
  next c' h =>
    rw [h] at hp
    have hpa := exactly_within c' key now
    exact ⟨fun e he => hp.resolutions e (hpa.resolutions e he),
      fun e he => hp.workers e (hpa.workers e he)⟩

theorem resolution_mem {key : Key} {entry : Entry (Option RequestResolution)}
    (h : (c.resolution key now).1 = some entry) :
    ∃ key', (key' = { key with path := none } ∨ key' = key) ∧
      (key', entry) ∈ c.resolutions.entries := by
  unfold resolution at h
  have hp := exactly_within c { key with path := none } now
  split at h
  next c' hf =>
    cases h
    exact ⟨_, .inl rfl, exactly_mem (congrArg Prod.fst hf)⟩
  next c' hn =>
    rw [hn] at hp
    exact ⟨_, .inr rfl, hp.resolutions _ (exactly_mem h)⟩

theorem look_within (c : Cache) (want : Want) (now : Nat) : (c.look want now).2.Within c := by
  cases want with
  | resolution host wid workerName path => exact resolution_within c _ now
  | worker id => exact ⟨fun _ he => he, fun _ he => Lru.mem_of_mem_touch he⟩

theorem look_mem {want : Want} (h : (c.look want now).1 = some (found, stamp)) :
    stamp ∈ c.stamps := by
  simp only [stamps, List.mem_append, List.mem_map]
  cases want with
  | resolution host wid workerName path =>
    obtain ⟨entry, hen, heq⟩ := map_eq_some_iff.1 h
    cases heq
    obtain ⟨key, -, hm⟩ := resolution_mem hen
    exact .inl ⟨_, hm, rfl⟩
  | worker id =>
    obtain ⟨entry, hen, heq⟩ := map_eq_some_iff.1 h
    cases heq
    exact .inr ⟨_, Lru.mem_of_get (filter_eq_some_iff.1 hen).1, rfl⟩

theorem look_worker_mem {id : String} (h : (c.look (.worker id) now).1 = some (found, stamp)) :
    ∃ entry, (id, entry) ∈ c.workers.entries ∧ found = .worker entry.value := by
  obtain ⟨entry, hen, heq⟩ := map_eq_some_iff.1 h
  cases heq
  exact ⟨entry, Lru.mem_of_get (filter_eq_some_iff.1 hen).1, rfl⟩

theorem look_resolution {host wid workerName : Option String} {path : String}
    (h : (c.look (.resolution host wid workerName path) now).1 = some (found, stamp)) :
    ∃ key value, found = .resolution key value := by
  obtain ⟨entry, -, heq⟩ := map_eq_some_iff.1 h
  cases heq
  exact ⟨_, _, rfl⟩

theorem stamps_put {stamp' : Stamp} (h : stamp' ∈ (c.put found now stamp).stamps) :
    stamp' = stamp ∨ stamp' ∈ c.stamps := by
  simp only [stamps, List.mem_append, List.mem_map] at h ⊢
  cases found with
  | resolution key val =>
    rcases h with ⟨e, he, rfl⟩ | h
    · rcases Lru.mem_of_mem_put he with rfl | he
      · exact .inl rfl
      · exact .inr (.inl ⟨e, he, rfl⟩)
    · exact .inr (.inr h)
  | worker m =>
    rcases h with h | ⟨e, he, rfl⟩
    · exact .inr (.inl h)
    · rcases Lru.mem_of_mem_put he with rfl | he
      · exact .inl rfl
      · exact .inr (.inr ⟨e, he, rfl⟩)

theorem workers_put {id : String} {entry : Entry WorkerMeta}
    (h : (id, entry) ∈ (c.put found now stamp).workers.entries) :
    (id = entry.value.id ∧ found = .worker entry.value) ∨ (id, entry) ∈ c.workers.entries := by
  cases found with
  | resolution key val => exact .inr h
  | worker m =>
    rcases Lru.mem_of_mem_put h with heq | h
    · cases heq
      exact .inl ⟨rfl, rfl⟩
    · exact .inr h

theorem stamps_empty : empty.stamps = [] := rfl

end Cache

/-! ## Lookups -/

def Phase.awaits : Phase → Bool
  | .missed _ | .reading _ _ | .codeless _ | .coding _ => true
  | _ => false

def LookupAct.ends : LookupAct → Bool
  | .acquire false | .finish | .connect false _ | .drop => true
  | _ => false

inductive Lookup.Step (resolver : Resolver) (s : State) (i : Nat) (l : Lookup) :
    LookupAct → Lookup → Cache → Option Nat → Prop
  | off (hl : l.phase = .start) (hoff : s.enabled = false) :
      Step resolver s i l .loadEnabled
        { l with phase := .missed none, floor := s.settled, began := s.changes } s.cache s.lock
  | on (hl : l.phase = .start) (hon : s.enabled = true) :
      Step resolver s i l .loadEnabled { l with phase := .loaded } s.cache s.lock
  | begins (hl : l.phase = .loaded) :
      Step resolver s i l .loadGeneration
        { l with phase := .begun s.generation, floor := s.settled, began := s.changes } s.cache
        s.lock
  | hit {generation : Nat} {found : Found} {stamp : Stamp} (now : Nat)
      (hl : l.phase = .begun generation) (hfree : s.lock = none)
      (hlook : (s.cache.look l.want now).1 = some (found, stamp)) :
      Step resolver s i l (.look now) { l with phase := found.next, readAt := stamp.readAt }
        (s.cache.look l.want now).2 none
  | miss {generation : Nat} (now : Nat) (hl : l.phase = .begun generation) (hfree : s.lock = none)
      (hlook : (s.cache.look l.want now).1 = none) :
      Step resolver s i l (.look now) { l with phase := .missed (some generation) }
        (s.cache.look l.want now).2 none
  | acquires {generation : Option Nat} (hl : l.phase = .missed generation) :
      Step resolver s i l (.acquire true)
        { l with phase := .reading generation l.want.read, connected := true, readAt := s.changes }
        s.cache s.lock
  | asks {generation : Option Nat} {q : Query}
      {next : q.Answer → Conn (Except SqlxError (Option Found))}
      (failure : Option SqlxError) (hl : l.phase = .reading generation (.ask q next)) :
      Step resolver s i l (.query failure)
        { l with
          phase := .reading generation
            (next (failure.elim (s.tables.answer resolver q) .error)) } s.cache s.lock
  | reads {generation : Option Nat} {found : Found}
      (hl : l.phase = .reading generation (.done (.ok (some found)))) :
      Step resolver s i l .finish { l with phase := .read generation found } s.cache s.lock
  | nobody {generation : Option Nat} (hl : l.phase = .reading generation (.done (.ok none))) :
      Step resolver s i l .finish { l with phase := .answered (.worker none) } s.cache s.lock
  | locks {generation : Option Nat} {found : Found} (hl : l.phase = .read generation found)
      (hfree : s.lock = none) :
      Step resolver s i l .lock { l with phase := .locked generation found } s.cache (some i)
  | arms {generation : Nat} {found : Found} (hl : l.phase = .locked (some generation) found)
      (hon : s.enabled = true) :
      Step resolver s i l .stillEnabled { l with phase := .armed generation found } s.cache s.lock
  | checks {generation : Nat} {found : Found} (hl : l.phase = .armed generation found)
      (hsame : s.generation = generation) :
      Step resolver s i l .stillGeneration { l with phase := .checked generation found } s.cache
        s.lock
  | notOn {generation : Option Nat} {found : Found} (hl : l.phase = .locked generation found)
      (hoff : generation = none ∨ s.enabled = false) :
      Step resolver s i l .stillEnabled { l with phase := found.next } s.cache none
  | notSame {generation : Nat} {found : Found} (hl : l.phase = .armed generation found)
      (hother : s.generation ≠ generation) :
      Step resolver s i l .stillGeneration { l with phase := found.next } s.cache none
  | puts {generation : Nat} {found : Found} (now : Nat) (hl : l.phase = .checked generation found) :
      Step resolver s i l (.put now) { l with phase := found.next }
        (s.cache.put found now ⟨generation, l.readAt⟩) none
  | cached {m : WorkerMeta} {blob : List UInt8} (entry : Option (List UInt8))
      (hl : l.phase = .known m) (hcode : cachedCode m.codeType entry = some blob) :
      Step resolver s i l (.code entry)
        { l with phase := .answered (.worker (some ⟨m, .cached blob⟩)) } s.cache s.lock
  | uncached {m : WorkerMeta} (entry : Option (List UInt8)) (hl : l.phase = .known m)
      (hcode : cachedCode m.codeType entry = none) :
      Step resolver s i l (.code entry) { l with phase := .codeless m } s.cache s.lock
  | connects {m : WorkerMeta} (ok : Bool) (entry : Option (List UInt8))
      (hl : l.phase = .codeless m) (hconn : ok = true ∨ l.connected = true) :
      Step resolver s i l (.connect ok entry) { l with phase := .coding (m.withCode entry) } s.cache
        s.lock
  | fetches {q : Query} {next : q.Answer → Conn (Option WorkerWithBindings)}
      (failure : Option SqlxError) (hl : l.phase = .coding (.ask q next)) :
      Step resolver s i l (.query failure)
        { l with phase := .coding (next (failure.elim (s.tables.answer resolver q) .error)) }
        s.cache s.lock
  | answers {worker : Option WorkerWithBindings} (hl : l.phase = .coding (.done worker)) :
      Step resolver s i l .finish { l with phase := .answered (.worker worker) } s.cache s.lock
  | ends {a : LookupAct} (hl : l.phase.awaits = true) (ha : a.ends = true) :
      Step resolver s i l a { l with phase := .ended } s.cache s.lock

variable {s : State}

theorem Lookup.step_eq {resolver : Resolver} {i : Nat} {l l' : Lookup} {a : LookupAct}
    {cache : Cache} {lock : Option Nat} (h : l.step resolver s i a = some (l', cache, lock)) :
    l.Step resolver s i a l' cache lock := by
  unfold Lookup.step at h
  simp only at h
  split at h
  all_goals try rename_i hl
  · split at h <;> cases h
    · exact .on hl ‹_›
    · exact .off hl (Bool.eq_false_of_not_eq_true ‹_›)
  · cases h
    exact .begins hl
  · split at h
    next hf =>
      split at h <;> cases h <;> rename_i hlo
      · have hsn := congrArg Prod.snd hlo
        rw [← show _ = cache from hsn]
        exact .hit _ hl hf (congrArg Prod.fst hlo)
      · have hsn := congrArg Prod.snd hlo
        rw [← show _ = cache from hsn]
        exact .miss _ hl hf (congrArg Prod.fst hlo)
    · cases h
  · cases h
    exact .acquires hl
  · cases h
    exact .ends (by rw [hl]; rfl) rfl
  · cases h
    exact .asks _ hl
  · cases h
    exact .reads hl
  · cases h
    exact .nobody hl
  · cases h
    exact .ends (by rw [hl]; rfl) rfl
  · split at h <;> cases h
    exact .locks hl ‹_›
  · cases h
    exact .notOn hl (.inl rfl)
  · split at h <;> cases h
    · exact .arms hl ‹_›
    · exact .notOn hl (.inr (Bool.eq_false_of_not_eq_true ‹_›))
  · split at h <;> cases h
    · exact .checks hl ‹_›
    · exact .notSame hl ‹_›
  · cases h
    exact .puts _ hl
  · split at h <;> cases h
    · exact .cached _ hl ‹_›
    · exact .uncached _ hl ‹_›
  · split at h <;> cases h
    · exact .connects _ _ hl (Bool.or_eq_true_iff.1 ‹_›)
    next ok entry m hco =>
      obtain rfl : ok = false := by
        cases ok <;> simp_all
      exact .ends (by rw [hl]; rfl) rfl
  · cases h
    exact .fetches _ hl
  · cases h
    exact .answers hl
  iterate 4
    · cases h
      exact .ends (by rw [hl]; rfl) rfl
  · cases h

/-! ## The listener -/

/-- The steps of the listener that change nothing that is shared: an error, a sleep, an invalidation
that has returned. -/
inductive State.ListenerMoves (s : State) : ListenAct → Listener → Prop
  | fails (hs : s.listener = .connecting) : ListenerMoves s .fail .stopped
  | waits {count : Int} (hs : s.listener = .connecting) (hcount : count < triggersNeeded) :
      ListenerMoves s (.triggers count) .rechecking
  | rechecks (hs : s.listener = .rechecking) : ListenerMoves s .recheck .stopped
  | resumes {j : Nat} (hs : s.listener = .notified j) (hj : s.hasReturned j = true) :
      ListenerMoves s .resume .receiving
  | loses (hs : s.listener = .receiving) : ListenerMoves s .lost .stopped
  | sleeps {j : Nat} (hs : s.listener = .stopping j) (hj : s.hasReturned j = true) :
      ListenerMoves s .sleep .sleeping
  | wakes (hs : s.listener = .sleeping) : ListenerMoves s .wake .top

inductive State.Listens (s : State) : ListenAct → State → Prop
  | moves {a : ListenAct} {listener : Listener} (h : s.ListenerMoves a listener) :
      Listens s a { s with listener := listener }
  | disables (hs : s.listener = .top) :
      Listens s .disable { s with enabled := false, listener := .connecting }
  | enables {j : Nat} (hs : s.listener = .connected j) (hj : s.hasReturned j = true) :
      Listens s .enable { s with enabled := true, listener := .receiving }
  | connects {count : Int} (hs : s.listener = .connecting) (hcount : ¬ count < triggersNeeded) :
      Listens s (.triggers count) { s.bump with listener := .connected s.invalidated }
  | notified (hs : s.listener = .receiving) :
      Listens s .notification { s.bump with listener := .notified s.invalidated }
  | stops (hs : s.listener = .stopped) :
      Listens s .invalidate { s.bump with listener := .stopping s.invalidated }

theorem State.listen_eq {t : State} {a : ListenAct} (h : s.listen a = some t) : s.Listens a t := by
  unfold State.listen at h
  split at h
  all_goals try rename_i hs
  · cases h
    exact .disables hs
  · cases h
    exact .moves (.fails hs)
  · split at h <;> cases h
    · exact .moves (.waits hs ‹_›)
    · exact .connects hs ‹_›
  · cases h
    exact .moves (.rechecks hs)
  · split at h <;> cases h
    exact .enables hs ‹_›
  · cases h
    exact .notified hs
  · split at h <;> cases h
    exact .moves (.resumes hs ‹_›)
  · cases h
    exact .moves (.loses hs)
  · cases h
    exact .stops hs
  · split at h <;> cases h
    exact .moves (.sleeps hs ‹_›)
  · cases h
    exact .moves (.wakes hs)
  · cases h

/-! ## The machine -/

inductive State.Step (resolver : Resolver) (s : State) : Act → State → Prop
  | call (want : Want) :
      Step resolver s (.call want)
        { s with
          lookups := Function.update s.lookups s.called (some ⟨want, .start, false, 0, 0, 0⟩)
          called := s.called + 1 }
  | lookup {i : Nat} {a : LookupAct} {l l' : Lookup} {cache : Cache} {lock : Option Nat}
      (hl : s.lookups i = some l) (h : l.Step resolver s i a l' cache lock) :
      Step resolver s (.lookup i a)
        { s with lookups := Function.update s.lookups i (some l'), cache := cache, lock := lock }
  | invalidate : Step resolver s .invalidate s.bump
  | clear {j : Nat} {inv : Invalidation} (hj : s.invalidations j = some inv)
      (hstage : inv.stage = .bumped) (hfree : s.lock = none) :
      Step resolver s (.clear j)
        { s with
          cache := .empty
          invalidations := Function.update s.invalidations j (some { inv with stage := .cleared }) }
  | ret {j : Nat} {inv : Invalidation} (hj : s.invalidations j = some inv)
      (hstage : inv.stage = .cleared) :
      Step resolver s (.ret j)
        { s with
          invalidations := Function.update s.invalidations j (some { inv with stage := .returned })
          settled := max s.settled inv.seen }
  | listen {a : ListenAct} {t : State} (h : s.Listens a t) : Step resolver s (.listen a) t
  | change (tables : Tables) :
      Step resolver s (.change tables) { s with tables := tables, changes := s.changes + 1 }

theorem State.step_eq {resolver : Resolver} {t : State} {a : Act} (h : s.step resolver a = some t) :
    s.Step resolver a t := by
  cases a with
  | call want =>
    cases h
    exact .call want
  | lookup i a =>
    obtain ⟨l, hl, h⟩ := bind_eq_some_iff.1 h
    obtain ⟨⟨l', cache, lock⟩, hst, h⟩ := bind_eq_some_iff.1 h
    cases h
    exact .lookup hl (Lookup.step_eq hst)
  | invalidate =>
    cases h
    exact .invalidate
  | clear j =>
    obtain ⟨inv, hj, h⟩ := bind_eq_some_iff.1 h
    split at h <;> cases h
    rename_i hgr
    exact .clear hj hgr.1 hgr.2
  | ret j =>
    obtain ⟨inv, hj, h⟩ := bind_eq_some_iff.1 h
    split at h <;> cases h
    exact .ret hj ‹_›
  | listen a => exact .listen (State.listen_eq h)
  | change tables =>
    cases h
    exact .change tables

/-! ## Runs that come up again -/

def turnOn : List Act :=
  [.listen .disable, .listen (.triggers 10), .clear 0, .ret 0, .listen .enable]

def readAndStore (i now : Nat) : List Act :=
  [.loadEnabled, .loadGeneration, .look now, .acquire true, .query none, .finish, .lock,
    .stillEnabled, .stillGeneration, .put now].map (.lookup i)

end OpenWorkersRunner.ResolveCache
