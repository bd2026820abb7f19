import OpenWorkersRunner.D1.Service

/-!
# D1: what a step does

`Call.Step` says once what each step of a call can do to the call and its handle, with its guards,
and `State.Step` what each step of the service can do; `Call.step_of_eq` and `step_of_eq` say that
the machine does nothing else.  The four ways an entry leaves the table are one constructor:
`State.Thinned` is what `evict`, `close_idle`, `remove_files`, `remove_namespace_files` and
`reset_to_snapshot` have in common, and `State.takes` says which entry each of them can take.
-/

namespace OpenWorkersRunner.D1

open Function List Option

variable {config : Config}

/-! ## The steps of a call -/

inductive Call.Step (config : Config) (i : Nat) (c : Call) (x : Handle) :
    CallAct → Call → Handle → Prop
  | counted (hc : c.stage = .entered) (hroom : x.waiting < config.maxQueue) :
      Call.Step config i c x (.submit .count) { c with stage := .queued }
        { x with waiting := x.waiting + 1 }
  | refused (hc : c.stage = .entered) (hfull : config.maxQueue ≤ x.waiting) :
      Call.Step config i c x (.submit .count) { c with stage := .refused }
        { x with waiting := x.waiting + 1 }
  | refuse (hc : c.stage = .refused) :
      Call.Step config i c x (.submit .refuse)
        { c with
          stage := .ended
          result := some (.error .overloaded "too many queries are waiting for this database") }
        { x with waiting := x.waiting - 1 }
  | uncount (hc : c.stage = .returned) :
      Call.Step config i c x (.submit .uncount) { c with stage := .uncounted }
        { x with waiting := x.waiting - 1 }
  | touch (now : Nat) (hc : c.stage = .uncounted) :
      Call.Step config i c x (.submit (.touch now)) { c with stage := .touched }
        { x with lastUsed := now }
  | archived (hc : c.stage = .touched) (harchive : config.archive = true) :
      Call.Step config i c x (.submit .load) { c with stage := .settled } x
  | load (hc : c.stage = .touched) (harchive : config.archive = false) :
      Call.Step config i c x (.submit .load) { c with stage := .loaded x.commits } x
  | store {commits : Nat} (hc : c.stage = .loaded commits) :
      Call.Step config i c x (.submit .store) { c with stage := .settled }
        { x with saved := commits }
  | compare (hc : c.stage = .settled) :
      Call.Step config i c x (.submit .compare) { c with stage := .comparing x.commits } x
  | clean {commits : Nat} (hc : c.stage = .comparing commits) (hsaved : commits = x.saved) :
      Call.Step config i c x (.submit .check) { c with stage := .ended } x
  | unsaved {commits : Nat} (hc : c.stage = .comparing commits) (hsaved : commits ≠ x.saved) :
      Call.Step config i c x (.submit .check) { c with stage := .noting } x
  | note (now : Nat) (hc : c.stage = .noting) :
      Call.Step config i c x (.submit (.note now)) { c with stage := .ended }
        { x with unsavedSince := some (x.unsavedSince.getD now) }
  | lock (hc : c.stage = .queued) (hfree : x.guard = none) :
      Call.Step config i c x (.run .lock) { c with stage := .locked } { x with guard := some i }
  | expire (hc : c.stage = .queued) (hheld : x.guard ≠ none) :
      Call.Step config i c x (.run .expire)
        { c with
          stage := .returned
          result := some (.error .overloaded "timed out waiting for the database") } x
  | openFile (hc : c.stage = .locked) (hnone : x.database = none) :
      Call.Step config i c x (.run .openFile) { c with stage := .opening } x
  | opened (hc : c.stage = .opening) :
      Call.Step config i c x (.run .opened) { c with stage := .locked }
        { x with
          database := some ⟨x.connections, none, none⟩
          connections := x.connections + 1 }
  | notOpened (failure : OpenFailure) (hc : c.stage = .opening) :
      Call.Step config i c x (.run (.notOpened failure))
        { c with stage := .returned, result := some failure.done } { x with guard := none }
  | spawn {d : Connection} (hc : c.stage = .locked) (hd : x.database = some d) :
      Call.Step config i c x (.run .spawn) { c with stage := .running d.number false .active } x
  | deadline {number : Nat} {job : Job} (hc : c.stage = .running number false job) :
      Call.Step config i c x (.run .deadline) { c with stage := .running number true job }
        (x.interrupt i number)
  | learn {number : Nat} {late panicked : Bool}
      (hc : c.stage = .running number late (.done panicked)) :
      Call.Step config i c x (.run .learn)
        { c with
          stage := .returned
          result := some (if panicked then internalError else .reported) } x
  | cancelQueued (hc : c.stage = .queued) :
      Call.Step config i c x (.run .cancel) { c with stage := .cancelled none } x
  | cancelOpening (hc : c.stage = .opening) :
      Call.Step config i c x (.run .cancel) { c with stage := .cancelled none }
        { x with guard := none }
  | cancelRunning {number : Nat} {late : Bool} {job : Job}
      (hc : c.stage = .running number late job) :
      Call.Step config i c x (.run .cancel) { c with stage := .cancelled (some job) }
        (x.interrupt i number)
  | beginStatement {d : Connection} (hc : c.stage.job = some .active) (hd : x.database = some d)
      (hidle : d.statement = none) :
      Call.Step config i c x (.job .beginStatement) c
        { x with database := some { d with statement := some false } }
  | hook {d : Connection} (hc : c.stage.job = some .active) (hd : x.database = some d)
      (hpending : d.pending = none) :
      Call.Step config i c x (.job .hook) c
        { x with
          database := some { d with pending := some x.commits }
          commits := x.commits + 1 }
  | visible {d : Connection} {k : Nat} (hc : c.stage.job = some .active) (hd : x.database = some d)
      (hpending : d.pending = some k) :
      Call.Step config i c x (.job .visible) c
        { x with database := some { d with pending := none }, visible := x.visible ++ [k] }
  | rollback {d : Connection} {k : Nat} (hc : c.stage.job = some .active)
      (hd : x.database = some d) (hpending : d.pending = some k) :
      Call.Step config i c x (.job .rollback) c
        { x with database := some { d with pending := none } }
  | endStatement {d : Connection} (ok : Bool) (hc : c.stage.job = some .active)
      (hd : x.database = some d) (hpending : d.pending = none) :
      Call.Step config i c x (.job (.endStatement ok))
        { c with stage := c.stage.withJob (if ok then .active else .failed) }
        { x with database := some { d with statement := none } }
  | finish {d : Connection} {job : Job} (panicked : Bool) (hc : c.stage.job = some job)
      (hruns : job.runs = true) (hd : x.database = some d) (hidle : d.statement = none) :
      Call.Step config i c x (.job (.finish panicked))
        { c with stage := c.stage.withJob (.done panicked) } { x with guard := none }

namespace Call

variable {i : Nat} {c c' : Call} {x x' : Handle} {a : CallAct}

theorem submit_eq {act : SubmitAct} (h : c.submit config x act = some (c', x')) :
    c.Step config i x (.submit act) c' x' := by
  unfold submit at h
  split at h
  next hc =>
    cases h
    by_cases hf : config.maxQueue ≤ x.waiting
    · rw [if_pos hf]; exact .refused hc hf
    · rw [if_neg hf]; exact .counted hc (by omega)
  · cases h; exact .refuse ‹_›
  · cases h; exact .uncount ‹_›
  · cases h; exact .touch _ ‹_›
  next hc =>
    cases h
    cases ha : config.archive with
    | true => exact .archived hc ha
    | false => exact .load hc ha
  · cases h; exact .store ‹_›
  · cases h; exact .compare ‹_›
  next commits hc =>
    cases h
    by_cases hsa : commits = x.saved
    · rw [if_pos hsa]; exact .clean hc hsa
    · rw [if_neg hsa]; exact .unsaved hc hsa
  · cases h; exact .note _ ‹_›
  · cases h

theorem run_eq {act : RunAct} (h : c.run i x act = some (c', x')) :
    c.Step config i x (.run act) c' x' := by
  unfold run at h
  split at h
  · split at h
    · cases h; exact .lock ‹_› ‹_›
    · cases h
  · split at h
    · cases h
    · cases h; exact .expire ‹_› ‹_›
  · split at h
    · cases h; exact .openFile ‹_› ‹_›
    · cases h
  · cases h; exact .opened ‹_›
  · cases h; exact .notOpened _ ‹_›
  · obtain ⟨d, hd, h⟩ := map_eq_some_iff.1 h
    cases h
    exact .spawn ‹_› hd
  · cases h; exact .deadline ‹_›
  · cases h; exact .learn ‹_›
  · cases h; exact .cancelQueued ‹_›
  · cases h; exact .cancelOpening ‹_›
  · cases h; exact .cancelRunning ‹_›
  · cases h

theorem runJob_eq {act : JobAct} (h : c.runJob x act = some (c', x')) :
    c.Step config i x (.job act) c' x' := by
  obtain ⟨d, hd, h⟩ := bind_eq_some_iff.1 h
  split at h
  · split at h
    · cases h; exact .beginStatement ‹_› hd ‹_›
    · cases h
  · split at h
    next hco =>
      cases h
      exact .hook ‹_› hd hco.2
    · cases h
  · obtain ⟨k, hk, h⟩ := map_eq_some_iff.1 h
    cases h
    exact .visible ‹_› hd hk
  · obtain ⟨k, hk, h⟩ := map_eq_some_iff.1 h
    cases h
    exact .rollback ‹_› hd hk
  · split at h
    next hco =>
      cases h
      exact .endStatement _ ‹_› hd hco.2
    · cases h
  · split at h
    · cases h; exact .finish _ ‹_› rfl hd ‹_›
    · cases h
  · split at h
    · cases h; exact .finish _ ‹_› rfl hd ‹_›
    · cases h
  · cases h

theorem step_of_eq (h : c.step config i x a = some (c', x')) : c.Step config i x a c' x' := by
  cases a with
  | submit a => exact submit_eq h
  | run a => exact run_eq h
  | job a => exact runJob_eq h

theorem Step.keys (h : c.Step config i x a c' x') :
    c'.key = c.key ∧ c'.handle = c.handle ∧ x'.key = x.key := by
  cases h <;> exact ⟨rfl, rfl, rfl⟩

theorem Step.holds (h : c.Step config i x a c' x') (hc' : c'.holds = true) : c.holds = true := by
  by_contra hc
  have ho : c.stage = .ended ∨ ∃ job, c.stage = .cancelled job := by
    rw [Bool.not_eq_true, Call.holds] at hc
    split at hc
    · exact .inl ‹_›
    · exact .inr ⟨_, ‹_›⟩
    · cases hc
  rcases ho with ho | ⟨job, ho⟩
  · cases h <;> simp_all [Stage.job]
  · cases h <;> simp_all [Call.holds, Stage.withJob]

inductive GuardMove (i : Nat) (c : Call) (x : Handle) (c' : Call) (x' : Handle) : Prop
  | kept (hc : c'.guards = c.guards) (hx : x'.guard = x.guard)
  | taken (hfree : x.guard = none) (hc' : c'.guards = true) (hx' : x'.guard = some i)
  | dropped (hc : c.guards = true) (hc' : c'.guards = false) (hx' : x'.guard = none)

theorem guards_of_job {job : Job} (hj : c.stage.job = some job) : c.guards = job.runs := by
  cases hst : c.stage <;> simp_all [Stage.job, guards, jobRuns]

theorem guards_of_jobRuns (h : c.jobRuns = true) : c.guards = true := by
  obtain ⟨job, hj, hru⟩ := any_eq_true _ _ |>.1 h
  rw [guards_of_job hj]
  exact hru

theorem guards_withJob {job : Job} (job' : Job) (hj : c.stage.job = some job) :
    Call.guards { c with stage := c.stage.withJob job' } = job'.runs := by
  cases hst : c.stage <;> simp_all [Stage.job, Stage.withJob, guards, jobRuns]

theorem Step.guardMove (h : c.Step config i x a c' x') : GuardMove i c x c' x' := by
  cases h with
  | lock hc hf => exact .taken hf rfl rfl
  | notOpened failure hc => exact .dropped (by rw [guards, hc]) rfl rfl
  | cancelOpening hc => exact .dropped (by rw [guards, hc]) rfl rfl
  | finish panicked hc hru =>
    exact .dropped ((guards_of_job hc).trans hru) (guards_withJob _ hc) rfl
  | endStatement ok hc =>
    refine .kept ?_ rfl
    rw [guards_withJob _ hc, guards_of_job hc]
    cases ok <;> rfl
  | _ => exact .kept (by simp_all [guards, jobRuns, Stage.job, Job.runs]) rfl

end Call

/-! ## Snapshots -/

/-- The connection may be closed, and what is saved may be different; the rest is as it was. -/
structure Handle.Kept (x x' : Handle) : Prop where
  key : x'.key = x.key
  guard : x'.guard = x.guard
  waiting : x'.waiting = x.waiting
  lastUsed : x'.lastUsed = x.lastUsed
  commits : x'.commits = x.commits
  connections : x'.connections = x.connections
  visible : x'.visible = x.visible
  interrupts : x'.interrupts = x.interrupts

theorem Handle.Kept.refl (x : Handle) : x.Kept x := ⟨rfl, rfl, rfl, rfl, rfl, rfl, rfl, rfl⟩

theorem Handle.kept_close (x : Handle) : x.Kept x.close := ⟨rfl, rfl, rfl, rfl, rfl, rfl, rfl, rfl⟩

theorem Snapshot.step_kept {p : Snapshot} {x x' : Handle} {a : PassAct} {p' : Option Snapshot}
    (h : p.step x a = some (p', x')) : x.Kept x' := by
  unfold Snapshot.step at h
  split at h <;> cases h <;> exact ⟨rfl, rfl, rfl, rfl, rfl, rfl, rfl, rfl⟩

theorem Snapshot.step_handle {p q : Snapshot} {x x' : Handle} {a : PassAct}
    (h : p.step x a = some (some q, x')) : q.handle = p.handle := by
  unfold Snapshot.step at h
  split at h <;> cases h <;> rfl

/-! ## The entries that go -/

namespace State

def unsavedAt (s : State) (key : Key) : Bool :=
  (s.databases.lookup key).any fun h => (s.handles h).any Handle.unsaved

def idleAt (config : Config) (s : State) (now : Nat) (key : Key) : Bool :=
  (s.databases.lookup key).any fun h => (s.handles h).any (s.isIdle config now h)

/-- **What a step can take**: the entries that it removes, if nobody else refers to them. -/
def takes (config : Config) (s : State) : Act → Key → Prop
  | .submit key victim _, k =>
    s.databases.lookup key = none ∧ config.maxOpen ≤ s.openCount ∧ victim = some k ∧
      s.unsavedAt k = false
  | .closeIdle now, k => s.idleAt config now k = true ∧ s.unsavedAt k = false
  | .removeFiles id _, k => k = .database id
  | .removeNamespaceFiles namespaceId _, k => k.isOf namespaceId = true
  | .resetToSnapshot id _, k => k = .database id
  | _, _ => False

/-- Entries that nobody else refers to are gone, if they are among `taken`, and connections that no
call holds are closed; nothing else is different. -/
structure Thinned (s : State) (taken : Key → Prop) (t : State) : Prop where
  calls : t.calls = s.calls
  called : t.called = s.called
  made : t.made = s.made
  pass : t.pass = s.pass
  entry : ∀ {key h}, t.databases.lookup key = some h → s.databases.lookup key = some h
  gone : ∀ {key h}, s.databases.lookup key = some h →
    t.databases.lookup key = some h ∨ taken key ∧ s.strongCount h = 1
  handle : ∀ h, t.handles h = s.handles h ∨ ∃ x, s.handles h = some x ∧ t.handles h = some x.close

theorem Thinned.refl (s : State) (taken : Key → Prop) : s.Thinned taken s :=
  ⟨rfl, rfl, rfl, rfl, id, .inl, fun _ => .inl rfl⟩

variable {h i : Nat} {key : Key} {x x' : Handle} {c' c : Call} {ok : State → Act → Prop}
  {p : Call → Bool}

variable {s t : State}

theorem countP_entries_pos (hen : s.databases.lookup key = some h) :
    0 < s.databases.entries.countP (fun entry => entry.2 = h) :=
  countP_pos_iff.2 ⟨_, AList.lookup_eq_some_iff.1 hen, by simp⟩

theorem of_strongCount_eq_one (hen : s.databases.lookup key = some h) (ho : s.strongCount h = 1) :
    (∀ i c, i < s.called → s.calls i = some c → c.handle = h → c.holds = false) ∧
      ∀ p, s.pass = some p → p.count h = 0 := by
  have hpo := countP_entries_pos hen
  rw [strongCount] at ho
  refine ⟨fun i c hi hc hh => ?_, fun p hp => ?_⟩
  · by_contra hhl
    rw [Bool.not_eq_false] at hhl
    have hca : 0 < (range s.called).countP
        (fun i => (s.calls i).any fun c => c.holds && c.handle == h) :=
      countP_pos_iff.2 ⟨i, mem_range.2 hi, by simp [hc, hhl, hh]⟩
    omega
  · rw [hp, elim_some] at ho
    omega

theorem mem_entries :
    (key, h, x) ∈ s.entries ↔ s.databases.lookup key = some h ∧ s.handles h = some x := by
  rw [entries, mem_filterMap, AList.lookup_eq_some_iff]
  constructor
  · rintro ⟨⟨key', h'⟩, hm, hx⟩
    obtain ⟨y, hy, heq⟩ := map_eq_some_iff.1 hx
    cases heq
    exact ⟨hm, hy⟩
  · rintro ⟨hm, hx⟩
    exact ⟨_, hm, by simp [hx]⟩

theorem thinned_of_evict {victim : Option Key} {now : Nat}
    (hn : s.databases.lookup key = none) (h : s.evict config victim = some t) :
    s.Thinned (s.takes config (.submit key victim now)) t := by
  unfold evict at h
  split at h
  next ho =>
    split at h
    · split at h
      · cases h; exact .refl s _
      · cases h
    next k =>
      obtain ⟨⟨k', h', x⟩, hf, h⟩ := map_eq_some_iff.1 h
      obtain rfl : k' = k := by simpa using find?_some hf
      have hm := mem_of_find?_eq_some hf
      rw [oldest, mem_filter, candidates, mem_filter, mem_entries] at hm
      obtain ⟨⟨⟨hen, hx⟩, hco⟩, -⟩ := hm
      rw [Bool.and_eq_true, beq_iff_eq] at hco
      split at h
      · cases h
        refine ⟨rfl, rfl, rfl, rfl, id, .inl, fun g => ?_⟩
        by_cases hg : g = h'
        · subst hg
          exact .inr ⟨x, hx, update_self ..⟩
        · exact .inl (update_of_ne hg ..)
      next hsa =>
        cases h
        have ht : s.takes config (.submit key (some k') now) k' := by
          refine ⟨hn, ho, rfl, ?_⟩
          rw [unsavedAt, hen, any_some, hx, any_some, ← Bool.not_eq_true]
          exact hsa
        refine ⟨rfl, rfl, rfl, rfl, fun {k g} hk => ?_, fun {k g} hk => ?_, fun _ => .inl rfl⟩
        · by_cases hke : k = k'
          · subst hke
            rw [AList.lookup_erase] at hk
            cases hk
          · rwa [AList.lookup_erase_ne hke] at hk
        · by_cases hke : k = k'
          · subst hke
            obtain rfl : g = h' := mem_unique hk hen
            exact .inr ⟨ht, hco.1⟩
          · exact .inl ((AList.lookup_erase_ne hke).trans hk)
  · cases h; exact .refl s _

theorem thinned_of_detach {p : Key → Bool} {taken : Key → Prop}
    (hp : ∀ k, p k = true → taken k) (h : s.detach p = some t) : s.Thinned taken t := by
  rw [detach] at h
  split at h
  · cases h
  next hu =>
    cases h
    refine ⟨rfl, rfl, rfl, rfl, fun hk => (AList.lookup_retain_eq_some.1 hk).1, fun {k h} hk => ?_,
      fun _ => .inl rfl⟩
    cases hpk : p k with
    | false => exact .inl (AList.lookup_retain_eq_some.2 ⟨hk, by rw [hpk]; rfl⟩)
    | true =>
      have hle : ¬ s.strongCount h > 1 := fun hgt =>
        hu (any_eq_true.2 ⟨_, AList.lookup_eq_some_iff.1 hk, by simp [hpk, hgt]⟩)
      have hpo := countP_entries_pos hk
      refine .inr ⟨hp k hpk, ?_⟩
      rw [strongCount] at hle ⊢
      omega

theorem lookup_of_detach {p : Key → Bool} (h : s.detach p = some t)
    (hke : p key = true) : t.databases.lookup key = none := by
  rw [detach] at h
  split at h
  · cases h
  · cases h
    rw [eq_none_iff_forall_ne_some]
    intro g hg
    have hk := (AList.lookup_retain_eq_some.1 hg).2
    rw [hke] at hk
    cases hk

theorem thinned_of_detach_database {id : BitVec 128}
    (h : s.detach (fun key => key = .database id) = some t) :
    s.Thinned (fun key => key = .database id) t :=
  thinned_of_detach (fun _ hk => of_decide_eq_true hk) h

theorem thinned_closeIdle (s : State) (now : Nat) :
    s.Thinned (s.takes config (.closeIdle now)) (s.closeIdle config now) := by
  refine ⟨rfl, rfl, rfl, rfl, fun hk => (AList.lookup_retain_eq_some.1 hk).1, fun {k h} hk => ?_,
    fun h => ?_⟩
  · cases hke : (s.handles h).all fun x => !s.isIdle config now h x || x.unsaved with
    | true => exact .inl (AList.lookup_retain_eq_some.2 ⟨hk, hke⟩)
    | false =>
      obtain ⟨x, hx, hid, hsa⟩ : ∃ x, s.handles h = some x ∧
          s.isIdle config now h x = true ∧ x.unsaved = false := by
        cases hx : s.handles h with
        | none => rw [hx] at hke; cases hke
        | some x => exact ⟨x, rfl, by simpa [hx] using hke⟩
      have ho : s.strongCount h = 1 := by
        rw [isIdle, Bool.and_eq_true, beq_iff_eq] at hid
        exact hid.1
      exact .inr ⟨⟨by simp [idleAt, hk, hx, hid], by simp [unsavedAt, hk, hx, hsa]⟩, ho⟩
  · cases hx : s.handles h with
    | none => exact .inl (by simp only [closeIdle, hx, map_none])
    | some x =>
      simp only [closeIdle, hx, map_some]
      split
      · exact .inr ⟨x, rfl, rfl⟩
      · exact .inl rfl

/-! ## The steps of the service -/

inductive Step (config : Config) (s : State) : Act → State → Prop
  | enter {key : Key} {h : Nat} (victim : Option Key) (now : Nat)
      (hentry : s.databases.lookup key = some h) :
      Step config s (.submit key victim now) (s.enter key h)
  | create {key : Key} {t : State} (victim : Option Key) (now : Nat)
      (hentry : s.databases.lookup key = none)
      (ht : s.Thinned (s.takes config (.submit key victim now)) t) :
      Step config s (.submit key victim now) ((t.create key now).enter key t.made)
  | call {i : Nat} {a : CallAct} {c c' : Call} {x x' : Handle} (hc : s.calls i = some c)
      (hx : s.handles c.handle = some x) (h : c.Step config i x a c' x') :
      Step config s (.call i a) (s.put i c' x')
  | thin {a : Act} {t : State} (ht : s.Thinned (s.takes config a) t) : Step config s a t
  | snapshotAll (todo : List Nat) (hpass : s.pass = none) (harchive : config.archive = true)
      (htodo : ∀ h ∈ todo, ∃ key, s.databases.lookup key = some h) :
      Step config s .snapshotAll { s with pass := some ⟨todo, none⟩ }
  | load {p : Pass} {h : Nat} {x : Handle} (now : Nat) (hp : s.pass = some p)
      (hx : s.handles h = some x) (hcurrent : p.current = none) (htodo : h ∈ p.todo) :
      Step config s (.pass (.load h now))
        { s with pass := some ⟨p.todo.erase h, some ⟨h, now, x.commits, .loaded⟩⟩ }
  | passEnds (a : PassAct)
      (hawaits : ∀ p snapshot, s.pass = some p → p.current = some snapshot →
        snapshot.awaits = true) :
      Step config s (.pass a) { s with pass := none }
  | snapshot {a : PassAct} {p : Pass} {snapshot : Snapshot} {snapshot' : Option Snapshot}
      {x x' : Handle} (hp : s.pass = some p) (hcurrent : p.current = some snapshot)
      (hx : s.handles snapshot.handle = some x) (h : snapshot.step x a = some (snapshot', x')) :
      Step config s (.pass a)
        { s.setHandle snapshot.handle x' with pass := some { p with current := snapshot' } }

variable {s t : State} {a : Act} {taken : Key → Prop}

theorem step_submit {victim : Option Key} {now : Nat}
    (h : s.step config (.submit key victim now) = some t) :
    s.Step config (.submit key victim now) t := by
  obtain ⟨⟨r, g⟩, hh, rfl⟩ := map_eq_some_iff.1 h
  unfold handle at hh
  split at hh
  · cases hh
    exact .enter victim now ‹_›
  next hn =>
    obtain ⟨u, hu, heq⟩ := map_eq_some_iff.1 hh
    cases heq
    exact .create victim now hn (thinned_of_evict hn hu)

theorem step_pass {act : PassAct} (h : s.stepPass act = some t) : s.Step config (.pass act) t := by
  obtain ⟨p, hp, h⟩ := bind_eq_some_iff.1 h
  split at h
  · split at h
    · obtain ⟨x, hx, rfl⟩ := map_eq_some_iff.1 h
      exact .load _ hp hx ‹_› ‹_›
    · cases h
  next hcu _ =>
    split at h
    · cases h
      refine .passEnds _ fun q snapshot hq hsn => ?_
      cases hp.symm.trans hq
      rw [hcu] at hsn
      cases hsn
    · cases h
  next snapshot hcu _ =>
    split at h
    next ha =>
      cases h
      refine .passEnds _ fun q snapshot' hq hsn => ?_
      cases hp.symm.trans hq
      cases hcu.symm.trans hsn
      exact ha
    · cases h
  · obtain ⟨x, hx, h⟩ := bind_eq_some_iff.1 h
    obtain ⟨⟨snapshot', x'⟩, hst, rfl⟩ := map_eq_some_iff.1 h
    exact .snapshot hp ‹_› hx hst
  · cases h

theorem step_call {act : CallAct} (h : s.step config (.call i act) = some t) :
    ∃ c c' x x', s.calls i = some c ∧ s.handles c.handle = some x ∧ c.Step config i x act c' x' ∧
      t = s.put i c' x' := by
  obtain ⟨c, hc, h⟩ := bind_eq_some_iff.1 h
  obtain ⟨x, hx, h⟩ := bind_eq_some_iff.1 h
  obtain ⟨⟨c', x'⟩, hst, rfl⟩ := map_eq_some_iff.1 h
  exact ⟨c, c', x, x', hc, hx, Call.step_of_eq hst, rfl⟩

/-- **The service does nothing else.** -/
theorem step_of_eq (h : s.step config a = some t) : s.Step config a t := by
  cases a with
  | submit key victim now => exact step_submit h
  | call i a =>
    obtain ⟨c, c', x, x', hc, hx, hst, rfl⟩ := step_call h
    exact .call hc hx hst
  | closeIdle now =>
    cases h
    exact .thin (thinned_closeIdle s now)
  | removeFiles id deleted =>
    cases h
    refine .thin ?_
    unfold removeFiles
    split
    · exact thinned_of_detach_database ‹_›
    · exact .refl s _
  | removeNamespaceFiles ns deleted =>
    cases h
    refine .thin ?_
    unfold removeNamespaceFiles
    split
    · exact thinned_of_detach (fun k hk => hk) ‹_›
    · exact .refl s _
  | resetToSnapshot id moved =>
    cases h
    refine .thin ?_
    unfold resetToSnapshot
    split
    · split
      · exact thinned_of_detach_database ‹_›
      · exact .refl s _
    · exact .refl s _
  | snapshotAll =>
    change s.snapshotAll config = some t at h
    unfold snapshotAll at h
    split at h
    next hco =>
      cases h
      refine .snapshotAll _ hco.2 hco.1 fun h hh => ?_
      obtain ⟨⟨key, g, x⟩, hm, rfl⟩ := mem_map.1 hh
      exact ⟨key, (mem_entries.1 (mem_filter.1 hm).1).1⟩
    · cases h
  | pass a => exact step_pass h

/-! ## Steps aside from the calls -/

/-- **A step aside**: no call moves, none begins, no entry is made, and an entry that goes is among
`taken`. -/
structure Aside (s : State) (taken : Key → Prop) (t : State) : Prop where
  calls : t.calls = s.calls
  called : t.called = s.called
  made : t.made = s.made
  entry : ∀ {key h}, t.databases.lookup key = some h → s.databases.lookup key = some h
  gone : ∀ {key h}, s.databases.lookup key = some h →
    t.databases.lookup key = some h ∨ taken key ∧ s.strongCount h = 1
  handles : ∀ h, Option.Rel Handle.Kept (s.handles h) (t.handles h)

theorem Aside.handle_before (ht : s.Aside taken t) (hx' : t.handles h = some x') :
    ∃ x, s.handles h = some x ∧ x.Kept x' := by
  have hre := ht.handles h
  rw [hx'] at hre
  exact hre.exists_of_some_right

theorem Aside.handle_after (ht : s.Aside taken t) (hx : s.handles h = some x) :
    ∃ x', t.handles h = some x' ∧ x.Kept x' := by
  have hre := ht.handles h
  rw [hx] at hre
  exact hre.exists_of_some_left

/-- What a handle has in common with one whose connection is closed is kept. -/
theorem Thinned.rel {r : Handle → Handle → Prop} (ht : s.Thinned taken t) (hr : ∀ x, r x x)
    (hcl : ∀ x, r x x.close) (h : Nat) : Option.Rel r (s.handles h) (t.handles h) := by
  rcases ht.handle h with heq | ⟨x, hx, hx'⟩
  · rw [heq]
    exact .self hr _
  · rw [hx, hx']
    exact .some (hcl x)

theorem Thinned.aside (ht : s.Thinned taken t) : s.Aside taken t :=
  ⟨ht.calls, ht.called, ht.made, ht.entry, ht.gone, ht.rel .refl Handle.kept_close⟩

theorem aside_setHandle (hx : s.handles h = some x) (hk : x.Kept x') (pass : Option Pass) :
    s.Aside taken { s.setHandle h x' with pass := pass } :=
  ⟨rfl, rfl, rfl, id, .inl, rel_update_some .refl hx hk⟩

theorem aside_pass (s : State) (pass : Option Pass) : s.Aside taken { s with pass := pass } :=
  ⟨rfl, rfl, rfl, id, .inl, fun _ => .self .refl _⟩

/-- **The step rule.**  What `enter`, `create`, the steps of calls and the steps aside keep, every
step keeps. -/
theorem Step.keeps {I : State → Prop} (h : s.Step config a t) (hs : I s)
    (hen : ∀ {r key h}, I r → r.databases.lookup key = some h → I (r.enter key h))
    (hcr : ∀ {r key} now, I r → r.databases.lookup key = none → I (r.create key now))
    (hca : ∀ {i act c c' x x'}, a = .call i act → s.calls i = some c →
      s.handles c.handle = some x → c.Step config i x act c' x' → I (s.put i c' x'))
    (ha : ∀ {r}, s.Aside (s.takes config a) r → I r) : I t := by
  cases h with
  | enter victim now hentry => exact hen hs hentry
  | create victim now hentry ht =>
    have hn : ∀ h, ¬ AList.lookup _ _ = some h := fun h hk => by
      rw [ht.entry hk] at hentry
      cases hentry
    exact hen (hcr now (ha ht.aside) (eq_none_iff_forall_ne_some.2 hn))
      (AList.lookup_insert _)
  | call hc hx h => exact hca rfl hc hx h
  | thin ht => exact ha ht.aside
  | snapshotAll todo => exact ha (aside_pass s _)
  | load now hp hx => exact ha (aside_pass s _)
  | passEnds a => exact ha (aside_pass s _)
  | snapshot hp hcu hx h => exact ha (aside_setHandle hx (Snapshot.step_kept h) _)

/-! ## Calls, handles and entries -/

structure Wired (s : State) : Prop where
  call : ∀ {i c}, s.calls i = some c →
    i < s.called ∧ ∃ x, s.handles c.handle = some x ∧ x.key = c.key
  handle : ∀ {h x}, s.handles h = some x → h < s.made
  entry : ∀ {key h}, s.databases.lookup key = some h → ∃ x, s.handles h = some x ∧ x.key = key

theorem Wired.enter (hs : s.Wired) (hen : s.databases.lookup key = some h) :
    (s.enter key h).Wired := by
  refine ⟨fun {i c} hc => ?_, hs.handle, hs.entry⟩
  show i < s.called + 1 ∧ _
  rcases update_some_eq_some hc with ⟨rfl, rfl⟩ | ⟨-, hc⟩
  · exact ⟨by omega, hs.entry hen⟩
  · obtain ⟨hi, hx⟩ := hs.call hc
    exact ⟨by omega, hx⟩

theorem Wired.create (hs : s.Wired) (key : Key) (now : Nat) : (s.create key now).Wired := by
  have hold : ∀ {h x}, s.handles h = some x → (s.create key now).handles h = some x := by
    intro h x hx
    have hlt := hs.handle hx
    exact (update_of_ne (Nat.ne_of_lt hlt) _ _).trans hx
  refine ⟨fun {i c} hc => ?_, fun {h x} hx => ?_, fun {k h} hk => ?_⟩
  · obtain ⟨hi, x, hx, hke⟩ := hs.call hc
    exact ⟨hi, x, hold hx, hke⟩
  · show h < s.made + 1
    rcases update_some_eq_some hx with ⟨rfl, -⟩ | ⟨-, hx⟩
    · omega
    · have hlt := hs.handle hx
      omega
  · by_cases hke : k = key
    · subst hke
      have hm : h = s.made := (some.inj ((AList.lookup_insert _).symm.trans hk)).symm
      rw [hm]
      exact ⟨_, update_self .., rfl⟩
    · obtain ⟨x, hx, hxk⟩ := hs.entry ((AList.lookup_insert_ne hke).symm.trans hk)
      exact ⟨x, hold hx, hxk⟩

theorem calls_put_self (s : State) (i : Nat) (c' : Call) (x' : Handle) :
    (s.put i c' x').calls i = some c' :=
  update_self ..

theorem handles_put {y : Handle} (hy : (s.put i c' x').handles h = some y) :
    (h = c'.handle ∧ y = x') ∨ (h ≠ c'.handle ∧ s.handles h = some y) :=
  update_some_eq_some hy

theorem Wired.put (hs : s.Wired) (hc : s.calls i = some c) (hx : s.handles c.handle = some x)
    (hke : c'.key = c.key ∧ c'.handle = c.handle ∧ x'.key = x.key) : (s.put i c' x').Wired := by
  obtain ⟨hk, hh, hxk⟩ := hke
  have hold : ∀ {h y}, s.handles h = some y →
      ∃ y', (s.put i c' x').handles h = some y' ∧ y'.key = y.key := by
    intro h y hy
    by_cases heq : h = c.handle
    · subst heq
      obtain rfl : x = y := mem_unique hx hy
      exact ⟨x', by rw [← hh]; exact update_self .., hxk⟩
    · exact ⟨y, (update_of_ne (by rwa [hh]) _ _).trans hy, rfl⟩
  refine ⟨fun {j d} hd => ?_, fun {h y} hy => ?_, fun {k h} hen => ?_⟩
  · have hd' : ∃ d0, s.calls j = some d0 ∧ d.handle = d0.handle ∧ d.key = d0.key := by
      rcases update_some_eq_some hd with ⟨rfl, rfl⟩ | ⟨-, hd⟩
      · exact ⟨c, hc, hh, hk⟩
      · exact ⟨d, hd, rfl, rfl⟩
    obtain ⟨d0, hd0, hdh, hdk⟩ := hd'
    obtain ⟨hj, y, hy, hyk⟩ := hs.call hd0
    obtain ⟨y', hy', hyk'⟩ := hold hy
    exact ⟨hj, y', by rwa [hdh], by rw [hyk', hyk, hdk]⟩
  · rcases handles_put hy with ⟨rfl, -⟩ | ⟨-, hy⟩
    · rw [hh]
      exact hs.handle hx
    · exact hs.handle hy
  · obtain ⟨y, hy, hyk⟩ := hs.entry hen
    obtain ⟨y', hy', hyk'⟩ := hold hy
    exact ⟨y', hy', hyk'.trans hyk⟩

theorem Wired.aside (hs : s.Wired) (ht : s.Aside taken t) : t.Wired := by
  refine ⟨fun {i c} hc => ?_, fun {h x} hx => ?_, fun {key h} hk => ?_⟩
  · rw [ht.calls] at hc
    obtain ⟨hi, x, hx, hkey⟩ := hs.call hc
    obtain ⟨x', hx', hke⟩ := ht.handle_after hx
    exact ⟨by rwa [ht.called], x', hx', hke.key.trans hkey⟩
  · obtain ⟨y, hy, -⟩ := ht.handle_before hx
    rw [ht.made]
    exact hs.handle hy
  · obtain ⟨x, hx, hkey⟩ := hs.entry (ht.entry hk)
    obtain ⟨x', hx', hke⟩ := ht.handle_after hx
    exact ⟨x', hx', hke.key.trans hkey⟩

theorem wired_empty : State.empty.Wired := by
  refine ⟨nofun, nofun, fun {key h} hk => ?_⟩
  rw [State.empty, AList.lookup_empty] at hk
  cases hk

/-- **Every reference is to a handle that was made for its key.** -/
theorem wired_of_reach (hs : (machine config).Reach ok s) : s.Wired := by
  refine hs.invariant (I := Wired) wired_empty fun s a t _ hw _ h => ?_
  exact (step_of_eq h).keeps hw (fun hr hen => hr.enter hen) (fun now hr _ => hr.create _ now)
    (fun _ hc hx h => hw.put hc hx h.keys) (fun ht => hw.aside ht)

/-- **The invariant rule of the service**, with `Wired` at hand where it is used. -/
theorem invariant_of_reach {I : State → Prop} (h0 : I State.empty)
    (hen : ∀ {r key h}, r.Wired → I r → r.databases.lookup key = some h → I (r.enter key h))
    (hcr : ∀ {r key} now, r.Wired → I r → r.databases.lookup key = none → I (r.create key now))
    (hca : ∀ {s i act c c' x x'}, (machine config).Reach ok s → I s → ok s (.call i act) →
      s.calls i = some c → s.handles c.handle = some x → c.Step config i x act c' x' →
      I (s.put i c' x')) (hasd : ∀ {s a t}, (machine config).Reach ok s → I s → ok s a →
      s.Aside (s.takes config a) t → I t) (hs : (machine config).Reach ok s) : I s := by
  refine hs.invariant (I := I) h0 fun s a t hr hI hok hst => ?_
  have hw := wired_of_reach hr
  have hbo : t.Wired ∧ I t := by
    refine (step_of_eq hst).keeps (I := fun s => s.Wired ∧ I s) ⟨hw, hI⟩
      (fun hr hentry => ⟨hr.1.enter hentry, hen hr.1 hr.2 hentry⟩)
      (fun now hr hn => ⟨hr.1.create _ now, hcr now hr.1 hr.2 hn⟩)
      (fun ha hc hx h => ?_) (fun ht => ⟨hw.aside ht, hasd hr hI hok ht⟩)
    subst ha
    exact ⟨hw.put hc hx h.keys, hca hr hI hok hc hx h⟩
  exact hbo.2

/-! ## The guard of a connection -/

/-- **The guard of a connection is with the call that has not let go of it.** -/
def Guarded (s : State) : Prop :=
  ∀ h x, s.handles h = some x → ∀ i,
    x.guard = some i ↔ ∃ c, s.calls i = some c ∧ c.handle = h ∧ c.guards = true

theorem Guarded.put (hs : s.Guarded) (hc : s.calls i = some c) (hx : s.handles c.handle = some x)
    (hh : c'.handle = c.handle) (hm : Call.GuardMove i c x c' x') : (s.put i c' x').Guarded := by
  -- the calls of the new state: `i` is `c'`, the others are as they were
  have hse := s.calls_put_self i c' x'
  have ho : ∀ {j}, j ≠ i → (s.put i c' x').calls j = s.calls j :=
    fun hj => update_of_ne hj _ _
  intro h y hy j
  rcases handles_put hy with ⟨rfl, rfl⟩ | ⟨hne, hy⟩
  · have hold := hs c.handle x hx
    rw [hh]
    by_cases hj : j = i
    · subst hj
      have hn : (∃ d, (s.put j c' y).calls j = some d ∧ d.handle = c.handle ∧ d.guards = true) ↔
          c'.guards = true := by
        rw [hse]
        constructor
        · rintro ⟨d, hd, -, hg⟩
          rwa [some.inj hd]
        · intro hg
          exact ⟨c', rfl, hh, hg⟩
      rw [hn]
      cases hm with
      | kept hg hx' =>
        rw [hx', hg, hold j]
        constructor
        · rintro ⟨d, hd, -, hg⟩
          rwa [mem_unique hc hd]
        · intro hg
          exact ⟨c, hc, rfl, hg⟩
      | taken hf hc' hx' => simp [hc', hx']
      | dropped hg hc' hx' => simp [hc', hx']
    · rw [ho hj, ← hold j]
      cases hm with
      | kept hg hx' => rw [hx']
      | taken hf hc' hx' =>
        rw [hx', hf]
        simp [Ne.symm hj]
      | dropped hg hc' hx' =>
        have hhe : x.guard = some i := (hold i).2 ⟨c, hc, rfl, hg⟩
        rw [hx', hhe]
        simp [Ne.symm hj]
  · rw [hs h y hy j]
    by_cases hj : j = i
    · subst hj
      rw [hh] at hne
      rw [hse]
      constructor
      · rintro ⟨d, hd, hdh, -⟩
        rw [← mem_unique hc hd] at hdh
        exact absurd hdh.symm hne
      · rintro ⟨d, hd, hdh, -⟩
        rw [← some.inj hd, hh] at hdh
        exact absurd hdh.symm hne
    · rw [ho hj]

theorem Guarded.enter (hs : s.Guarded) (hw : s.Wired) (key : Key) (h : Nat) :
    (s.enter key h).Guarded := by
  intro g x hx i
  rw [hs g x hx i]
  by_cases hi : i = s.called
  · subst hi
    constructor
    · rintro ⟨c, hc, -, -⟩
      have hlt := (hw.call hc).1
      omega
    · rintro ⟨c, hc, -, hg⟩
      rcases update_some_eq_some hc with ⟨-, rfl⟩ | ⟨hne, -⟩
      · cases hg
      · exact absurd rfl hne
  · rw [show (s.enter key h).calls i = s.calls i from update_of_ne hi _ _]

theorem Guarded.create (hs : s.Guarded) (hw : s.Wired) (key : Key) (now : Nat) :
    (s.create key now).Guarded := by
  intro g x hx i
  rcases update_some_eq_some hx with ⟨rfl, rfl⟩ | ⟨-, hx⟩
  · refine ⟨nofun, ?_⟩
    rintro ⟨c, hc, hh, -⟩
    obtain ⟨-, y, hy, -⟩ := hw.call hc
    have hlt := hw.handle hy
    omega
  · exact hs g x hx i

theorem Guarded.aside (hs : s.Guarded) (ht : s.Aside taken t) : t.Guarded := by
  intro h x' hx' i
  obtain ⟨x, hx, hk⟩ := ht.handle_before hx'
  rw [hk.guard, ht.calls]
  exact hs h x hx i

theorem guarded_of_reach (hs : (machine config).Reach ok s) : s.Guarded :=
  invariant_of_reach (I := Guarded) (fun _ _ hx => (by cases hx)) (fun hw hr _ => hr.enter hw _ _)
    (fun now hw hr _ => hr.create hw _ now)
    (fun _ hg _ hc hx h => hg.put hc hx h.keys.2.1 h.guardMove) (fun _ hg _ ht => hg.aside ht) hs

/-! ## The entries of calls and jobs -/

def Placed (p : Call → Bool) (s : State) : Prop :=
  ∀ i c, s.calls i = some c → p c = true → s.databases.lookup c.key = some c.handle

theorem Placed.enter (hs : s.Placed p) (hen : s.databases.lookup key = some h) :
    (s.enter key h).Placed p := by
  intro i c hc hp
  rcases update_some_eq_some hc with ⟨-, rfl⟩ | ⟨-, hc⟩
  · exact hen
  · exact hs i c hc hp

theorem Placed.create (hs : s.Placed p) (hn : s.databases.lookup key = none) (now : Nat) :
    (s.create key now).Placed p := by
  intro i c hc hp
  have hen := hs i c hc hp
  have hne : c.key ≠ key := by
    rintro rfl
    rw [hn] at hen
    cases hen
  exact (AList.lookup_insert_ne hne).trans hen

theorem Placed.put (hs : s.Placed p) {act : CallAct} (hc : s.calls i = some c)
    (h : c.Step config i x act c' x') (hp : p c' = true → p c = true) :
    (s.put i c' x').Placed p := by
  intro j d hd hpd
  show s.databases.lookup d.key = some d.handle
  rcases update_some_eq_some hd with ⟨-, rfl⟩ | ⟨-, hd⟩
  · obtain ⟨hk, hh, -⟩ := h.keys
    rw [hk, hh]
    exact hs i c hc (hp hpd)
  · exact hs j d hd hpd

theorem Placed.aside (hs : s.Placed p) (ht : s.Aside taken t)
    (hst : ∀ i c, s.calls i = some c → p c = true → s.databases.lookup c.key = some c.handle →
      taken c.key → s.strongCount c.handle ≠ 1) : t.Placed p := by
  intro i c hc hp
  rw [ht.calls] at hc
  have hen := hs i c hc hp
  rcases ht.gone hen with hen' | ⟨htk, ho⟩
  · exact hen'
  · exact absurd ho (hst i c hc hp hen htk)

/-- **The handle of a call that has not ended is the entry of its key.** -/
theorem placed_of_reach (hs : (machine config).Reach ok s) : s.Placed Call.holds := by
  refine invariant_of_reach (I := Placed Call.holds) (fun _ _ hc => (by cases hc))
    (fun _ hr hen => hr.enter hen)
    (fun now _ hr hn => hr.create hn now) (fun _ hp _ hc _ h => hp.put hc h h.holds)
    (fun hr hp _ ht => hp.aside ht fun i c hc hh hen _ ho => ?_) hs
  have hf := (of_strongCount_eq_one hen ho).1 i c ((wired_of_reach hr).call hc).1 hc rfl
  rw [hf] at hh
  cases hh

/-! ## Before and after a step -/

theorem Step.call_before (h : s.Step config a t) (hc' : t.calls i = some c') :
    (∃ c, s.calls i = some c ∧ c.key = c'.key ∧ c.handle = c'.handle ∧
        (c'.holds = true → c.holds = true)) ∨
      c'.stage = .entered ∧ i = s.called ∧ ∃ victim now, a = .submit c'.key victim now := by
  cases h with
  | enter victim now hen =>
    rcases update_some_eq_some hc' with ⟨hi, rfl⟩ | ⟨-, hc⟩
    · exact .inr ⟨rfl, hi, victim, now, rfl⟩
    · exact .inl ⟨c', hc, rfl, rfl, id⟩
  | create victim now hen ht =>
    rcases update_some_eq_some hc' with ⟨hi, rfl⟩ | ⟨-, hc⟩
    · exact .inr ⟨rfl, hi.trans ht.called, victim, now, rfl⟩
    · exact .inl ⟨c', ht.calls ▸ hc, rfl, rfl, id⟩
  | call hc hx h =>
    rcases update_some_eq_some hc' with ⟨rfl, rfl⟩ | ⟨-, hc⟩
    · exact .inl ⟨_, hc, h.keys.1.symm, h.keys.2.1.symm, h.holds⟩
    · exact .inl ⟨c', hc, rfl, rfl, id⟩
  | thin ht => exact .inl ⟨c', ht.calls ▸ hc', rfl, rfl, id⟩
  | _ => exact .inl ⟨c', hc', rfl, rfl, id⟩

theorem Step.call_after (hw : s.Wired) (h : s.Step config a t) (hc : s.calls i = some c) :
    t.calls i = some c ∨ ∃ act c' x x', a = .call i act ∧ t.calls i = some c' ∧
      s.handles c.handle = some x ∧ c.Step config i x act c' x' := by
  have hne : i ≠ s.called := Nat.ne_of_lt (hw.call hc).1
  cases h with
  | enter victim now hen => exact .inl ((update_of_ne hne _ _).trans hc)
  | create victim now hen ht =>
    refine .inl ((update_of_ne ?_ _ _).trans (ht.calls ▸ hc))
    rw [← ht.called] at hne
    exact hne
  | @call j act d d' x x' hd hx h =>
    by_cases hij : i = j
    · subst hij
      obtain rfl : c = d := mem_unique hc hd
      exact .inr ⟨act, d', x, x', rfl, update_self .., hx, h⟩
    · exact .inl ((update_of_ne hij _ _).trans hc)
  | thin ht => exact .inl (ht.calls ▸ hc)
  | _ => exact .inl hc

theorem Step.entry_before (h : s.Step config a t) {g : Nat}
    (hen : t.databases.lookup key = some g) :
    s.databases.lookup key = some g ∨ ∃ victim now, a = .submit key victim now := by
  cases h with
  | @create key' r victim now hn ht =>
    by_cases hk : key = key'
    · subst hk
      exact .inr ⟨victim, now, rfl⟩
    · exact .inl (ht.entry ((AList.lookup_insert_ne hk).symm.trans hen))
  | thin ht => exact .inl (ht.entry hen)
  | _ => exact .inl hen

end State

def startJob (i : Nat) : List Act :=
  [.call i (.submit .count), .call i (.run .lock), .call i (.run .openFile), .call i (.run .opened),
    .call i (.run .spawn)]

def commitOne (i : Nat) : List Act :=
  [.call i (.job .beginStatement), .call i (.job .hook), .call i (.job .visible),
    .call i (.job (.endStatement true)), .call i (.job (.finish false))]

def noteCommit (i now : Nat) : List Act :=
  [.call i (.run .learn), .call i (.submit .uncount), .call i (.submit (.touch now)),
    .call i (.submit .load), .call i (.submit .compare), .call i (.submit .check),
    .call i (.submit (.note now))]

end OpenWorkersRunner.D1
