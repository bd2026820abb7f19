import OpenWorkersRunner.D1.ServiceStep

/-!
# D1: what a snapshot covers

`saved` is the value of `commits` that a snapshot loaded before it copied the database, and a
database with `commits = saved` counts as saved.  The commit hook counts a transaction before other
connections see it.  A snapshot that loads `commits` between the two and copies the database before
the transaction is visible counts it as covered, and has not got it (`snapshot_without_commit`).
-/

namespace OpenWorkersRunner.D1

open Option

variable {config : Config}

namespace Handle

def pending (x : Handle) : Option Nat := x.database.bind Connection.pending

structure Covers (x : Handle) (n : Nat) (copy : List Nat) : Prop where
  visible : ∀ k ∈ x.visible, k < n → k ∈ copy
  pending : ∀ k, x.pending = some k → n ≤ k

structure Logged (x : Handle) : Prop where
  saved : x.saved ≤ x.commits
  visible : ∀ k ∈ x.visible, k < x.commits
  pending : ∀ k, x.pending = some k → k < x.commits
  covers : x.Covers x.saved x.recorded

/-- What everything but a snapshot does to the transactions: new ones are counted, and those on
their way become visible, or do not. -/
structure Advances (x x' : Handle) : Prop where
  commits : x.commits ≤ x'.commits
  visible : ∀ k ∈ x'.visible, k ∈ x.visible ∨ x.pending = some k
  pending : ∀ k, x'.pending = some k → x.pending = some k ∨ x.commits ≤ k ∧ k < x'.commits
  saved : x'.saved = x.saved
  recorded : x'.recorded = x.recorded

variable {x x' : Handle} {n : Nat} {copy : List Nat}

theorem Advances.of_eq (hco : x'.commits = x.commits) (hv : x'.visible = x.visible)
    (hp : x'.pending = x.pending) (hsa : x'.saved = x.saved)
    (hre : x'.recorded = x.recorded) : x.Advances x' :=
  ⟨Nat.le_of_eq hco.symm, fun _ hk => .inl (hv ▸ hk), fun _ hk => .inl (hp ▸ hk), hsa, hre⟩

theorem Advances.refl (x : Handle) : x.Advances x := .of_eq rfl rfl rfl rfl rfl

theorem Advances.of_none (hco : x'.commits = x.commits) (hv : x'.visible = x.visible)
    (hp : x'.pending = none) (hsa : x'.saved = x.saved)
    (hre : x'.recorded = x.recorded) : x.Advances x' := by
  refine ⟨Nat.le_of_eq hco.symm, fun _ hk => .inl (hv ▸ hk), fun _ hk => ?_, hsa, hre⟩
  rw [hp] at hk
  cases hk

theorem Covers.advance (h : x.Covers n copy) (hn : n ≤ x.commits) (hx : x.Advances x') :
    x'.Covers n copy := by
  refine ⟨fun k hk hlt => ?_, fun k hk => ?_⟩
  · rcases hx.visible k hk with hk | hk
    · exact h.visible k hk hlt
    · have hle := h.pending k hk
      omega
  · rcases hx.pending k hk with hk | ⟨hle, -⟩
    · exact h.pending k hk
    · omega

theorem Logged.advance (h : x.Logged) (hx : x.Advances x') : x'.Logged := by
  have hco := hx.commits
  refine ⟨?_, fun k hk => ?_, fun k hk => ?_, ?_⟩
  · rw [hx.saved]
    exact Nat.le_trans h.saved hco
  · rcases hx.visible k hk with hk | hk
    · exact Nat.lt_of_lt_of_le (h.visible k hk) hco
    · exact Nat.lt_of_lt_of_le (h.pending k hk) hco
  · rcases hx.pending k hk with hk | ⟨-, hlt⟩
    · exact Nat.lt_of_lt_of_le (h.pending k hk) hco
    · exact hlt
  · rw [hx.saved, hx.recorded]
    exact h.covers.advance h.saved hx

theorem logged_new (key : Key) (now : Nat) : (Handle.new key now).Logged :=
  ⟨Nat.le_refl _, nofun, nofun, nofun, nofun⟩

theorem pending_interrupt (x : Handle) (i num : Nat) :
    (x.interrupt i num).pending = x.pending := by
  rw [pending, pending, interrupt]
  cases x.database with
  | none => rfl
  | some d =>
    show Connection.pending (if _ then _ else _) = d.pending
    split <;> rfl

theorem advances_close (x : Handle) : x.Advances x.close := by
  by_cases hgr : x.guard = none
  · refine .of_none rfl rfl ?_ rfl rfl
    rw [pending, close, if_pos hgr]
    rfl
  · refine .of_eq rfl rfl ?_ rfl rfl
    rw [pending, close, if_neg hgr]
    rfl

end Handle

variable {x x' : Handle}

theorem Call.Step.advances {i : Nat} {c c' : Call} {a : CallAct} (h : c.Step config i x a c' x')
    (hc : ∀ n, c.stage ≠ .loaded n) : x.Advances x' := by
  have hda : ∀ {d : Connection}, x.database = some d → x.pending = d.pending := by
    intro d hd
    rw [Handle.pending, hd]
    rfl
  cases h with
  | store hst => exact absurd hst (hc _)
  | opened hst => exact .of_none rfl rfl rfl rfl rfl
  | deadline hst => exact .of_eq rfl rfl (x.pending_interrupt _ _) rfl rfl
  | cancelRunning hst => exact .of_eq rfl rfl (x.pending_interrupt _ _) rfl rfl
  | beginStatement hj hd hid => exact .of_eq rfl rfl (hda hd).symm rfl rfl
  | endStatement ok hj hd hp => exact .of_eq rfl rfl (hda hd).symm rfl rfl
  | hook hj hd hp =>
    refine ⟨Nat.le_succ _, fun _ hk => .inl hk, fun k hk => .inr ?_, rfl, rfl⟩
    obtain rfl : x.commits = k := some.inj hk
    exact ⟨Nat.le_refl _, Nat.lt_succ_self _⟩
  | visible hj hd hp =>
    refine ⟨Nat.le_refl _, fun k hk => ?_, nofun, rfl, rfl⟩
    rcases List.mem_append.1 hk with hk | hk
    · exact .inl hk
    · rw [List.mem_singleton.1 hk]
      exact .inr ((hda hd).trans hp)
  | rollback hj hd hp => exact .of_none rfl rfl rfl rfl rfl
  | _ => exact .of_eq rfl rfl rfl rfl rfl

theorem Call.Step.not_loaded {i : Nat} {c c' : Call} {a : CallAct} (h : c.Step config i x a c' x')
    (ha : config.archive = true) (hc : ∀ n, c.stage ≠ .loaded n) :
    ∀ n, c'.stage ≠ .loaded n := by
  intro n hn
  cases h with
  | load hst ho => rw [ha] at ho; cases ho
  | beginStatement => exact hc n hn
  | hook => exact hc n hn
  | visible => exact hc n hn
  | rollback => exact hc n hn
  | endStatement ok hj => cases hst : c.stage <;> simp_all [Stage.withJob]
  | finish panicked hj => cases hst : c.stage <;> simp_all [Stage.withJob]
  | _ => cases hn

/-! ## Snapshots under way -/

structure Snapshot.Fits (p : Snapshot) (x : Handle) : Prop where
  covered : p.covered ≤ x.commits
  copied : ∀ copy, p.stage = .copied copy → x.Covers p.covered copy ∧ x.Covers x.saved copy
  recorded : p.stage = .recorded → x.Covers p.covered x.recorded

theorem Snapshot.Fits.advance {p : Snapshot} (h : p.Fits x) (hx : x.Logged)
    (ha : x.Advances x') : p.Fits x' := by
  refine ⟨Nat.le_trans h.covered ha.commits, fun copy hst => ?_, fun hst => ?_⟩
  · obtain ⟨hco, hsa⟩ := h.copied copy hst
    rw [ha.saved]
    exact ⟨hco.advance h.covered ha, hsa.advance hx.saved ha⟩
  · rw [ha.recorded]
    exact (h.recorded hst).advance h.covered ha

/-- A step of a snapshot, whose copy is taken while nothing that was counted before is on its
way. -/
theorem Snapshot.step_fits {p : Snapshot} {a : PassAct} {p' : Option Snapshot}
    (h : p.step x a = some (p', x')) (hx : x.Logged) (hp : p.Fits x)
    (hcop : a = .copy → ∀ k, x.pending = some k → p.covered ≤ k) :
    x'.Logged ∧ ∀ q, p' = some q → q.handle = p.handle ∧ q.Fits x' := by
  unfold Snapshot.step at h
  split at h
  · -- the copy holds what is visible, and nothing else that is covered is on its way
    cases h
    have hco : ∀ n, (∀ k, x.pending = some k → n ≤ k) → x.Covers n x.visible :=
      fun n hn => ⟨fun k hk _ => hk, hn⟩
    refine ⟨hx, fun q hq => ?_⟩
    cases hq
    refine ⟨rfl, hp.covered, fun copy hst => ?_, nofun⟩
    cases hst
    exact ⟨hco _ (hcop rfl), hco _ hx.covers.pending⟩
  next copy hst =>
    cases h
    obtain ⟨hcovers, hsa⟩ := hp.copied copy hst
    refine ⟨⟨hx.saved, hx.visible, hx.pending, ⟨hsa.visible, hsa.pending⟩⟩, fun q hq => ?_⟩
    cases hq
    exact ⟨rfl, hp.covered, nofun, fun _ => ⟨hcovers.visible, hcovers.pending⟩⟩
  next hst =>
    cases h
    have hcovers := hp.recorded hst
    refine ⟨⟨hp.covered, hx.visible, hx.pending, ⟨hcovers.visible, hcovers.pending⟩⟩,
      fun q hq => ?_⟩
    cases hq
    exact ⟨rfl, hp.covered, nofun, nofun⟩
  · cases h
    refine ⟨hx, fun q hq => ?_⟩
    cases hq
    exact ⟨rfl, hp.covered, nofun, nofun⟩
  · cases h
    exact ⟨⟨hx.saved, hx.visible, hx.pending, ⟨hx.covers.visible, hx.covers.pending⟩⟩, nofun⟩
  · cases h
    exact ⟨hx, nofun⟩
  · cases h
    exact ⟨hx, nofun⟩
  · cases h
    exact ⟨hx, nofun⟩
  · cases h

/-! ## Runs -/

namespace State

variable {s t : State}

def copiesSettled (s : State) : Act → Bool
  | .pass .copy =>
    (s.pass.bind Pass.current).all fun snapshot =>
      (s.handles snapshot.handle).all fun x => x.pending.all fun k => decide (snapshot.covered ≤ k)
  | _ => true

structure Archived (s : State) : Prop where
  call : ∀ i c, s.calls i = some c → ∀ n, c.stage ≠ .loaded n
  handle : ∀ h x, s.handles h = some x → x.Logged
  pass : ∀ p snapshot, s.pass = some p → p.current = some snapshot →
    ∃ x, s.handles snapshot.handle = some x ∧ snapshot.Fits x

theorem Archived.advance (hs : s.Archived)
    (hcl : ∀ i c, t.calls i = some c → ∀ n, c.stage ≠ .loaded n) (hpa : t.pass = s.pass)
    (hh : ∀ h, Option.Rel Handle.Advances (s.handles h) (t.handles h)) : t.Archived := by
  refine ⟨hcl, fun h x' hx' => ?_, fun p snap hp hcu => ?_⟩
  · have hre := hh h
    rw [hx'] at hre
    obtain ⟨x, hx, ha⟩ := hre.exists_of_some_right
    exact (hs.handle h x hx).advance ha
  · rw [hpa] at hp
    obtain ⟨x, hx, hf⟩ := hs.pass p snap hp hcu
    have hre := hh snap.handle
    rw [hx] at hre
    obtain ⟨x', hx', ha⟩ := hre.exists_of_some_left
    exact ⟨x', hx', hf.advance (hs.handle _ x hx) ha⟩

variable {x : Handle}

theorem Archived.put (hs : s.Archived) (ha : config.archive = true) {i : Nat} {c c' : Call}
    {x' : Handle} {a : CallAct} (hc : s.calls i = some c) (hx : s.handles c.handle = some x)
    (h : c.Step config i x a c' x') : (s.put i c' x').Archived := by
  refine hs.advance (fun j d hd => ?_) rfl fun g => ?_
  · rcases update_some_eq_some hd with ⟨-, rfl⟩ | ⟨-, hd⟩
    · exact h.not_loaded ha (hs.call i c hc)
    · exact hs.call j d hd
  · refine rel_update_some Handle.Advances.refl ?_ (h.advances (hs.call i c hc)) g
    rw [h.keys.2.1, hx]

theorem Archived.thin {taken : Key → Prop} (hs : s.Archived) (ht : s.Thinned taken t) :
    t.Archived := by
  refine hs.advance (fun i c hc => hs.call i c (by rwa [ht.calls] at hc)) ht.pass ?_
  exact ht.rel .refl Handle.advances_close

theorem Archived.enter (hs : s.Archived) (key : Key) (h : Nat) : (s.enter key h).Archived := by
  refine hs.advance (fun i c hc => ?_) rfl fun g => .self .refl _
  rcases update_some_eq_some hc with ⟨-, rfl⟩ | ⟨-, hc⟩
  · exact nofun
  · exact hs.call i c hc

theorem Archived.create (hs : s.Archived) (hw : s.Wired) (key : Key) (now : Nat) :
    (s.create key now).Archived := by
  refine ⟨hs.call, fun h x hx => ?_, fun p snap hp hcu => ?_⟩
  · rcases update_some_eq_some hx with ⟨-, rfl⟩ | ⟨-, hx⟩
    · exact Handle.logged_new key now
    · exact hs.handle h x hx
  · obtain ⟨x, hx, hf⟩ := hs.pass p snap hp hcu
    exact ⟨x, (Function.update_of_ne (Nat.ne_of_lt (hw.handle hx)) _ _).trans hx, hf⟩

theorem Archived.idle (hs : s.Archived) {pass : Option Pass}
    (hpa : ∀ p, pass = some p → p.current = none) : Archived { s with pass := pass } := by
  refine ⟨hs.call, hs.handle, fun p snap hp hcu => ?_⟩
  rw [hpa p hp] at hcu
  cases hcu

theorem Archived.load (hs : s.Archived) {h : Nat} (hx : s.handles h = some x) (todo : List Nat)
    (now : Nat) : Archived { s with pass := some ⟨todo, some ⟨h, now, x.commits, .loaded⟩⟩ } := by
  refine ⟨hs.call, hs.handle, fun p snap hp hcu => ?_⟩
  cases hp
  cases hcu
  exact ⟨x, hx, Nat.le_refl _, nofun, nofun⟩

theorem Archived.snapshot (hs : s.Archived) {a : PassAct} {p : Pass} {snapshot : Snapshot}
    {snapshot' : Option Snapshot} {x' : Handle} (hp : s.pass = some p)
    (hcu : p.current = some snapshot) (hx : s.handles snapshot.handle = some x)
    (h : snapshot.step x a = some (snapshot', x')) (hok : s.copiesSettled (.pass a) = true) :
    Archived
      { s.setHandle snapshot.handle x' with pass := some { p with current := snapshot' } } := by
  obtain ⟨y, hy, hf⟩ := hs.pass p snapshot hp hcu
  obtain rfl : x = y := mem_unique hx hy
  have hco : a = .copy → ∀ k, x.pending = some k → snapshot.covered ≤ k := by
    rintro rfl k hk
    rw [copiesSettled, hp, bind_some, hcu, all_some, hx, all_some, hk] at hok
    exact of_decide_eq_true hok
  obtain ⟨hl, hn⟩ := Snapshot.step_fits h (hs.handle _ x hx) hf hco
  refine ⟨hs.call, fun g z hz => ?_, fun q snap hq hsn => ?_⟩
  · rcases update_some_eq_some hz with ⟨-, rfl⟩ | ⟨-, hz⟩
    · exact hl
    · exact hs.handle g z hz
  · cases hq
    obtain ⟨hh, hf'⟩ := hn snap hsn
    refine ⟨x', ?_, hf'⟩
    rw [hh]
    exact Function.update_self ..

theorem archived_empty : State.empty.Archived := by
  refine ⟨fun _ _ hc => ?_, fun _ _ hx => ?_, fun _ _ hp => ?_⟩
  · cases hc
  · cases hx
  · cases hp

theorem archived_of_reach (ha : config.archive = true)
    (hs : (machine config).Reach (fun s a => s.copiesSettled a = true) s) : s.Archived := by
  refine hs.invariant (I := Archived) archived_empty fun s a t hr hI hok hst => ?_
  have hm : s.Step config a t := step_of_eq hst
  clear hst
  cases hm with
  | enter victim now hen => exact hI.enter _ _
  | create victim now hen ht =>
    exact ((hI.thin ht).create ((wired_of_reach hr).aside ht.aside) _ now).enter _ _
  | call hc hx h => exact hI.put ha hc hx h
  | thin ht => exact hI.thin ht
  | snapshotAll todo => exact hI.idle fun p hp => by cases hp; rfl
  | load now hp hx => exact hI.load hx _ now
  | passEnds a => exact hI.idle nofun
  | snapshot hp hcu hx h => exact hI.snapshot hp hcu hx h hok

end State

/-- **What a snapshot covers.**  In the runs of a service with an archive in which a copy is taken
only when no transaction that was counted before is on its way, the snapshot recorded last holds
every visible one of the first `saved` transactions; so it holds every visible one of a database
that has no unsaved commits. -/
theorem snapshot_holds_saved (config : Config) (harchive : config.archive = true) {s : State}
    (hs : (machine config).Reach (fun s a => s.copiesSettled a = true) s) {h : Nat} {x : Handle}
    (hx : s.handles h = some x) :
    (∀ k < x.saved, k ∈ x.visible → k ∈ x.recorded) ∧
      (x.unsaved = false → ∀ k ∈ x.visible, k ∈ x.recorded) := by
  have hlogged := (State.archived_of_reach harchive hs).handle h x hx
  have hsaved : ∀ k < x.saved, k ∈ x.visible → k ∈ x.recorded :=
    fun k hk hvis => hlogged.covers.visible k hvis hk
  refine ⟨hsaved, fun hcl k hvis => hsaved k ?_ hvis⟩
  have heq : x.commits = x.saved := by simpa [Handle.unsaved] using hcl
  have hlt := hlogged.visible k hvis
  omega

/-- A transaction is counted, a snapshot of the database starts, and it is recorded and stored after
what comes between. -/
def snapshotDuring (k : Key) (between : List Act) : List Act :=
  Act.submit k none 0 :: startJob 0 ++
    [Act.call 0 (.job .beginStatement), .call 0 (.job .hook), .snapshotAll, .pass (.load 0 5)] ++
    between ++ [Act.pass .record, .pass .store]

theorem snapshot_holds_saved_committed :
    ∃ s x, (machine ⟨64, 256, 300, true⟩).Reach (fun s a => s.copiesSettled a = true) s ∧
      s.handles 0 = some x ∧ x.saved = 1 ∧ x.visible = [0] ∧ 0 ∈ x.recorded := by
  obtain ⟨s, hs, hp⟩ := Machine.exists_reach_of_runIf (M := machine ⟨64, 256, 300, true⟩)
    State.copiesSettled (fun _ _ _ h => h)
    (snapshotDuring (.database 1) [.call 0 (.job .visible), .pass .copy])
    (fun s => (s.handles 0).any fun x => x.saved == 1 && x.visible == [0]) (by decide)
  obtain ⟨x, hx, hp⟩ := (any_eq_true _ _).1 hp
  rw [Bool.and_eq_true, beq_iff_eq, beq_iff_eq] at hp
  obtain ⟨hsaved, hvis⟩ := hp
  refine ⟨s, x, hs, hx, hsaved, hvis, ?_⟩
  exact (snapshot_holds_saved _ rfl hs hx).1 0 (by omega) (by rw [hvis]; decide)

/-- **A snapshot counts a commit that it has not got**: the copy is taken between the commit hook
and the moment the transaction is visible. -/
theorem snapshot_without_commit :
    ¬ ∀ config s, config.archive = true → (machine config).Reachable s →
      ∀ h x, s.handles h = some x → (∀ k < x.saved, k ∈ x.visible → k ∈ x.recorded) ∧
          (x.unsaved = false → ∀ k ∈ x.visible, k ∈ x.recorded) := by
  intro h
  obtain ⟨s, hs, hp⟩ := (machine ⟨64, 256, 300, true⟩).exists_of_run
    (snapshotDuring (.database 1) [.pass .copy, .call 0 (.job .visible)])
    (fun s => (s.handles 0).any fun x =>
      x.saved == 1 && x.visible == [0] && x.recorded == [] && !x.unsaved) (by decide)
  obtain ⟨x, hx, hp⟩ := (any_eq_true _ _).1 hp
  simp only [Bool.and_eq_true, beq_iff_eq] at hp
  obtain ⟨⟨⟨hsaved, hvis⟩, hrec⟩, -⟩ := hp
  have hheld := (h _ s rfl hs 0 x hx).1 0 (by omega) (by rw [hvis]; decide)
  rw [hrec] at hheld
  cases hheld

end OpenWorkersRunner.D1
