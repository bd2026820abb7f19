import OpenWorkersRunner.D1.Snapshot

/-!
# D1: whether an unsaved commit is noted

`commits`, `saved` and `unsaved_since` are three cells of a handle.  The commit hook writes the
first one, a snapshot the second one, and calls and snapshots the third one.  The alert and the
write pause look at `unsaved_since` alone.
-/

namespace OpenWorkersRunner.D1

open Function Option

variable {config : Config}

/-! ## Who has still to look -/

def Call.notes (c : Call) (saved : Nat) : Bool :=
  match c.stage with
  | .running _ _ _ | .returned | .uncounted | .touched | .settled | .noting => true
  | .comparing commits => commits != saved
  | _ => false

def Snapshot.hasStored (p : Snapshot) : Bool :=
  match p.stage with
  | .stored | .reloaded _ => true
  | _ => false

/-- The snapshot has stored `saved`, and has still to look at `commits` or has seen that they are
not what it covers. -/
def Snapshot.rewrites (p : Snapshot) : Bool :=
  match p.stage with
  | .stored => true
  | .reloaded commits => commits != p.covered
  | _ => false

variable {c : Call} {x x' : Handle}

theorem Call.notes_of_job {job : Job} (hj : c.stage.job = some job) (hh : c.holds = true)
    (saved : Nat) : c.notes saved = true := by
  cases hst : c.stage <;> simp_all [Stage.job, Call.holds, Call.notes]

theorem Call.notes_withJob (job : Job) (saved : Nat) :
    Call.notes { c with stage := c.stage.withJob job } saved = c.notes saved := by
  cases hst : c.stage <;> simp [Stage.withJob, Call.notes, hst]

namespace State

/-- **The runs in which no commit of the handle is overlooked**: a caller is dropped while its job
is with the blocking threads only if nothing is left to note, the job of such a caller commits
nothing any more, and `commits` is what it was when a snapshot clears `unsaved_since`. -/
def attends (h : Nat) (s : State) : Act → Bool
  | .call i (.run .cancel) =>
    (s.calls i).all fun c => c.handle != h || c.stage.job.isNone ||
      (s.handles h).all fun x => !x.unsaved || x.unsavedSince.isSome
  | .call i (.job .hook) => (s.calls i).all fun c => c.handle != h || c.holds
  | .pass .note =>
    (s.pass.bind Pass.current).all fun p => p.handle != h || p.rewrites ||
      (s.handles h).all fun x => x.commits == p.covered
  | _ => true

def Noting (s : State) (h saved : Nat) : Prop :=
  ∃ i c, s.calls i = some c ∧ c.handle = h ∧ c.notes saved = true

def Rewriting (s : State) (h : Nat) : Prop :=
  ∃ p snapshot, s.pass = some p ∧ p.current = some snapshot ∧ snapshot.handle = h ∧
    snapshot.rewrites = true

/-- **What holds of the handle in these runs**: an unsaved commit is noted, or somebody has still to
look. -/
structure Watched (h : Nat) (s : State) : Prop where
  call : ∀ i c, s.calls i = some c → ∀ n, c.stage ≠ .loaded n
  stored : ∀ p snapshot, s.pass = some p → p.current = some snapshot → snapshot.handle = h →
    ∃ x, s.handles h = some x ∧ (snapshot.hasStored = true → x.saved = snapshot.covered)
  noted : ∀ x, s.handles h = some x → x.commits ≠ x.saved →
    x.unsavedSince ≠ none ∨ s.Noting h x.saved ∨ s.Rewriting h

end State

/-! ## The steps of a call -/

/-- **A step of a call on the handle** leaves an unsaved commit noted, or to the call itself, or to
whoever had to look at it before. -/
theorem Call.Step.noted {i : Nat} {c' : Call} {a : CallAct} (hst : c.Step config i x a c' x')
    (ha : config.archive = true) (hl : ∀ n, c.stage ≠ .loaded n)
    (hca : a = .run .cancel → c.stage.job ≠ none → x.commits = x.saved ∨ x.unsavedSince ≠ none)
    (hh : a = .job .hook → c.holds = true) (hu : x'.commits ≠ x'.saved) :
    x'.unsavedSince ≠ none ∨ c'.notes x'.saved = true ∨
      x.commits ≠ x.saved ∧ x'.unsavedSince = x.unsavedSince ∧ c.notes x.saved = false := by
  -- a step of the job leaves the matter to its caller, if it has one
  have hj (hsa : c'.notes x.saved = c.notes x.saved) (hx : x.commits ≠ x.saved) :
      x.unsavedSince ≠ none ∨ c'.notes x.saved = true ∨
        x.commits ≠ x.saved ∧ x.unsavedSince = x.unsavedSince ∧ c.notes x.saved = false := by
    cases hn : c.notes x.saved with
    | true => exact .inr (.inl (hsa.trans hn))
    | false => exact .inr (.inr ⟨hx, rfl, rfl⟩)
  cases hst with
  | load hc ho =>
    rw [ha] at ho
    cases ho
  | store hc => exact absurd hc (hl _)
  | compare hc => exact .inr (.inl (bne_iff_ne.2 hu))
  | clean hc hsaved => exact .inr (.inr ⟨hu, rfl, by simp [Call.notes, hc, hsaved]⟩)
  | note now hc => exact .inl (some_ne_none _)
  | cancelRunning hc =>
    rcases hca rfl (by simp [hc, Stage.job]) with hsaved | hno
    · exact absurd hsaved hu
    · exact .inl hno
  | hook hc => exact .inr (.inl (Call.notes_of_job hc (hh rfl) _))
  | beginStatement => exact hj rfl hu
  | visible => exact hj rfl hu
  | rollback => exact hj rfl hu
  | endStatement ok hc => exact hj (Call.notes_withJob _ _) hu
  | finish panicked hc => exact hj (Call.notes_withJob _ _) hu
  | counted hc | refused hc | refuse hc | lock hc | openFile hc | opened hc | cancelQueued hc
  | cancelOpening hc =>
    exact .inr (.inr ⟨hu, rfl, by rw [Call.notes, hc]⟩)
  | _ => exact .inr (.inl rfl)

/-! ## The steps of a snapshot -/

theorem Snapshot.step_stored {p q : Snapshot} {a : PassAct} (h : p.step x a = some (some q, x'))
    (hst : p.hasStored = true → x.saved = p.covered) (hq : q.hasStored = true) :
    x'.saved = q.covered := by
  unfold Snapshot.step at h
  split at h <;> cases h
  · cases hq
  · cases hq
  · rfl
  · exact hst (by simp [hasStored, *])

/-- **A step of a snapshot of the handle** leaves an unsaved commit noted, or to the snapshot, or to
whoever had to look at it before. -/
theorem Snapshot.step_noted {p : Snapshot} {p' : Option Snapshot} {a : PassAct}
    (h : p.step x a = some (p', x')) (hstored : p.hasStored = true → x.saved = p.covered)
    (hn : a = .note → p.rewrites = true ∨ x.commits = p.covered)
    (hu : x'.commits ≠ x'.saved) :
    x'.unsavedSince ≠ none ∨ (∃ q, p' = some q ∧ q.rewrites = true) ∨
      x.commits ≠ x.saved ∧ x'.unsavedSince = x.unsavedSince ∧ x'.saved = x.saved ∧
        p.rewrites = false := by
  unfold Snapshot.step at h
  split at h
  case h_3 =>
    cases h
    exact .inr (.inl ⟨_, rfl, rfl⟩)
  case h_4 hst =>
    -- `saved` is what the snapshot covers, so it sees the commit
    cases h
    have hco := hstored (by rw [hasStored, hst])
    rw [hco] at hu
    exact .inr (.inl ⟨_, rfl, bne_iff_ne.2 hu⟩)
  case h_5 hst =>
    cases h
    refine .inl ?_
    have hco := hstored (by rw [hasStored, hst])
    rcases hn rfl with hre | hcom
    · rw [rewrites, hst] at hre
      simp [bne_iff_ne.1 hre]
    · exact absurd (hcom.trans hco.symm) hu
  case h_9 => cases h
  all_goals
    cases h
    exact .inr (.inr ⟨hu, rfl, rfl, by simp [rewrites, *]⟩)

structure Handle.Level (x x' : Handle) : Prop where
  commits : x'.commits = x.commits
  saved : x'.saved = x.saved
  unsavedSince : x'.unsavedSince = x.unsavedSince

theorem Handle.Level.refl (x : Handle) : x.Level x := ⟨rfl, rfl, rfl⟩

namespace State

variable {s t : State} {h : Nat}

/-! ## The steps of the service -/

theorem Watched.frame (hs : s.Watched h)
    (hcl : ∀ i c, s.calls i = some c → c.handle = h → t.calls i = some c)
    (hl : ∀ i c, t.calls i = some c → ∀ n, c.stage ≠ .loaded n) (hpa : t.pass = s.pass)
    (hhd : Option.Rel Handle.Level (s.handles h) (t.handles h)) : t.Watched h := by
  refine ⟨hl, fun p snap hp hcu hh => ?_, fun x' hx' hu => ?_⟩
  · rw [hpa] at hp
    obtain ⟨x, hx, hst⟩ := hs.stored p snap hp hcu hh
    rw [hx] at hhd
    obtain ⟨x', hx', hle⟩ := hhd.exists_of_some_left
    exact ⟨x', hx', fun hq => hle.saved.trans (hst hq)⟩
  · rw [hx'] at hhd
    obtain ⟨x, hx, hle⟩ := hhd.exists_of_some_right
    rw [hle.commits, hle.saved] at hu
    rw [hle.unsavedSince, hle.saved, Rewriting, hpa]
    refine (hs.noted x hx hu).imp_right (Or.imp_left ?_)
    rintro ⟨i, c, hc, hh, hn⟩
    exact ⟨i, c, hcl i c hc hh, hh, hn⟩

theorem Watched.thin {taken : Key → Prop} (hs : s.Watched h) (ht : s.Thinned taken t) :
    t.Watched h := by
  refine hs.frame (fun i c hc _ => ht.calls ▸ hc) (fun i c hc => hs.call i c (ht.calls ▸ hc))
    ht.pass ?_
  exact ht.rel .refl (fun _ => ⟨rfl, rfl, rfl⟩) h

theorem Watched.enter (hs : s.Watched h) (hw : s.Wired) (key : Key) (g : Nat) :
    (s.enter key g).Watched h := by
  refine hs.frame (fun i c hc _ => ?_) (fun i c hc => ?_) rfl (.self .refl _)
  · exact (update_of_ne (Nat.ne_of_lt (hw.call hc).1) _ _).trans hc
  · rcases update_some_eq_some hc with ⟨-, rfl⟩ | ⟨-, hc⟩
    · exact nofun
    · exact hs.call i c hc

theorem Watched.create (hs : s.Watched h) (hw : s.Wired) (key : Key) (now : Nat) :
    (s.create key now).Watched h := by
  by_cases hn : h = s.made
  · subst hn
    refine ⟨hs.call, fun p snap hp hcu hh => ?_, fun x hx hu => ?_⟩
    · obtain ⟨x, hx, -⟩ := hs.stored p snap hp hcu hh
      exact absurd (hw.handle hx) (Nat.lt_irrefl _)
    · rcases update_some_eq_some hx with ⟨-, rfl⟩ | ⟨hne, -⟩
      · exact absurd rfl hu
      · exact absurd rfl hne
  · refine hs.frame (fun _ _ hc _ => hc) hs.call rfl ?_
    rw [show (s.create key now).handles h = s.handles h from update_of_ne hn _ _]
    exact .self .refl _

variable {x : Handle}

theorem attends_call {i : Nat} {c : Call} {a : CallAct} (hc : s.calls i = some c)
    (hx : s.handles c.handle = some x) (hok : s.attends c.handle (.call i a) = true) :
    (a = .run .cancel → c.stage.job ≠ none → x.commits = x.saved ∨ x.unsavedSince ≠ none) ∧
      (a = .job .hook → c.holds = true) := by
  constructor
  · rintro rfl hj
    simpa [attends, hc, hx, hj, Handle.unsaved, isSome_iff_ne_none] using hok
  · rintro rfl
    simpa [attends, hc] using hok

theorem Watched.put (hs : s.Watched h) (ha : config.archive = true) {i : Nat} {c c' : Call}
    {x' : Handle} {a : CallAct} (hc : s.calls i = some c) (hx : s.handles c.handle = some x)
    (hst : c.Step config i x a c' x') (hok : s.attends h (.call i a) = true) :
    (s.put i c' x').Watched h := by
  have hl : ∀ j d, (s.put i c' x').calls j = some d → ∀ n, d.stage ≠ .loaded n := by
    intro j d hd
    rcases update_some_eq_some hd with ⟨-, rfl⟩ | ⟨-, hd⟩
    · exact hst.not_loaded ha (hs.call i c hc)
    · exact hs.call j d hd
  have hot : ∀ {j}, j ≠ i → (s.put i c' x').calls j = s.calls j :=
    fun hj => update_of_ne hj _ _
  have hhd : c'.handle = c.handle := hst.keys.2.1
  by_cases ho : c.handle = h
  case neg =>
    refine hs.frame (fun j d hd hh => ?_) hl rfl ?_
    · refine (hot ?_).trans hd
      rintro rfl
      cases hc.symm.trans hd
      exact ho hh
    · have hk : (s.put i c' x').handles h = s.handles h :=
        update_of_ne (fun heq => ho (hhd.symm.trans heq.symm)) _ _
      rw [hk]
      exact .self .refl _
  subst ho
  have hsaved : x'.saved = x.saved := (hst.advances (hs.call i c hc)).saved
  have hx' : (s.put i c' x').handles c.handle = some x' := by
    rw [← hhd]
    exact update_self ..
  refine ⟨hl, fun p snap hp hcu hh => ?_, fun y hy hu => ?_⟩
  · obtain ⟨y, hy, hstored⟩ := hs.stored p snap hp hcu hh
    cases hx.symm.trans hy
    exact ⟨x', hx', fun hq => hsaved.trans (hstored hq)⟩
  · cases hx'.symm.trans hy
    obtain ⟨hca, hho⟩ := attends_call hc hx hok
    rcases hst.noted ha (hs.call i c hc) hca hho hu with
      hno | hn | ⟨hbe, hsa, hqt⟩
    · exact .inl hno
    · exact .inr (.inl ⟨i, c', s.calls_put_self i c' x', hhd, hn⟩)
    · -- whoever had to look before is not this call
      rw [hsa, hsaved]
      refine (hs.noted x hx hbe).imp_right (Or.imp_left ?_)
      rintro ⟨j, d, hd, hh, hn⟩
      refine ⟨j, d, (hot ?_).trans hd, hh, hn⟩
      rintro rfl
      cases hc.symm.trans hd
      rw [hqt] at hn
      cases hn

theorem Watched.pass (hs : s.Watched h) (hq : ¬ s.Rewriting h) {pass : Option Pass}
    (hpa : ∀ p snap, pass = some p → p.current = some snap → snap.handle = h →
      ∃ x, s.handles h = some x ∧ snap.hasStored = false) :
    Watched h { s with pass := pass } := by
  refine ⟨hs.call, fun p snap hp hcu hh => ?_, fun x hx hu => ?_⟩
  · obtain ⟨x, hx, hno⟩ := hpa p snap hp hcu hh
    refine ⟨x, hx, fun hst => ?_⟩
    rw [hno] at hst
    cases hst
  · rcases hs.noted x hx hu with hn | hnt | hre
    · exact .inl hn
    · exact .inr (.inl hnt)
    · exact absurd hre hq

theorem Watched.snapshot (hs : s.Watched h) {a : PassAct} {p : Pass} {snapshot : Snapshot}
    {snapshot' : Option Snapshot} {x' : Handle} (hp : s.pass = some p)
    (hcu : p.current = some snapshot) (hx : s.handles snapshot.handle = some x)
    (hst : snapshot.step x a = some (snapshot', x')) (hok : s.attends h (.pass a) = true) :
    Watched h
      { s.setHandle snapshot.handle x' with pass := some { p with current := snapshot' } } := by
  have hrewrites : s.Rewriting h → snapshot.handle = h ∧ snapshot.rewrites = true := by
    rintro ⟨q, snap, hq, hsn, hh, hre⟩
    cases hp.symm.trans hq
    cases hcu.symm.trans hsn
    exact ⟨hh, hre⟩
  by_cases ho : snapshot.handle = h
  case neg =>
    have hk : (s.setHandle snapshot.handle x').handles h = s.handles h :=
      update_of_ne (Ne.symm ho) _ _
    refine ⟨hs.call, fun q snap hq hsn hh => ?_, fun y hy hu => ?_⟩
    · cases hq
      cases hsn
      exact absurd ((Snapshot.step_handle hst).symm.trans hh) ho
    · rcases hs.noted y (hk.symm.trans hy) hu with hno | hnt | hre
      · exact .inl hno
      · exact .inr (.inl hnt)
      · exact absurd (hrewrites hre).1 ho
  subst ho
  have hx' : (s.setHandle snapshot.handle x').handles snapshot.handle = some x' :=
    update_self ..
  obtain ⟨y, hy, hstored⟩ := hs.stored p snapshot hp hcu rfl
  cases hx.symm.trans hy
  refine ⟨hs.call, fun q snap hq hsn _ => ?_, fun y hy hu => ?_⟩
  · cases hq
    cases hsn
    exact ⟨x', hx', Snapshot.step_stored hst hstored⟩
  · cases hx'.symm.trans hy
    have hn : a = .note → snapshot.rewrites = true ∨ x.commits = snapshot.covered := by
      rintro rfl
      simpa [attends, hp, hcu, hx] using hok
    rcases Snapshot.step_noted hst hstored hn hu with
      hno | ⟨q, rfl, hre⟩ | ⟨hbe, hsa, hsaved, hqt⟩
    · exact .inl hno
    · exact .inr (.inr ⟨_, q, rfl, rfl, Snapshot.step_handle hst, hre⟩)
    · rw [hsa, hsaved]
      rcases hs.noted x hx hbe with hno | hnt | hre
      · exact .inl hno
      · exact .inr (.inl hnt)
      · rw [(hrewrites hre).2] at hqt
        cases hqt

theorem watched_empty (h : Nat) : State.empty.Watched h := by
  refine ⟨fun _ _ hc => ?_, fun _ _ hp => ?_, fun _ hx => ?_⟩
  · cases hc
  · cases hp
  · cases hx

theorem Watched.step (hs : s.Watched h) (ha : config.archive = true) (hw : s.Wired)
    {a : Act} (hstep : s.Step config a t) (hok : s.attends h a = true) : t.Watched h := by
  cases hstep with
  | enter victim now hen => exact hs.enter hw _ _
  | create victim now hen ht =>
    have hw' := hw.aside ht.aside
    exact ((hs.thin ht).create hw' _ now).enter (hw'.create _ now) _ _
  | call hc hx hstep => exact hs.put ha hc hx hstep hok
  | thin ht => exact hs.thin ht
  | snapshotAll todo hn =>
    refine hs.pass ?_ ?_
    · rintro ⟨p, snapshot, hp, -⟩
      rw [hn] at hp
      cases hp
    · intro p snapshot hp hcu
      cases hp
      cases hcu
  | load now hp hx hn =>
    refine hs.pass ?_ ?_
    · rintro ⟨q, snapshot, hq, hcu, -⟩
      cases hp.symm.trans hq
      rw [hn] at hcu
      cases hcu
    · intro q snapshot hq hcu hh
      cases hq
      cases hcu
      cases hh
      exact ⟨_, hx, rfl⟩
  | passEnds a haw =>
    refine hs.pass ?_ nofun
    rintro ⟨p, snapshot, hp, hcu, -, hre⟩
    have hst := haw p snapshot hp hcu
    cases hsn : snapshot.stage <;> simp_all [Snapshot.awaits, Snapshot.rewrites]
  | snapshot hp hcu hx hstep => exact hs.snapshot hp hcu hx hstep hok

def Rests (s : State) (h : Nat) : Prop :=
  (∀ i c, s.calls i = some c → c.handle = h → c.holds = false ∧ c.jobRuns = false) ∧
    ∀ p snapshot, s.pass = some p → p.current = some snapshot → snapshot.handle ≠ h

end State

theorem Call.holds_of_notes {saved : Nat} (h : c.notes saved = true) : c.holds = true := by
  cases hst : c.stage <;> simp_all [Call.notes, Call.holds]

/-- **An unsaved commit is noted.**  With an archive, in the runs in which no caller of the handle
is dropped with commits to note, in which the job of a dropped caller commits nothing, and in which
nothing is committed while a snapshot clears `unsaved_since`: when no call and no snapshot of the
handle is under way, `unsaved_since` is set if `commits` differs from `saved`. -/
theorem unsaved_commits_noted (config : Config) (harchive : config.archive = true) (h : Nat)
    {s : State} (hs : (machine config).Reach (fun s a => s.attends h a = true) s)
    (hrests : s.Rests h) {x : Handle} (hx : s.handles h = some x) (hunsaved : x.commits ≠ x.saved) :
    x.unsavedSince ≠ none := by
  have hwatch : s.Watched h := by
    refine hs.invariant (State.watched_empty h) fun s a t hr hI hok hstep => ?_
    exact hI.step harchive (State.wired_of_reach hr) (State.step_of_eq hstep) hok
  rcases hwatch.noted x hx hunsaved with
    hnot | ⟨i, c, hc, hh, hnote⟩ | ⟨p, snapshot, hp, hcur, hh, -⟩
  · exact hnot
  · have hover := (hrests.1 i c hc hh).1
    rw [Call.holds_of_notes hnote] at hover
    cases hover
  · exact absurd hh (hrests.2 p snapshot hp hcur)

def State.restsNow (s : State) (h : Nat) : Bool :=
  ((List.range s.called).all fun i => (s.calls i).all fun c =>
      c.handle != h || !c.holds && !c.jobRuns) &&
    (s.pass.bind Pass.current).all fun snapshot => snapshot.handle != h

theorem State.rests_of_now {s : State} {h : Nat} (hw : s.Wired) (hre : s.restsNow h = true) :
    s.Rests h := by
  rw [restsNow, Bool.and_eq_true, List.all_eq_true] at hre
  refine ⟨fun i c hc hh => ?_, fun p snap hp hcu => ?_⟩
  · have ho := hre.1 i (List.mem_range.2 (hw.call hc).1)
    simpa [hc, hh] using ho
  · simpa [hp, hcu] using hre.2

theorem unsaved_commits_noted_one :
    ∃ s x, (machine ⟨64, 256, 300, true⟩).Reach (fun s a => s.attends 0 a = true) s ∧ s.Rests 0 ∧
      s.handles 0 = some x ∧ x.commits ≠ x.saved ∧ x.unsavedSince ≠ none := by
  obtain ⟨s, hs, hp⟩ := Machine.exists_reach_of_runIf (M := machine ⟨64, 256, 300, true⟩)
    (State.attends 0) (fun _ _ _ h => h)
    (Act.submit (.database 1) none 0 :: startJob 0 ++ commitOne 0 ++ noteCommit 0 7)
    (fun s => s.restsNow 0 && (s.handles 0).any Handle.unsaved) (by decide)
  rw [Bool.and_eq_true] at hp
  obtain ⟨x, hx, huns⟩ := (any_eq_true _ _).1 hp.2
  have hrest := State.rests_of_now (State.wired_of_reach hs) hp.1
  have hne : x.commits ≠ x.saved := bne_iff_ne.1 huns
  exact ⟨s, x, hs, hrest, hx, hne, unsaved_commits_noted _ rfl 0 hs hrest hx hne⟩

def State.overlooked (s : State) : Bool :=
  s.restsNow 0 && (s.handles 0).any fun x => x.unsaved && x.unsavedSince.isNone

theorem not_noted_of_run {ok : State → Act → Prop} (as : List Act) (hok : ∀ r, ∀ a ∈ as, ok r a)
    (hru : ((machine ⟨64, 256, 300, true⟩).run State.empty as).any (·.overlooked = true) = true) :
    ¬ ∀ config s, config.archive = true → (machine config).Reach ok s → ∀ h x,
      s.Rests h → s.handles h = some x → x.commits ≠ x.saved → x.unsavedSince ≠ none := by
  intro h
  obtain ⟨s, hs, hp⟩ := Machine.exists_reach_of_run (M := machine ⟨64, 256, 300, true⟩)
    ok as (·.overlooked = true) hok hru
  rw [State.overlooked, Bool.and_eq_true] at hp
  obtain ⟨x, hx, ho⟩ := (any_eq_true _ _).1 hp.2
  rw [Bool.and_eq_true, isNone_iff_eq_none] at ho
  exact h _ s rfl hs 0 x (State.rests_of_now (State.wired_of_reach hs) hp.1) hx
    (bne_iff_ne.1 ho.1) ho.2

/-- **A commit is overlooked**: the caller is dropped while its job is with the blocking threads,
and the job commits. -/
theorem commit_overlooked :
    ¬ ∀ config s, config.archive = true → (machine config).Reachable s → ∀ h x,
      s.Rests h → s.handles h = some x → x.commits ≠ x.saved → x.unsavedSince ≠ none :=
  not_noted_of_run
    (Act.submit (.database 1) none 0 :: startJob 0 ++ [Act.call 0 (.run .cancel)] ++ commitOne 0)
    (fun _ _ _ => trivial) (by decide)

def Act.isCancel : Act → Bool
  | .call _ (.run .cancel) => true
  | _ => false

/-- A call commits and notes it after a snapshot has read `commits`, and before the snapshot clears
`unsaved_since`. -/
def overwriteNote : List Act :=
  Act.submit (.database 1) none 0 :: startJob 0 ++ commitOne 0 ++ noteCommit 0 7 ++
    [Act.snapshotAll, .pass (.load 0 8), .pass .copy, .pass .record, .pass .store, .pass .reload,
      .submit (.database 1) none 8, .call 1 (.submit .count), .call 1 (.run .lock),
      .call 1 (.run .spawn)] ++
    commitOne 1 ++ noteCommit 1 9 ++ [Act.pass .note, .pass .finish]

/-- **A note is overwritten**, though no caller is ever dropped. -/
theorem note_overwritten :
    ¬ ∀ config s, config.archive = true →
      (machine config).Reach (fun _ a => a.isCancel = false) s → ∀ h x,
        s.Rests h → s.handles h = some x → x.commits ≠ x.saved → x.unsavedSince ≠ none := by
  have hk : ∀ a ∈ overwriteNote, a.isCancel = false := by decide
  exact not_noted_of_run overwriteNote (fun _ => hk) (by decide)

end OpenWorkersRunner.D1
