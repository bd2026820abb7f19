import OpenWorkersRunner.D1.ServiceStep

/-!
# D1: one job at a time on a database, and the interrupts of calls

"In use" is decided by `Arc::strong_count` of the handle.  The callers count there, but a blocking
job does not: it holds the guard of the connection, and goes on when its caller is dropped.  An
entry whose last caller was dropped counts as free while that job still runs, so `handle`,
`close_idle`, `remove_files`, `remove_namespace_files` and `reset_to_snapshot` can take it, and the
next call opens the same file a second time (`two_jobs_on_one_file`).
-/

namespace OpenWorkersRunner.D1

open Option

variable {config : Config}

def Call.uses (c : Call) : Bool := c.holds || c.jobRuns

variable {i : Nat} {x : Handle}

theorem Call.Step.uses {c c' : Call} {x' : Handle} {a : CallAct} (h : c.Step config i x a c' x')
    (hc' : c'.uses = true) : c.uses = true := by
  rw [Call.uses, Bool.or_eq_true] at hc' ⊢
  rcases hc' with hc' | hc'
  · exact .inl (h.holds hc')
  · by_contra hc
    rw [not_or, Bool.not_eq_true, Bool.not_eq_true] at hc
    cases h with
    | endStatement ok hj => simp [Call.jobRuns, hj, Job.runs] at hc
    | finish panicked hj hru => simp [Call.jobRuns, hj, hru] at hc
    | _ => simp_all [Call.holds, Call.jobRuns, Stage.job]

namespace State

variable {s t : State} {taken : Key → Prop}

/-! ## One job at a time -/

def Orphaned (s : State) (key : Key) : Prop :=
  ∃ i c, s.calls i = some c ∧ c.key = key ∧ s.databases.lookup key = some c.handle ∧
    c.holds = false ∧ c.jobRuns = true

def Spares (config : Config) (s : State) (a : Act) : Prop :=
  ∀ key, s.takes config a key → ¬ s.Orphaned key

theorem placed_of_spares (hs : (machine config).Reach (Spares config) s) : s.Placed Call.uses := by
  refine invariant_of_reach (I := Placed Call.uses) (fun _ _ hc => (by cases hc))
    (fun _ hr hen => hr.enter hen)
    (fun now _ hr hn => hr.create hn now) (fun _ hp _ hc _ h => hp.put hc h h.uses)
    (fun hr hp hok ht => hp.aside ht fun i c hc hu hen htk ho => ?_) hs
  have hf := (of_strongCount_eq_one hen ho).1 i c ((wired_of_reach hr).call hc).1 hc rfl
  rw [Call.uses, hf, Bool.false_or] at hu
  exact hok c.key htk ⟨i, c, hc, rfl, hen, hf, hu⟩

theorem eq_of_jobRuns (hg : s.Guarded) (hw : s.Wired) {i j : Nat} {c d : Call}
    (hc : s.calls i = some c) (hd : s.calls j = some d) (hci : c.jobRuns = true)
    (hdj : d.jobRuns = true) (hh : c.handle = d.handle) : i = j := by
  obtain ⟨-, x, hx, -⟩ := hw.call hc
  have hi := (hg c.handle x hx i).2 ⟨c, hc, rfl, Call.guards_of_jobRuns hci⟩
  have hj := (hg c.handle x hx j).2 ⟨d, hd, hh.symm, Call.guards_of_jobRuns hdj⟩
  exact mem_unique hi hj

end State

/-- **One job at a time.**  In the runs in which no entry is taken under a job whose caller was
dropped, no two jobs run on one file, and the handle of a job that runs is the entry of its key. -/
theorem jobs_exclusive (config : Config) {s : State}
    (hs : (machine config).Reach (State.Spares config) s) :
    (∀ i j c d, s.calls i = some c → s.calls j = some d → c.jobRuns = true → d.jobRuns = true →
      c.key = d.key → i = j) ∧
    ∀ i c, s.calls i = some c → c.jobRuns = true → s.databases.lookup c.key = some c.handle := by
  have hentry : ∀ i c, s.calls i = some c → c.jobRuns = true →
      s.databases.lookup c.key = some c.handle := fun i c hc hruns =>
    State.placed_of_spares hs i c hc (by rw [Call.uses, hruns, Bool.or_true])
  refine ⟨fun i j c d hc hd hci hdj hkey => ?_, hentry⟩
  have hh : c.handle = d.handle := by
    have hsame := hentry i c hc hci
    rw [hkey, hentry j d hd hdj] at hsame
    exact (Option.some.inj hsame).symm
  exact State.eq_of_jobRuns (State.guarded_of_reach hs) (State.wired_of_reach hs) hc hd hci hdj hh

/-- A test that implies the condition: no job without its caller runs where an entry can go. -/
def State.sparesNow (s : State) : Act → Bool
  | .call _ _ => true
  | _ => (List.range s.called).all fun i => (s.calls i).all fun c => c.holds || !c.jobRuns

theorem State.spares_of_sparesNow {ok : State → Act → Prop} {s : State} {a : Act}
    (hs : (machine config).Reach ok s) (h : s.sparesNow a = true) : s.Spares config a := by
  rintro key ht ⟨i, c, hc, -, -, hh, hru⟩
  have hi := ((State.wired_of_reach hs).call hc).1
  cases a with
  | call j b => exact ht
  | _ =>
    have ha := List.all_eq_true.1 h i (List.mem_range.2 hi)
    rw [hc, all_some, hh, hru] at ha
    cases ha

/-- The caller of a job is dropped; the job ends, its entry is evicted, and another call runs on its
file. -/
def evictedAfter (k k' : Key) : List Act :=
  Act.submit k none 0 :: startJob 0 ++
    [Act.call 0 (.run .cancel), .call 0 (.job (.finish false)), .submit k' (some k) 1] ++
    .submit k none 2 :: startJob 2

theorem jobs_exclusive_evicted :
    ∃ s c, (machine ⟨64, 1, 300, false⟩).Reach (State.Spares ⟨64, 1, 300, false⟩) s ∧
      s.calls 2 = some c ∧ c.key = .database 1 ∧ c.jobRuns = true ∧
      s.databases.lookup (.database 1) = some c.handle ∧
      ∀ i d, s.calls i = some d → d.jobRuns = true → d.key = .database 1 → i = 2 := by
  obtain ⟨s, hs, hp⟩ := Machine.exists_reach_of_runIf (M := machine ⟨64, 1, 300, false⟩)
    State.sparesNow (fun _ _ => State.spares_of_sparesNow)
    (evictedAfter (.database 1) (.database 2))
    (fun s => (s.calls 2).any fun c => c.jobRuns && c.key == .database 1) (by decide)
  obtain ⟨c, hc, hp⟩ := (any_eq_true _ _).1 hp
  rw [Bool.and_eq_true, beq_iff_eq] at hp
  obtain ⟨hruns, hkey⟩ := hp
  refine ⟨s, c, hs, hc, hkey, hruns, ?_, fun i d hd hdr hdk => ?_⟩
  · rw [← hkey]
    exact (jobs_exclusive _ hs).2 2 c hc hruns
  · exact (jobs_exclusive _ hs).1 i 2 d c hd hc hdr hruns (hdk.trans hkey.symm)

/-- The caller of a job is dropped; its entry is evicted while the job runs, and another call opens
the file again. -/
def evictedUnder (k k' : Key) : List Act :=
  Act.submit k none 0 :: startJob 0 ++ [Act.call 0 (.run .cancel), .submit k' (some k) 1] ++
    .submit k none 2 :: startJob 2

/-- **Two jobs run on one file**, one of them on a connection that is in no entry. -/
theorem two_jobs_on_one_file :
    ¬ ∀ config s, (machine config).Reachable s →
      (∀ i j c d, s.calls i = some c → s.calls j = some d → c.jobRuns = true → d.jobRuns = true →
        c.key = d.key → i = j) ∧
      ∀ i c, s.calls i = some c → c.jobRuns = true → s.databases.lookup c.key = some c.handle := by
  intro h
  obtain ⟨s, hs, hp⟩ := (machine ⟨64, 1, 300, false⟩).exists_of_run
    (evictedUnder (.database 1) (.database 2))
    (fun s => (s.calls 0).any fun (c : Call) => (s.calls 2).any fun (d : Call) =>
      c.jobRuns && d.jobRuns && decide (c.key = d.key)) (by decide)
  obtain ⟨c, hc, hp⟩ := (any_eq_true _ _).1 hp
  obtain ⟨d, hd, hp⟩ := (any_eq_true _ _).1 hp
  rw [Bool.and_eq_true, Bool.and_eq_true, decide_eq_true_eq] at hp
  exact absurd ((h _ s hs).1 0 2 c d hc hd hp.1.1 hp.1.2 hp.2) (by decide)

/-! ## Interrupts -/

/-- A deadline passes, and a caller is dropped, only while the job of the call still runs, if it has
one. -/
def State.prompt (s : State) : Act → Bool
  | .call i (.run .deadline) | .call i (.run .cancel) =>
    (s.calls i).all fun c => c.stage.job.all Job.runs
  | _ => true

/-- The interrupts that reached the connections of a handle were raised by the call whose job held
the connection. -/
def Handle.Isolated (x : Handle) : Prop :=
  ∀ e ∈ x.interrupts, e.holder = some e.raisedBy ∧ ∀ j, e.statementOf = some j → j = e.raisedBy

theorem Handle.Isolated.interrupt (hx : x.Isolated) (hgr : x.guard = some i) (num : Nat) :
    (x.interrupt i num).Isolated := by
  intro e he
  rcases List.mem_append.1 he with he | he
  · exact hx e he
  · rw [mem_toList, map_eq_some_iff] at he
    obtain ⟨d, -, rfl⟩ := he
    refine ⟨hgr, fun j hj => ?_⟩
    obtain ⟨-, -, hj⟩ := bind_eq_some_iff.1 hj
    exact mem_unique hj hgr

theorem Call.Step.isolated {c c' : Call} {x' : Handle} {a : CallAct} (h : c.Step config i x a c' x')
    (hx : x.Isolated)
    (hgr : (a = .run .deadline ∨ a = .run .cancel) → ∀ job, c.stage.job = some job →
      x.guard = some i) : x'.Isolated := by
  cases h with
  | deadline hc => exact hx.interrupt (hgr (.inl rfl) _ (by rw [hc]; rfl)) _
  | cancelRunning hc => exact hx.interrupt (hgr (.inr rfl) _ (by rw [hc]; rfl)) _
  | _ => exact hx

/-- **Interrupts are isolated** in the runs in which a deadline passes, and a caller is dropped,
only while the job of the call still runs: an interrupt reaches a connection while the job of its
call holds it, and no statement of another call. -/
theorem interrupts_isolated (config : Config) {s : State}
    (hs : (machine config).Reach (fun s a => s.prompt a = true) s) {h : Nat} {x : Handle}
    (hx : s.handles h = some x) : x.Isolated := by
  revert h x
  refine State.invariant_of_reach (I := fun s => ∀ {h x}, s.handles h = some x → x.Isolated)
    (fun hx => (by cases hx)) (fun _ hr _ => hr) (fun now _ hr _ => ?_)
    (fun {s i act c c' x x'} hr hI hok hc hx hstep => ?_) (fun _ hI _ ht => ?_) hs
  · intro h x hx
    rcases update_some_eq_some hx with ⟨-, rfl⟩ | ⟨-, hx⟩
    · exact nofun
    · exact hr hx
  · intro h y hy
    rcases State.handles_put hy with ⟨-, rfl⟩ | ⟨-, hy⟩
    · refine hstep.isolated (hI hx) fun ha job hjob => ?_
      -- the job still runs, so the guard is with it
      have hall : (c.stage.job.all Job.runs) = true := by
        rcases ha with rfl | rfl <;> simpa [State.prompt, hc] using hok
      rw [hjob, all_some] at hall
      have hguard : c.guards = true := (Call.guards_of_job hjob).trans hall
      exact (State.guarded_of_reach hr _ _ hx _).2 ⟨_, hc, rfl, hguard⟩
    · exact hI hy
  · intro h x' hx'
    obtain ⟨x, hx, hkept⟩ := ht.handle_before hx'
    rw [Handle.Isolated, hkept.interrupts]
    exact hI hx

theorem interrupts_isolated_deadline :
    ∃ s x, (machine ⟨64, 256, 300, false⟩).Reach (fun s a => s.prompt a = true) s ∧
      s.handles 0 = some x ∧ x.interrupts = [⟨0, some 0, some 0⟩] ∧ x.Isolated := by
  obtain ⟨s, hs, hp⟩ := Machine.exists_reach_of_runIf (M := machine ⟨64, 256, 300, false⟩)
    State.prompt (fun _ _ _ h => h)
    (Act.submit (.database 1) none 0 :: startJob 0 ++
      [Act.call 0 (.job .beginStatement), .call 0 (.run .deadline)])
    (fun s => (s.handles 0).any fun x => x.interrupts = [⟨0, some 0, some 0⟩]) (by decide)
  obtain ⟨x, hx, hp⟩ := (any_eq_true _ _).1 hp
  exact ⟨s, x, hs, hx, of_decide_eq_true hp, interrupts_isolated _ hs hx⟩

/-- The job of a call has ended, and the next call runs a statement when the deadline of the first
one passes. -/
def lateDeadline (k : Key) : List Act :=
  Act.submit k none 0 :: startJob 0 ++
    [Act.call 0 (.job .beginStatement), .call 0 (.job (.endStatement true)),
      .call 0 (.job (.finish false)), .submit k none 1, .call 1 (.submit .count),
      .call 1 (.run .lock), .call 1 (.run .spawn), .call 1 (.job .beginStatement),
      .call 0 (.run .deadline)]

/-- **The deadline of a call interrupts a statement of another one.** -/
theorem interrupt_of_another_call :
    ¬ ∀ config s, (machine config).Reachable s → ∀ h x, s.handles h = some x → x.Isolated := by
  intro h
  obtain ⟨s, hs, hp⟩ := (machine ⟨64, 256, 300, false⟩).exists_of_run (lateDeadline (.database 1))
    (fun s => (s.handles 0).any fun x => x.interrupts = [⟨0, some 1, some 1⟩]) (by decide)
  obtain ⟨x, hx, hp⟩ := (any_eq_true _ _).1 hp
  have hisol := h _ s hs 0 x hx
  rw [Handle.Isolated, of_decide_eq_true hp] at hisol
  exact absurd (hisol _ (List.mem_singleton_self _)).1 (by decide)

end OpenWorkersRunner.D1
