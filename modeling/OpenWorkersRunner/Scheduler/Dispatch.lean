import OpenWorkersRunner.Scheduler.Claims

/-!
# Crons: what a tick dispatches

`claim_due` commits its claims one by one and returns them together, as a list of its own.  It stops
at the first statement that fails, and then returns the error: the claims it has committed are gone
with the list, since `next_run` has moved, and the crons after the one that failed have to wait for
the next tick.
-/

namespace OpenWorkersRunner.Scheduler

open List Parties

def Stage.due : Stage → List ScheduledData
  | .looping _ due => due
  | .nulling _ _ due => due
  | .beginning _ _ _ due => due
  | .claiming _ _ _ due => due
  | .inserting _ _ _ due => due
  | .committing _ _ _ _ due => due
  | .returned (some due) => due
  | _ => []

def State.Settled (nextRun : String → Int → Option Int) (s : State) (i : Nat) (t : Tick)
    (cron : DueCron) : Prop :=
  (∃ c ∈ s.claims, c.tick = i ∧ c.cron = cron) ∨ nextRun cron.value t.now = none ∨ cron ∈ t.skipped

/-- While nothing has failed, what the tick claimed is in its list, and what it read is settled or
still to come. -/
structure State.Tracks (nextRun : String → Int → Option Int) (s : State) (i : Nat) (t : Tick) :
    Prop where
  claimed : ∀ c ∈ s.claims, c.tick = i →
    ∃ e ∈ s.events, e = c.cron.event e.id ∧ c.cron.data e.id ∈ t.stage.due
  settled : ∀ cron ∈ t.selected, cron ∈ t.stage.crons ∨ s.Settled nextRun i t cron
  invalid : ∀ cron todo due, t.stage = .nulling cron todo due → nextRun cron.value t.now = none

namespace State

variable {nextRun : String → Int → Option Int} {s s' : State} {i : Nat} {t t' : Tick}

theorem Tracks.mono (h : s.Tracks nextRun i t) (hev : ∀ e ∈ s.events, e ∈ s'.events)
    (hcl : ∀ c ∈ s.claims, c ∈ s'.claims)
    (ho : ∀ c ∈ s'.claims, c.tick = i → c ∈ s.claims) : s'.Tracks nextRun i t := by
  refine ⟨fun c hc hi => ?_, fun cron hcr => (h.settled cron hcr).imp_right ?_, h.invalid⟩
  · obtain ⟨e, he, hd⟩ := h.claimed c (ho c hc hi) hi
    exact ⟨e, hev e he, hd⟩
  · exact Or.imp_left fun ⟨c, hc, hi⟩ => ⟨c, hcl c hc, hi⟩

theorem Tracks.goes (h : s.Tracks nextRun i t) (hno : t'.now = t.now)
    (hse : t'.selected = t.selected) (hsk : ∀ cron ∈ t.skipped, cron ∈ t'.skipped)
    (hd : t'.stage.due = t.stage.due)
    (hcron : ∀ cron ∈ t.stage.crons, cron ∈ t'.stage.crons ∨ s.Settled nextRun i t' cron)
    (hin : ∀ cron todo due, t'.stage = .nulling cron todo due →
      nextRun cron.value t.now = none) : s.Tracks nextRun i t' := by
  refine ⟨fun c hc hi => ?_, fun cron hcr => ?_, hno ▸ hin⟩
  · rw [hd]
    exact h.claimed c hc hi
  · rw [hse] at hcr
    rcases h.settled cron hcr with hl | hcl | hn | hskip
    · exact hcron cron hl
    · exact .inr (.inl hcl)
    · exact .inr (.inr (.inl (hno ▸ hn)))
    · exact .inr (.inr (.inr (hsk cron hskip)))

variable (nextRun) in
structure Tracked (s : State) : Prop where
  ticks : ∀ i t, s.ticks[i]? = some t → t.failed = false → s.Tracks nextRun i t
  made : ∀ c ∈ s.claims, c.tick < s.ticks.length

theorem Tracked.set (hs : s.Tracked nextRun) (ht : s.ticks[i]? = some t)
    (ht' : t.failed = false → s.Tracks nextRun i t → s.Tracks nextRun i t')
    (hfa : t'.failed = t.failed) : (s.set i t').Tracked nextRun := by
  refine ⟨fun j u hu hf => ?_, fun c hc => ?_⟩
  · obtain ⟨rfl, rfl⟩ | ⟨-, hold⟩ := getElem?_set_eq_some hu
    · rw [hfa] at hf
      exact (ht' hf (hs.ticks _ t ht hf)).mono (fun _ h => h) (fun _ h => h) fun _ h _ => h
    · exact (hs.ticks j u hold hf).mono (fun _ h => h) (fun _ h => h) fun _ h _ => h
  · rw [State.set, length_set]
    exact hs.made c hc

theorem Tracked.fail (hs : s.Tracked nextRun) : (s.set i t.fail).Tracked nextRun := by
  refine ⟨fun j u hu hf => ?_, fun c hc => ?_⟩
  · obtain ⟨rfl, rfl⟩ | ⟨-, hold⟩ := getElem?_set_eq_some hu
    · cases hf
    · exact (hs.ticks j u hold hf).mono (fun _ h => h) (fun _ h => h) fun _ h _ => h
  · rw [State.set, length_set]
    exact hs.made c hc

theorem Tracked.crons (hs : s.Tracked nextRun) (hti : s'.ticks = s.ticks)
    (hev : s'.events = s.events) (hcl : s'.claims = s.claims) : s'.Tracked nextRun := by
  refine ⟨fun i t ht hf => ?_, ?_⟩
  · rw [hti] at ht
    refine (hs.ticks i t ht hf).mono ?_ ?_ ?_
    · rw [hev]
      exact fun _ h => h
    · rw [hcl]
      exact fun _ h => h
    · rw [hcl]
      exact fun _ h _ => h
  · rw [hcl, hti]
    exact hs.made

@[simp] theorem ticks_stopCron (cron : DueCron) : (s.stopCron cron).ticks = s.ticks := by
  unfold State.stopCron
  split
  · split <;> rfl
  · rfl

theorem Tracked.stopCron (hs : s.Tracked nextRun) (cron : DueCron) :
    (s.stopCron cron).Tracked nextRun := by
  unfold State.stopCron
  split
  · split
    · exact hs.crons rfl rfl rfl
    · exact hs
  · exact hs

theorem Tracked.commit (hs : s.Tracked nextRun) {cron : DueCron} {next : Int} {eventId : String}
    {todo : List DueCron} {due : List ScheduledData} (ht : s.ticks[i]? = some t)
    (hst : t.stage = .committing cron next eventId todo due)
    (ht' : t' = t.goto (.looping todo (due ++ [cron.data eventId])) ∨ t' = t.fail) :
    ((s.claimCron i t.now cron next eventId).set i t').Tracked nextRun := by
  have hevents : ∀ e ∈ s.events, e ∈ s.events ++ [cron.event eventId] :=
    fun e h => mem_append_left _ h
  have hcl : ∀ c ∈ s.claims, c ∈ s.claims ++ [⟨i, t.now, cron, next⟩] :=
    fun c h => mem_append_left _ h
  obtain ⟨hlt, -⟩ := List.getElem?_eq_some_iff.1 ht
  refine ⟨fun j u hu hf => ?_, fun c hc => ?_⟩
  · obtain ⟨rfl, rfl⟩ | ⟨hj, hold⟩ := getElem?_set_eq_some hu
    · obtain rfl | rfl := ht'
      · have htr := hs.ticks _ t ht hf
        refine ⟨fun c hc hi => ?_, fun cron' hcr => ?_, nofun⟩
        · obtain hc | hc := mem_append.1 hc
          · obtain ⟨e, he, hev, hd⟩ := htr.claimed c hc hi
            rw [hst] at hd
            exact ⟨e, hevents e he, hev, mem_append_left _ hd⟩
          · cases mem_singleton.1 hc
            exact ⟨cron.event eventId, mem_append_right _ mem_cons_self, rfl,
              mem_append_right _ mem_cons_self⟩
        · rcases htr.settled cron' hcr with hm | ⟨c, hc, hi⟩ | hre
          · rw [hst] at hm
            obtain rfl | hm := mem_cons.1 hm
            · exact .inr (.inl ⟨_, mem_append_right _ mem_cons_self, rfl, rfl⟩)
            · exact .inl hm
          · exact .inr (.inl ⟨c, hcl c hc, hi⟩)
          · exact .inr (.inr hre)
      · cases hf
    · refine (hs.ticks j u hold hf).mono hevents hcl fun c hc hi => ?_
      obtain hc | hc := mem_append.1 hc
      · exact hc
      · cases mem_singleton.1 hc
        exact absurd hi.symm hj
  · rw [State.set, length_set]
    obtain hc | hc := mem_append.1 hc
    · exact hs.made c hc
    · cases mem_singleton.1 hc
      exact hlt

theorem Tracked.tick (hs : s.Tracked nextRun) (now : Int) :
    Tracked nextRun { s with ticks := s.ticks ++ [⟨now, .selecting, [], [], false⟩] } := by
  refine ⟨fun i t ht hf => ?_, fun c hc => ?_⟩
  · obtain ht | ⟨rfl, rfl⟩ := getElem?_concat_eq_some ht
    · exact (hs.ticks i t ht hf).mono (fun _ h => h) (fun _ h => h) fun _ h _ => h
    · exact ⟨fun c hc hi => absurd hi (Nat.ne_of_lt (hs.made c hc)), nofun, nofun⟩
  · exact Nat.lt_of_lt_of_le (hs.made c hc) (by simp)

theorem Tracks.takeNext (h : s.Tracks nextRun i t) {todo : List DueCron} {due : List ScheduledData}
    (hst : t.stage = .looping todo due) :
    s.Tracks nextRun i (takeNext nextRun t todo due) := by
  have hd : t.stage.due = due := by rw [hst]; rfl
  have hcr : t.stage.crons = todo := by rw [hst]; rfl
  cases todo with
  | nil =>
    refine h.goes rfl rfl (fun _ h => h) hd.symm ?_ fun _ _ _ heq => (by cases heq)
    rw [hcr]
    exact fun _ hcron => (by cases hcron)
  | cons cron todo =>
    rw [State.takeNext]
    split
    next hn =>
      refine h.goes rfl rfl (fun _ h => h) hd.symm ?_ ?_
      · rw [hcr]
        exact fun _ h => .inl h
      · rintro _ _ _ heq
        cases heq
        exact hn
    · refine h.goes rfl rfl (fun _ h => h) hd.symm ?_ fun _ _ _ heq => (by cases heq)
      rw [hcr]
      exact fun _ h => .inl h

theorem failed_takeNext (t : Tick) (todo : List DueCron) (due : List ScheduledData) :
    (State.takeNext nextRun t todo due).failed = t.failed := by
  cases todo with
  | nil => rfl
  | cons cron todo =>
    rw [State.takeNext]
    split <;> rfl

theorem Tracked.step (hs : s.Tracked nextRun) {a : Act} (h : s.step nextRun a = some s') :
    s'.Tracked nextRun := by
  cases step_of_eq h with
  | insertCron | edit | delete => exact hs.crons rfl rfl rfl
  | tick now => exact hs.tick now
  | select ht hst hro =>
    refine hs.set ht (fun _ h => ?_) rfl
    refine ⟨fun c hc hi => ?_, fun cron hcr => .inl hcr, nofun⟩
    obtain ⟨e, -, -, hd⟩ := h.claimed c hc hi
    rw [hst] at hd
    cases hd
  | fail ht => exact hs.fail
  | next ht hst =>
    exact hs.set ht (fun _ h => h.takeNext hst) (failed_takeNext _ _ _)
  | null ht hst hf ht' =>
    obtain rfl | rfl := ht'
    · refine (hs.stopCron _).set ((congrArg (·[_]?) (ticks_stopCron _)).trans ht)
        (fun _ h => ?_) rfl
      have hin := h.invalid _ _ _ hst
      refine h.goes rfl rfl (fun _ h => h) (by rw [hst]; rfl) ?_ nofun
      rw [hst]
      exact forall_mem_cons.2 ⟨.inr (.inr (.inl hin)), fun _ h => .inl h⟩
    · exact (hs.stopCron _).fail
  | begin_ ht hst | claim ht hst | insert ht hst =>
    refine hs.set ht (fun _ h => ?_) rfl
    refine h.goes rfl rfl (fun _ h => h) (by rw [hst]; rfl) ?_ nofun
    rw [hst]
    exact fun _ h => .inl h
  | skip ht hst hrow =>
    refine hs.set ht (fun _ h => ?_) rfl
    refine h.goes rfl rfl (fun _ h => mem_append_left _ h) (by rw [hst]; rfl) ?_ nofun
    rw [hst]
    refine forall_mem_cons.2 ⟨.inr (.inr (.inr ?_)), fun _ h => .inl h⟩
    exact mem_append_right _ mem_cons_self
  | commit ht hst ht' => exact hs.commit ht hst ht'

end State

/-- **What a tick claims, it dispatches**, and it claims what it can, if no statement of its call
fails: each claim that was committed has its event, and the data of that event is dispatched; each
cron that was read has been claimed, or its pattern is not valid, or another writer came first. -/
theorem claims_dispatched (nextRun : String → Int → Option Int) (s : State)
    (hs : (machine nextRun).Reachable s) (i : Nat) (t : Tick) (ht : s.ticks[i]? = some t)
    (hfailed : t.failed = false) (due : Option (List ScheduledData))
    (hreturned : t.stage = .returned due) :
    (∀ c ∈ s.claims, c.tick = i →
      ∃ e ∈ s.events, e = c.cron.event e.id ∧ c.cron.data e.id ∈ t.dispatched) ∧
    ∀ cron ∈ t.selected, (∃ c ∈ s.claims, c.tick = i ∧ c.cron = cron) ∨
      nextRun cron.value t.now = none ∨ cron ∈ t.skipped := by
  have h0 : State.Tracked nextRun ⟨∅, [], [], []⟩ := by constructor <;> simp
  have h : s.Tracked nextRun := hs.invariant h0 fun _ _ _ _ h _ hstep => h.step hstep
  have htrace := h.ticks i t ht hfailed
  refine ⟨fun c hc hi => ?_, fun cron hcron => (htrace.settled cron hcron).resolve_left ?_⟩
  · obtain ⟨e, he, heven, hdata⟩ := htrace.claimed c hc hi
    rw [hreturned] at hdata
    refine ⟨e, he, heven, ?_⟩
    cases due with
    | none => cases hdata
    | some due =>
      rw [Tick.dispatched, hreturned]
      exact hdata
  · rw [hreturned]
    exact not_mem_nil

def firstClaimed : List Act :=
  [.insertCron "c" ⟨"w", "* * * * *", some 0, none, false⟩,
    .insertCron "d" ⟨"w", "* * * * *", some 1, none, false⟩,
    .tick 100, .select 0 [⟨"c", "w", "* * * * *", 0⟩, ⟨"d", "w", "* * * * *", 1⟩],
    .next 0, .begin_ 0 true, .claim 0 true, .insert 0 "e" true, .commit 0 .done,
    .next 0]

theorem claims_dispatched_two :
    ∃ s t, (machine fun _ now => some (now + 60)).Reachable s ∧ s.ticks[0]? = some t ∧
      s.claims.length = 2 ∧ ∀ c ∈ s.claims, c.tick = 0 →
        ∃ e ∈ s.events, e = c.cron.event e.id ∧ c.cron.data e.id ∈ t.dispatched := by
  obtain ⟨s, hs, hp⟩ := (machine fun _ now => some (now + 60)).exists_of_run
    (firstClaimed ++
      [Act.begin_ 0 true, .claim 0 true, .insert 0 "f" true, .commit 0 .done, .next 0])
    (fun s => s.claims.length == 2 && s.ticks[0]?.any fun t =>
      !t.failed &&
        t.stage == .returned (some [⟨"e", "* * * * *", 0, "w"⟩, ⟨"f", "* * * * *", 0, "w"⟩]))
        (by decide +kernel)
  simp only [Bool.and_eq_true, Option.any_eq_true, beq_iff_eq, Bool.not_eq_true'] at hp
  obtain ⟨hlen, t, ht, hfail, hst⟩ := hp
  exact ⟨s, t, hs, ht, hlen, (claims_dispatched _ s hs 0 t ht hfail _ hst).1⟩

theorem claim_lost :
    ¬ ∀ (nextRun : String → Int → Option Int) (s : State), (machine nextRun).Reachable s →
      ∀ (i : Nat) (t : Tick), s.ticks[i]? = some t → ∀ due, t.stage = .returned due →
      ∀ c ∈ s.claims, c.tick = i →
        ∃ e ∈ s.events, e = c.cron.event e.id ∧ c.cron.data e.id ∈ t.dispatched := by
  intro h
  obtain ⟨s, hs, hp⟩ := (machine fun _ now => some (now + 60)).exists_of_run
    (firstClaimed ++ [Act.begin_ 0 false])
    (fun s => s.claims.any (·.tick == 0) && s.ticks[0]?.any fun t => t.stage == .returned none)
    (by decide +kernel)
  simp only [Bool.and_eq_true, Option.any_eq_true, any_eq_true, beq_iff_eq] at hp
  obtain ⟨⟨c, hc, hi⟩, t, ht, hst⟩ := hp
  obtain ⟨e, -, -, hdata⟩ := h _ s hs 0 t ht none hst c hc hi
  rw [Tick.dispatched, hst] at hdata
  cases hdata

end OpenWorkersRunner.Scheduler
