import OpenWorkersRunner.Durable.Registry

/-!
# The registry: what a step does, and its counts

`State.Step` says once what each step of the registry can do, with its guards, and `step_of_eq`
that the machine does nothing else; everything proved of every run of the registry starts from it.
-/

namespace OpenWorkersRunner.Durable

variable {ε : Type}

inductive State.Step (s : State ε) : Act ε → State ε → Prop
  | refused (ns : NamespaceConfig) (id : String) (depth : Nat) (event : ε) :
      State.Step s (.admitEvent ns id depth event) s
  | pushed {ns : NamespaceConfig} {id : String} {entry : Entry} {t : Task ε} (depth : Nat)
      (event : ε) (hstop : s.stopped ns.id = false) (he : s.objects ⟨ns.id, id⟩ = some entry)
      (ht : s.tasks entry.generation = some t) (hopen : t.mailbox.closed = false) :
      State.Step s (.admitEvent ns id depth event)
        (s.enter entry.generation
          { t with mailbox := { t.mailbox with queue := t.mailbox.queue ++ [event] } } depth event)
  | spawned {ns : NamespaceConfig} {id : String} (depth : Nat) (event : ε)
      (hstop : s.stopped ns.id = false)
      (hclosed : ∀ entry t, s.objects ⟨ns.id, id⟩ = some entry →
        s.tasks entry.generation = some t → t.mailbox.closed = true)
      (haccount : (s.accounts ns.userId).getD 0 < maxResidentPerAccount) :
      State.Step s (.admitEvent ns id depth event)
        ((s.spawn ns ⟨ns.id, id⟩ event).1.enter s.generation (s.spawn ns ⟨ns.id, id⟩ event).2
          depth event)
  | dropGuard {guard : DepthGuard} {t : Task ε} (depths : List Nat) (guards : List DepthGuard)
      (ht : s.tasks guard.generation = some t) :
      State.Step s (.dropGuard guard)
        { s.setTask guard.generation { t with depths := depths } with guards := guards }
  | start {i : Nat} {t : Task ε} (ht : s.tasks i = some t) (hp : t.phase = .waiting)
      (hprevious : s.previousEnded t = true) :
      State.Step s (.start i) (s.setTask i { t with phase := .loading })
  | loaded {i : Nat} {t : Task ε} (version : Int) (ht : s.tasks i = some t)
      (hp : t.phase = .loading) :
      State.Step s (.loaded i version)
        { s.setTask i { t with phase := .looping } with
          objects := Function.update s.objects t.key <| (s.objects t.key).map fun entry =>
              if entry.generation = i then { entry with version := some version } else entry }
  | notLoaded {i : Nat} {t : Task ε} (ht : s.tasks i = some t) (hp : t.phase = .loading) :
      State.Step s (.notLoaded i) (s.endServe i t .notLoaded)
  | tookFirst {i : Nat} {t : Task ε} {event : ε} {queue : List ε} (built : Bool)
      (ht : s.tasks i = some t) (hp : t.phase = .looping)
      (hq : t.mailbox.queue = event :: queue) :
      State.Step s (.tryRecv i built)
        { s.setTask i
            { t with
              phase := if built then .lent else .looping
              mailbox := { t.mailbox with queue := queue } } with
          taken := s.taken ++ [(i, event)] }
  | tookNone {i : Nat} {t : Task ε} (built : Bool) (ht : s.tasks i = some t)
      (hp : t.phase = .looping) (hq : t.mailbox.queue = []) :
      State.Step s (.tryRecv i built) (s.setTask i { t with phase := .leaving })
  | received {i : Nat} {t : Task ε} {event : ε} {queue : List ε} (ht : s.tasks i = some t)
      (hp : t.phase = .lent) (hq : t.mailbox.queue = event :: queue) :
      State.Step s (.recv i)
        { s.setTask i { t with phase := .lent, mailbox := { t.mailbox with queue := queue } } with
          taken := s.taken ++ [(i, event)] }
  | receivedNone {i : Nat} {t : Task ε} (ht : s.tasks i = some t) (hp : t.phase = .lent)
      (hq : t.mailbox.queue = []) : State.Step s (.recv i) (s.setTask i { t with phase := .lent })
  | objectEnds {i : Nat} {t : Task ε} (ht : s.tasks i = some t) (hp : t.phase = .lent) :
      State.Step s (.objectEnds i) (s.setTask i { t with phase := .looping })
  | stayed {i : Nat} {t : Task ε} (ht : s.tasks i = some t) (hp : t.phase = .leaving)
      (hq : t.mailbox.queue ≠ []) :
      State.Step s (.leave i) (s.setTask i { t with phase := .looping })
  | left {i : Nat} {t : Task ε} (ht : s.tasks i = some t) (hp : t.phase = .leaving)
      (hq : t.mailbox.queue = []) :
      State.Step s (.leave i)
        { s.endServe i t .left with
          objects :=
            if (s.objects t.key).any fun entry => entry.generation = i then
              Function.update s.objects t.key none
            else s.objects }
  | die {i : Nat} {t : Task ε} (ht : s.tasks i = some t) (hp : t.phase.serves = true) :
      State.Step s (.die i) (s.endServe i t .died)
  | release {i : Nat} {t : Task ε} {how : End} {running accounts : Counts String}
      (ht : s.tasks i = some t) (hp : t.phase = .ended how .running)
      (hr : s.running.release t.key.namespaceId = some running)
      (ha : s.accounts.release t.account = some accounts) :
      State.Step s (.release i)
        { s.setTask i { t with phase := .ended how .released } with
          running := running
          accounts := accounts
          retiring :=
            if s.retiring t.key = some i then Function.update s.retiring t.key none
            else s.retiring }
  | finish {i : Nat} {t : Task ε} {how : End} (ht : s.tasks i = some t)
      (hp : t.phase = .ended how .released) :
      State.Step s (.finish i) (s.setTask i { t with phase := .ended how .gone })
  | retire (workerId : String) (version : Int) :
      State.Step s (.retire workerId version) (s.retire workerId version)
  | stopNamespace (namespaceId : String) :
      State.Step s (.stopNamespace namespaceId) (s.stopNamespace namespaceId).1

/-! ## Phases -/

theorem Phase.isOver_of_serves {p : Phase} (h : p.serves = true) : p.isOver = false := by
  cases p <;> first | rfl | cases h

theorem Phase.counted_of_serves {p : Phase} (h : p.serves = true) : p.counted = true := by
  cases p <;> first | rfl | cases h

/-! ## The machine does nothing else -/

namespace State

theorem tasks_setTask_self (s : State ε) (i : Nat) (t : Task ε) :
    (s.setTask i t).tasks i = some t :=
  Function.update_self ..

variable {i : Nat} {s s' : State ε} {t : Task ε} {event : ε} {a : Act ε}

theorem move_eq_some {phase : Phase} {f : Task ε → State ε} :
    s.move i phase f = some s' ↔ ∃ t, s.tasks i = some t ∧ t.phase = phase ∧ f t = s' := by
  simp [move, Option.bind_eq_some_iff]

theorem take_eq {phase otherwise : Phase} :
    (t.mailbox.queue = [] ∧
        s.take i t phase otherwise = s.setTask i { t with phase := otherwise }) ∨
      ∃ event queue, t.mailbox.queue = event :: queue ∧ s.take i t phase otherwise =
          { s.setTask i { t with phase := phase, mailbox := { t.mailbox with queue := queue } } with
            taken := s.taken ++ [(i, event)] } := by
  rw [take]
  cases hq : t.mailbox.queue with
  | nil => exact .inl ⟨rfl, rfl⟩
  | cons event queue => exact .inr ⟨event, queue, rfl, rfl⟩

theorem deliver_eq_some {key : ObjectKey} (h : s.deliver key event = some (i, t)) :
    ∃ entry u, s.objects key = some entry ∧ s.tasks entry.generation = some u ∧
      u.mailbox.closed = false ∧ i = entry.generation ∧
      t = { u with mailbox := { u.mailbox with queue := u.mailbox.queue ++ [event] } } := by
  obtain ⟨entry, he, h⟩ := Option.bind_eq_some_iff.1 h
  obtain ⟨u, hu, h⟩ := Option.bind_eq_some_iff.1 h
  obtain ⟨mailbox, hm, h⟩ := Option.map_eq_some_iff.1 h
  rw [Prod.mk.injEq] at h
  rw [Mailbox.send] at hm
  split at hm
  · cases hm
  next ho =>
    refine ⟨entry, u, he, hu, by simpa using ho, h.1.symm, ?_⟩
    rw [← h.2, ← Option.some.inj hm]

theorem deliver_eq_none {key : ObjectKey} (h : s.deliver key event = none) {entry : Entry}
    (he : s.objects key = some entry) (ht : s.tasks entry.generation = some t) :
    t.mailbox.closed = true := by
  simpa [deliver, he, ht, Mailbox.send] using h

theorem step_admit_of_ok {ns : NamespaceConfig} {id : String} {depth : Nat} {guard : DepthGuard}
    (h : s.admitEvent ns id depth event = .ok (s', guard)) :
    s.Step (.admitEvent ns id depth event) s' ∧
      s'.accepted = s.accepted ++ [(guard.generation, event)] ∧
      ((∃ entry, s.objects ⟨ns.id, id⟩ = some entry ∧ guard.generation = entry.generation) ∨
        guard.generation = s.generation ∧
          s'.tasks s.generation = some { (s.spawn ns ⟨ns.id, id⟩ event).2 with
            depths := [depth] }) := by
  simp only [admitEvent] at h
  split at h
  · cases h
  next hst =>
    rw [Bool.not_eq_true] at hst
    split at h
    next i t hd =>
      obtain ⟨entry, u, he, hu, ho, rfl, rfl⟩ := deliver_eq_some hd
      cases h
      exact ⟨.pushed depth event hst he hu ho, rfl, .inl ⟨entry, he, rfl⟩⟩
    next hd =>
      split at h
      · cases h
      next ha =>
        cases h
        exact ⟨.spawned depth event hst (fun _ _ => deliver_eq_none hd) (by omega), rfl,
          .inr ⟨rfl, tasks_setTask_self ..⟩⟩

theorem step_admit_of_eq {ns : NamespaceConfig} {id : String} {depth : Nat}
    (h : s.step (.admitEvent ns id depth event) = some s') :
    s.Step (.admitEvent ns id depth event) s' := by
  simp only [step] at h
  split at h <;> rename_i hre
  · cases h
    exact (step_admit_of_ok hre).1
  · cases h
    exact .refused ns id depth event

theorem step_dropGuard_of_eq {guard : DepthGuard} (h : s.dropGuard guard = some s') :
    s.Step (.dropGuard guard) s' := by
  rw [dropGuard] at h
  split at h
  · obtain ⟨t, ht, h⟩ := Option.bind_eq_some_iff.1 h
    obtain ⟨idx, -, rfl⟩ := Option.map_eq_some_iff.1 h
    exact .dropGuard _ _ ht
  · cases h

theorem step_leave_of_eq (h : s.callLeave i = some s') : s.Step (.leave i) s' := by
  obtain ⟨t, ht, hp, rfl⟩ := move_eq_some.1 h
  by_cases hq : t.mailbox.queue = []
  · have hl := Step.left ht hp hq
    simp only [leave, hq, ne_eq, not_true, if_false]
    simpa [endServe, setTask] using hl
  · have hl := Step.stayed ht hp hq
    simpa [leave, hq] using hl

theorem step_release_of_eq (h : s.release i = some s') : s.Step (.release i) s' := by
  obtain ⟨t, ht, h⟩ := Option.bind_eq_some_iff.1 h
  split at h
  next how hp =>
    obtain ⟨running, hr, h⟩ := Option.bind_eq_some_iff.1 h
    obtain ⟨accounts, ha, rfl⟩ := Option.map_eq_some_iff.1 h
    exact .release ht hp hr ha
  · cases h

/-- **The machine does nothing else.** -/
theorem step_of_eq (h : s.step a = some s') : s.Step a s' := by
  cases a with
  | admitEvent ns id depth event => exact step_admit_of_eq h
  | dropGuard guard => exact step_dropGuard_of_eq h
  | start i =>
    obtain ⟨t, ht, h⟩ := Option.bind_eq_some_iff.1 h
    split at h
    next hp =>
      cases h
      exact .start ht hp.1 hp.2
    · cases h
  | loaded i ver =>
    obtain ⟨t, ht, hp, rfl⟩ := move_eq_some.1 h
    exact .loaded ver ht hp
  | notLoaded i =>
    obtain ⟨t, ht, hp, rfl⟩ := move_eq_some.1 h
    exact .notLoaded ht hp
  | tryRecv i built =>
    obtain ⟨t, ht, hp, rfl⟩ := move_eq_some.1 h
    rcases take_eq with ⟨hq, heq⟩ | ⟨event, queue, hq, heq⟩
    · rw [heq]
      exact .tookNone built ht hp hq
    · rw [heq]
      exact .tookFirst built ht hp hq
  | recv i =>
    obtain ⟨t, ht, hp, rfl⟩ := move_eq_some.1 h
    rcases take_eq with ⟨hq, heq⟩ | ⟨event, queue, hq, heq⟩
    · rw [heq]
      exact .receivedNone ht hp hq
    · rw [heq]
      exact .received ht hp hq
  | objectEnds i =>
    obtain ⟨t, ht, hp, rfl⟩ := move_eq_some.1 h
    exact .objectEnds ht hp
  | leave i => exact step_leave_of_eq h
  | die i =>
    obtain ⟨t, ht, h⟩ := Option.bind_eq_some_iff.1 h
    split at h
    · cases h
      exact .die ht ‹_›
    · cases h
  | release i => exact step_release_of_eq h
  | finish i =>
    obtain ⟨t, ht, h⟩ := Option.bind_eq_some_iff.1 h
    split at h
    · cases h
      exact .finish ht ‹_›
    · cases h
  | retire wid ver => cases h; exact .retire wid ver
  | stopNamespace namespaceId => cases h; exact .stopNamespace namespaceId

/-- One task goes on: it stays the task of its object, a load is not undone, and once `serve` has
ended and the mailbox is closed, the mailbox stays as it is. -/
structure TaskOn (t t' : Task ε) : Prop where
  key : t'.key = t.key
  previous : t'.previous = t.previous
  loaded : t.phase.loaded = true → t'.phase.loaded = true
  ended : t.phase.isOver = true → t'.phase.isOver = true
  mailbox : t.phase.isOver = true → t.mailbox.closed = true → t'.mailbox = t.mailbox

/-- **What a step does to the tasks**: nothing, or one of them goes on, or the next one starts. -/
theorem Step.tasks (hs : s.Step a s') :
    s'.tasks = s.tasks ∨
      (∃ i t t', s.tasks i = some t ∧ s'.tasks = Function.update s.tasks i (some t') ∧
        TaskOn t t') ∨
      ∃ t', s'.tasks = Function.update s.tasks s.generation (some t') ∧
        t'.previous = s.retiring t'.key := by
  -- a task that serves goes to some other phase
  have on : ∀ {t t' : Task ε} {p : Phase}, t.phase = p → p.isOver = false → t'.key = t.key →
      t'.previous = t.previous → (p.loaded = true → t'.phase.loaded = true) → TaskOn t t' := by
    intro t t' p hp ho hk hpr hl
    rw [← hp] at ho hl
    exact ⟨hk, hpr, hl, fun h => absurd h (by simp [ho]), fun h => absurd h (by simp [ho])⟩
  cases hs with
  | refused | retire | stopNamespace => exact .inl rfl
  | spawned depth event hst hcl hac => exact .inr (.inr ⟨_, rfl, rfl⟩)
  | pushed depth event hst he ht hop =>
    exact .inr (.inl ⟨_, _, _, ht, rfl, rfl, rfl, id, id, fun _ h => absurd h (by simp [hop])⟩)
  | dropGuard depths guards ht =>
    exact .inr (.inl ⟨_, _, _, ht, rfl, rfl, rfl, id, id, fun _ _ => rfl⟩)
  | tookFirst built ht hp hq =>
    refine .inr (.inl ⟨_, _, _, ht, rfl, on hp rfl rfl rfl fun _ => ?_⟩)
    cases built <;> rfl
  | die ht hp =>
    exact .inr (.inl ⟨_, _, _, ht, rfl, on rfl (Phase.isOver_of_serves hp) rfl rfl fun _ => rfl⟩)
  | release ht hp hr ha | finish ht hp =>
    exact .inr (.inl ⟨_, _, _, ht, rfl, rfl, rfl, fun _ => rfl, fun _ => rfl, fun _ _ => rfl⟩)
  | start ht hp => exact .inr (.inl ⟨_, _, _, ht, rfl, on hp rfl rfl rfl nofun⟩)
  | loaded _ ht hp | notLoaded ht hp | tookNone _ ht hp | received ht hp | receivedNone ht hp
  | objectEnds ht hp | stayed ht hp | left ht hp =>
    exact .inr (.inl ⟨_, _, _, ht, rfl, on hp rfl rfl rfl fun _ => rfl⟩)

structure PhaseOn (a : Act ε) (i : Nat) (t t' : Task ε) : Prop where
  counted : t'.phase.counted = true → t.phase.counted = true
  lent : t.phase = .lent → t'.phase = .lent ∨ a = .objectEnds i ∨ a = .die i
  served : t'.phase.isOver = true → t.phase.isOver = true ∨ t.phase.loaded = false ∨
    (a = .leave i ∧ t.mailbox.queue = []) ∨ a = .die i

/-- **What a step does to the phases**: nothing, or one of them changes, or the next task starts, in
a namespace that is not deleted. -/
theorem Step.phases (hs : s.Step a s') :
    s'.tasks = s.tasks ∨
      (∃ i t t', s.tasks i = some t ∧ s'.tasks = Function.update s.tasks i (some t') ∧
        t'.key = t.key ∧ PhaseOn a i t t') ∨
      ∃ t', s'.tasks = Function.update s.tasks s.generation (some t') ∧ t'.phase = .waiting ∧
        s.stopped t'.key.namespaceId = false := by
  -- a task that is not over goes to another such phase, from one in which it was not lent
  have on : ∀ {i : Nat} {t t' : Task ε} {p : Phase}, t.phase = p → p.counted = true → p ≠ .lent →
      t'.phase.isOver = false → PhaseOn a i t t' := by
    intro i t t' p hp hcn hl ho
    refine ⟨fun _ => hp ▸ hcn, fun h => absurd (hp.symm.trans h) hl, fun h => ?_⟩
    rw [ho] at h
    cases h
  cases hs with
  | refused | retire | stopNamespace => exact .inl rfl
  | spawned depth event hst hcl ha => exact .inr (.inr ⟨_, rfl, rfl, hst⟩)
  | pushed _ _ _ _ ht | dropGuard _ _ ht =>
    exact .inr (.inl ⟨_, _, _, ht, rfl, rfl, id, .inl, .inl⟩)
  | tookFirst built ht hp hq =>
    refine .inr (.inl ⟨_, _, _, ht, rfl, rfl, on hp rfl (by decide) ?_⟩)
    cases built <;> rfl
  | start ht hp | loaded _ ht hp | tookNone _ ht hp | stayed ht hp =>
    exact .inr (.inl ⟨_, _, _, ht, rfl, rfl, on hp rfl (by decide) rfl⟩)
  | received ht hp | receivedNone ht hp =>
    exact .inr (.inl ⟨_, _, _, ht, rfl, rfl, fun _ => hp ▸ rfl, fun _ => .inl rfl, nofun⟩)
  | objectEnds ht hp =>
    exact .inr (.inl ⟨_, _, _, ht, rfl, rfl, fun _ => hp ▸ rfl, fun _ => .inr (.inl rfl), nofun⟩)
  | notLoaded ht hp =>
    refine .inr (.inl ⟨_, _, _, ht, rfl, rfl, fun _ => hp ▸ rfl, fun h => ?_,
      fun _ => .inr (.inl (hp ▸ rfl))⟩)
    cases hp.symm.trans h
  | left ht hp hq =>
    refine .inr (.inl ⟨_, _, _, ht, rfl, rfl, fun _ => hp ▸ rfl, fun h => ?_,
      fun _ => .inr (.inr (.inl ⟨rfl, hq⟩))⟩)
    cases hp.symm.trans h
  | die ht hp =>
    exact .inr (.inl ⟨_, _, _, ht, rfl, rfl, fun _ => Phase.counted_of_serves hp,
      fun _ => .inr (.inr rfl), fun _ => .inr (.inr (.inr rfl))⟩)
  | release ht hp | finish ht hp =>
    refine .inr (.inl ⟨_, _, _, ht, rfl, rfl, nofun, fun h => ?_, fun _ => .inl (hp ▸ rfl)⟩)
    cases hp.symm.trans h

theorem Step.stopped (hs : s.Step a s') {n : String} (h : s.stopped n = true) :
    s'.stopped n = true := by
  cases hs with
  | stopNamespace ns =>
    show Function.update s.stopped ns true n = true
    by_cases hn : n = ns
    · rw [hn, Function.update_self]
    · rwa [Function.update_of_ne hn]
  | _ => exact h

end State

/-! ## The counts -/

def State.live (s : State ε) (name : Task ε → String) (i : Nat) : Option String :=
  (s.tasks i).bind fun t => if t.phase.counted then some (name t) else none

structure State.Counted (s : State ε) : Prop where
  lt : ∀ i t, s.tasks i = some t → i < s.generation
  running : s.running = Counts.tally (s.live fun t => t.key.namespaceId) s.generation
  accounts : s.accounts = Counts.tally (s.live Task.account) s.generation

variable {i : Nat} {s s' : State ε} {t : Task ε}

theorem State.live_update (t' : Task ε) (name : Task ε → String)
    (h : s'.tasks = Function.update s.tasks i (some t')) :
    s'.live name = Function.update (s.live name) i
      (if t'.phase.counted then some (name t') else none) := by
  funext j
  by_cases hj : j = i
  · subst hj; simp [State.live, h]
  · simp [State.live, h, hj]

theorem State.live_of_counted {t' : Task ε} {name : Task ε → String} (ht : s.tasks i = some t)
    (h : s'.tasks = Function.update s.tasks i (some t')) (hn : name t' = name t)
    (hc : t'.phase.counted = t.phase.counted) : s'.live name = s.live name := by
  rw [State.live_update t' name h, Function.update_eq_self_iff, State.live, ht, Option.bind_some,
    hc, hn]

namespace State.Counted

variable {i : Nat} {s s' : State ε} {t' t : Task ε}

theorem lt_update (h : s.Counted) {n : Nat}
    (ht : s'.tasks = Function.update s.tasks i (some t')) (hn : s'.generation = n)
    (hle : s.generation ≤ n) (hi : i < n) : ∀ j t, s'.tasks j = some t → j < s'.generation := by
  intro j t hj
  rw [hn]
  by_cases hji : j = i
  · rw [hji]; exact hi
  · rw [ht, Function.update_of_ne hji] at hj
    exact Nat.lt_of_lt_of_le (h.lt j t hj) hle

theorem setTask (h : s.Counted) (ht : s.tasks i = some t)
    (hts : s'.tasks = Function.update s.tasks i (some t')) (hk : t'.key = t.key)
    (hac : t'.account = t.account) (hc : t'.phase.counted = t.phase.counted)
    (hr : s'.running = s.running) (ha : s'.accounts = s.accounts)
    (hg : s'.generation = s.generation) : s'.Counted where
  lt := h.lt_update hts hg (Nat.le_refl _) (h.lt i t ht)
  running := by
    rw [hr, hg, h.running, State.live_of_counted ht hts (by rw [hk]) hc]
  accounts := by
    rw [ha, hg, h.accounts, State.live_of_counted ht hts hac hc]

theorem start (h : s.Counted) (ht : s'.tasks = Function.update s.tasks s.generation (some t'))
    (hc : t'.phase.counted = true) (hr : s'.running = s.running.add t'.key.namespaceId)
    (ha : s'.accounts = s.accounts.add t'.account) (hg : s'.generation = s.generation + 1) :
    s'.Counted where
  lt := h.lt_update ht hg (by omega) (by omega)
  running := by
    rw [hr, hg, h.running, Counts.add_tally, State.live_update t' _ ht, if_pos hc]
  accounts := by
    rw [ha, hg, h.accounts, Counts.add_tally, State.live_update t' _ ht, if_pos hc]

theorem live_eq (name : Task ε → String) (ht : s.tasks i = some t) (hc : t.phase.counted = true) :
    s.live name i = some (name t) := by
  rw [State.live, ht, Option.bind_some, if_pos hc]

theorem release_eq (h : s.Counted) (ht : s.tasks i = some t) (hc : t.phase.counted = true) :
    s.running.release t.key.namespaceId = some (Counts.tally
        (Function.update (s.live fun t => t.key.namespaceId) i none) s.generation) ∧
      s.accounts.release t.account = some (Counts.tally
        (Function.update (s.live Task.account) i none) s.generation) := by
  have hlt := h.lt i t ht
  refine ⟨?_, ?_⟩
  · rw [h.running]
    exact Counts.release_tally hlt (live_eq (fun t => t.key.namespaceId) ht hc)
  · rw [h.accounts]
    exact Counts.release_tally hlt (live_eq Task.account ht hc)

theorem step {a : Act ε} (h : s.Counted) (hs : s.Step a s') : s'.Counted := by
  cases hs with
  | refused => exact h
  | spawned depth event hst hcl hac =>
    exact h.start rfl rfl rfl rfl rfl
  | @release i t how running accounts ht hp hr ha =>
    obtain ⟨hr', ha'⟩ := h.release_eq ht (by rw [hp]; rfl)
    refine ⟨h.lt_update rfl rfl (Nat.le_refl _) (h.lt i t ht), ?_, ?_⟩
    · rw [State.live_update { t with phase := .ended how .released } _ (by rfl)]
      exact Option.some.inj (hr.symm.trans hr')
    · rw [State.live_update { t with phase := .ended how .released } _ (by rfl)]
      exact Option.some.inj (ha.symm.trans ha')
  | tookFirst built ht hp hq =>
    refine h.setTask ht rfl rfl rfl ?_ rfl rfl rfl
    cases built <;> rw [hp] <;> rfl
  | die ht hp => exact h.setTask ht rfl rfl rfl (Phase.counted_of_serves hp).symm rfl rfl rfl
  | retire | stopNamespace => exact ⟨h.lt, h.running, h.accounts⟩
  | pushed depth event hst he ht ho => exact h.setTask ht rfl rfl rfl rfl rfl rfl rfl
  | dropGuard depths guards ht => exact h.setTask ht rfl rfl rfl rfl rfl rfl rfl
  | start ht hp | loaded _ ht hp | notLoaded ht hp | tookNone _ ht hp | received ht hp
  | receivedNone ht hp | objectEnds ht hp | stayed ht hp | left ht hp | finish ht hp =>
    exact h.setTask ht rfl rfl rfl (congrArg Phase.counted hp).symm rfl rfl rfl

end State.Counted

theorem State.Step.task_on {s s' : State ε} {a : Act ε} (hc : s.Counted) (hs : s.Step a s')
    {i : Nat} {t : Task ε} (ht : s.tasks i = some t) :
    ∃ t', s'.tasks i = some t' ∧ TaskOn t t' := by
  have hlt := hc.lt i t ht
  have same : TaskOn t t := ⟨rfl, rfl, id, id, fun _ _ => rfl⟩
  rcases hs.tasks with heq | ⟨j, u, u', hu, heq, ho⟩ | ⟨u', heq, -⟩
  · exact ⟨t, by rw [heq, ht], same⟩
  · by_cases hij : i = j
    · subst hij
      obtain rfl := Option.mem_unique ht hu
      exact ⟨u', by rw [heq, Function.update_self], ho⟩
    · exact ⟨t, by rw [heq, Function.update_of_ne hij, ht], same⟩
  · exact ⟨t, by rw [heq, Function.update_of_ne (by omega), ht], same⟩

theorem State.Step.phase_on {a : Act ε} (hc : s.Counted) (hs : s.Step a s')
    (ht : s.tasks i = some t) : ∃ t', s'.tasks i = some t' ∧ t'.key = t.key ∧ PhaseOn a i t t' := by
  have hlt := hc.lt i t ht
  have same : PhaseOn a i t t := ⟨id, .inl, .inl⟩
  rcases hs.phases with heq | ⟨j, u, u', hu, heq, hk, ho⟩ | ⟨u', heq, -⟩
  · exact ⟨t, by rw [heq, ht], rfl, same⟩
  · by_cases hij : i = j
    · subst hij
      obtain rfl := Option.mem_unique ht hu
      exact ⟨u', by rw [heq, Function.update_self], hk, ho⟩
    · exact ⟨t, by rw [heq, Function.update_of_ne hij, ht], rfl, same⟩
  · exact ⟨t, by rw [heq, Function.update_of_ne (by omega), ht], rfl, same⟩

theorem counted_of_reach (h : (machine ε).Reachable s) : s.Counted := by
  refine h.invariant (I := State.Counted) ⟨?_, ?_, ?_⟩ fun s a s' _ hi _ hs =>
    hi.step (State.step_of_eq hs)
  · intro i t ht; cases ht
  · funext n; rfl
  · funext n; rfl

/-- **The guard of a task can always be dropped**: its two counts are there. -/
theorem release_isSome (h : (machine ε).Reachable s) {how : End} (ht : s.tasks i = some t)
    (hp : t.phase = .ended how .running) : (s.release i).isSome = true := by
  obtain ⟨hr, ha⟩ := (counted_of_reach h).release_eq ht (by rw [hp]; rfl)
  simp [State.release, ht, hp, hr, ha]

end OpenWorkersRunner.Durable
