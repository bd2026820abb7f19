import OpenWorkersRunner.Durable.Sockets

/-!
# Durable Objects: the sockets of old code

When the worker of an object is deployed again, `retire` takes the entry of the object away and then
closes its sockets, while the instance with the old code goes on with the events it has.  When that
instance ends, `instance_ended` closes the sockets that are not hibernatable.
-/

namespace OpenWorkersRunner.Durable

open Function List Option

variable {ε : Type}

/-- An entry with a version after a step: its worker was loaded in the step, or it was there, and
the task it is of does not leave in the step. -/
theorem State.Step.version {s s' : State ε} {a : Act ε} (hs : s.Step a s') {key : ObjectKey}
    {entry : Entry} (he : s'.objects key = some entry) (hv : entry.version ≠ none) :
    (∃ t, s'.tasks entry.generation = some t ∧ t.phase.isOver = false) ∨
    s.objects key = some entry ∧ ∀ t, s.tasks entry.generation = some t → t.key = key →
      t.mailbox.queue = [] → a ≠ .leave entry.generation := by
  cases hs with
  | @spawned ns id depth ev hst hcl ha =>
    rcases update_some_eq_some he with ⟨rfl, rfl⟩ | ⟨-, he⟩
    · exact absurd rfl hv
    · exact .inr ⟨he, fun _ _ _ _ => nofun⟩
  | @loaded i t ver ht hp =>
    dsimp only at he
    by_cases hk : key = t.key
    · subst hk
      rw [update_self] at he
      obtain ⟨e, hob, heq⟩ := map_eq_some_iff.1 he
      split at heq
      next hge =>
        subst heq hge
        exact .inl ⟨_, update_self .., rfl⟩
      · subst heq
        exact .inr ⟨hob, fun _ _ _ _ => nofun⟩
    · exact .inr ⟨(update_of_ne hk ..).symm.trans he, fun _ _ _ _ => nofun⟩
  | @stayed i t ht hp hq =>
    refine .inr ⟨he, fun u hu _ hem heq => ?_⟩
    cases heq
    exact hq (mem_unique ht hu ▸ hem)
  | @left i t ht hp hq =>
    have hot : s.objects key = some entry ∧ (key = t.key → entry.generation ≠ i) := by
      by_cases ho : (s.objects t.key).any fun entry => entry.generation = i
      · dsimp only at he
        rw [if_pos ho] at he
        by_cases hk : key = t.key
        · rw [hk, update_self] at he
          cases he
        · exact ⟨(update_of_ne hk ..).symm.trans he, fun h => absurd h hk⟩
      · dsimp only at he
        rw [if_neg ho] at he
        refine ⟨he, fun hk hge => ho ?_⟩
        rw [← hk, he]
        simpa using hge
    refine .inr ⟨hot.1, fun u hu hk _ heq => ?_⟩
    cases heq
    exact hot.2 (mem_unique ht hu ▸ hk.symm) rfl
  | retire wid ver =>
    exact .inr ⟨(filter_eq_some_iff.1 he).1, fun _ _ _ _ => nofun⟩
  | stopNamespace namespaceId =>
    refine .inr ⟨?_, fun _ _ _ _ => nofun⟩
    obtain ⟨-, he⟩ := ite_none_left_eq_some.1 he
    exact he
  | _ => exact .inr ⟨he, fun _ _ _ _ => nofun⟩

namespace Sockets

open Parties

/-! ## Closings in order -/

def State.Retired (s : State ε) (i : Nat) : Prop :=
  ∃ call ∈ s.retires, ∃ key, call.old key = some i

def State.Closing (s : State ε) (i : Nat) : Prop :=
  ∃ call ∈ s.retires, ∃ key, call.old key = some i ∧ call.closed key = false

/-- The sockets of a retired instance are closed as they should be: `retire` closes them before the
task leaves, the instance accepts no hibernatable socket after that, and it ends by
`instance_ended`. -/
def Orderly (s : State ε) : Act ε → Prop
  | .registry (.leave i) =>
    ∀ t, s.tasks i = some t → t.mailbox.queue = [] → ¬ s.Closing i
  | .registry (.die _) => False
  | .accept i _ _ _ hibernatable =>
    (∀ t, s.tasks i = some t → t.phase = .lent) ∧ (hibernatable = true → s.Retired i → s.Closing i)
  | _ => True

/-! ## The invariant -/

structure Renewed (s : State ε) : Prop where
  owner : ∀ x ∈ s.sockets, ∃ t, s.tasks x.acceptedBy = some t ∧ t.key = x.key
  lent : ∀ x ∈ s.sockets, x.hibernatable = false →
    ∀ t, s.tasks x.acceptedBy = some t → t.phase = .lent
  closing : ∀ x ∈ s.sockets, x.hibernatable = true → s.Retired x.acceptedBy → s.Closing x.acceptedBy
  retired : ∀ call ∈ s.retires, ∀ key i, call.old key = some i →
    ∃ t, s.tasks i = some t ∧ t.key = key ∧ t.phase.loaded = true
  running : ∀ i t, s.Closing i → s.tasks i = some t → t.phase.isOver = false
  entry : ∀ key entry t, s.objects key = some entry → entry.version ≠ none →
    s.tasks entry.generation = some t → t.phase.isOver = false

namespace Renewed

variable {s : State ε}

theorem filter (hs : Renewed s) (p : Socket → Bool) :
    Renewed { s with sockets := s.sockets.filter p } :=
  ⟨fun x hx => hs.owner x (mem_filter.1 hx).1, fun x hx => hs.lent x (mem_filter.1 hx).1,
    fun x hx => hs.closing x (mem_filter.1 hx).1, hs.retired, hs.running, hs.entry⟩

/-- A step of the registry, after which the sockets that are not hibernatable are still of a running
instance. -/
theorem registry {a : Durable.Act ε} {r : Durable.State ε} (hs : Renewed s)
    (hrc : (Durable.machine ε).Reachable s.toState) (h : s.toState.Step a r)
    (hd : ∀ i, a ≠ .die i)
    (hl : ∀ i t, a = .leave i → s.tasks i = some t → t.mailbox.queue = [] → ¬ s.Closing i)
    (hen : ∀ x ∈ s.sockets, x.hibernatable = false → a ≠ .objectEnds x.acceptedBy) :
    Renewed { s with toState := r } := by
  have hc := counted_of_reach hrc
  constructor
  · intro x hx
    obtain ⟨t, ht, hk⟩ := hs.owner x hx
    obtain ⟨t', ht', hk', -⟩ := h.phase_on hc ht
    exact ⟨t', ht', hk'.trans hk⟩
  · intro x hx hh t' ht'
    obtain ⟨t, ht, -⟩ := hs.owner x hx
    obtain ⟨u, hu, -, hon⟩ := h.phase_on hc ht
    obtain rfl := some.inj (hu.symm.trans ht')
    rcases hon.lent (hs.lent x hx hh t ht) with hle | hend | hend
    · exact hle
    · exact absurd hend (hen x hx hh)
    · exact absurd hend (hd _)
  · exact hs.closing
  · intro call hca key i hold
    obtain ⟨t, ht, hk, hld⟩ := hs.retired call hca key i hold
    obtain ⟨t', ht', hon⟩ := h.task_on hc ht
    exact ⟨t', ht', hon.key.trans hk, hon.loaded hld⟩
  · intro i t' hcl ht'
    obtain ⟨call, hca, key, hold, -⟩ := id hcl
    obtain ⟨t, ht, -, hld⟩ := hs.retired call hca key i hold
    obtain ⟨u, hu, -, hon⟩ := h.phase_on hc ht
    obtain rfl := some.inj (hu.symm.trans ht')
    by_contra ho
    rcases hon.served (by simpa using ho) with ho | hn | ⟨hend, hq⟩ | hend
    · rw [hs.running i t hcl ht] at ho
      cases ho
    · rw [hld] at hn
      cases hn
    · exact hl i t hend ht hq hcl
    · exact absurd hend (hd _)
  · intro key entry t' he hv ht'
    rcases h.version he hv with ⟨u, hu, ho⟩ | ⟨he, hst⟩
    · exact some.inj (hu.symm.trans ht') ▸ ho
    · obtain ⟨t, ht, hk, hld⟩ := (exclusive_of_reach hrc).entry key entry he
      obtain ⟨u, hu, -, hon⟩ := h.phase_on hc ht
      obtain rfl := some.inj (hu.symm.trans ht')
      by_contra ho
      rcases hon.served (by simpa using ho) with ho | hn | ⟨hend, hq⟩ | hend
      · rw [hs.entry key entry t he hv ht] at ho
        cases ho
      · rw [hld hv] at hn
        cases hn
      · exact hst t ht hk hq hend
      · exact absurd hend (hd _)

theorem retires {wid : String} {ver : Int} (hs : Renewed s)
    (hrc : (Durable.machine ε).Reachable s.toState) :
    Renewed { s with retires := s.retires ++ [⟨fun key =>
      ((s.objects key).filter (State.runs wid ver)).map Entry.generation,
      fun _ => false⟩] } := by
  -- what the call takes away is an entry with a version
  have hn : ∀ key i, ((s.objects key).filter (State.runs wid ver)).map
      Entry.generation = some i →
      ∃ entry, s.objects key = some entry ∧ entry.generation = i ∧ entry.version ≠ none := by
    intro key i hold
    obtain ⟨entry, hf, hge⟩ := map_eq_some_iff.1 hold
    obtain ⟨he, hru⟩ := filter_eq_some_iff.1 hf
    rw [State.runs, Bool.and_eq_true, beq_iff_eq, beq_iff_eq] at hru
    exact ⟨entry, he, hge, by rw [hru.2]; simp⟩
  refine ⟨hs.owner, hs.lent, ?_, ?_, ?_, hs.entry⟩
  · intro x hx hh hre
    obtain ⟨call, hca, key, hold⟩ := hre
    rcases mem_append.1 hca with hca | hca
    · obtain ⟨call', hca', h⟩ := hs.closing x hx hh ⟨call, hca, key, hold⟩
      exact ⟨call', mem_append_left _ hca', h⟩
    · obtain rfl := mem_singleton.1 hca
      exact ⟨_, mem_append_right _ hca, key, hold, rfl⟩
  · intro call hca key i hold
    rcases mem_append.1 hca with hca | hca
    · exact hs.retired call hca key i hold
    · obtain rfl := mem_singleton.1 hca
      obtain ⟨entry, he, rfl, hv⟩ := hn key i hold
      obtain ⟨t, ht, hk, hl⟩ := (exclusive_of_reach hrc).entry key entry he
      exact ⟨t, ht, hk, hl hv⟩
  · intro i t hcl ht
    obtain ⟨call, hca, key, hold, ho⟩ := hcl
    rcases mem_append.1 hca with hca | hca
    · exact hs.running i t ⟨call, hca, key, hold, ho⟩ ht
    · obtain rfl := mem_singleton.1 hca
      obtain ⟨entry, he, rfl, hv⟩ := hn key i hold
      exact hs.entry key entry t he hv ht

theorem closes {j : Nat} {call : Retire} {key : ObjectKey} (hs : Renewed s)
    (hj : s.retires[j]? = some call) :
    Renewed { s with
      sockets := closeObject s.sockets key
      retires := s.retires.set j
        { call with closed := update call.closed key true } } := by
  have hba : ∀ call' ∈ s.retires.set j { call with closed := update call.closed key true },
      ∃ before ∈ s.retires, before.old = call'.old ∧
        ∀ k, call'.closed k = false → before.closed k = false := by
    intro call' hca'
    rcases eq_or_exists_of_mem_set hca' with rfl | ⟨k, -, hk⟩
    · refine ⟨call, mem_of_getElem? hj, rfl, fun k hk => ?_⟩
      dsimp only at hk
      by_cases hke : k = key
      · rw [hke, update_self] at hk
        cases hk
      · rwa [update_of_ne hke] at hk
    · exact ⟨call', mem_of_getElem? hk, rfl, fun _ h => h⟩
  constructor
  · exact fun x hx => hs.owner x (mem_filter.1 hx).1
  · exact fun x hx => hs.lent x (mem_filter.1 hx).1
  · intro x hx hh hre
    obtain ⟨hm, hke⟩ := mem_filter.1 hx
    obtain ⟨call', hca', k, hold⟩ := hre
    obtain ⟨before, hbe, ho, -⟩ := hba call' hca'
    obtain ⟨c, hc, k', hold', hop⟩ :=
      hs.closing x hm hh ⟨before, hbe, k, ho ▸ hold⟩
    -- the call that has still to close the socket is about the object of the socket
    obtain ⟨t, ht, htk⟩ := hs.owner x hm
    obtain ⟨u, hu, huk, -⟩ := hs.retired c hc k' _ hold'
    obtain rfl := mem_unique ht hu
    have hne : k' ≠ key := by
      rintro rfl
      simp [← htk, huk] at hke
    obtain ⟨call'', hca'', hst⟩ := exists_mem_set hj
      (b := { call with closed := update call.closed key true })
      (p := fun c => c.old k' = some x.acceptedBy ∧ c.closed k' = false)
      (fun h => ⟨h.1, (update_of_ne hne ..).trans h.2⟩) ⟨c, hc, hold', hop⟩
    exact ⟨call'', hca'', k', hst⟩
  · intro call' hca' k i hold
    obtain ⟨before, hbe, ho, -⟩ := hba call' hca'
    exact hs.retired before hbe k i (ho ▸ hold)
  · intro i t hclo ht
    obtain ⟨call', hca', k, hold, hop⟩ := hclo
    obtain ⟨before, hbe, ho, hcl⟩ := hba call' hca'
    exact hs.running i t ⟨before, hbe, k, ho ▸ hold, hcl k hop⟩ ht
  · exact hs.entry

theorem step {t : State ε} {a : Act ε} (hs : Renewed s)
    (hrc : (Durable.machine ε).Reachable s.toState) (hok : Orderly s a) (h : s.Step a t) :
    Renewed t := by
  cases h with
  | @registry a r ha h =>
    refine hs.registry hrc (Durable.State.step_of_eq h) ?_ ?_ ?_
    · rintro i rfl
      exact hok
    · rintro i u rfl
      exact hok u
    · rintro x - - rfl
      cases ha
  | @objectEnds i u r hu h =>
    have hen : Renewed { s with sockets := instanceEnded s.sockets u.key } := hs.filter _
    refine hen.registry hrc (Durable.State.step_of_eq h) nofun nofun fun x hx hh heq => ?_
    -- the sockets of the instance that ended are closed
    cases heq
    obtain ⟨v, hv, hk⟩ := hen.owner x hx
    obtain rfl := mem_unique hu hv
    have := (mem_filter.1 hx).2
    simp [hk, hh] at this
  | @accepted i id u slot hibernatable tags hu hp =>
    obtain ⟨hl, hre⟩ := hok
    constructor
    · intro x hx
      rcases mem_append.1 hx with hx | hx
      · exact hs.owner x (mem_filter.1 hx).1
      · obtain rfl := mem_singleton.1 hx
        exact ⟨u, hu, rfl⟩
    · intro x hx
      rcases mem_append.1 hx with hx | hx
      · exact hs.lent x (mem_filter.1 hx).1
      · obtain rfl := mem_singleton.1 hx
        exact fun _ => hl
    · intro x hx
      rcases mem_append.1 hx with hx | hx
      · exact hs.closing x (mem_filter.1 hx).1
      · obtain rfl := mem_singleton.1 hx
        exact hre
    · exact hs.retired
    · exact hs.running
    · exact hs.entry
  | @touched a sockets ht =>
    refine ⟨fun x hx => ?_, fun x hx => ?_, fun x hx => ?_, hs.retired, hs.running, hs.entry⟩
    all_goals obtain ⟨y, hy, hk, hh, hby⟩ := ht x hx
    · rw [hk, hby]
      exact hs.owner y hy
    · rw [hh, hby]
      exact hs.lent y hy
    · rw [hh, hby]
      exact hs.closing y hy
  | stopNamespace n =>
    have hst := hs.registry hrc (.stopNamespace n) nofun nofun fun _ _ _ => nofun
    exact ⟨hst.owner, hst.lent, hst.closing, hst.retired, hst.running, hst.entry⟩
  | @closeNamespace j stop hj =>
    have hcl : Renewed { s with sockets := closeNamespace s.sockets stop.namespaceId } :=
      hs.filter _
    exact ⟨hcl.owner, hcl.lent, hcl.closing, hcl.retired, hcl.running, hcl.entry⟩
  | retire wid ver =>
    exact (hs.retires hrc).registry hrc (.retire wid ver) nofun nofun
      fun _ _ _ => nofun
  | closeObject hj => exact hs.closes hj

end Renewed

theorem renewed_of_reach {s : State ε} (hs : (machine ε).Reach Orderly s) : Renewed s := by
  refine hs.invariant ?_ fun _ _ _ hr hs hok h =>
    hs.step (reachable_registry hr) hok (State.step_of_eq h)
  constructor <;> simp [machine, State.Closing, Durable.State.empty]

/-- **No socket of old code is left for new code, where the closings are in order**: when the task
of a retired object is over, or another task serves the object, there is no socket that the retired
task accepted. -/
theorem retired_sockets_closed {s : State ε} (hs : (machine ε).Reach Orderly s) {i : Nat}
    {t : Task ε} (hretired : s.Retired i) (ht : s.tasks i = some t) :
    (t.phase.isOver = true → ∀ x ∈ s.sockets, x.acceptedBy ≠ i) ∧
    ∀ j, j ≠ i → s.Serves t.key j → ∀ x ∈ s.sockets, x.acceptedBy ≠ i := by
  have hren := renewed_of_reach hs
  have hover : t.phase.isOver = true → ∀ x ∈ s.sockets, x.acceptedBy ≠ i := by
    rintro hover x hx rfl
    cases hhib : x.hibernatable with
    | false =>
      rw [hren.lent x hx hhib t ht] at hover
      cases hover
    | true =>
      rw [hren.running _ t (hren.closing x hx hhib hretired) ht] at hover
      cases hover
  refine ⟨hover, fun j hji hj => hover ?_⟩
  obtain ⟨call, hcall, key, hold⟩ := hretired
  obtain ⟨u, hu, -, hld⟩ := hren.retired call hcall key i hold
  obtain rfl := Option.mem_unique ht hu
  have hnot : t.phase.serves ≠ true := fun hsv =>
    hji ((one_task_serves (reachable_registry hs) t.key).1 j i hj ⟨t, ht, rfl, hsv⟩)
  cases hp : t.phase <;> simp_all [Phase.serves, Phase.loaded, Phase.isOver]

def inOrder (s : State ε) : Act ε → Bool
  | .registry (.leave i) =>
    (s.tasks i).all fun t => s.retires.all fun call => call.old t.key != some i || call.closed t.key
  | .registry (.die _) => false
  | .accept i _ _ _ hibernatable =>
    (s.tasks i).all fun t => t.phase == .lent &&
      (!hibernatable || s.retires.all fun call => call.old t.key != some i)
  | _ => true

theorem orderly_of_inOrder {s : State ε} {a : Act ε} (hs : Renewed s) (h : inOrder s a = true) :
    Orderly s a := by
  cases a with
  | registry a =>
    cases a with
    | leave i =>
      rintro t ht - ⟨call, hca, key, hold, ho⟩
      obtain ⟨u, hu, hk, -⟩ := hs.retired call hca key i hold
      obtain rfl := mem_unique ht hu
      rw [inOrder, ht, all_some, List.all_eq_true] at h
      have := h call hca
      simp [hk, hold, ho] at this
    | die i => cases h
    | _ => trivial
  | accept i slot id tags hibernatable =>
    refine ⟨fun t ht => ?_, ?_⟩
    · rw [inOrder, ht, all_some, Bool.and_eq_true] at h
      exact beq_iff_eq.1 h.1
    · rintro hh ⟨call, hca, key, hold⟩
      obtain ⟨u, hu, hk, -⟩ := hs.retired call hca key i hold
      rw [inOrder, hu, all_some, Bool.and_eq_true, hh, Bool.not_true, Bool.false_or,
        List.all_eq_true] at h
      have := h.2 call hca
      simp [hk, hold] at this
  | _ => trivial

/-- An object accepts a hibernatable socket, its worker is deployed again, and it accepts another
socket before it ends. -/
def replaced : List (Act String) :=
  [.registry (.admitEvent ⟨"n", "account", "worker"⟩ "o" 0 "first"), .registry (.start 0),
    .registry (.loaded 0 1), .registry (.tryRecv 0 true), .accept 0 true 7 [] true,
    .retire "worker" 1, .closeObject 0 ⟨"n", "o"⟩, .accept 0 true 8 [] false, .objectEnds 0,
    .registry (.tryRecv 0 false), .registry (.leave 0)]

theorem retired_sockets_closed_replaced :
    ∃ s : State String, (machine String).Reach Orderly s ∧ s.Retired 0 ∧
      (s.tasks 0).map Task.phase = some (.ended .left .running) ∧
      ∀ x ∈ s.sockets, x.acceptedBy ≠ 0 := by
  obtain ⟨s, hs, hph, hclosed⟩ := Machine.exists_reach_of_runIf (M := machine String) inOrder
    (fun _ _ hr h => orderly_of_inOrder (renewed_of_reach hr) h) replaced
    (fun s => (s.tasks 0).map Task.phase = some (.ended .left .running) ∧
      s.retires.map (fun call => call.old ⟨"n", "o"⟩) = [some 0]) (by decide)
  obtain ⟨t, ht, hover⟩ := map_eq_some_iff.mp hph
  have hret : s.Retired 0 := by
    obtain ⟨call, hcall, hold⟩ := List.mem_map.mp (hclosed ▸ mem_singleton_self (some 0))
    exact ⟨call, hcall, _, hold⟩
  exact ⟨s, hs, hret, hph, (retired_sockets_closed hs hret ht).1 (by rw [hover]; rfl)⟩

def drained : List (Act String) :=
  [.registry (.admitEvent ⟨"n", "account", "worker"⟩ "o" 0 "first"), .registry (.start 0),
    .registry (.loaded 0 1), .registry (.tryRecv 0 true), .retire "worker" 1,
    .closeObject 0 ⟨"n", "o"⟩, .accept 0 true 7 ["chat"] true, .objectEnds 0,
    .registry (.tryRecv 0 false), .registry (.leave 0), .registry (.release 0),
    .registry (.finish 0), .registry (.admitEvent ⟨"n", "account", "worker"⟩ "o" 0 "second"),
    .registry (.start 1), .registry (.loaded 1 2), .registry (.tryRecv 1 true)]

/-- **A socket that old code accepted is handed to new code**: the task of version 1 is retired and
gone, and the instance of version 2 gets its socket. -/
theorem socket_outlives_retired :
    ∃ s : State String, (machine String).Reachable s ∧ s.Retired 0 ∧
      (s.tasks 0).map Task.phase = some (.ended .left .gone) ∧
      s.sockets = [⟨⟨"n", "o"⟩, 7, true, ["chat"], none, true, 0⟩] ∧
      (s.tasks 1).map Task.phase = some .lent ∧
      (s.objects ⟨"n", "o"⟩).bind Entry.version = some 2 ∧
      hibernatable s.sockets ⟨"n", "o"⟩ = [⟨7, ["chat"], none⟩] := by
  obtain ⟨s, hs, hclosed, hrest⟩ := (machine String).exists_of_run drained
    (fun s => s.retires.map (fun call => call.old ⟨"n", "o"⟩) = [some 0] ∧
      (s.tasks 0).map Task.phase = some (.ended .left .gone) ∧
      s.sockets = [⟨⟨"n", "o"⟩, 7, true, ["chat"], none, true, 0⟩] ∧
      (s.tasks 1).map Task.phase = some .lent ∧
      (s.objects ⟨"n", "o"⟩).bind Entry.version = some 2 ∧
      hibernatable s.sockets ⟨"n", "o"⟩ = [⟨7, ["chat"], none⟩]) (by decide)
  obtain ⟨call, hcall, hold⟩ := List.mem_map.mp (hclosed ▸ mem_singleton_self (some 0))
  exact ⟨s, hs, ⟨call, hcall, _, hold⟩, hrest⟩

end Sockets
end OpenWorkersRunner.Durable
