import Mathlib.Data.Set.Card
import OpenWorkersRunner.Lib.Table
import OpenWorkersRunner.Durable.RegistryStep

/-!
# The guards of the registry

A task has a `Running` guard from the moment `admit` starts it until it has ended, however it ends.
`running` and `accounts` are raised where the guard is made and lowered where it is dropped, and
`retiring` names tasks whose guard is there, so that the drop can take the name away again.
-/

namespace OpenWorkersRunner.Durable

variable {ε : Type}

/-! ## The counts are numbers of guards -/

def State.guardsOf (s : State ε) (name : Task ε → String) (n : String) : Set Nat :=
  {i | ∃ t, s.tasks i = some t ∧ t.phase.counted = true ∧ name t = n}

namespace State.Counted

variable {s : State ε}

theorem guardsOf_eq (h : s.Counted) (name : Task ε → String) (n : String) :
    s.guardsOf name n = ((Finset.range s.generation).filter fun i => s.live name i = some n) := by
  ext i
  simp only [State.guardsOf, Set.mem_ofPred_eq, Finset.coe_filter, Finset.mem_range]
  constructor
  · rintro ⟨t, ht, hc, rfl⟩
    exact ⟨h.lt i t ht, live_eq name ht hc⟩
  · rintro ⟨-, hl⟩
    obtain ⟨t, ht, hn⟩ := Option.bind_eq_some_iff.1 hl
    obtain ⟨hc, hn⟩ := Option.ite_none_right_eq_some.1 hn
    exact ⟨t, ht, hc, Option.some.inj hn⟩

theorem finite_guardsOf (h : s.Counted) (name : Task ε → String) (n : String) :
    (s.guardsOf name n).Finite := by
  rw [h.guardsOf_eq]
  exact Finset.finite_toSet _

theorem ncard_guardsOf (h : s.Counted) (name : Task ε → String) (n : String) :
    (s.guardsOf name n).ncard = Counts.census (s.live name) s.generation n := by
  rw [h.guardsOf_eq, Set.ncard_coe_finset, Counts.census]

end State.Counted

theorem accounts_le_of_reach {s : State ε} (h : (machine ε).Reachable s) (acct : String) :
    (s.accounts acct).getD 0 ≤ maxResidentPerAccount := by
  refine h.invariant (I := fun s : State ε => (s.accounts acct).getD 0 ≤ maxResidentPerAccount)
    (Nat.zero_le _) fun s a s' _ hi _ hs => ?_
  cases State.step_of_eq hs with
  | @spawned ns id depth ev hst hcl hac =>
    show (s.accounts.add ns.userId acct).getD 0 ≤ _
    by_cases hn : acct = ns.userId
    · rw [hn, Counts.add, Function.update_self, Option.getD_some]
      exact hac
    · rwa [Counts.add, Function.update_of_ne hn]
  | @release i t how running accounts ht hp hr ha =>
    obtain ⟨count, hcn, ha⟩ := Option.bind_eq_some_iff.1 ha
    split at ha
    · cases ha
    cases ha
    show ((Function.update s.accounts t.account _ acct : Option Nat)).getD 0 ≤ _
    by_cases hn : acct = t.account
    · rw [hn, hcn, Option.getD_some] at hi
      rw [hn, Function.update_self]
      split
      · exact Nat.zero_le _
      · exact Nat.le_trans (Nat.sub_le count 1) hi
    · rwa [Function.update_of_ne hn]
  | _ => exact hi

/-! ## What `retiring` names -/

structure State.Held (s : State ε) : Prop where
  entry : ∀ key entry, s.objects key = some entry → ∃ t, s.tasks entry.generation = some t ∧
    t.key = key ∧ (entry.version ≠ none → t.phase.loaded = true ∧ t.phase.isOver = false)
  retiring : ∀ key g, s.retiring key = some g → ∃ t, s.tasks g = some t ∧ t.key = key ∧
    t.phase.counted = true

theorem Phase.counted_of_not_isOver {p : Phase} (h : p.isOver = false) : p.counted = true := by
  cases p <;> first | rfl | cases h

namespace State.Held

variable {s s' : State ε}

variable {i : Nat} {t : Task ε}

/-- One task goes on, and the two maps get no other entries.  What does not stay true of the task
is not said of it any more. -/
theorem on (h : s.Held) {t' : Task ε} (ht : s.tasks i = some t)
    (hts : s'.tasks = Function.update s.tasks i (some t')) (hke : t'.key = t.key)
    (hob : ∀ key entry, s'.objects key = some entry → s.objects key = some entry)
    (hsv : t.phase.loaded = true → t.phase.isOver = false →
      (t'.phase.loaded = true ∧ t'.phase.isOver = false) ∨
        ∀ key entry, s'.objects key = some entry → entry.generation ≠ i)
    (hre : ∀ key g, s'.retiring key = some g → s.retiring key = some g)
    (hcn : t.phase.counted = true →
      t'.phase.counted = true ∨ ∀ key, s'.retiring key ≠ some i) : s'.Held := by
  have hse : s'.tasks i = some t' := by rw [hts, Function.update_self]
  have ho : ∀ {j u}, j ≠ i → s.tasks j = some u → s'.tasks j = some u := by
    intro j u hj hu
    rw [hts, Function.update_of_ne hj, hu]
  refine ⟨fun key entry he => ?_, fun key g hg => ?_⟩
  · obtain ⟨u, hu, hk, hv⟩ := h.entry key entry (hob key entry he)
    by_cases hi : entry.generation = i
    · rw [hi] at hu ⊢
      obtain rfl := Option.mem_unique ht hu
      refine ⟨t', hse, hke.trans hk, fun hne => ?_⟩
      rcases hsv (hv hne).1 (hv hne).2 with hsv | hgo
      · exact hsv
      · exact absurd hi (hgo key entry he)
    · exact ⟨u, ho hi hu, hk, hv⟩
  · obtain ⟨u, hu, hk, hc⟩ := h.retiring key g (hre key g hg)
    by_cases hi : g = i
    · subst hi
      obtain rfl := Option.mem_unique ht hu
      rcases hcn hc with hcn | hgo
      · exact ⟨t', hse, hke.trans hk, hcn⟩
      · exact absurd hg (hgo key)
    · exact ⟨u, ho hi hu, hk, hc⟩

theorem setTask (h : s.Held) {t' : Task ε} (ht : s.tasks i = some t)
    (hts : s'.tasks = Function.update s.tasks i (some t')) (hk : t'.key = t.key)
    (hsv : t.phase.loaded = true → t.phase.isOver = false →
      t'.phase.loaded = true ∧ t'.phase.isOver = false)
    (hcn : t.phase.counted = true → t'.phase.counted = true)
    (hob : s'.objects = s.objects) (hre : s'.retiring = s.retiring) : s'.Held :=
  h.on ht hts hk (fun _ _ he => hob ▸ he) (fun hl ho => .inl (hsv hl ho))
    (fun _ _ hg => hre ▸ hg) fun hc => .inl (hcn hc)

theorem spawn (h : s.Held) (hc : s.Counted) (ns : NamespaceConfig) (key : ObjectKey) (ev : ε)
    (depth : Nat) :
    ((s.spawn ns key ev).1.enter s.generation (s.spawn ns key ev).2 depth ev).Held := by
  have old : ∀ j u, s.tasks j = some u → j ≠ s.generation :=
    fun j u hj => Nat.ne_of_lt (hc.lt j u hj)
  refine ⟨fun k entry he => ?_, fun k g hg => ?_⟩
  · rcases update_some_eq_some he with ⟨rfl, rfl⟩ | ⟨-, he⟩
    · exact ⟨_, Function.update_self .., rfl, fun hne => absurd rfl hne⟩
    · obtain ⟨u, hu, hk, hv⟩ := h.entry k entry he
      exact ⟨u, (Function.update_of_ne (old _ u hu) ..).trans hu, hk, hv⟩
  · have hne : k ≠ key := by
      rintro rfl
      cases (Function.update_self ..).symm.trans hg
    obtain ⟨u, hu, hk, hcn⟩ :=
      h.retiring k g ((Function.update_of_ne hne ..).symm.trans hg)
    exact ⟨u, (Function.update_of_ne (old _ u hu) ..).trans hu, hk, hcn⟩

theorem setVersion (h : s.Held) (ht : s.tasks i = some t)
    (hp : t.phase.loaded = true ∧ t.phase.isOver = false) (version : Int) :
    State.Held { s with
      objects := Function.update s.objects t.key <| (s.objects t.key).map fun entry =>
          if entry.generation = i then { entry with version := some version } else entry } := by
  refine ⟨fun key entry he => ?_, h.retiring⟩
  dsimp only at he
  by_cases hk : key = t.key
  · subst hk
    rw [Function.update_self] at he
    obtain ⟨before, hbe, rfl⟩ := Option.map_eq_some_iff.1 he
    split
    next hge =>
      exact ⟨t, hge.symm ▸ ht, rfl, fun _ => hp⟩
    · exact h.entry t.key before hbe
  · rw [Function.update_of_ne hk] at he
    exact h.entry key entry he

theorem objects_left (h : s.Held) (ht : s.tasks i = some t) {key : ObjectKey} {entry : Entry}
    (he : (if (s.objects t.key).any fun entry => entry.generation = i then
      Function.update s.objects t.key none else s.objects) key = some entry) :
    s.objects key = some entry ∧ entry.generation ≠ i := by
  have ho : key ≠ t.key → s.objects key = some entry → entry.generation ≠ i := by
    rintro hk hold rfl
    obtain ⟨u, hu, hke, -⟩ := h.entry key entry hold
    obtain rfl := Option.mem_unique ht hu
    exact hk hke.symm
  split at he
  · have hk : key ≠ t.key := by
      rintro rfl
      cases (Function.update_self ..).symm.trans he
    rw [Function.update_of_ne hk] at he
    exact ⟨he, ho hk he⟩
  next ha =>
    refine ⟨he, ?_⟩
    by_cases hk : key = t.key
    · rintro rfl
      rw [← hk, he] at ha
      simp at ha
    · exact ho hk he

theorem retiring_release (h : s.Held) (ht : s.tasks i = some t) {key : ObjectKey} {g : Nat}
    (hg : (if s.retiring t.key = some i then Function.update s.retiring t.key none
      else s.retiring) key = some g) : s.retiring key = some g ∧ g ≠ i := by
  have hke : s.retiring key = some g → g = i → key = t.key := by
    rintro hold rfl
    obtain ⟨u, hu, hk, -⟩ := h.retiring key g hold
    obtain rfl := Option.mem_unique ht hu
    exact hk.symm
  split at hg
  · have hk : key ≠ t.key := by
      rintro rfl
      cases (Function.update_self ..).symm.trans hg
    rw [Function.update_of_ne hk] at hg
    exact ⟨hg, fun hi => hk (hke hg hi)⟩
  next hre =>
    exact ⟨hg, fun hi => hre (by rw [← hke hg hi, hg, hi])⟩

theorem retire (h : s.Held) (wid : String) (ver : Int) :
    (s.retire wid ver).Held := by
  refine ⟨fun key entry he => ?_, fun key g hg => ?_⟩
  · exact h.entry key entry (Option.filter_eq_some_iff.1 he).1
  · simp only [State.retire] at hg
    split at hg
    next entry he =>
      obtain ⟨he, hru⟩ := Option.filter_eq_some_iff.1 he
      obtain ⟨t, ht, hk, hv⟩ := h.entry key entry he
      have hve : entry.version ≠ none := by
        intro hn
        simp [State.runs, hn] at hru
      obtain rfl := Option.some.inj hg
      exact ⟨t, ht, hk, Phase.counted_of_not_isOver (hv hve).2⟩
    · exact h.retiring key g hg

theorem step {a : Act ε} (h : s.Held) (hc : s.Counted) (ha : ∀ i, a ≠ .die i)
    (hs : s.Step a s') : s'.Held := by
  cases hs with
  | refused => exact h
  | pushed _ _ _ _ ht | dropGuard _ _ ht =>
    exact h.setTask ht rfl rfl (fun hl ho => ⟨hl, ho⟩) id rfl rfl
  | spawned depth ev => exact h.spawn hc _ _ ev depth
  | start ht hp | notLoaded ht hp =>
    refine h.setTask ht rfl rfl (fun hl _ => ?_) (fun _ => rfl) rfl rfl
    rw [hp] at hl
    cases hl
  | @loaded i t ver ht hp =>
    have hse : (s.setTask i { t with phase := .looping }).Held :=
      h.setTask ht rfl rfl (fun _ _ => ⟨rfl, rfl⟩) (fun _ => rfl) rfl rfl
    exact hse.setVersion (State.tasks_setTask_self ..) ⟨rfl, rfl⟩ ver
  | tookFirst built ht hp hq =>
    refine h.setTask ht rfl rfl (fun _ _ => ?_) (fun _ => ?_) rfl rfl
    · cases built <;> exact ⟨rfl, rfl⟩
    · cases built <;> rfl
  | tookNone _ ht | received ht | receivedNone ht | objectEnds ht | stayed ht =>
    exact h.setTask ht rfl rfl (fun _ _ => ⟨rfl, rfl⟩) (fun _ => rfl) rfl rfl
  | left ht hp hq =>
    exact h.on ht rfl rfl (fun _ _ he => (h.objects_left ht he).1)
      (fun _ _ => .inr fun _ _ he => (h.objects_left ht he).2) (fun _ _ hg => hg)
      fun _ => .inl rfl
  | die => exact absurd rfl (ha _)
  | release ht hp hr ha =>
    refine h.on ht rfl rfl (fun _ _ he => he) (fun _ ho => ?_)
      (fun _ _ hg => (h.retiring_release ht hg).1)
      fun _ => .inr fun _ hg => (h.retiring_release ht hg).2 rfl
    rw [hp] at ho
    cases ho
  | finish ht hp =>
    refine h.setTask ht rfl rfl (fun _ ho => ?_) (fun hcn => ?_) rfl rfl
    · rw [hp] at ho
      cases ho
    · rw [hp] at hcn
      cases hcn
  | retire wid ver => exact h.retire wid ver
  | stopNamespace ns =>
    refine ⟨fun key entry he => h.entry key entry ?_, h.retiring⟩
    exact (Option.ite_none_left_eq_some.1 he).2

end State.Held

def Act.quiet : Act ε → Bool
  | .die _ => false
  | _ => true

theorem held_of_reach {s : State ε} (h : (machine ε).Reach (fun _ a => a.quiet = true) s) :
    s.Held := by
  refine h.invariant (I := State.Held) ⟨?_, ?_⟩ fun s a s' hr hi ha hs =>
    hi.step (counted_of_reach (hr.mono fun _ _ _ => trivial)) ?_ (State.step_of_eq hs)
  · intro key entry he
    cases he
  · intro key g hg
    cases hg
  · rintro i rfl
    cases ha

/-! ## All together -/

/-- **The counts are the guards.**  In every state the registry reaches, `running` and `accounts`
are the numbers of `Running` guards that are there, no zero is kept and no account has too many,
and whoever drops a guard finds its two counts.  While no task has panicked, `retiring` names tasks
whose guard is there. -/
theorem guards_counted {s : State ε} (hs : (machine ε).Reachable s) :
    (∀ n, (s.guardsOf (fun t => t.key.namespaceId) n).Finite ∧
      (s.running n).getD 0 = (s.guardsOf (fun t => t.key.namespaceId) n).ncard ∧
      s.running n ≠ some 0) ∧
    (∀ account, (s.guardsOf Task.account account).Finite ∧
      (s.accounts account).getD 0 = (s.guardsOf Task.account account).ncard ∧
      s.accounts account ≠ some 0 ∧ (s.accounts account).getD 0 ≤ maxResidentPerAccount) ∧
    (∀ i t, s.tasks i = some t → t.phase.counted = true →
      ∃ r a, s.running t.key.namespaceId = some (r + 1) ∧ s.accounts t.account = some (a + 1)) ∧
    ((machine ε).Reach (fun _ a => a.quiet = true) s → ∀ key g, s.retiring key = some g →
      ∃ t, s.tasks g = some t ∧ t.phase.counted = true) := by
  have hc := counted_of_reach hs
  have hnumber : ∀ (name : Task ε → String) n,
      (Counts.tally (s.live name) s.generation n).getD 0 = (s.guardsOf name n).ncard :=
    fun name n => (Counts.getD_ofNumbers _ n).trans (hc.ncard_guardsOf name n).symm
  have hzero : ∀ (name : Task ε → String) n, Counts.tally (s.live name) s.generation n ≠ some 0 :=
    fun name n => Counts.ofNumbers_ne_zero _ n
  have hpos : ∀ (name : Task ε → String) i t, s.tasks i = some t → t.phase.counted = true →
      ∃ r, Counts.tally (s.live name) s.generation (name t) = some (r + 1) := by
    intro name i t ht hcount
    have h := Counts.census_pos (hc.lt i t ht) (State.Counted.live_eq name ht hcount)
    refine ⟨Counts.census (s.live name) s.generation (name t) - 1, ?_⟩
    rw [Nat.sub_add_cancel h, Counts.tally, Counts.ofNumbers, if_neg (Nat.ne_of_gt h)]
  refine ⟨fun n => ⟨hc.finite_guardsOf _ n, ?_, ?_⟩, fun account => ⟨hc.finite_guardsOf _ account,
    ?_, ?_, accounts_le_of_reach hs account⟩, fun i t ht hcount => ?_, fun hqt key g hg => ?_⟩
  · rw [hc.running, hnumber]
  · rw [hc.running]
    exact hzero _ n
  · rw [hc.accounts, hnumber]
  · rw [hc.accounts]
    exact hzero _ account
  · obtain ⟨r, hr⟩ := hpos (fun t => t.key.namespaceId) i t ht hcount
    obtain ⟨a, ha⟩ := hpos Task.account i t ht hcount
    exact ⟨r, a, by rw [hc.running]; exact hr, by rw [hc.accounts]; exact ha⟩
  · obtain ⟨t, ht, -, hcount⟩ := (held_of_reach hqt).retiring key g hg
    exact ⟨t, ht, hcount⟩

def oneRetired : List (Act String) :=
  let ns : NamespaceConfig := ⟨"n", "account", "worker"⟩
  [.admitEvent ns "o" 0 "first", .admitEvent ns "p" 0 "second", .start 0, .loaded 0 1,
    .tryRecv 0 true, .retire "worker" 1]

theorem guards_counted_retired :
    ∃ s : State String, (machine String).Reachable s ∧ s.retiring ⟨"n", "o"⟩ = some 0 ∧
      (∃ t, s.tasks 0 = some t ∧ t.phase.counted = true) ∧
      (s.guardsOf Task.account "account").ncard = 2 := by
  obtain ⟨s, hs, hret, hacc⟩ := Machine.exists_reach_of_run (M := machine String)
    (fun _ a => a.quiet = true) oneRetired
    (fun s => s.retiring ⟨"n", "o"⟩ = some 0 ∧ s.accounts "account" = some 2)
    (fun _ => List.all_eq_true.1 (by decide)) (by decide)
  obtain ⟨-, hguard, -, hretired⟩ := guards_counted (hs.mono fun _ _ _ => trivial)
  refine ⟨s, hs.mono fun _ _ _ => trivial, hret, hretired hs _ _ hret, ?_⟩
  rw [← (hguard "account").2.1, hacc, Option.getD_some]

end OpenWorkersRunner.Durable
