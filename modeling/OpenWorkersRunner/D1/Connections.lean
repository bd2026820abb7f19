import OpenWorkersRunner.D1.ServiceStep
import Mathlib.Data.List.MinMax

/-!
# D1: how many connections are open

`handle` closes a connection when `max_open` are open and a call needs a new entry.  A call that
finds its entry makes no room, and the entry need not have a connection: `handle` and `close_idle`
keep the entry of a database with unsaved commits when they close it, and so does a file that could
not be opened.  So calls that come back to such entries open one connection after another, although
no two calls overlap (`connections_exceeded`).
-/

namespace OpenWorkersRunner.D1

open Function List Option

variable {config : Config}

def Call.underWay (c : Call) : Bool := c.holds || c.jobRuns

variable {x : Handle}

theorem Call.Step.underWay {i : Nat} {c c' : Call} {x' : Handle} {a : CallAct}
    (h : c.Step config i x a c' x') : c.underWay = true := by
  have hj {job : Job} (hc : c.stage.job = some job) (hru : job.runs = true) :
      c.underWay = true := by
    rw [Call.underWay, Call.jobRuns, hc, any_some, hru, Bool.or_true]
  cases h with
  | beginStatement hc | hook hc | visible hc | rollback hc | endStatement ok hc => exact hj hc rfl
  | finish panicked hc hru => exact hj hc hru
  | _ => rename_i hc; simp [Call.underWay, Call.holds, *]

theorem Snapshot.step_isOpen {p : Snapshot} {x' : Handle} {a : PassAct} {p' : Option Snapshot}
    (h : p.step x a = some (p', x')) : x'.isOpen = x.isOpen := by
  unfold Snapshot.step at h
  split at h <;> cases h <;> rfl

theorem Handle.isOpen_of_close (h : x.close.isOpen = true) : x.isOpen = true := by
  rw [isOpen, close] at h
  rw [isOpen]
  cases hgr : x.guard <;> simp_all

namespace State

/-! ## Connections -/

def inUse (s : State) (h : Nat) : Bool :=
  (List.range s.called).any fun i => (s.calls i).any fun c => c.handle == h && c.underWay

def quiet (s : State) : Bool :=
  (List.range s.called).all fun i => (s.calls i).all fun c => !c.underWay

def connected (s : State) : Nat :=
  (List.range s.made).countP fun h =>
    decide (0 < s.strongCount h) && (s.handles h).any fun x => x.database.isSome

def apart (s : State) : Act → Bool
  | .submit _ _ _ => s.quiet
  | _ => true

/-- There is room for the connection of a call: fewer than `max_open` are open, or its entry has
one, or it has no entry and one can be closed. -/
def roomy (config : Config) (s : State) : Act → Bool
  | .submit key _ _ =>
    decide (s.openCount < config.maxOpen) ||
      match s.databases.lookup key with
      | some h => (s.handles h).any Handle.isOpen
      | none => !s.candidates.isEmpty
  | _ => true

def busy (s : State) (h : Nat) : Bool := (s.handles h).any Handle.isOpen || s.inUse h

def busyCount (s : State) : Nat := s.databases.entries.countP fun entry => s.busy entry.2

variable {s t : State} {a : Act}

theorem openCount_eq (s : State) :
    s.openCount =
      s.databases.entries.countP fun entry => (s.handles entry.2).any Handle.isOpen := by
  rw [openCount, entries, countP_filterMap]
  congr 1
  funext entry
  cases s.handles entry.2 <;> rfl

theorem openCount_le_busyCount (s : State) : s.openCount ≤ s.busyCount := by
  rw [openCount_eq, busyCount]
  refine countP_mono_left fun entry _ ho => ?_
  rw [busy, ho, Bool.true_or]

theorem inUse_iff (hw : s.Wired) {h : Nat} :
    s.inUse h = true ↔ ∃ i c, s.calls i = some c ∧ c.handle = h ∧ c.underWay = true := by
  rw [inUse, List.any_eq_true]
  constructor
  · rintro ⟨i, -, hi⟩
    obtain ⟨c, hc, hco⟩ := (any_eq_true _ _).1 hi
    rw [Bool.and_eq_true, beq_iff_eq] at hco
    exact ⟨i, c, hc, hco⟩
  · rintro ⟨i, c, hc, hh, hu⟩
    exact ⟨i, mem_range.2 (hw.call hc).1, by simp [hc, hh, hu]⟩

theorem quiet_iff (hw : s.Wired) :
    s.quiet = true ↔ ∀ i c, s.calls i = some c → c.underWay = false := by
  rw [quiet, List.all_eq_true]
  constructor
  · intro hq i c hc
    simpa [hc] using hq i (mem_range.2 (hw.call hc).1)
  · intro hq i _
    cases hc : s.calls i with
    | none => rfl
    | some c => simp [hq i c hc]

theorem nodup_entries (s : State) : s.databases.entries.Nodup := s.databases.nodupKeys.nodup

/-! ## Steps that make nothing busy -/

theorem busyCount_le (hen : ∀ {key h}, t.databases.lookup key = some h →
      s.databases.lookup key = some h)
    (hbu : ∀ h, t.busy h = true → s.busy h = true) : t.busyCount ≤ s.busyCount := by
  refine countP_le_of_mem t.nodup_entries fun entry hm hb => ⟨?_, hbu _ hb⟩
  exact AList.lookup_eq_some_iff.1 (hen (AList.lookup_eq_some_iff.2 hm))

theorem busyCount_le_of_handles (hen : ∀ {key h}, t.databases.lookup key = some h →
      s.databases.lookup key = some h) (hcl : t.calls = s.calls) (hcalled : t.called = s.called)
    (ho : ∀ h, (t.handles h).any Handle.isOpen = true → (s.handles h).any Handle.isOpen = true) :
    t.busyCount ≤ s.busyCount := by
  refine busyCount_le hen fun h hb => ?_
  rw [busy, inUse, hcl, hcalled, Bool.or_eq_true] at hb
  rw [busy, Bool.or_eq_true]
  exact hb.imp_left (ho h)

theorem isOpen_of_thinned {taken : Key → Prop} (ht : s.Thinned taken t) (h : Nat)
    (ho : (t.handles h).any Handle.isOpen = true) : (s.handles h).any Handle.isOpen = true := by
  rcases ht.handle h with heq | ⟨x, hx, hx'⟩
  · rwa [heq] at ho
  · rw [hx'] at ho
    rw [hx]
    exact Handle.isOpen_of_close ho

theorem busyCount_put (hw : s.Wired) {i : Nat} {act : CallAct} {c c' : Call} {x x' : Handle}
    (hc : s.calls i = some c) (hx : s.handles c.handle = some x)
    (h : c.Step config i x act c' x') : (s.put i c' x').busyCount ≤ s.busyCount := by
  have hhd := h.keys.2.1
  refine busyCount_le id fun g hb => ?_
  by_cases hg : g = c.handle
  · -- the call is under way
    rw [busy, Bool.or_eq_true]
    exact .inr ((inUse_iff hw).2 ⟨i, c, hc, hg.symm, h.underWay⟩)
  · rw [busy, Bool.or_eq_true, inUse_iff (hw.put hc hx h.keys)] at hb
    rw [busy, Bool.or_eq_true, inUse_iff hw]
    refine hb.imp ?_ ?_
    · intro ho
      rwa [show (s.put i c' x').handles g = s.handles g from
        update_of_ne (by rwa [hhd]) _ _] at ho
    · rintro ⟨j, d, hd, hh, hu⟩
      rcases update_some_eq_some hd with ⟨-, rfl⟩ | ⟨-, hd⟩
      · exact absurd (hh.symm.trans hhd) hg
      · exact ⟨j, d, hd, hh, hu⟩

theorem Step.busyCount_le (hw : s.Wired) (h : s.Step config a t)
    (ha : ∀ key victim now, a ≠ .submit key victim now) : t.busyCount ≤ s.busyCount := by
  cases h with
  | enter victim now | create victim now => exact absurd rfl (ha _ victim now)
  | call hc hx h => exact busyCount_put hw hc hx h
  | thin ht =>
    exact busyCount_le_of_handles ht.entry ht.calls ht.called (isOpen_of_thinned ht)
  | snapshotAll | load | passEnds => exact Nat.le_refl _
  | @snapshot a p snapshot snapshot' x x' hp hcu hx h =>
    refine busyCount_le_of_handles id rfl rfl fun g ho => ?_
    by_cases hg : g = snapshot.handle
    · subst hg
      rw [show (s.setHandle snapshot.handle x').handles snapshot.handle = some x' from
        update_self ..] at ho
      rw [hx, any_some, ← Snapshot.step_isOpen h]
      exact ho
    · rwa [show (s.setHandle snapshot.handle x').handles g = s.handles g from
        update_of_ne hg _ _] at ho

/-! ## The step in which a call begins -/

variable {key : Key}

theorem busyCount_enter (hw : s.Wired) (hq : s.quiet = true) {h : Nat}
    (hen : s.databases.lookup key = some h) :
    (s.enter key h).busyCount ≤ s.openCount + 1 ∧
      ((s.handles h).any Handle.isOpen = true → (s.enter key h).busyCount ≤ s.openCount) := by
  have hbu : ∀ entry ∈ s.databases.entries, (s.enter key h).busy entry.2 = true →
      entry.2 = h ∨ (s.handles entry.2).any Handle.isOpen = true := by
    intro entry _ hb
    rw [busy, Bool.or_eq_true, inUse_iff (hw.enter hen)] at hb
    rcases hb with ho | ⟨i, c, hc, hh, hu⟩
    · exact .inr ho
    · rcases update_some_eq_some hc with ⟨-, rfl⟩ | ⟨-, hc⟩
      · exact .inl hh.symm
      · rw [(quiet_iff hw).1 hq i c hc] at hu
        cases hu
  rw [openCount_eq]
  refine ⟨countP_le_succ_of_mem s.nodup_entries ⟨key, h⟩ fun entry hm hb => ?_,
    fun ho => countP_le_of_mem s.nodup_entries fun entry hm hb => ⟨hm, ?_⟩⟩
  · refine (hbu entry hm hb).imp ?_ fun ho => ⟨hm, ho⟩
    rintro rfl
    -- the handle was made for one key only
    obtain ⟨k, g⟩ := entry
    obtain ⟨x, hx, rfl⟩ := hw.entry (AList.lookup_eq_some_iff.2 hm)
    obtain ⟨y, hy, rfl⟩ := hw.entry hen
    cases hx.symm.trans hy
    rfl
  · rcases hbu entry hm hb with rfl | ho'
    · exact ho
    · exact ho'

theorem oldest_ne_nil (h : s.candidates ≠ []) : s.oldest ≠ [] := by
  cases hm : s.candidates.argmin fun entry => entry.2.2.lastUsed with
  | none => exact absurd (argmin_eq_none.1 hm) h
  | some entry =>
    refine ne_nil_of_mem (mem_filter.2 ⟨argmin_mem hm, ?_⟩)
    rw [List.all_eq_true]
    intro other ho
    exact decide_eq_true (le_of_mem_argmin (f := fun entry : Key × Nat × Handle =>
      entry.2.2.lastUsed) ho hm)

/-- **`evict` makes room**: where no call is under way, at most `max_open` are open and one of them
can be closed if need be, fewer are open afterwards. -/
theorem openCount_evict (hw : s.Wired) (hg : s.Guarded) (hq : s.quiet = true)
    {victim : Option Key} (h : s.evict config victim = some t)
    (hro : s.openCount < config.maxOpen ∨ s.candidates ≠ [])
    (hle : s.openCount ≤ config.maxOpen) : t.openCount < config.maxOpen := by
  unfold evict at h
  split at h
  case isFalse ho =>
    cases h
    omega
  rename_i ho
  split at h
  · split at h
    next hn =>
      exact absurd hn (oldest_ne_nil (hro.resolve_left (by omega)))
    · cases h
  next k =>
    obtain ⟨⟨k', g, x⟩, hf, h⟩ := map_eq_some_iff.1 h
    obtain rfl : k' = k := by simpa using find?_some hf
    have hm := mem_of_find?_eq_some hf
    rw [oldest, mem_filter, candidates, mem_filter, mem_entries] at hm
    obtain ⟨⟨⟨hen, hx⟩, hco⟩, -⟩ := hm
    have hxo : x.isOpen = true := (Bool.and_eq_true _ _ ▸ hco).2
    suffices hlt : t.openCount < s.openCount by omega
    rw [openCount_eq, openCount_eq]
    refine countP_lt_of_mem t.nodup_entries (AList.lookup_eq_some_iff.1 hen)
      (by rw [hx]; exact hxo) fun entry hm hb => ?_
    split at h
    · -- the connection goes, since nobody has its guard
      cases h
      have hfr : x.guard = none := by
        rw [eq_none_iff_forall_ne_some]
        intro i hi
        obtain ⟨c, hc, -, hgu⟩ := (hg g x hx i).1 hi
        have hov := (quiet_iff hw).1 hq i c hc
        cases hst : c.stage <;>
          simp_all [Call.underWay, Call.holds, Call.guards]
      by_cases hg' : entry.2 = g
      · rw [hg', show (s.setHandle g x.close).handles g = some x.close from
          update_self ..] at hb
        simp [Handle.isOpen, Handle.close, hfr] at hb
      · refine ⟨fun heq => hg' (by rw [heq]), hm, ?_⟩
        rwa [show (s.setHandle g x.close).handles entry.2 = s.handles entry.2 from
          update_of_ne hg' _ _] at hb
    · -- the entry goes
      cases h
      have hl : (s.databases.erase k').lookup entry.1 = some entry.2 :=
        AList.lookup_eq_some_iff.2 hm
      by_cases hk : entry.1 = k'
      · rw [hk, AList.lookup_erase] at hl
        cases hl
      · rw [AList.lookup_erase_ne hk] at hl
        exact ⟨fun heq => hk (by rw [heq]), AList.lookup_eq_some_iff.1 hl, hb⟩

theorem openCount_create (s : State) (key : Key) (now : Nat) :
    (s.create key now).openCount ≤ s.openCount := by
  rw [openCount_eq, openCount_eq]
  refine countP_le_of_mem (s.create key now).nodup_entries fun entry hm hb => ?_
  have hl : (s.databases.insert key s.made).lookup entry.1 = some entry.2 :=
    AList.lookup_eq_some_iff.2 hm
  by_cases hn : entry.2 = s.made
  · rw [hn, show (s.create key now).handles s.made = some (.new key now) from
      update_self ..] at hb
    cases hb
  · rw [show (s.create key now).handles entry.2 = s.handles entry.2 from
      update_of_ne hn _ _] at hb
    refine ⟨?_, hb⟩
    by_cases hk : entry.1 = key
    · rw [hk, AList.lookup_insert] at hl
      exact absurd (some.inj hl).symm hn
    · rw [AList.lookup_insert_ne hk] at hl
      exact AList.lookup_eq_some_iff.1 hl

/-- **A call begins**, where none is under way and there is room for it. -/
theorem busyCount_submit (hw : s.Wired) (hg : s.Guarded) {victim : Option Key} {now : Nat}
    (hq : s.quiet = true) (hro : s.roomy config (.submit key victim now) = true)
    (h : s.step config (.submit key victim now) = some t) (hle : s.busyCount ≤ config.maxOpen) :
    t.busyCount ≤ config.maxOpen := by
  have ho := s.openCount_le_busyCount
  obtain ⟨⟨r, g⟩, hh, rfl⟩ := map_eq_some_iff.1 h
  unfold handle at hh
  rw [roomy, Bool.or_eq_true, decide_eq_true_iff] at hro
  split at hh
  next hen =>
    cases hh
    rw [hen] at hro
    obtain ⟨hon, hn⟩ := busyCount_enter hw hq hen
    rcases hro with hro | hro
    · exact Nat.le_trans hon hro
    · exact Nat.le_trans (hn hro) (Nat.le_trans ho hle)
  next hen =>
    rw [hen] at hro
    obtain ⟨u, hu, heq⟩ := map_eq_some_iff.1 hh
    cases heq
    have ht : s.Thinned (s.takes config (.submit key victim now)) u := thinned_of_evict hen hu
    have hw' : u.Wired := hw.aside ht.aside
    have hlt := openCount_evict hw hg hq hu (hro.imp_right (by simp)) (by omega)
    have hq' : (u.create key now).quiet = true := by
      rw [quiet_iff (hw'.create key now)]
      intro i c hc
      exact (quiet_iff hw).1 hq i c (ht.calls ▸ hc)
    have hl : (u.create key now).databases.lookup key = some u.made := AList.lookup_insert _
    have hon := (busyCount_enter (hw'.create key now) hq' hl).1
    have hcr := u.openCount_create key now
    exact Nat.le_trans hon (by omega)

/-! ## The handles of the pass -/

def Passed (s : State) : Prop :=
  ∀ p h, s.pass = some p → 0 < p.count h → ∃ key, s.databases.lookup key = some h

theorem Passed.thin {taken : Key → Prop} (hs : s.Passed) (ht : s.Thinned taken t) : t.Passed := by
  intro p h hp hcn
  rw [ht.pass] at hp
  obtain ⟨key, hk⟩ := hs p h hp hcn
  rcases ht.gone hk with hk' | ⟨-, ho⟩
  · exact ⟨key, hk'⟩
  · have hz := (of_strongCount_eq_one hk ho).2 p hp
    omega

theorem Passed.create (hs : s.Passed) (hn : s.databases.lookup key = none) (now : Nat) :
    (s.create key now).Passed := by
  intro p h hp hcn
  obtain ⟨k, hk⟩ := hs p h hp hcn
  have hne : k ≠ key := by
    rintro rfl
    rw [hn] at hk
    cases hk
  exact ⟨k, (AList.lookup_insert_ne hne).trans hk⟩

theorem Passed.pass (hs : s.Passed) {r : State} (hd : r.databases = s.databases)
    (hpa : ∀ q h, r.pass = some q → 0 < q.count h →
      (∃ p, s.pass = some p ∧ 0 < p.count h) ∨ ∃ key, s.databases.lookup key = some h) :
    r.Passed := by
  intro q h hq hcn
  rw [hd]
  rcases hpa q h hq hcn with ⟨p, hp, hcn⟩ | hen
  · exact hs p h hp hcn
  · exact hen

theorem Passed.step (hs : s.Passed) (h : s.Step config a t) : t.Passed := by
  cases h with
  | enter victim now => exact hs
  | @create key u victim now hen ht =>
    refine (hs.thin ht).create ?_ now
    rw [eq_none_iff_forall_ne_some]
    intro g hg
    rw [ht.entry hg] at hen
    cases hen
  | call hc hx h => exact hs
  | thin ht => exact hs.thin ht
  | snapshotAll todo hpa ha hto =>
    refine hs.pass rfl fun q h hq hcn => .inr ?_
    cases hq
    exact hto h (count_pos_iff.1 hcn)
  | @load p h x now hp hx hcu hto =>
    refine hs.pass rfl fun q g hq hcn => .inl ⟨p, hp, ?_⟩
    cases hq
    have hf : 0 < p.todo.count g := by
      by_cases hg : g = h
      · exact count_pos_iff.2 (hg ▸ hto)
      · have ho : (h == g) = false := beq_eq_false_iff_ne.2 (Ne.symm hg)
        simpa [Pass.count, count_erase_of_ne hg, ho] using hcn
    exact Nat.lt_of_lt_of_le hf (Nat.le_add_right _ _)
  | passEnds a => exact hs.pass rfl nofun
  | @snapshot a p snapshot snapshot' x x' hp hcu hx h =>
    refine hs.pass rfl fun q g hq hcn => .inl ⟨p, hp, Nat.lt_of_lt_of_le hcn ?_⟩
    cases hq
    refine Nat.add_le_add_left ?_ _
    rw [hcu]
    cases snapshot' with
    | none => exact Nat.zero_le _
    | some snap =>
      have hh : snap.handle = snapshot.handle := Snapshot.step_handle h
      rw [any_some, any_some, hh]

theorem passed_of_reach {ok : State → Act → Prop} (hs : (machine config).Reach ok s) :
    s.Passed := by
  refine hs.invariant (I := Passed) ?_ fun s a t _ hI _ hst => hI.step (step_of_eq hst)
  intro p h hp
  cases hp

theorem connected_le_openCount (hw : s.Wired) (hp : s.Passed) (hq : s.quiet = true) :
    s.connected ≤ s.openCount := by
  rw [openCount_eq, connected, s.databases.entries.countP_eq_length_filter,
    ← length_map (f := fun entry : Sigma fun _ : Key => Nat => entry.2)]
  refine countP_le_length_of_mem nodup_range fun h _ hh => ?_
  rw [Bool.and_eq_true, decide_eq_true_iff] at hh
  obtain ⟨hcn, hcon⟩ := hh
  obtain ⟨key, hk⟩ : ∃ key, s.databases.lookup key = some h := by
    rw [strongCount] at hcn
    have hcl : (range s.called).countP
        (fun i => (s.calls i).any fun c => c.holds && c.handle == h) = 0 := by
      refine countP_eq_zero.2 fun i _ hi => ?_
      obtain ⟨c, hc, hco⟩ := (any_eq_true _ _).1 hi
      have ho := (quiet_iff hw).1 hq i c hc
      rw [Call.underWay, Bool.or_eq_false_iff] at ho
      rw [ho.1] at hco
      cases hco
    by_cases hen : 0 < s.databases.entries.countP (fun entry => entry.2 = h)
    · obtain ⟨⟨key, g⟩, hm, hg⟩ := countP_pos_iff.1 hen
      obtain rfl : g = h := of_decide_eq_true hg
      exact ⟨key, AList.lookup_eq_some_iff.2 hm⟩
    · cases hpa : s.pass with
      | none => rw [hpa, elim_none] at hcn; omega
      | some p =>
        rw [hpa, elim_some] at hcn
        exact hp p h hpa (by omega)
  refine mem_map.2 ⟨⟨key, h⟩, mem_filter.2 ⟨AList.lookup_eq_some_iff.1 hk, ?_⟩, rfl⟩
  obtain ⟨x, hx, hd⟩ := (any_eq_true _ _).1 hcon
  rw [hx, any_some, Handle.isOpen, hd, Bool.or_true]

end State

/-- **Open connections are bounded** in the runs in which calls do not overlap and each of them has
room: after each call, at most `max_open` handles have a connection. -/
theorem connections_bounded (config : Config) {s : State}
    (hs : (machine config).Reach (fun s a => (s.apart a && s.roomy config a) = true) s)
    (hquiet : s.quiet = true) : s.connected ≤ config.maxOpen := by
  have hbusy : s.busyCount ≤ config.maxOpen := by
    refine hs.invariant (I := fun s => s.busyCount ≤ config.maxOpen) (Nat.zero_le _) ?_
    intro s a t hr hle hok hstep
    have hw := State.wired_of_reach hr
    have hmove : s.Step config a t := State.step_of_eq hstep
    cases a with
    | submit key victim now =>
      rw [Bool.and_eq_true] at hok
      exact State.busyCount_submit hw (State.guarded_of_reach hr) hok.1 hok.2 hstep hle
    | _ => exact Nat.le_trans (hmove.busyCount_le hw (by simp)) hle
  have hw := State.wired_of_reach hs
  calc s.connected ≤ s.openCount :=
        State.connected_le_openCount hw (State.passed_of_reach hs) hquiet
    _ ≤ s.busyCount := s.openCount_le_busyCount
    _ ≤ config.maxOpen := hbusy

def commitOn (i : Nat) (key : Key) (victim : Option Key) (now : Nat) : List Act :=
  Act.submit key victim now :: startJob i ++ commitOne i ++ noteCommit i now

theorem connections_bounded_two : ∃ s, (machine ⟨64, 1, 300, true⟩).Reach
    (fun s a => (s.apart a && s.roomy ⟨64, 1, 300, true⟩ a) = true) s ∧ s.quiet = true ∧
      s.made = 2 ∧ s.connected ≤ 1 := by
  obtain ⟨s, hs, hp⟩ := Machine.exists_reach_of_runIf (M := machine ⟨64, 1, 300, true⟩)
    (fun s a => s.apart a && s.roomy ⟨64, 1, 300, true⟩ a) (fun _ _ _ h => h)
    (commitOn 0 (.database 1) none 1 ++ commitOn 1 (.database 2) (some (.database 1)) 2)
    (fun s => s.quiet ∧ s.made = 2) (by decide +kernel)
  exact ⟨s, hs, hp.1, hp.2, connections_bounded _ hs hp.1⟩

/-- **A call comes back to a database that was closed for another one**, and both are open: the
entry of the first has an unsaved commit, so it was kept. -/
theorem connections_exceeded :
    ¬ ∀ config s, 1 ≤ config.maxOpen → (machine config).Reach (fun s a => s.apart a = true) s →
      s.quiet = true → s.connected ≤ config.maxOpen := by
  intro h
  obtain ⟨s, hs, hp⟩ := Machine.exists_reach_of_runIf (M := machine ⟨64, 1, 300, true⟩)
    State.apart (fun _ _ _ h => h)
    (commitOn 0 (.database 1) none 1 ++ commitOn 1 (.database 2) (some (.database 1)) 2 ++
      commitOn 2 (.database 1) none 3)
    (fun s => s.quiet ∧ s.connected = 2) (by decide +kernel)
  have hle := h _ s (Nat.le_refl _) hs hp.1
  rw [hp.2] at hle
  exact absurd hle (by decide)

end OpenWorkersRunner.D1
