import OpenWorkersRunner.ResolveCache.CacheStep

/-!
# The resolve cache: no answer from before a change that was announced

An invalidation adds one to `GENERATION` before it clears the cache, and a lookup stores under the
lock, after it has found the generation it began at.  So a value that was read too early is not
stored, or it is stored before the clearing.
-/

namespace OpenWorkersRunner.ResolveCache

open Store

/-! ## The invariant -/

namespace Phase

def generation : Phase → Option Nat
  | .begun generation | .armed generation _ | .checked generation _ => some generation
  | .missed generation | .reading generation _ | .read generation _
  | .locked generation _ => generation
  | _ => none

def reads : Phase → Bool
  | .reading _ _ | .read _ _ | .locked _ _ | .armed _ _ | .checked _ _ => true
  | _ => false

def finds : Phase → Bool
  | .known _ | .codeless _ | .coding _ | .answered _ => true
  | _ => false

def holds : Phase → Bool
  | .locked _ _ | .armed _ _ | .checked _ _ => true
  | _ => false

end Phase

namespace Found

@[simp] theorem generation_next (found : Found) : found.next.generation = none := by
  cases found <;> rfl

@[simp] theorem reads_next (found : Found) : found.next.reads = false := by
  cases found <;> rfl

@[simp] theorem holds_next (found : Found) : found.next.holds = false := by
  cases found <;> rfl

theorem next_ne_checked (found : Found) (gen : Nat) (found' : Found) :
    found.next ≠ .checked gen found' := by
  cases found <;> nofun

end Found

structure Lookup.Fresh (s : State) (i : Nat) (l : Lookup) : Prop where
  began_le : l.began ≤ s.changes
  floor_le : l.floor ≤ l.began
  floor_le_settled : l.floor ≤ s.settled
  generation_le : ∀ g, l.phase.generation = some g → g ≤ s.generation
  current : l.phase.generation = some s.generation →
    s.settled ≤ l.began ∧ ∀ j inv, s.invalidations j = some inv → inv.seen ≤ l.began
  reads : l.phase.reads = true → l.began ≤ l.readAt
  finds : l.phase.finds = true → l.floor ≤ l.readAt
  holds : l.phase.holds = true → s.lock = some i
  checked : ∀ g found, l.phase = .checked g found → s.settled ≤ l.readAt ∧
    ∀ j inv, s.invalidations j = some inv → inv.stage ≠ .bumped →
      inv.generation ≤ g ∧ inv.seen ≤ l.readAt

structure State.Fresh (s : State) : Prop where
  lookups : ∀ i l, s.lookups i = some l → l.Fresh s i
  entries : ∀ stamp ∈ s.cache.stamps, s.settled ≤ stamp.readAt ∧
    ∀ j inv, s.invalidations j = some inv → inv.stage ≠ .bumped →
      inv.generation ≤ stamp.generation ∧ inv.seen ≤ stamp.readAt
  invalidations : ∀ j inv, s.invalidations j = some inv →
    inv.generation ≤ s.generation ∧ inv.seen ≤ s.changes
  returned : ∀ j inv, s.invalidations j = some inv → inv.stage = .returned → inv.seen ≤ s.settled
  settled_le : s.settled ≤ s.changes

theorem State.fresh_start (tables : Tables) : (State.start tables).Fresh where
  lookups := by simp [start]
  entries := by simp [start, Cache.stamps_empty]
  invalidations := by simp [start]
  returned := by simp [start]
  settled_le := Nat.le_refl 0

/-! ## Steps of a lookup -/

variable {cache : Cache} {i : Nat} {l l' : Lookup} {lock : Option Nat}
  {lookups : Nat → Option Lookup} {s : State} {found : Found} {a : LookupAct} {resolver : Resolver}

theorem Lookup.Fresh.move (h : l.Fresh s i) {p : Phase}
    (hge : p.generation = l.phase.generation ∨ p.generation = none)
    (hrd : p.reads = true → l.phase.reads = true)
    (hfi : p.finds = true → l.phase.reads = true ∨ l.phase.finds = true)
    (hh : p.holds = true → lock = some i) (hch : ∀ g found, p ≠ .checked g found) :
    Lookup.Fresh { s with lookups := lookups, cache := cache, lock := lock } i
      { l with phase := p } where
  began_le := h.began_le
  floor_le := h.floor_le
  floor_le_settled := h.floor_le_settled
  generation_le g hg := by
    rcases hge with hge | hge
    · exact h.generation_le g (hge.symm.trans hg)
    · cases hge.symm.trans hg
  current hg := by
    rcases hge with hge | hge
    · exact h.current (hge.symm.trans hg)
    · cases hge.symm.trans hg
  reads hr := h.reads (hrd hr)
  finds hf := (hfi hf).elim (fun hr => Nat.le_trans h.floor_le (h.reads hr)) h.finds
  holds := hh
  checked g found hp := absurd hp (hch g found)

theorem Lookup.Fresh.next (h : l.Fresh s i) (hrd : l.phase.reads = true) :
    Lookup.Fresh { s with lookups := lookups, cache := cache, lock := lock } i
      { l with phase := found.next } :=
  h.move (.inr found.generation_next) (by simp) (fun _ => .inl hrd) (by simp)
    found.next_ne_checked

theorem Lookup.Fresh.hit (h : l.Fresh s i) {readAt : Nat} (hen : s.settled ≤ readAt) :
    Lookup.Fresh { s with lookups := lookups, cache := cache, lock := lock } i
      { l with phase := found.next, readAt := readAt } where
  began_le := h.began_le
  floor_le := h.floor_le
  floor_le_settled := h.floor_le_settled
  generation_le := by simp
  current := by simp
  reads := by simp
  finds _ := Nat.le_trans h.floor_le_settled hen
  holds := by simp
  checked g found' hp := absurd hp (found.next_ne_checked g found')

theorem Lookup.Fresh.acquire (h : l.Fresh s i) {gen : Option Nat}
    {rest : Conn (Except SqlxError (Option Found))} (hp : l.phase = .missed gen) :
    Lookup.Fresh { s with lookups := lookups, cache := cache, lock := lock } i
      { l with phase := .reading gen rest, connected := true, readAt := s.changes } where
  began_le := h.began_le
  floor_le := h.floor_le
  floor_le_settled := h.floor_le_settled
  generation_le g hg := h.generation_le g (by rw [hp]; exact hg)
  current hg := h.current (by rw [hp]; exact hg)
  reads _ := h.began_le
  finds := by simp [Phase.finds]
  holds := by simp [Phase.holds]
  checked := by simp

theorem Lookup.Fresh.check (h : l.Fresh s i) (hs : s.Fresh) {gen : Nat}
    (hp : l.phase = .armed gen found) (hsa : s.generation = gen) :
    Lookup.Fresh { s with lookups := lookups } i { l with phase := .checked gen found } := by
  subst hsa
  obtain ⟨hset, hse⟩ := h.current (by rw [hp]; rfl)
  have hre : l.began ≤ l.readAt := h.reads (by rw [hp]; rfl)
  refine ⟨h.began_le, h.floor_le, h.floor_le_settled, ?_, fun _ => ⟨hset, hse⟩,
    fun _ => hre, by simp [Phase.finds], fun _ => h.holds (by rw [hp]; rfl), ?_⟩
  · rintro g ⟨⟩
    exact Nat.le_refl _
  · rintro g found' ⟨⟩
    refine ⟨Nat.le_trans hset hre, fun j inv hj _ => ⟨(hs.invalidations j inv hj).1, ?_⟩⟩
    exact Nat.le_trans (hse j inv hj) hre

theorem Lookup.Step.fresh (hs : s.Fresh) (hl : l.Fresh s i)
    (h : l.Step resolver s i a l' cache lock) (lookups : Nat → Option Lookup) :
    l'.Fresh { s with lookups := lookups, cache := cache, lock := lock } i := by
  cases h with
  | off =>
    exact ⟨Nat.le_refl _, hs.settled_le, Nat.le_refl _, by simp [Phase.generation],
      by simp [Phase.generation], by simp [Phase.reads], by simp [Phase.finds],
      by simp [Phase.holds], by simp⟩
  | begins =>
    refine ⟨Nat.le_refl _, hs.settled_le, Nat.le_refl _, by simp [Phase.generation],
      fun _ => ⟨hs.settled_le, ?_⟩, by simp [Phase.reads], by simp [Phase.finds],
      by simp [Phase.holds], by simp⟩
    exact fun j inv hj => (hs.invalidations j inv hj).2
  | hit now hp hf hlo => exact hl.hit (hs.entries _ (Cache.look_mem hlo)).1
  | acquires hp => exact hl.acquire hp
  | checks hp hsa => exact hl.check hs hp hsa
  | notOn hp | notSame hp | puts now hp => exact hl.next (by rw [hp]; rfl)
  | locks hp =>
    exact hl.move (by simp [hp, Phase.generation]) (by simp [hp, Phase.reads])
      (by simp [Phase.finds]) (by simp) (by simp)
  | arms hp =>
    have hloc := hl.holds (by rw [hp]; rfl)
    exact hl.move (by simp [hp, Phase.generation]) (by simp [hp, Phase.reads])
      (by simp [Phase.finds]) (fun _ => hloc) (by simp)
  | on hp | miss now hp | asks failure hp | reads hp | nobody hp | cached entry hp
  | uncached entry hp | connects ok entry hp | fetches failure hp | answers hp | ends hp =>
    exact hl.move (by simp [hp, Phase.generation]) (by simp [hp, Phase.reads])
      (by simp [hp, Phase.reads, Phase.finds]) (by simp [Phase.holds]) (by simp)

theorem Lookup.Step.lock_of_ne {k : Nat} (hl : l.Fresh s i)
    (h : l.Step resolver s i a l' cache lock) (hk : k ≠ i) (hlo : s.lock = some k) :
    lock = some k := by
  -- a lookup that drops the lock holds it
  have hm (hh : l.phase.holds = true) : lock = some k := by
    have hi := hl.holds hh
    rw [hlo, Option.some_inj] at hi
    exact absurd hi hk
  cases h with
  | hit now hp hf | miss now hp hf | locks hp hf =>
    rw [hlo] at hf
    cases hf
  | notOn hp | notSame hp | puts now hp => exact hm (by rw [hp]; rfl)
  | _ => exact hlo

theorem Lookup.Step.stamps (h : l.Step resolver s i a l' cache lock) {stamp : Stamp}
    (hst : stamp ∈ cache.stamps) :
    stamp ∈ s.cache.stamps ∨
      ∃ gen found, l.phase = .checked gen found ∧ stamp = ⟨gen, l.readAt⟩ := by
  cases h with
  | hit now | miss now => exact .inl ((Cache.look_within _ _ _).stamps hst)
  | puts now hp => exact (Cache.stamps_put hst).symm.imp_right fun heq => ⟨_, _, hp, heq⟩
  | _ => exact .inl hst

namespace State.Fresh

variable {s : State}

theorem lookup {resolver : Resolver} {i : Nat} {l l' : Lookup} {a : LookupAct} {cache : Cache}
    {lock : Option Nat} (hs : s.Fresh) (hl : s.lookups i = some l)
    (h : l.Step resolver s i a l' cache lock) :
    State.Fresh
      { s with
        lookups := Function.update s.lookups i (some l')
        cache := cache
        lock := lock } where
  lookups k lk hk := by
    rcases update_some_eq_some hk with ⟨rfl, rfl⟩ | ⟨hne, hk⟩
    · exact h.fresh hs (hs.lookups _ _ hl) _
    · exact { hs.lookups k lk hk with
        holds := fun hh =>
          h.lock_of_ne (hs.lookups _ _ hl) hne ((hs.lookups k lk hk).holds hh) }
  entries stamp hst := by
    rcases h.stamps hst with hst | ⟨gen, found, hp, rfl⟩
    · exact hs.entries stamp hst
    · exact (hs.lookups _ _ hl).checked gen found hp
  invalidations := hs.invalidations
  returned := hs.returned
  settled_le := hs.settled_le

theorem bump (hs : s.Fresh) : s.bump.Fresh where
  lookups i l hl := by
    have h := hs.lookups i l hl
    refine { h with generation_le := ?_, current := ?_, checked := ?_ }
    · exact fun g hg => Nat.le_succ_of_le (h.generation_le g hg)
    · exact fun hg => absurd (h.generation_le _ hg) (Nat.not_succ_le_self _)
    · intro g found hp
      obtain ⟨hse, hch⟩ := h.checked g found hp
      refine ⟨hse, fun j inv hj hst => ?_⟩
      rcases update_some_eq_some hj with ⟨rfl, rfl⟩ | ⟨-, hj⟩
      · exact absurd rfl hst
      · exact hch j inv hj hst
  entries stamp hstmt := by
    obtain ⟨hse, hen⟩ := hs.entries stamp hstmt
    refine ⟨hse, fun j inv hj hst => ?_⟩
    rcases update_some_eq_some hj with ⟨rfl, rfl⟩ | ⟨-, hj⟩
    · exact absurd rfl hst
    · exact hen j inv hj hst
  invalidations j inv hj := by
    rcases update_some_eq_some hj with ⟨rfl, rfl⟩ | ⟨-, hj⟩
    · exact ⟨Nat.le_refl _, Nat.le_refl _⟩
    · exact ⟨Nat.le_succ_of_le (hs.invalidations j inv hj).1, (hs.invalidations j inv hj).2⟩
  returned j inv hj hst := by
    rcases update_some_eq_some hj with ⟨rfl, rfl⟩ | ⟨-, hj⟩
    · cases hst
    · exact hs.returned j inv hj hst
  settled_le := hs.settled_le

theorem clear (hs : s.Fresh) {j : Nat} {inv : Invalidation} (hj : s.invalidations j = some inv)
    (hf : s.lock = none) :
    State.Fresh
      { s with
        cache := .empty
        invalidations :=
          Function.update s.invalidations j (some { inv with stage := .cleared }) } where
  lookups i l hl := by
    have h := hs.lookups i l hl
    refine { h with current := ?_, checked := ?_ }
    · intro hg
      obtain ⟨hset, hse⟩ := h.current hg
      refine ⟨hset, fun k inv' hk => ?_⟩
      rcases update_some_eq_some hk with ⟨rfl, rfl⟩ | ⟨-, hk⟩
      · exact hse _ inv hj
      · exact hse k inv' hk
    · intro g found hp
      have hlo := h.holds (by rw [hp]; rfl)
      rw [hf] at hlo
      cases hlo
  entries := by simp [Cache.stamps_empty]
  invalidations k inv' hk := by
    rcases update_some_eq_some hk with ⟨rfl, rfl⟩ | ⟨-, hk⟩
    · exact hs.invalidations _ inv hj
    · exact hs.invalidations k inv' hk
  returned k inv' hk hst := by
    rcases update_some_eq_some hk with ⟨rfl, rfl⟩ | ⟨-, hk⟩
    · cases hst
    · exact hs.returned k inv' hk hst
  settled_le := hs.settled_le

theorem ret (hs : s.Fresh) {j : Nat} {inv : Invalidation} (hj : s.invalidations j = some inv)
    (hst : inv.stage = .cleared) :
    State.Fresh
      { s with
        invalidations := Function.update s.invalidations j (some { inv with stage := .returned })
        settled := max s.settled inv.seen } := by
  have hcl : inv.stage ≠ .bumped := by rw [hst]; decide
  -- what is known of every invalidation that has cleared is known of this one
  have hold {p : Invalidation → Prop} (hp : ∀ k inv', s.invalidations k = some inv' →
      inv'.stage ≠ .bumped → p inv') (hco : p inv → p { inv with stage := .returned }) (k : Nat)
      (inv' : Invalidation) (hk : Function.update s.invalidations j
        (some { inv with stage := .returned }) k = some inv') (hb : inv'.stage ≠ .bumped) :
      p inv' := by
    rcases update_some_eq_some hk with ⟨rfl, rfl⟩ | ⟨-, hk⟩
    · exact hco (hp _ inv hj hcl)
    · exact hp k inv' hk hb
  constructor
  case lookups =>
    intro i l hl
    have h := hs.lookups i l hl
    refine { h with floor_le_settled := ?_, current := ?_, checked := ?_ }
    · exact Nat.le_trans h.floor_le_settled (Nat.le_max_left _ _)
    · intro hg
      obtain ⟨hset, hse⟩ := h.current hg
      refine ⟨Nat.max_le.2 ⟨hset, hse j inv hj⟩, fun k inv' hk => ?_⟩
      rcases update_some_eq_some hk with ⟨rfl, rfl⟩ | ⟨-, hk⟩
      · exact hse _ inv hj
      · exact hse k inv' hk
    · intro g found hp
      obtain ⟨hset, hch⟩ := h.checked g found hp
      exact ⟨Nat.max_le.2 ⟨hset, (hch j inv hj hcl).2⟩, hold hch id⟩
  case entries =>
    intro stamp hstmt
    obtain ⟨hset, hen⟩ := hs.entries stamp hstmt
    exact ⟨Nat.max_le.2 ⟨hset, (hen j inv hj hcl).2⟩, hold hen id⟩
  case invalidations =>
    intro k inv' hk
    rcases update_some_eq_some hk with ⟨rfl, rfl⟩ | ⟨-, hk⟩
    · exact hs.invalidations _ inv hj
    · exact hs.invalidations k inv' hk
  case returned =>
    intro k inv' hk hst'
    rcases update_some_eq_some hk with ⟨rfl, rfl⟩ | ⟨-, hk⟩
    · exact Nat.le_max_right _ _
    · exact Nat.le_trans (hs.returned k inv' hk hst') (Nat.le_max_left _ _)
  case settled_le => exact Nat.max_le.2 ⟨hs.settled_le, (hs.invalidations j inv hj).2⟩

theorem listener (hs : s.Fresh) (enabled : Bool) (listener : Listener) :
    State.Fresh { s with enabled := enabled, listener := listener } where
  lookups i l hl := { hs.lookups i l hl with }
  entries := hs.entries
  invalidations := hs.invalidations
  returned := hs.returned
  settled_le := hs.settled_le

theorem step {resolver : Resolver} {a : Act} {t : State} (hs : s.Fresh)
    (h : s.Step resolver a t) : t.Fresh := by
  cases h with
  | call want =>
    refine ⟨fun i l hl => ?_, hs.entries, hs.invalidations, hs.returned, hs.settled_le⟩
    rcases update_some_eq_some hl with ⟨rfl, rfl⟩ | ⟨-, hl⟩
    · exact ⟨Nat.zero_le _, Nat.le_refl _, Nat.zero_le _, by simp [Phase.generation],
        by simp [Phase.generation], by simp [Phase.reads], by simp [Phase.finds],
        by simp [Phase.holds], by simp⟩
    · exact { hs.lookups i l hl with }
  | lookup hl h => exact hs.lookup hl h
  | invalidate => exact hs.bump
  | clear hj _ hf => exact hs.clear hj hf
  | ret hj hst => exact hs.ret hj hst
  | listen h =>
    cases h with
    | moves h | disables h | enables h => exact hs.listener _ _
    | connects h | notified h | stops h => exact hs.bump.listener _ _
  | change tables =>
    refine ⟨fun i l hl => ?_, hs.entries, fun j inv hj => ?_, hs.returned,
      Nat.le_succ_of_le hs.settled_le⟩
    · exact { hs.lookups i l hl with began_le := Nat.le_succ_of_le (hs.lookups i l hl).began_le }
    · exact ⟨(hs.invalidations j inv hj).1, Nat.le_succ_of_le (hs.invalidations j inv hj).2⟩

end State.Fresh

theorem fresh_of_reachable {tables : Tables} (hs : (machine resolver tables).Reachable s) :
    s.Fresh :=
  hs.invariant (State.fresh_start tables) fun _ _ _ _ hs _ h => hs.step (State.step_eq h)

/-! ## Lookups that begin later -/

def Phase.before : Phase → Prop
  | .start | .loaded => True
  | _ => False

def State.After (n i : Nat) (s : State) : Prop :=
  n ≤ s.settled ∧ ∀ l, s.lookups i = some l → l.phase.before ∨ n ≤ l.floor

theorem Lookup.Step.after {n : Nat} (hn : n ≤ s.settled) (hl : l.phase.before ∨ n ≤ l.floor)
    (h : l.Step resolver s i a l' cache lock) : l'.phase.before ∨ n ≤ l'.floor := by
  cases h with
  | on hp => exact .inl trivial
  | off hp | begins hp => exact .inr hn
  | ends hp =>
    refine .inr (hl.resolve_left fun hbe => ?_)
    cases hph : l.phase <;> simp_all [Phase.before, Phase.awaits]
  | hit _ hp | miss _ hp | acquires hp | asks _ hp | reads hp | nobody hp | locks hp | arms hp
  | checks hp | notOn hp | notSame hp | puts _ hp | cached _ hp | uncached _ hp | connects _ _ hp
  | fetches _ hp | answers hp =>
    refine .inr (hl.resolve_left fun hbe => ?_)
    rw [hp] at hbe
    exact hbe

theorem State.After.step {n : Nat} {t : State} {a : Act} (hs : s.After n i)
    (h : s.Step resolver a t) : t.After n i := by
  obtain ⟨hn, hi⟩ := hs
  cases h with
  | call want =>
    refine ⟨hn, fun l hl => ?_⟩
    rcases update_some_eq_some hl with ⟨rfl, rfl⟩ | ⟨-, hl⟩
    · exact .inl trivial
    · exact hi l hl
  | lookup hl h =>
    refine ⟨hn, fun l' hl' => ?_⟩
    rcases update_some_eq_some hl' with ⟨rfl, rfl⟩ | ⟨-, hl'⟩
    · exact h.after hn (hi _ hl)
    · exact hi l' hl'
  | ret hj hst => exact ⟨Nat.le_trans hn (Nat.le_max_left _ _), hi⟩
  | listen h => cases h <;> exact ⟨hn, hi⟩
  | invalidate | clear | change => exact ⟨hn, hi⟩

/-- **The resolve cache is fresh.**  Once an invalidation has returned, no entry is of a lookup that
began before it; and a lookup that has not begun then never answers with a value read before the
changes that came before the invalidation. -/
theorem resolve_cache_fresh (resolver : Resolver) (tables : Tables) {s : State}
    (hs : (machine resolver tables).Reachable s) {j : Nat} {inv : Invalidation}
    (hj : s.invalidations j = some inv) (hstage : inv.stage = .returned) :
    (∀ stamp ∈ s.cache.stamps, inv.generation ≤ stamp.generation) ∧
      ∀ i as t l answer, (∀ l, s.lookups i = some l → l.phase.before) →
        (machine resolver tables).run s as = some t → t.lookups i = some l →
        l.phase = .answered answer → inv.seen ≤ l.readAt := by
  have hfr := fresh_of_reachable hs
  constructor
  · intro stamp hstmt
    exact ((hfr.entries stamp hstmt).2 j inv hj (by rw [hstage]; decide)).1
  · intro i as t l answer hbef hrun hl hans
    have haft : t.After inv.seen i := by
      refine Machine.run_invariant (fun s a t hs h => hs.step (State.step_eq h)) ⟨?_, ?_⟩ hrun
      · exact hfr.returned j inv hj hstage
      · exact fun l hl => .inl (hbef l hl)
    have ht := fresh_of_reachable (hs.run (fun _ _ _ => trivial) hrun)
    have hfl := (haft.2 l hl).resolve_left (by rw [hans]; exact id)
    exact Nat.le_trans hfl ((ht.lookups i l hl).finds (by rw [hans]; rfl))

def Phase.isAnswered : Phase → Bool
  | .answered _ => true
  | _ => false

theorem resolve_cache_fresh_after_notification :
    ∃ (s t : State) (l : Lookup) (as : List Act),
      (machine (fun _ _ _ _ _ => .error .rowNotFound) .empty).Reachable s ∧
      s.invalidations 1 = some ⟨2, 1, .returned⟩ ∧ s.lookups 1 = none ∧
      (machine (fun _ _ _ _ _ => .error .rowNotFound) .empty).run s as = some t ∧
      t.lookups 1 = some l ∧ l.phase.isAnswered = true ∧ 1 ≤ l.readAt := by
  let want : Want := .resolution (some "a.example") none none "/"
  let later : List Act := .call want :: readAndStore 1 5
  obtain ⟨s, hs, hp⟩ := (machine (fun _ _ _ _ _ => .error .rowNotFound) .empty).exists_of_run
    (turnOn ++ Act.call want :: readAndStore 0 0 ++
      [Act.change .empty, .listen .notification, .clear 1, .ret 1, .listen .resume])
    (fun s => s.invalidations 1 == some ⟨2, 1, .returned⟩ && (s.lookups 1).isNone &&
      ((machine (fun _ _ _ _ _ => .error .rowNotFound) .empty).run s later).any fun t =>
        (t.lookups 1).any fun l => l.phase.isAnswered) (by decide)
  simp only [Bool.and_eq_true, beq_iff_eq, Option.isNone_iff_eq_none, Option.any_eq_true] at hp
  obtain ⟨⟨hinv, hnone⟩, t, ht, l, hl, hanswer⟩ := hp
  refine ⟨s, t, l, later, hs, hinv, hnone, ht, hl, hanswer, ?_⟩
  cases hph : l.phase with
  | answered answer =>
    exact (resolve_cache_fresh _ _ hs hinv rfl).2 1 later t l answer (by simp [hnone]) ht hl hph
  | _ => simp [hph, Phase.isAnswered] at hanswer

end OpenWorkersRunner.ResolveCache
