import OpenWorkersRunner.ResolveCache.CacheStep

/-!
# The resolve cache: what it serves while nobody listens

The cache is to serve nothing while the listener is not connected.  What tells a lookup so is
`ENABLED`, which the loop of the listener sets to false at the top of each turn: after `listen_once`
has returned, that is after an invalidation and a sleep of a second.
-/

namespace OpenWorkersRunner.ResolveCache

open Store

/-! ## The loop and the lookups -/

namespace Listener

def listening : Listener → Bool
  | .receiving | .notified _ => true
  | _ => false

def stale : Listener → Bool
  | .stopped | .stopping _ | .sleeping | .top => true
  | _ => false

def off : Listener → Bool
  | .connecting | .rechecking | .connected _ => true
  | _ => false

theorem listening_of_not {l : Listener} (hst : l.stale = false) (ho : l.off = false) :
    l.listening = true := by
  cases l <;> simp_all [stale, off, listening]

end Listener

def Phase.trusts : Phase → Bool
  | .loaded | .begun _ | .armed _ _ | .checked _ _ => true
  | _ => false

theorem Found.trusts_next (found : Found) : found.next.trusts = false := by
  cases found <;> rfl

namespace State

variable (s : State)

def serves : Act → Bool
  | .lookup i (.look now) => (s.lookups i).any fun l => (s.cache.look l.want now).1.isSome
  | .lookup _ (.put _) => true
  | _ => false

/-- No lookup finds the cache on after `listen_once` has returned, and none relies on it when
`listen_once` returns. -/
def Attended : Act → Prop
  | .lookup _ .loadEnabled | .lookup _ .stillEnabled => s.enabled = true → s.listener.stale = false
  | .listen .lost => ∀ i l, s.lookups i = some l → l.phase.trusts = false
  | _ => True

structure Guarded : Prop where
  off : s.enabled = true → s.listener.off = false
  trusts : ∀ i l, s.lookups i = some l → l.phase.trusts = true → s.listener.listening = true

end State

/-! ## The invariant -/

theorem State.guarded_start (tables : Tables) : (State.start tables).Guarded where
  off := by simp [start]
  trusts := by simp [start]

theorem Lookup.Step.trusts {resolver : Resolver} {s : State} {i : Nat} {l l' : Lookup}
    {a : LookupAct} {cache : Cache} {lock : Option Nat} (h : l.Step resolver s i a l' cache lock)
    (ht : l'.phase.trusts = true) :
    l.phase.trusts = true ∨ (a = .loadEnabled ∨ a = .stillEnabled) ∧ s.enabled = true := by
  cases h with
  | on hp ho => exact .inr ⟨.inl rfl, ho⟩
  | arms hp ho => exact .inr ⟨.inr rfl, ho⟩
  | begins hp | checks hp => exact .inl (by rw [hp]; rfl)
  | hit | notOn | notSame | puts => simp [Found.trusts_next] at ht
  | _ => simp [Phase.trusts] at ht

namespace State.Guarded

variable {s : State}

theorem lookup {resolver : Resolver} {i : Nat} {l l' : Lookup} {a : LookupAct} {cache : Cache}
    {lock : Option Nat} (hs : s.Guarded) (hat : s.Attended (.lookup i a))
    (hl : s.lookups i = some l) (h : l.Step resolver s i a l' cache lock) :
    State.Guarded
      { s with
        lookups := Function.update s.lookups i (some l')
        cache := cache
        lock := lock } where
  off := hs.off
  trusts k lk hk ht := by
    rcases update_some_eq_some hk with ⟨rfl, rfl⟩ | ⟨-, hk⟩
    · rcases h.trusts ht with hbe | ⟨ha, ho⟩
      · exact hs.trusts _ l hl hbe
      · have hst : s.listener.stale = false := by
          rcases ha with rfl | rfl
          · exact hat ho
          · exact hat ho
        exact Listener.listening_of_not hst (hs.off ho)
    · exact hs.trusts k lk hk ht

theorem listen {a : ListenAct} {t : State} (hs : s.Guarded) (ha : s.Attended (.listen a))
    (h : s.Listens a t) : t.Guarded := by
  -- nothing relies on the cache outside `listening`
  have hn (hno : s.listener.listening = false) (i : Nat) (l : Lookup)
      (hl : s.lookups i = some l) : l.phase.trusts ≠ true := by
    intro ht
    rw [hs.trusts i l hl ht] at hno
    cases hno
  cases h with
  | moves h =>
    cases h with
    | fails hl | rechecks hl | sleeps hl | wakes hl =>
      exact ⟨fun _ => rfl, fun i l hi ht => absurd ht (hn (by rw [hl]; rfl) i l hi)⟩
    | waits hl =>
      refine ⟨fun hon => ?_, fun i l hi ht => absurd ht (hn (by rw [hl]; rfl) i l hi)⟩
      have ho := hs.off hon
      rw [hl] at ho
      exact ho
    | resumes hl => exact ⟨fun _ => rfl, fun _ _ _ _ => rfl⟩
    | loses hl =>
      refine ⟨fun _ => rfl, fun i l hi ht => ?_⟩
      rw [ha i l hi] at ht
      cases ht
  | disables hl =>
    exact ⟨nofun, fun i l hi ht => absurd ht (hn (by rw [hl]; rfl) i l hi)⟩
  | enables hl => exact ⟨fun _ => rfl, fun _ _ _ _ => rfl⟩
  | connects hl =>
    refine ⟨fun hon => ?_, fun i l hi ht => absurd ht (hn (by rw [hl]; rfl) i l hi)⟩
    have ho := hs.off hon
    rw [hl] at ho
    exact ho
  | notified hl => exact ⟨fun _ => rfl, fun _ _ _ _ => rfl⟩
  | stops hl =>
    exact ⟨fun _ => rfl, fun i l hi ht => absurd ht (hn (by rw [hl]; rfl) i l hi)⟩

theorem step {resolver : Resolver} {a : Act} {t : State} (hs : s.Guarded)
    (ha : s.Attended a) (h : s.Step resolver a t) : t.Guarded := by
  cases h with
  | call want =>
    refine ⟨hs.off, fun i l hl ht => ?_⟩
    rcases update_some_eq_some hl with ⟨rfl, rfl⟩ | ⟨-, hl⟩
    · cases ht
    · exact hs.trusts i l hl ht
  | lookup hl h => exact hs.lookup ha hl h
  | listen h => exact hs.listen ha h
  | invalidate | clear | ret | change => exact ⟨hs.off, hs.trusts⟩

end State.Guarded

/-- **What is answered from memory, and what is stored, is so while the listener is connected**, if
no lookup finds the cache on after `listen_once` has returned and before `ENABLED` is set to
false. -/
theorem served_while_listening (resolver : Resolver) (tables : Tables) {s t : State} {a : Act}
    (hs : (machine resolver tables).Reach State.Attended s) (h : s.step resolver a = some t)
    (hserves : s.serves a = true) : s.listener.listening = true := by
  have hguard : s.Guarded := hs.invariant (State.guarded_start tables)
    fun _ _ _ _ hs hatt h => hs.step hatt (State.step_eq h)
  cases State.step_eq h with
  | @lookup i a l l' cache lock hl hstep =>
    refine hguard.trusts i l hl ?_
    cases hstep with
    | hit now hp | miss now hp | puts now hp => rw [hp]; rfl
    | @ends a hp ha => cases a <;> simp_all [State.serves, LookupAct.ends]
    | _ => simp [State.serves] at hserves
  | _ => simp [State.serves] at hserves

def State.attendedNow (s : State) : Act → Bool
  | .lookup _ .loadEnabled | .lookup _ .stillEnabled => !s.enabled || !s.listener.stale
  | .listen .lost => false
  | _ => true

theorem State.attended_of_attendedNow {s : State} {a : Act} (h : s.attendedNow a = true) :
    s.Attended a := by
  unfold attendedNow at h
  split at h
  · exact fun ho => by simpa [ho] using h
  · exact fun ho => by simpa [ho] using h
  · cases h
  · unfold Attended
    split <;> simp_all

theorem served_while_listening_hit : ∃ (s t : State),
    (machine (fun _ _ _ _ _ => .error .rowNotFound) .empty).Reach State.Attended s ∧
      s.step (fun _ _ _ _ _ => .error .rowNotFound) (.lookup 1 (.look 1)) = some t ∧
      s.serves (.lookup 1 (.look 1)) = true ∧ s.listener.listening = true := by
  let want : Want := .resolution (some "a.example") none none "/"
  obtain ⟨s, hs, hp⟩ := Machine.exists_reach_of_runIf
    (M := machine (fun _ _ _ _ _ => .error .rowNotFound) .empty) State.attendedNow
    (fun _ _ _ => State.attended_of_attendedNow)
    (turnOn ++ Act.call want :: readAndStore 0 0 ++
      [Act.call want, .lookup 1 .loadEnabled, .lookup 1 .loadGeneration])
    (fun s => s.serves (.lookup 1 (.look 1)) &&
      (s.step (fun _ _ _ _ _ => .error .rowNotFound) (.lookup 1 (.look 1))).isSome) (by decide)
  rw [Bool.and_eq_true, Option.isSome_iff_exists] at hp
  obtain ⟨hsv, t, ht⟩ := hp
  exact ⟨s, t, hs, ht, hsv, served_while_listening _ _ hs ht hsv⟩

theorem served_while_lost : ¬ ∀ (resolver : Resolver) (tables : Tables) (s t : State) (a : Act),
    (machine resolver tables).Reachable s → s.step resolver a = some t → s.serves a = true →
      s.listener.listening = true := by
  intro h
  let want : Want := .resolution (some "a.example") none none "/"
  obtain ⟨s, hs, hp⟩ := (machine (fun _ _ _ _ _ => .error .rowNotFound) .empty).exists_of_run
    (turnOn ++ Act.call want :: readAndStore 0 0 ++
      [Act.listen .lost, .call want, .lookup 1 .loadEnabled, .lookup 1 .loadGeneration])
    (fun s => s.serves (.lookup 1 (.look 1)) && !s.listener.listening &&
      (s.step (fun _ _ _ _ _ => .error .rowNotFound) (.lookup 1 (.look 1))).isSome) (by decide)
  rw [Bool.and_eq_true, Bool.and_eq_true, Option.isSome_iff_exists, Bool.not_eq_true'] at hp
  obtain ⟨⟨hsv, hnot⟩, t, ht⟩ := hp
  have hlistens := h _ _ s t _ hs ht hsv
  rw [hnot] at hlistens
  cases hlistens

end OpenWorkersRunner.ResolveCache
