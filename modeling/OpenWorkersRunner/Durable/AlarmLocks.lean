import OpenWorkersRunner.Lib.Machine
import OpenWorkersRunner.Lib.Parties
import OpenWorkersRunner.Lib.Table

/-!
# The alarm locks (`LOCKS` and `locked` of `durable/alarms.rs`)

`locked` takes the mutex of an object from a map, and takes it out of the map again when nobody
else has it, as `Arc::strong_count` says.  A call that has not yet tested the count has the `Arc`
that the map has, so two calls cannot hold different mutexes (`work_excluded`).  The count is read
under `LOCKS`, but the `Arc` of the call is dropped after that, and the last two calls can each see
the `Arc` of the other (`entry_stays`).
-/

namespace OpenWorkersRunner.Alarms.Locks

open Parties Option List Function

abbrev ObjectRef := String × String

/-- Where a call of `locked` is: `worked` before it takes `LOCKS` again, `tested` after that, and
`dropped` when its future was dropped.  The last two still have their `Arc`. -/
inductive Stage
  | waiting
  | working
  | worked
  | tested
  | dropped
  | ended
deriving DecidableEq

/-- The call has not tested the count, and will. -/
def Stage.isBefore : Stage → Bool
  | .waiting | .working | .worked => true
  | .tested | .dropped | .ended => false

structure Call where
  key : ObjectRef
  lock : ℕ
  stage : Stage
deriving DecidableEq

/-- The call has a clone of the `Arc`. -/
def Call.refers (lock : ℕ) (c : Call) : Bool := c.lock == lock && c.stage != .ended

/-- An `Arc` is the number of the mutex it points to. -/
structure State where
  locks : ObjectRef → Option ℕ
  made : ℕ
  calls : List Call

/-- `Arc::strong_count` of the `Arc` that a call has. -/
def State.strongCount (s : State) (c : Call) : ℕ :=
  (s.locks c.key == some c.lock).toNat + total (fun b => (b.refers c.lock).toNat) s.calls

/-- `test` reads the count under `LOCKS`, and `drop` drops the `Arc` of the call. -/
inductive CallAct
  | lock
  | unlock
  | test
  | cancel
  | drop
deriving DecidableEq

/-- A call enters with the clone of the `Arc` under `LOCKS`. -/
inductive Act
  | enter (key : ObjectRef)
  | call (i : ℕ) (a : CallAct)
deriving DecidableEq

/-- The map and the stage of a call after a step of it. -/
def State.stepCall (s : State) (c : Call) : CallAct → Option ((ObjectRef → Option ℕ) × Stage)
  | .lock =>
    if c.stage = .waiting ∧ ∀ b ∈ s.calls, b.lock = c.lock → b.stage ≠ .working then
      some (s.locks, .working)
    else none
  | .unlock => if c.stage = .working then some (s.locks, .worked) else none
  | .test =>
    if c.stage = .worked then
      some (if s.strongCount c = 2 then Function.update s.locks c.key none else s.locks, .tested)
    else none
  -- the future is dropped: the work, then the guard, then the `Arc`
  | .cancel =>
    if c.stage = .waiting ∨ c.stage = .working then some (s.locks, .dropped) else none
  | .drop => if c.stage = .tested ∨ c.stage = .dropped then some (s.locks, .ended) else none

def State.step (s : State) : Act → Option State
  | .enter key =>
    match s.locks key with
    | some lock => some { s with calls := s.calls ++ [⟨key, lock, .waiting⟩] }
    | none =>
      some ⟨Function.update s.locks key (some s.made), s.made + 1,
        s.calls ++ [⟨key, s.made, .waiting⟩]⟩
  | .call i a =>
    s.calls[i]?.bind fun c => (s.stepCall c a).map fun (locks, stage) =>
      { s with locks := locks, calls := s.calls.set i { c with stage := stage } }

def machine : Machine State Act where
  init := ⟨fun _ => none, 0, []⟩
  step := State.step

/-! ## What a step can do -/

variable {s t : State} {c : Call} {i : ℕ}

/-- A call enters, moves and leaves the map as it is, or tests the count. -/
inductive Step (s : State) : Act → State → Prop
  | join {key : ObjectRef} {lock : ℕ} (hlock : s.locks key = some lock) :
    Step s (.enter key) { s with calls := s.calls ++ [⟨key, lock, .waiting⟩] }
  | make {key : ObjectRef} (hlock : s.locks key = none) :
    Step s (.enter key) ⟨Function.update s.locks key (some s.made), s.made + 1,
      s.calls ++ [⟨key, s.made, .waiting⟩]⟩
  | move {i : ℕ} {a : CallAct} {c : Call} {stage : Stage} (hi : s.calls[i]? = some c)
    (hbefore : stage.isBefore = true → c.stage.isBefore = true)
    (hafter : c.stage.isBefore = true → stage.isBefore = true ∨ a = .cancel)
    (hdropped : stage = .dropped → a = .cancel)
    (hwork : stage = .working → ∀ b ∈ s.calls, b.lock = c.lock → b.stage ≠ .working) :
    Step s (.call i a) { s with calls := s.calls.set i { c with stage := stage } }
  | remove {i : ℕ} {c : Call} (hi : s.calls[i]? = some c) (hstage : c.stage = .worked)
    (hcount : s.strongCount c = 2) :
    Step s (.call i .test) { s with
      locks := Function.update s.locks c.key none
      calls := s.calls.set i { c with stage := .tested } }
  | leave {i : ℕ} {c : Call} (hi : s.calls[i]? = some c) (hstage : c.stage = .worked)
    (hcount : s.strongCount c ≠ 2) :
    Step s (.call i .test) { s with calls := s.calls.set i { c with stage := .tested } }

theorem step_of_eq {a : Act} (h : s.step a = some t) : Step s a t := by
  cases a with
  | enter key =>
    rw [State.step] at h
    split at h
    · cases h
      exact .join ‹_›
    · cases h
      exact .make ‹_›
  | call i a =>
    obtain ⟨c, hi, h⟩ := bind_eq_some_iff.1 h
    obtain ⟨⟨locks, stage⟩, hstep, rfl⟩ := map_eq_some_iff.1 h
    cases a with
    | lock =>
      obtain ⟨⟨hst, hf⟩, hstep⟩ := ite_none_right_eq_some.1 hstep
      cases hstep
      exact .move hi (fun _ => by rw [hst]; rfl) (fun _ => .inl rfl) nofun fun _ => hf
    | unlock =>
      obtain ⟨hst, hstep⟩ := ite_none_right_eq_some.1 hstep
      cases hstep
      exact .move hi (fun _ => by rw [hst]; rfl) (fun _ => .inl rfl) nofun nofun
    | test =>
      obtain ⟨hst, hstep⟩ := ite_none_right_eq_some.1 hstep
      cases hstep
      by_cases hcn : s.strongCount c = 2
      · rw [if_pos hcn]
        exact .remove hi hst hcn
      · rw [if_neg hcn]
        exact .leave hi hst hcn
    | cancel =>
      obtain ⟨-, hstep⟩ := ite_none_right_eq_some.1 hstep
      cases hstep
      exact .move hi nofun (fun _ => .inr rfl) (fun _ => rfl) nofun
    | drop =>
      obtain ⟨hst, hstep⟩ := ite_none_right_eq_some.1 hstep
      cases hstep
      refine .move hi nofun (fun hbe => ?_) nofun nofun
      rcases hst with hst | hst <;> rw [hst] at hbe <;> cases hbe

/-! ## The lock excludes -/

/-- A call that has not tested the count has the `Arc` of the map, and a mutex has one holder. -/
structure Held (s : State) : Prop where
  held : ∀ c ∈ s.calls, c.stage.isBefore = true → s.locks c.key = some c.lock
  one : ∀ (i j : ℕ) (b c : Call), s.calls[i]? = some b → s.calls[j]? = some c →
    b.stage = .working → c.stage = .working → b.lock = c.lock → i = j

/-- The map, the call and one more. -/
theorem three_le_strongCount {b : Call} {j : ℕ} (hl : s.locks c.key = some c.lock)
    (hi : s.calls[i]? = some c) (hc : c.refers c.lock = true) (hj : s.calls[j]? = some b)
    (hb : b.refers c.lock = true) (hij : j ≠ i) : 3 ≤ s.strongCount c := by
  have ht := total_eraseIdx (fun b => (b.refers c.lock).toNat) hi
  have hle := le_total (fun b => (b.refers c.lock).toNat)
    (mem_eraseIdx_iff_getElem?.2 ⟨j, hij, hj⟩)
  simp only [hb, hc, Bool.toNat_true] at ht hle
  rw [State.strongCount, hl, beq_self_eq_true, Bool.toNat_true]
  omega

theorem Call.refers_of_isBefore (h : c.stage.isBefore = true) : c.refers c.lock = true := by
  obtain ⟨key, lock, stage⟩ := c
  cases stage with
  | waiting | working | worked => simp [refers]
  | tested | dropped | ended => cases h

namespace Held

theorem one_concat (hs : Held s) {b : Call} (hb : b.stage = .waiting) {i j : ℕ} {a c : Call}
    (hi : (s.calls ++ [b])[i]? = some a) (hj : (s.calls ++ [b])[j]? = some c)
    (ha : a.stage = .working) (hc : c.stage = .working) (h : a.lock = c.lock) : i = j := by
  have hne : ∀ {k : ℕ} {d : Call}, (s.calls ++ [b])[k]? = some d → d.stage = .working →
      s.calls[k]? = some d := by
    intro k d hk hd
    rcases getElem?_concat_eq_some hk with hk | ⟨-, rfl⟩
    · exact hk
    · rw [hb] at hd
      cases hd
  exact hs.one i j a c (hne hi ha) (hne hj hc) ha hc h

theorem one_set (hs : Held s) {stage : Stage}
    (hw : stage = .working → ∀ b ∈ s.calls, b.lock = c.lock → b.stage ≠ .working) (k j : ℕ)
    (a b : Call) (hk : (s.calls.set i { c with stage := stage })[k]? = some a)
    (hj : (s.calls.set i { c with stage := stage })[j]? = some b) (ha : a.stage = .working)
    (hb : b.stage = .working) (h : a.lock = b.lock) : k = j := by
  rcases getElem?_set_eq_some hk with ⟨rfl, rfl⟩ | ⟨-, hk'⟩
  · rcases getElem?_set_eq_some hj with ⟨rfl, -⟩ | ⟨-, hj'⟩
    · rfl
    · exact absurd hb (hw ha b (mem_of_getElem? hj') h.symm)
  · rcases getElem?_set_eq_some hj with ⟨rfl, rfl⟩ | ⟨-, hj'⟩
    · exact absurd ha (hw hb a (mem_of_getElem? hk') h)
    · exact hs.one k j a b hk' hj' ha hb h

/-- **What a step keeps.** -/
theorem step {a : Act} (hs : Held s) (h : Step s a t) : Held t := by
  cases h with
  | join hl =>
    refine ⟨fun c hc hbe => ?_, fun _ _ _ _ => hs.one_concat rfl⟩
    rcases mem_append.1 hc with hc | hc
    · exact hs.held c hc hbe
    · obtain rfl := mem_singleton.1 hc
      exact hl
  | @make key hl =>
    refine ⟨fun c hc hbe => ?_, fun _ _ _ _ => hs.one_concat rfl⟩
    rcases mem_append.1 hc with hc | hc
    · have hh := hs.held c hc hbe
      have hne : c.key ≠ key := by
        rintro rfl
        rw [hl] at hh
        cases hh
      exact (update_of_ne hne _ _).trans hh
    · obtain rfl := mem_singleton.1 hc
      exact update_self ..
  | @move i a c stage hi hbe _ _ hw =>
    refine ⟨forall_mem_set hs.held fun h => ?_, hs.one_set hw⟩
    exact hs.held c (mem_of_getElem? hi) (hbe h)
  | @remove i c hi hst hcn =>
    refine ⟨fun b hb hbe => ?_, hs.one_set nofun⟩
    rcases eq_or_exists_of_mem_set hb with rfl | ⟨j, hij, hj⟩
    · cases hbe
    · have hh := hs.held b (mem_of_getElem? hj) hbe
      -- a call on the same object has the same `Arc`, and the count is three at least
      have hne : b.key ≠ c.key := by
        intro hk
        have hc : c.stage.isBefore = true := by rw [hst]; rfl
        have hl := hs.held c (mem_of_getElem? hi) hc
        have hsa : b.lock = c.lock := some.inj (hh.symm.trans (hk ▸ hl))
        have := three_le_strongCount hl hi (Call.refers_of_isBefore hc) hj
          (hsa ▸ Call.refers_of_isBefore hbe) hij
        omega
      exact (update_of_ne hne _ _).trans hh
  | leave hi hst =>
    exact ⟨forall_mem_set hs.held nofun, hs.one_set nofun⟩

end Held

theorem held_of_reach {ok : State → Act → Prop} (hs : machine.Reach ok s) : Held s := by
  refine hs.invariant (I := Held) ⟨?_, ?_⟩ fun _ _ _ _ hI _ h => hI.step (step_of_eq h)
  · exact fun c hc => absurd hc not_mem_nil
  · exact fun i j b c hi => absurd (mem_of_getElem? hi) not_mem_nil

/-- **The alarm lock excludes**, whatever calls are dropped: no two works of an object run at a
time, since who waits or works has the `Arc` of the map. -/
theorem work_excluded (hs : machine.Reachable s) :
    (∀ (i j : ℕ) (b c : Call), s.calls[i]? = some b → s.calls[j]? = some c → b.key = c.key →
      b.stage = .working → c.stage = .working → i = j) ∧
      ∀ c ∈ s.calls, c.stage = .waiting ∨ c.stage = .working → s.locks c.key = some c.lock := by
  have hheld := held_of_reach hs
  have hlock : ∀ c ∈ s.calls, c.stage = .waiting ∨ c.stage = .working →
      s.locks c.key = some c.lock := by
    intro c hc hst
    refine hheld.held c hc ?_
    rcases hst with hst | hst <;> rw [hst] <;> rfl
  refine ⟨fun i j b c hi hj hkey hb hc => hheld.one i j b c hi hj hb hc ?_, hlock⟩
  have hbl := hlock b (List.mem_of_getElem? hi) (.inr hb)
  have hcl := hlock c (List.mem_of_getElem? hj) (.inr hc)
  exact Option.some.inj (hbl.symm.trans (hkey ▸ hcl))

/-- One call works, another waits, and a third was dropped while it worked. -/
theorem work_excluded_three :
    ∃ s, machine.Reachable s ∧ s.calls.map Call.stage = [.dropped, .working, .waiting] ∧
      ∀ c ∈ s.calls, c.stage = .waiting ∨ c.stage = .working → s.locks c.key = some c.lock := by
  obtain ⟨s, hs, hp⟩ := machine.exists_of_run
    [.enter ("n", "o"), .call 0 .lock, .enter ("n", "o"), .call 0 .cancel, .call 1 .lock,
      .enter ("n", "o")]
    (fun s => s.calls.map Call.stage = [.dropped, .working, .waiting]) (by decide)
  exact ⟨s, hs, hp, (work_excluded hs).2⟩

/-! ## The entries of the map -/

/-- The call runs to its end, and no other call is between its test and the drop of its `Arc`. -/
def alone (s : State) : Act → Bool
  | .call _ .cancel => false
  | .call i .test =>
    s.calls[i]?.all fun c => s.calls.all fun b => !(b.lock == c.lock && b.stage == .tested)
  | _ => true

/-- An entry of the map is that of a call that will test the count. -/
structure Used (s : State) : Prop extends Held s where
  made : ∀ k l, s.locks k = some l → l < s.made
  inj : ∀ k k' l, s.locks k = some l → s.locks k' = some l → k = k'
  kept : ∀ c ∈ s.calls, c.stage ≠ .dropped
  used : ∀ k l, s.locks k = some l → ∃ c ∈ s.calls, c.key = k ∧ c.lock = l ∧ c.stage.isBefore = true

namespace Used

/-- A count that is not two is that of a call that has not tested it. -/
theorem exists_other (hs : Used s) (hi : s.calls[i]? = some c) (hst : c.stage = .worked)
    (hcn : s.strongCount c ≠ 2) (ha : ∀ b ∈ s.calls, b.lock = c.lock → b.stage ≠ .tested) :
    ∃ j b, j ≠ i ∧ s.calls[j]? = some b ∧ b.key = c.key ∧ b.lock = c.lock ∧
      b.stage.isBefore = true := by
  have hc : c.stage.isBefore = true := by rw [hst]; rfl
  have hl := hs.held c (mem_of_getElem? hi) hc
  have hto := total_eraseIdx (fun b => (b.refers c.lock).toNat) hi
  rw [State.strongCount, hl, beq_self_eq_true, Bool.toNat_true] at hcn
  simp only [Call.refers_of_isBefore hc, Bool.toNat_true] at hto
  have hne : total (fun b => (b.refers c.lock).toNat) (s.calls.eraseIdx i) ≠ 0 := by omega
  obtain ⟨b, hb, hrf⟩ : ∃ b ∈ s.calls.eraseIdx i, b.refers c.lock = true := by
    by_contra hn
    refine hne (total_eq_zero fun b hb => ?_)
    rw [Bool.toNat_eq_zero, Bool.eq_false_iff]
    exact fun hrf => hn ⟨b, hb, hrf⟩
  obtain ⟨j, hij, hj⟩ := mem_eraseIdx_iff_getElem?.1 hb
  have hm := mem_of_getElem? hj
  rw [Call.refers, Bool.and_eq_true, beq_iff_eq, bne_iff_ne] at hrf
  have hbe : b.stage.isBefore = true := by
    have ht := ha b hm hrf.1
    have hd := hs.kept b hm
    cases hb : b.stage with
    | waiting | working | worked => rfl
    | tested => exact absurd hb ht
    | dropped => exact absurd hb hd
    | ended => exact absurd hb hrf.2
  have hh := hs.held b hm hbe
  rw [hrf.1] at hh
  exact ⟨j, b, hij, hj, hs.inj _ _ _ hh hl, hrf.1, hbe⟩

theorem enter (hs : Used s) {key : ObjectRef} (h : Step s (.enter key) t) : Used t := by
  have hh := hs.toHeld.step h
  have hold : ∀ {b k l}, (∃ c ∈ s.calls, c.key = k ∧ c.lock = l ∧ c.stage.isBefore = true) →
      ∃ c ∈ s.calls ++ [b], c.key = k ∧ c.lock = l ∧ c.stage.isBefore = true := by
    rintro b k l ⟨c, hc, h⟩
    exact ⟨c, mem_append_left _ hc, h⟩
  have hke : ∀ {l}, ∀ c ∈ s.calls ++ [⟨key, l, .waiting⟩], c.stage ≠ .dropped := by
    intro l c hc
    rcases mem_append.1 hc with hc | hc
    · exact hs.kept c hc
    · obtain rfl := mem_singleton.1 hc
      exact nofun
  cases h with
  | join => exact ⟨hh, hs.made, hs.inj, hke, fun k l h => hold (hs.used k l h)⟩
  | make hlo =>
    refine ⟨hh, forall_update_some (fun k l _ h => ?_) (Nat.lt_succ_self _), ?_, hke,
      forall_update_some (fun k l _ h => hold (hs.used k l h)) ?_⟩
    · exact Nat.lt_succ_of_lt (hs.made k l h)
    · intro k k' l h h'
      rcases update_some_eq_some h with ⟨hk, hl⟩ | ⟨-, hk⟩
      · rcases update_some_eq_some h' with ⟨hk', -⟩ | ⟨-, hk'⟩
        · rw [hk, hk']
        · exact absurd (hs.made _ _ hk') (by rw [hl]; exact Nat.lt_irrefl _)
      · rcases update_some_eq_some h' with ⟨-, hl⟩ | ⟨-, hk'⟩
        · exact absurd (hs.made _ _ hk) (by rw [hl]; exact Nat.lt_irrefl _)
        · exact hs.inj k k' l hk hk'
    · exact ⟨_, mem_append_right _ (mem_singleton_self _), rfl, rfl, rfl⟩

theorem call (hs : Used s) {a : CallAct} (h : Step s (.call i a) t)
    (hok : alone s (.call i a) = true) : Used t := by
  have hh := hs.toHeld.step h
  cases h with
  | @move _ _ c stage hi _ ha hd _ =>
    have hca : a ≠ .cancel := by
      rintro rfl
      cases hok
    refine ⟨hh, hs.made, hs.inj, ?_, fun k l h => exists_mem_set hi ?_ (hs.used k l h)⟩
    · exact forall_mem_set hs.kept fun hst => hca (hd hst)
    · exact fun ⟨hke, hl, hbe⟩ => ⟨hke, hl, (ha hbe).resolve_right hca⟩
  | @remove _ c hi hst =>
    have ho : ∀ {k l}, update s.locks c.key none k = some l → c.key ≠ k ∧ s.locks k = some l := by
      intro k l h
      by_cases hk : k = c.key
      · rw [hk, update_self] at h
        cases h
      · rw [update_of_ne hk] at h
        exact ⟨Ne.symm hk, h⟩
    refine ⟨hh, fun k l h => hs.made k l (ho h).2, ?_, forall_mem_set hs.kept nofun, ?_⟩
    · exact fun k k' l h h' => hs.inj k k' l (ho h).2 (ho h').2
    · intro k l h
      obtain ⟨hk, h⟩ := ho h
      exact exists_mem_set_of_not hi (fun hc => hk hc.1) (hs.used k l h)
  | @leave _ c hi hst hcn =>
    refine ⟨hh, hs.made, hs.inj, forall_mem_set hs.kept nofun, fun k l h => ?_⟩
    by_cases hk : c.key = k
    · have hal : ∀ b ∈ s.calls, b.lock ≠ c.lock ∨ b.stage ≠ .tested := by
        simpa [alone, hi] using hok
      have halo : ∀ b ∈ s.calls, b.lock = c.lock → b.stage ≠ .tested := fun b hb hl =>
        (hal b hb).resolve_left (not_not_intro hl)
      obtain ⟨j, b, hji, hj, hke, hl, hbe⟩ := hs.exists_other hi hst hcn halo
      have hlo := hs.held b (mem_of_getElem? hj) hbe
      rw [hke, hk, h] at hlo
      refine ⟨b, mem_of_getElem? (i := j) ?_, hke.trans hk, (some.inj hlo).symm, hbe⟩
      rw [getElem?_set_ne (Ne.symm hji), hj]
    · exact exists_mem_set_of_not hi (fun hc => hk hc.1) (hs.used k l h)

end Used

theorem used_of_reach (hs : machine.Reach (alone · · = true) s) : Used s := by
  refine hs.invariant (I := Used) ⟨held_of_reach (.init : machine.Reachable _), nofun, nofun,
    ?_, nofun⟩ fun s a t _ hI hok h => ?_
  · exact fun c hc => absurd hc not_mem_nil
  · cases a with
    | enter key => exact hI.enter (step_of_eq h)
    | call i a => exact hI.call (step_of_eq h) hok

/-- **The table does not leak** when no call tests the count while another has tested it and not
dropped its `Arc`: an object with no call in progress has no entry. -/
theorem entry_removed (hs : machine.Reach (alone · · = true) s) (key : ObjectRef)
    (hended : ∀ c ∈ s.calls, c.key = key → c.stage = .ended) : s.locks key = none := by
  rw [eq_none_iff_forall_ne_some]
  intro lock hlock
  obtain ⟨c, hc, hkey, -, hbef⟩ := (used_of_reach hs).used key lock hlock
  rw [hended c hc hkey] at hbef
  cases hbef

/-- The second call waits while the first works, and they end one after the other. -/
theorem entry_removed_two :
    ∃ s, machine.Reach (alone · · = true) s ∧ s.calls.map Call.stage = [.ended, .ended] ∧
      s.locks ("n", "o") = none := by
  obtain ⟨s, hs, hstage, hend⟩ := Machine.exists_reach_of_runIf (M := machine) alone
    (fun _ _ _ h => h)
    [.enter ("n", "o"), .enter ("n", "o"), .call 0 .lock, .call 0 .unlock, .call 0 .test,
      .call 0 .drop, .call 1 .lock, .call 1 .unlock, .call 1 .test, .call 1 .drop]
    (fun s => s.calls.map Call.stage = [.ended, .ended] ∧ ∀ c ∈ s.calls, c.stage = .ended)
    (by decide)
  exact ⟨s, hs, hstage, entry_removed hs _ fun c hc _ => hend c hc⟩

/-- Both calls run to their end and test the count before either drops its `Arc`: each counts
three, and the entry of the object stays. -/
theorem entry_stays :
    ∃ s, machine.Reach (fun _ a => ∀ i, a ≠ .call i .cancel) s ∧
      (∀ c ∈ s.calls, c.stage = .ended) ∧ s.calls.length = 2 ∧ s.locks ("n", "o") = some 0 :=
  Machine.exists_reach_of_run (M := machine) (fun _ a => ∀ i, a ≠ .call i .cancel)
    [.enter ("n", "o"), .enter ("n", "o"), .call 0 .lock, .call 0 .unlock, .call 0 .test,
      .call 1 .lock, .call 1 .unlock, .call 1 .test, .call 0 .drop, .call 1 .drop]
    (fun s => (∀ c ∈ s.calls, c.stage = .ended) ∧ s.calls.length = 2 ∧
      s.locks ("n", "o") = some 0) (by simp) (by decide)

end OpenWorkersRunner.Alarms.Locks
