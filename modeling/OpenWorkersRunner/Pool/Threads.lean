import Mathlib.Data.Int.CardIntervalMod
import OpenWorkersRunner.Lib.Machine

/-!
# The threads of the pool (`worker_pool.rs`)

Each thread has a channel, from which it starts tasks on its `LocalSet` in the order they came.
`spawn` chooses a thread in turn, `spawn_on` by a key.  To choose and to send are two steps, between
which other callers choose and send.
-/

namespace OpenWorkersRunner.Pool.Threads

open List

variable {n : ℕ} [NeZero n] {τ : Type}

structure Task (n : ℕ) (τ : Type) where
  thread : Fin n
  key : Option UInt64
  task : τ

/-- `sent` remembers what was sent, in that order.  The counter of `spawn`, which wraps, is
`nextThread % 2 ^ 64`. -/
structure State (n : ℕ) (τ : Type) where
  nextThread : ℕ
  chosen : List (Task n τ)
  sent : List (Task n τ)
  channels : Fin n → List (Task n τ)
  started : Fin n → List (Task n τ)

inductive Act (n : ℕ) (τ : Type)
  | spawn (task : τ)
  | spawnOn (key : UInt64) (task : τ)
  | sendTo (i : ℕ)
  | recv (thread : Fin n)

def State.step (s : State n τ) : Act n τ → Option (State n τ)
  | .spawn task =>
    some { s with
      nextThread := s.nextThread + 1
      chosen := s.chosen ++ [⟨Fin.ofNat n (s.nextThread % 2 ^ 64), none, task⟩] }
  | .spawnOn key task =>
    some { s with chosen := s.chosen ++ [⟨Fin.ofNat n key.toNat, some key, task⟩] }
  | .sendTo i =>
    s.chosen[i]?.map fun t =>
      { s with
        chosen := s.chosen.eraseIdx i
        sent := s.sent ++ [t]
        channels := Function.update s.channels t.thread (s.channels t.thread ++ [t]) }
  | .recv i =>
    match s.channels i with
    | [] => none
    | t :: rest =>
      some { s with
        channels := Function.update s.channels i rest
        started := Function.update s.started i (s.started i ++ [t]) }

def machine (n : ℕ) [NeZero n] (τ : Type) : Machine (State n τ) (Act n τ) :=
  ⟨⟨0, [], [], fun _ => [], fun _ => []⟩, State.step⟩

/-- How many of the tasks of `spawn` are for a thread. -/
def State.share (s : State n τ) (i : Fin n) : ℕ :=
  (s.chosen ++ s.sent).countP fun t => t.key = none ∧ t.thread = i

structure Inv (s : State n τ) : Prop where
  order : ∀ i, s.started i ++ s.channels i = s.sent.filter (·.thread = i)
  keyed : ∀ t ∈ s.chosen ++ s.sent, ∀ key ∈ t.key, t.thread = Fin.ofNat n key.toNat
  shares : s.nextThread ≤ 2 ^ 64 → ∀ i, s.share i = s.nextThread.count (· ≡ i [MOD n])

variable {s t : State n τ}

omit [NeZero n] in
theorem perm_send {l m : List (Task n τ)} {i : ℕ} {x : Task n τ} (h : l[i]? = some x) :
    (l.eraseIdx i ++ (m ++ [x])).Perm (l ++ m) := by
  obtain ⟨hi, rfl⟩ := List.getElem?_eq_some_iff.1 h
  calc l.eraseIdx i ++ (m ++ [l[i]])
    _ ~ l[i] :: l.eraseIdx i ++ m := by
      rw [← append_assoc]
      exact perm_append_singleton ..
    _ ~ l ++ m := (getElem_cons_eraseIdx_perm hi).append_right m

theorem Inv.choose (hI : Inv s) {x : Task n τ}
    (hx : ∀ key ∈ x.key, x.thread = Fin.ofNat n key.toNat) :
    ∀ t ∈ s.chosen ++ [x] ++ s.sent, ∀ key ∈ t.key, t.thread = Fin.ofNat n key.toNat := by
  intro t ht
  rcases (by simpa [or_left_comm] using ht : t = x ∨ t ∈ s.chosen ∨ t ∈ s.sent) with rfl | ht
  · exact hx
  · exact hI.keyed t (mem_append.2 ht)

theorem Inv.step {a : Act n τ} (hI : Inv s) (h : s.step a = some t) : Inv t := by
  cases a with
  | spawn task =>
    cases h
    refine ⟨hI.order, hI.choose (by simp), fun hle i => ?_⟩
    have hlt : s.nextThread % 2 ^ 64 = s.nextThread := Nat.mod_eq_of_lt hle
    have hsh := hI.shares (Nat.le_of_succ_le hle) i
    simp only [State.share, countP_append, hlt] at hsh ⊢
    rw [Nat.count_succ, ← hsh]
    simp [Fin.ext_iff, Nat.ModEq, Nat.mod_eq_of_lt i.isLt, Nat.add_right_comm]
  | spawnOn key task =>
    cases h
    refine ⟨hI.order, hI.choose (by simp), fun hle i => ?_⟩
    simpa [State.share] using hI.shares hle i
  | sendTo i =>
    obtain ⟨x, hx, rfl⟩ := Option.map_eq_some_iff.1 h
    have hp := perm_send (m := s.sent) hx
    refine ⟨fun j => ?_, fun y hy => hI.keyed y (hp.mem_iff.1 hy), fun hle j => ?_⟩
    · rw [filter_append, ← hI.order j]
      by_cases hj : j = x.thread
      · subst hj
        simp
      · simp [Function.update_of_ne hj, Ne.symm hj]
    · exact (hp.countP_eq _).trans (hI.shares hle j)
  | recv i =>
    rw [State.step] at h
    split at h <;> cases h
    next x rest hc =>
      refine ⟨fun j => ?_, hI.keyed, hI.shares⟩
      rw [← hI.order j]
      by_cases hj : j = i
      · subst hj
        simp [hc]
      · simp [Function.update_of_ne hj]

theorem inv (hs : (machine n τ).Reachable s) : Inv s :=
  hs.invariant (I := Inv) ⟨by simp [machine], by simp [machine], by simp [machine, State.share]⟩
    fun _ _ _ _ hI _ h => hI.step h

/-- **The tasks of a key start on one thread, in the order they were sent, each once.** -/
theorem keyed_in_order (hs : (machine n τ).Reachable s) (key : UInt64) (i : Fin n) :
    (s.started i).filter (·.key = some key) <+:
      if i = Fin.ofNat n key.toNat then s.sent.filter (·.key = some key) else [] := by
  have hk : ∀ t ∈ s.sent, t.key = some key → t.thread = Fin.ofNat n key.toNat :=
    fun t ht => (inv hs).keyed t (mem_append_right _ ht) key
  have hse : (s.sent.filter (·.thread = i)).filter (·.key = some key) =
      if i = Fin.ofNat n key.toNat then s.sent.filter (·.key = some key) else [] := by
    rw [filter_filter]
    split
    · exact filter_congr fun t ht => by grind
    · exact filter_eq_nil_iff.2 fun t ht => by grind
  rw [← hse, ← (inv hs).order i]
  exact (prefix_append _ _).filter _

/-- The first thread has started one of the two tasks of key 4, and one that came between. -/
theorem keyed_in_order_four : ∃ s : State 2 ℕ, (machine 2 ℕ).Reachable s ∧
    (s.started 0).map Task.task = [10, 11] ∧ s.sent.map Task.task = [10, 11, 12] ∧
    (s.started 0).filter (·.key = some 4) <+: s.sent.filter (·.key = some 4) := by
  obtain ⟨s, hs, h, h'⟩ := (machine 2 ℕ).exists_of_run
    [.spawnOn 4 10, .spawn 11, .sendTo 0, .spawnOn 4 12, .sendTo 0, .sendTo 0, .recv 0, .recv 0]
    (fun s => (s.started 0).map Task.task = [10, 11] ∧ s.sent.map Task.task = [10, 11, 12])
    (by decide)
  exact ⟨s, hs, h, h', keyed_in_order hs 4 0⟩

/-- **`spawn` shares the work evenly**, up to one task, as long as its counter has not wrapped. -/
theorem share_le (hs : (machine n τ).Reachable s) (hle : s.nextThread ≤ 2 ^ 64) (i j : Fin n) :
    s.share i ≤ s.share j + 1 := by
  simp only [(inv hs).shares hle, Nat.count_modEq_card _ (NeZero.pos n)]
  split_ifs <;> omega

theorem share_le_three : ∃ s : State 2 ℕ, (machine 2 ℕ).Reachable s ∧ s.share 0 = 2 ∧
    s.share 1 = 1 ∧ s.share 0 ≤ s.share 1 + 1 := by
  obtain ⟨s, hs, h, h', hle⟩ := (machine 2 ℕ).exists_of_run
    [.spawn 0, .spawn 1, .sendTo 1, .spawn 2]
    (fun s => s.share 0 = 2 ∧ s.share 1 = 1 ∧ s.nextThread = 3) (by decide)
  exact ⟨s, hs, h, h', share_le hs (hle.le.trans (by decide)) 0 1⟩

end OpenWorkersRunner.Pool.Threads
