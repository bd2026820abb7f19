import OpenWorkersRunner.Lib.Machine
import OpenWorkersRunner.Lib.Parties

/-!
# The limit of a binding (`limiter.rs`)

`acquire` increments the counter, compares what it was, and undoes the increment when the call is
refused; `reset` stores zero.  Each of these is a step of its own.  An undo that comes after a reset
takes away what is not there, and the counter wraps.
-/

namespace OpenWorkersRunner.BindingLimiter

open Parties Option List

structure Limit where
  maxTotal : UInt32
  maxConcurrent : ℕ
deriving DecidableEq

/-- Where a call of `acquire` stands. -/
inductive Phase
  | begun
  | added (current : UInt32)
  | refusing (current : UInt32)
  | refused (current : UInt32)
  | passed
  | holding
  | released
deriving DecidableEq

structure Call where
  round : ℕ
  phase : Phase
deriving DecidableEq

structure State where
  count : UInt32
  resets : ℕ
  calls : List Call
deriving DecidableEq

inductive CallAct
  | add
  | compare
  | undo
  | permit
  | release
deriving DecidableEq

inductive Act
  | acquire
  | call (i : ℕ) (a : CallAct)
  | reset
deriving DecidableEq

def State.alive (s : State) : ℕ := total (fun c => (c.phase == .holding).toNat) s.calls

def State.stepCall (limit : Limit) (s : State) (c : Call) : CallAct → Option (UInt32 × Call)
  | .add =>
    match c.phase with
    | .begun =>
      if limit.maxTotal > 0 then some (s.count + 1, ⟨s.resets, .added s.count⟩)
      else some (s.count, ⟨s.resets, .passed⟩)
    | _ => none
  | .compare =>
    match c.phase with
    | .added current =>
      some (s.count, ⟨c.round, if current ≥ limit.maxTotal then .refusing current else .passed⟩)
    | _ => none
  | .undo =>
    match c.phase with
    | .refusing current => some (s.count - 1, ⟨c.round, .refused (current + 1)⟩)
    | _ => none
  | .permit =>
    match c.phase with
    | .passed =>
      if limit.maxConcurrent = 0 ∨ s.alive < limit.maxConcurrent then
        some (s.count, ⟨c.round, .holding⟩)
      else none
    | _ => none
  -- the guard is dropped, or the future that waits for a permit
  | .release =>
    match c.phase with
    | .passed | .holding => some (s.count, ⟨c.round, .released⟩)
    | _ => none

def machine (limit : Limit) : Machine State Act where
  init := ⟨0, 0, []⟩
  step s
    | .acquire => some { s with calls := s.calls ++ [⟨0, .begun⟩] }
    | .call i a =>
      s.calls[i]?.bind fun c => (s.stepCall limit c a).map fun (count, c') =>
        { s with count := count, calls := s.calls.set i c' }
    | .reset => some { s with count := 0, resets := s.resets + 1 }

/-! ## The calls of a round -/

/-- What a call of this round has done to its count. -/
inductive Side
  | idle
  | admitted
  | turned
  | undone
deriving DecidableEq

def side (limit : Limit) (round : ℕ) (c : Call) : Side :=
  if c.round = round then
    match c.phase with
    | .begun => .idle
    | .added current => if current ≥ limit.maxTotal then .turned else .admitted
    | .refusing _ => .turned
    | .refused _ => .undone
    | .passed | .holding | .released => .admitted
  else .idle

def State.num (limit : Limit) (s : State) (k : Side) : ℕ :=
  total (fun c => (side limit s.resets c == k).toNat) s.calls

def Call.inFlight (c : Call) : Bool :=
  match c.phase with
  | .added _ | .refusing _ => true
  | _ => false

/-- No call is between its increment and its undo at a reset, and the counter does not overflow. -/
def apart (s : State) : Act → Bool
  | .reset => s.calls.all (!·.inFlight)
  | .call _ .add => s.count.toNat + 1 < 2 ^ 32
  | _ => true

variable {limit : Limit} {s t : State} {c c' : Call} {count : UInt32} {i : ℕ}

inductive Moves (limit : Limit) (s : State) (c : Call) : UInt32 → Call → Prop
  | add (hphase : c.phase = .begun) : Moves limit s c (s.count + 1) ⟨s.resets, .added s.count⟩
  | undo {current : UInt32} (hphase : c.phase = .refusing current) :
    Moves limit s c (s.count - 1) ⟨c.round, .refused (current + 1)⟩
  | keep {c' : Call} (hround : c'.round = c.round)
    (hside : ∀ round, side limit round c' = side limit round c)
    (hflight : c'.inFlight = true → c.inFlight = true)
    (hfree : c'.phase = .holding → limit.maxConcurrent = 0 ∨ s.alive < limit.maxConcurrent) :
    Moves limit s c s.count c'

theorem moves_of_eq {a : CallAct} (hm : 0 < limit.maxTotal)
    (h : s.stepCall limit c a = some (count, c')) : Moves limit s c count c' := by
  obtain ⟨round, phase⟩ := c
  cases a with
  | add =>
    cases phase with
    | begun =>
      cases (if_pos hm).symm.trans h
      exact .add rfl
    | added | refusing | refused | passed | holding | released => cases h
  | compare =>
    cases phase with
    | added cur =>
      cases h
      by_cases hge : cur ≥ limit.maxTotal
      · exact .keep rfl (fun r => by simp [side, hge]) (fun _ => rfl) (by simp [hge])
      · exact .keep rfl (fun r => by simp [side, hge]) (fun _ => rfl) (by simp [hge])
    | begun | refusing | refused | passed | holding | released => cases h
  | undo =>
    cases phase with
    | refusing cur =>
      cases h
      exact .undo rfl
    | begun | added | refused | passed | holding | released => cases h
  | permit =>
    cases phase with
    | passed =>
      obtain ⟨hf, h⟩ := ite_none_right_eq_some.1 h
      cases h
      exact .keep rfl (fun _ => rfl) (absurd · Bool.false_ne_true) fun _ => hf
    | begun | added | refusing | refused | holding | released => cases h
  | release =>
    cases phase with
    | passed | holding =>
      cases h
      exact .keep rfl (fun _ => rfl) (absurd · Bool.false_ne_true) (by simp)
    | begun | added | refusing | refused | released => cases h

theorem num_set (k : Side) {x y : Side} (hc : s.calls[i]? = some c)
    (hx : side limit s.resets c = x) (hy : side limit s.resets c' = y) :
    State.num limit { s with count := count, calls := s.calls.set i c' } k + (x == k).toNat =
      s.num limit k + (y == k).toNat := by
  subst hx hy
  exact total_set _ hc

/-- The counter is that of the calls admitted and those about to be undone, and who is turned away
has seen the total reached. -/
structure Counted (limit : Limit) (s : State) : Prop where
  rounds : ∀ c ∈ s.calls, c.round ≤ s.resets
  inFlight : ∀ c ∈ s.calls, c.inFlight = true → c.round = s.resets
  count : s.count.toNat = s.num limit .admitted + s.num limit .turned
  bounded : s.num limit .admitted ≤ limit.maxTotal.toNat
  full : 0 < s.num limit .turned + s.num limit .undone →
    s.num limit .admitted = limit.maxTotal.toNat

namespace Counted

theorem acquire (hs : Counted limit s) :
    Counted limit { s with calls := s.calls ++ [⟨0, .begun⟩] } := by
  have hn : ∀ k, k ≠ .idle →
      State.num limit { s with calls := s.calls ++ [⟨0, .begun⟩] } k = s.num limit k := by
    intro k hk
    have hid : (side limit s.resets ⟨0, .begun⟩ == k) = false := by
      rw [beq_eq_false_iff_ne, side]
      split <;> exact hk.symm
    rw [State.num, total_concat, hid]
    rfl
  refine ⟨?_, ?_, ?_, ?_, ?_⟩
  · intro c hc
    rcases mem_append.1 hc with hc | hc
    · exact hs.rounds c hc
    · obtain rfl := mem_singleton.1 hc
      exact Nat.zero_le _
  · intro c hc hf
    rcases mem_append.1 hc with hc | hc
    · exact hs.inFlight c hc hf
    · obtain rfl := mem_singleton.1 hc
      cases hf
  all_goals
    rw [hn .admitted (by decide)]
    try rw [hn .turned (by decide)]
    try rw [hn .undone (by decide)]
  · exact hs.count
  · exact hs.bounded
  · exact hs.full

theorem reset (hs : Counted limit s) (ha : s.calls.all (!·.inFlight) = true) :
    Counted limit { s with count := 0, resets := s.resets + 1 } := by
  have hn : ∀ k, k ≠ .idle →
      State.num limit { s with count := 0, resets := s.resets + 1 } k = 0 := by
    intro k hk
    refine total_eq_zero fun c hc => ?_
    have hro : c.round ≠ s.resets + 1 := Nat.ne_of_lt (Nat.lt_succ_of_le (hs.rounds c hc))
    rw [side, if_neg hro, beq_eq_false_iff_ne.2 hk.symm]
    rfl
  refine ⟨fun c hc => Nat.le_succ_of_le (hs.rounds c hc), fun c hc hf => ?_, ?_, ?_, ?_⟩
  · have hno := all_eq_true.1 ha c hc
    rw [hf] at hno
    cases hno
  · rw [hn .admitted (by decide), hn .turned (by decide)]
    rfl
  · rw [hn .admitted (by decide)]
    exact Nat.zero_le _
  · rw [hn .turned (by decide), hn .undone (by decide)]
    exact fun h => absurd h (Nat.lt_irrefl 0)

theorem keep (hs : Counted limit s) (hc : s.calls[i]? = some c) (hro : c'.round = c.round)
    (hsi : ∀ round, side limit round c' = side limit round c)
    (hf : c'.inFlight = true → c.inFlight = true) :
    Counted limit { s with calls := s.calls.set i c' } := by
  have hm := mem_of_getElem? hc
  have hn : ∀ k, State.num limit { s with calls := s.calls.set i c' } k = s.num limit k :=
    fun k => Nat.add_right_cancel (num_set k hc rfl (hsi _))
  refine ⟨forall_mem_set hs.rounds (hro.trans_le (hs.rounds c hm)),
    forall_mem_set hs.inFlight fun h => hro.trans (hs.inFlight c hm (hf h)), ?_, ?_, ?_⟩
  · rw [hn, hn]
    exact hs.count
  · rw [hn]
    exact hs.bounded
  · rw [hn, hn, hn]
    exact hs.full

theorem undo (hs : Counted limit s) (hc : s.calls[i]? = some c) {cur : UInt32}
    (hph : c.phase = .refusing cur) :
    Counted limit { s with
      count := s.count - 1
      calls := s.calls.set i ⟨c.round, .refused (cur + 1)⟩ } := by
  have hm := mem_of_getElem? hc
  have hro : c.round = s.resets := hs.inFlight c hm (by rw [Call.inFlight, hph])
  have hx : side limit s.resets c = .turned := by rw [side, if_pos hro, hph]
  have hy : side limit s.resets ⟨c.round, .refused (cur + 1)⟩ = .undone := if_pos hro
  have hcn := hs.count
  have hp := le_total (fun c => (side limit s.resets c == .turned).toNat) hm
  rw [hx] at hp
  have hsu : (s.count - 1).toNat = s.count.toNat - 1 := by
    refine UInt32.toNat_sub_of_le _ _ (UInt32.le_iff_toNat_le.2 ?_)
    exact Nat.le_trans hp (hcn ▸ Nat.le_add_left _ _)
  generalize ht : ({ s with
    count := s.count - 1
    calls := s.calls.set i ⟨c.round, .refused (cur + 1)⟩ } : State) = t
  have hA : t.num limit .admitted = s.num limit .admitted := ht ▸ num_set .admitted hc hx hy
  have hR : t.num limit .turned + 1 = s.num limit .turned := ht ▸ num_set .turned hc hx hy
  have hU : t.num limit .undone = s.num limit .undone + 1 := ht ▸ num_set .undone hc hx hy
  have hf := hs.full (by omega)
  refine ⟨ht ▸ forall_mem_set hs.rounds (hs.rounds c hm),
    ht ▸ forall_mem_set hs.inFlight (absurd · Bool.false_ne_true), ?_, hA ▸ hs.bounded,
    fun _ => hA.trans hf⟩
  have htc : t.count.toNat = s.count.toNat - 1 := ht ▸ hsu
  omega

theorem add (hs : Counted limit s) (hc : s.calls[i]? = some c) (hp : c.phase = .begun)
    (hfi : s.count.toNat + 1 < 2 ^ 32) :
    Counted limit { s with
      count := s.count + 1
      calls := s.calls.set i ⟨s.resets, .added s.count⟩ } := by
  have hx : side limit s.resets c = .idle := by
    rw [side, hp]
    split <;> rfl
  have ha : (s.count + 1).toNat = s.count.toNat + 1 := by
    rw [UInt32.toNat_add, UInt32.toNat_one]
    exact Nat.mod_eq_of_lt hfi
  have hcn := hs.count
  have hbo := hs.bounded
  have hfu := hs.full
  have hro := forall_mem_set (i := i) hs.rounds
    (b := ⟨s.resets, .added s.count⟩) (Nat.le_refl s.resets)
  have hf := forall_mem_set (i := i) hs.inFlight
    (b := ⟨s.resets, .added s.count⟩) fun _ => rfl
  generalize ht : ({ s with
    count := s.count + 1
    calls := s.calls.set i ⟨s.resets, .added s.count⟩ } : State) = t
  have htc : t.count.toNat = s.count.toNat + 1 := ht ▸ ha
  by_cases hge : s.count ≥ limit.maxTotal
  · -- the total is reached: by those admitted alone, as the first that is turned away sees
    have hy : side limit s.resets ⟨s.resets, .added s.count⟩ = .turned :=
      (if_pos rfl).trans (if_pos hge)
    have hA : t.num limit .admitted = s.num limit .admitted := ht ▸ num_set .admitted hc hx hy
    have hR : t.num limit .turned = s.num limit .turned + 1 := ht ▸ num_set .turned hc hx hy
    rw [ge_iff_le, UInt32.le_iff_toNat_le] at hge
    exact ⟨ht ▸ hro, ht ▸ hf, by omega, by omega, fun _ => by omega⟩
  · have hy : side limit s.resets ⟨s.resets, .added s.count⟩ = .admitted :=
      (if_pos rfl).trans (if_neg hge)
    have hA : t.num limit .admitted = s.num limit .admitted + 1 := ht ▸ num_set .admitted hc hx hy
    have hR : t.num limit .turned = s.num limit .turned := ht ▸ num_set .turned hc hx hy
    have hU : t.num limit .undone = s.num limit .undone := ht ▸ num_set .undone hc hx hy
    rw [ge_iff_le, UInt32.le_iff_toNat_le] at hge
    exact ⟨ht ▸ hro, ht ▸ hf, by omega, by omega, fun h => by omega⟩

/-- **What a step keeps.** -/
theorem step {a : Act} (hm : 0 < limit.maxTotal) (hs : Counted limit s)
    (ha : apart s a = true) (h : (machine limit).step s a = some t) : Counted limit t := by
  cases a with
  | acquire =>
    cases h
    exact hs.acquire
  | reset =>
    cases h
    exact hs.reset ha
  | call i a =>
    obtain ⟨c, hc, h⟩ := bind_eq_some_iff.1 h
    obtain ⟨⟨count, c'⟩, hst, rfl⟩ := map_eq_some_iff.1 h
    cases moves_of_eq hm hst with
    | keep hro hsi hf => exact hs.keep hc hro hsi hf
    | undo hp => exact hs.undo hc hp
    | add hp =>
      refine hs.add hc hp ?_
      cases a with
      | add => exact of_decide_eq_true ha
      | compare | undo | permit | release =>
        rw [State.stepCall, hp] at hst
        cases hst

end Counted

/-- Guards are alive only within the permits, at any interleaving. -/
theorem alive_le (hm : 0 < limit.maxTotal) (hs : (machine limit).Reachable s)
    (hl : limit.maxConcurrent ≠ 0) :
    s.alive ≤ limit.maxConcurrent := by
  refine hs.invariant (I := fun s => s.alive ≤ limit.maxConcurrent) (Nat.zero_le _) ?_
  intro s a t _ hI _ h
  cases a with
  | acquire =>
    cases h
    rw [State.alive, total_concat]
    exact hI
  | reset =>
    cases h
    exact hI
  | call i a =>
    obtain ⟨c, hc, h⟩ := bind_eq_some_iff.1 h
    obtain ⟨⟨count, c'⟩, hst, rfl⟩ := map_eq_some_iff.1 h
    have hse := total_set (fun c : Call => (c.phase == .holding).toNat) (b := c') hc
    have hle := Bool.toNat_le (c'.phase == .holding)
    change total (fun c : Call => (c.phase == .holding).toNat) (s.calls.set i c') ≤ _
    rw [State.alive] at hI
    cases moves_of_eq hm hst with
    | add | undo =>
      have hse : _ + (c.phase == .holding).toNat = _ + 0 := hse
      omega
    | keep _ _ _ hf =>
      by_cases hh : c'.phase = .holding
      · have hlt := (hf hh).resolve_left hl
        rw [State.alive] at hlt
        omega
      · rw [beq_eq_false_iff_ne.2 hh, Bool.toNat_false] at hse
        omega

/-- **The limiter counts right** as long as no reset comes between an increment and its undo: in a
round no more calls are admitted than the total, none is refused before, the counter does not wrap
below zero, and no more guards are alive than there are permits. -/
theorem limiter_counts (limit : Limit) (hmax : 0 < limit.maxTotal) {s : State}
    (hs : (machine limit).Reach (apart · ·) s) :
    s.num limit .admitted ≤ limit.maxTotal.toNat ∧
      (s.num limit .turned = 0 → s.num limit .admitted =
        min (s.num limit .admitted + s.num limit .undone) limit.maxTotal.toNat) ∧
      (s.num limit .admitted + s.num limit .turned + s.num limit .undone ≤
        limit.maxTotal.toNat → s.num limit .turned = 0 ∧ s.num limit .undone = 0) ∧
      s.count.toNat = s.num limit .admitted + s.num limit .turned ∧
      (limit.maxConcurrent ≠ 0 → s.alive ≤ limit.maxConcurrent) := by
  have hcount : Counted limit s := by
    refine hs.invariant (I := Counted limit) ⟨?_, ?_, rfl, Nat.zero_le _, ?_⟩ ?_
    · exact fun c hc => absurd hc List.not_mem_nil
    · exact fun c hc => absurd hc List.not_mem_nil
    · exact fun h => absurd h (Nat.lt_irrefl 0)
    · exact fun _ _ _ _ hI hapart h => hI.step hmax hapart h
  have hbound := hcount.bounded
  have hfull := hcount.full
  refine ⟨hbound, fun h => ?_, fun h => ⟨?_, ?_⟩, hcount.count,
    alive_le hmax (hs.mono fun _ _ _ => trivial)⟩
  · omega
  · omega
  · omega

def refusal (i : ℕ) : List Act := [.acquire, .call i .add, .call i .compare, .call i .undo]

def admission (i : ℕ) : List Act := [.acquire, .call i .add, .call i .compare, .call i .permit]

theorem limiter_counts_reset :
    ∃ s, (machine ⟨1, 2⟩).Reach (apart · ·) s ∧ s.resets = 1 ∧ s.num ⟨1, 2⟩ .admitted = 1 ∧
      s.num ⟨1, 2⟩ .admitted ≤ 1 := by
  obtain ⟨s, hs, hp⟩ := Machine.exists_reach_of_runIf (M := machine ⟨1, 2⟩) apart
    (fun _ _ _ h => h) (admission 0 ++ refusal 1 ++ [.reset] ++ admission 2)
    (fun s => s.resets = 1 ∧ s.num ⟨1, 2⟩ .admitted = 1) (by decide)
  exact ⟨s, hs, hp.1, hp.2, (limiter_counts ⟨1, 2⟩ (by decide) hs).1⟩

def straddled : List Act :=
  admission 0 ++ [.acquire, .call 1 .add, .call 1 .compare, .reset, .call 1 .undo]

/-- **A refused call that straddles a reset wraps the counter**: the only call after it is refused,
and with another one in flight two pass where one is allowed. -/
theorem limiter_wraps :
    (∃ s, (machine ⟨1, 0⟩).Reachable s ∧ (s.count = 4294967295 ∧ s.resets = 1 : Bool) = true) ∧
      (∃ s, (machine ⟨1, 0⟩).Reachable s ∧ (s.resets = 1 ∧ s.num ⟨1, 0⟩ .admitted = 0 ∧
        s.num ⟨1, 0⟩ .undone = 1 : Bool) = true) ∧
      ∃ s, (machine ⟨1, 0⟩).Reachable s ∧
        (s.resets = 1 ∧ s.num ⟨1, 0⟩ .admitted = 2 : Bool) = true :=
  ⟨(machine ⟨1, 0⟩).exists_of_run straddled _ (by decide),
    (machine ⟨1, 0⟩).exists_of_run (straddled ++ refusal 2) _ (by decide),
    (machine ⟨1, 0⟩).exists_of_run
      (straddled ++ [.acquire, .call 2 .add, .call 2 .compare] ++ admission 3 ++
      [.call 2 .undo] ++ admission 4) _ (by decide)⟩

end OpenWorkersRunner.BindingLimiter
