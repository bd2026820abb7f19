import OpenWorkersRunner.Drain.Runner

/-!
# The slot of a task (`worker_pool.rs`)

A task has a permit until its JS ends: one of `WORKER_SEMAPHORE`, or, once its response was a 101,
one of `WS_SEMAPHORE` for which the handler traded it.  Handler and task race over it, so the permit
is behind a lock, in a `PermitSlot` of which both have a clone, and what comes first decides: a
trade after the end of the task puts nothing into the slot.
-/

namespace OpenWorkersRunner.Pool.Permits

open Function List Option Parties

variable {σ : Type} [DecidableEq σ]

structure Permit (σ : Type) where
  semaphore : σ
  id : ℕ
deriving DecidableEq

structure Slot (σ : Type) where
  held : Option (Permit σ)
  clones : ℕ
  tasks : ℕ
  ended : Bool
deriving DecidableEq

structure State (σ : Type) where
  available : σ → ℕ
  hands : List (Permit σ)
  slots : List (Slot σ)
  issued : List (Permit σ)
  returned : List (Permit σ)

/-! ## What is done with permits -/

namespace State

def giveBack (s : State σ) (permit : Permit σ) : State σ :=
  { s with
    available := Function.update s.available permit.semaphore (s.available permit.semaphore + 1)
    returned := s.returned ++ [permit] }

def giveBackHeld (s : State σ) : Option (Permit σ) → State σ
  | some permit => s.giveBack permit
  | none => s

def acquire (s : State σ) (semaphore : σ) : Option (State σ) :=
  let permit : Permit σ := ⟨semaphore, s.issued.length⟩
  if 0 < s.available semaphore then
    some { s with
      available := Function.update s.available semaphore (s.available semaphore - 1)
      hands := s.hands ++ [permit]
      issued := s.issued ++ [permit] }
  else none

def handOver (s : State σ) (permit : Permit σ) (next : State σ → State σ) : Option (State σ) :=
  if permit ∈ s.hands then some (next { s with hands := s.hands.erase permit }) else none

/-- `PermitSlot::new`. -/
def newSlot (s : State σ) (permit : Permit σ) : State σ :=
  { s with slots := s.slots ++ [⟨some permit, 1, 0, false⟩] }

/-- `PermitSlot::trade`: the slot holds `permit` in place of what it holds.  A slot that holds
nothing lets it go back. -/
def trade (s : State σ) (i : ℕ) (slot : Slot σ) (permit : Permit σ) : State σ :=
  match slot.held with
  | some old => { s with slots := s.slots.set i { slot with held := some permit } }.giveBack old
  | none => s.giveBack permit

def dropTask (s : State σ) (i : ℕ) (slot : Slot σ) : State σ :=
  { s with
    slots := s.slots.set i { slot with held := none, tasks := slot.tasks - 1, ended := true }
  }.giveBackHeld slot.held

def dropClone (s : State σ) (i : ℕ) (slot : Slot σ) : State σ :=
  if slot.clones = 1 ∧ slot.tasks = 0 then
    { s with slots := s.slots.set i { slot with held := none, clones := 0 }
    }.giveBackHeld slot.held
  else { s with slots := s.slots.set i { slot with clones := slot.clones - 1 } }

end State

/-! ## The machine -/

inductive Act (σ : Type)
  | acquire (semaphore : σ)
  | drop (permit : Permit σ)
  | newSlot (permit : Permit σ)
  | clone (i : ℕ)
  | dropClone (i : ℕ)
  | newTask (i : ℕ)
  | dropTask (i : ℕ)
  | trade (i : ℕ) (permit : Permit σ)
deriving DecidableEq

def State.withClone (s : State σ) (i : ℕ) (f : Slot σ → Option (State σ)) : Option (State σ) :=
  s.slots[i]?.bind fun slot => if 0 < slot.clones then f slot else none

def State.step (s : State σ) : Act σ → Option (State σ)
  | .acquire semaphore => s.acquire semaphore
  | .drop permit => s.handOver permit fun s => s.giveBack permit
  | .newSlot permit => s.handOver permit fun s => s.newSlot permit
  | .clone i => s.withClone i fun slot =>
      some { s with slots := s.slots.set i { slot with clones := slot.clones + 1 } }
  | .dropClone i => s.withClone i fun slot => some (s.dropClone i slot)
  | .newTask i => s.withClone i fun slot =>
      some { s with
        slots := s.slots.set i { slot with clones := slot.clones - 1, tasks := slot.tasks + 1 } }
  | .dropTask i =>
    s.slots[i]?.bind fun slot => if 0 < slot.tasks then some (s.dropTask i slot) else none
  | .trade i permit =>
    s.withClone i fun slot => s.handOver permit fun s => s.trade i slot permit

def machine (capacity : σ → ℕ) : Machine (State σ) (Act σ) where
  init := ⟨capacity, [], [], [], []⟩
  step := State.step

/-! ## What a step does -/

def Slot.weight (w : Permit σ → ℕ) (slot : Slot σ) : ℕ := slot.held.elim 0 w

namespace State

def held (w : Permit σ → ℕ) (s : State σ) : ℕ := total w s.hands + total (Slot.weight w) s.slots

inductive Moves (s : State σ) : State σ → Prop
  | takes {t : State σ} (semaphore : σ) (hfree : 0 < s.available semaphore)
      (havailable : t.available = Function.update s.available semaphore (s.available semaphore - 1))
      (hissued : t.issued = s.issued ++ [⟨semaphore, s.issued.length⟩])
      (hreturned : t.returned = s.returned)
      (hheld : ∀ w, t.held w = s.held w + w ⟨semaphore, s.issued.length⟩) : Moves s t
  | gives {t : State σ} (permit : Permit σ)
      (havailable : t.available =
        Function.update s.available permit.semaphore (s.available permit.semaphore + 1))
      (hissued : t.issued = s.issued) (hreturned : t.returned = s.returned ++ [permit])
      (hheld : ∀ w, t.held w + w permit = s.held w) : Moves s t
  | keeps {t : State σ} (havailable : t.available = s.available) (hissued : t.issued = s.issued)
      (hreturned : t.returned = s.returned) (hheld : ∀ w, t.held w = s.held w) : Moves s t

variable {s t : State σ}

variable {permit : Permit σ} {i : ℕ} {slot : Slot σ}

theorem Moves.giveBack {s' : State σ} (ha : s'.available = s.available)
    (his : s'.issued = s.issued) (hre : s'.returned = s.returned)
    (hh : ∀ w, s'.held w + w permit = s.held w) : s.Moves (s'.giveBack permit) := by
  refine .gives permit ?_ his ?_ hh
  · rw [State.giveBack, ha]
  · rw [State.giveBack, hre]

theorem slots_giveBackHeld (s : State σ) (held : Option (Permit σ)) :
    (s.giveBackHeld held).slots = s.slots := by
  cases held <;> rfl

theorem Moves.giveBackHeld {slot' : Slot σ} (hi : s.slots[i]? = some slot)
    (hsl : slot'.held = none) :
    s.Moves ({ s with slots := s.slots.set i slot' }.giveBackHeld slot.held) := by
  have hse := fun w => total_set (Slot.weight w) (b := slot') hi
  cases hold : slot.held with
  | none =>
    refine .keeps rfl rfl rfl fun w => ?_
    have := hse w
    simp only [Slot.weight, hold, hsl, elim_none] at this
    simp only [State.giveBackHeld, State.held]
    omega
  | some old =>
    refine Moves.giveBack rfl rfl rfl fun w => ?_
    have := hse w
    simp only [Slot.weight, hold, hsl, elim_none, elim_some] at this
    simp only [State.held]
    omega

theorem Moves.setSlot {slot' : Slot σ} (hi : s.slots[i]? = some slot)
    (hh : slot'.held = slot.held) : s.Moves { s with slots := s.slots.set i slot' } := by
  refine .keeps rfl rfl rfl fun w => ?_
  have := total_set (Slot.weight w) (b := slot') hi
  simp only [Slot.weight, hh] at this
  simp only [State.held]
  omega

theorem held_erase (h : permit ∈ s.hands) (w : Permit σ → ℕ) :
    ({ s with hands := s.hands.erase permit } : State σ).held w + w permit = s.held w := by
  have := total_erase w h
  simp only [State.held]
  omega

theorem Moves.trade (hi : s.slots[i]? = some slot) (h : permit ∈ s.hands) :
    s.Moves (State.trade { s with hands := s.hands.erase permit } i slot permit) := by
  have her := held_erase h
  rw [State.trade]
  split
  next old hold =>
    refine Moves.giveBack rfl rfl rfl fun w => ?_
    have hse := total_set (Slot.weight w) (b := { slot with held := some permit }) hi
    have := her w
    simp only [Slot.weight, hold, elim_some] at hse
    simp only [State.held] at this ⊢
    omega
  · exact Moves.giveBack rfl rfl rfl her

omit [DecidableEq σ] in
theorem withClone_eq_some {f : Slot σ → Option (State σ)} :
    s.withClone i f = some t ↔ ∃ slot, s.slots[i]? = some slot ∧ 0 < slot.clones ∧
      f slot = some t := by
  simp only [State.withClone, bind_eq_some_iff, ite_none_right_eq_some]

/-- How a slot changes: an empty one stays empty, and the end of a task empties it. -/
structure SlotOn (slot slot' : Slot σ) : Prop where
  empty : slot.held = none → slot'.held = none
  ended : slot'.ended = true → slot.ended = true ∨ slot'.held = none

/-- **What a step does**: it moves permits, and of the slots it changes none, or one, or there is a
new one. -/
structure On (s t : State σ) : Prop where
  moves : s.Moves t
  slots : t.slots = s.slots ∨
    (∃ i slot slot', s.slots[i]? = some slot ∧ t.slots = s.slots.set i slot' ∧ SlotOn slot slot') ∨
    ∃ permit, t.slots = s.slots ++ [⟨some permit, 1, 0, false⟩]

theorem on_trade (hi : s.slots[i]? = some slot) (h : permit ∈ s.hands) :
    s.On (State.trade { s with hands := s.hands.erase permit } i slot permit) := by
  refine ⟨.trade hi h, ?_⟩
  rw [State.trade]
  split
  next old hold =>
    refine .inr (.inl ⟨i, slot, _, hi, rfl, fun hn => ?_, .inl⟩)
    cases hold.symm.trans hn
  · exact .inl rfl

theorem on_dropClone (hi : s.slots[i]? = some slot) : s.On (s.dropClone i slot) := by
  rw [State.dropClone]
  split
  · exact ⟨.giveBackHeld hi rfl,
      .inr (.inl ⟨i, slot, _, hi, slots_giveBackHeld .., fun _ => rfl, .inl⟩)⟩
  · exact ⟨.setSlot hi rfl, .inr (.inl ⟨i, slot, _, hi, rfl, id, .inl⟩)⟩

theorem on_of_step {a : Act σ} (h : s.step a = some t) : s.On t := by
  cases a with
  | acquire sem =>
    obtain ⟨hf, h⟩ := ite_none_right_eq_some.1 h
    cases h
    refine ⟨.takes sem hf rfl rfl rfl fun w => ?_, .inl rfl⟩
    simp only [State.held, total_concat]
    omega
  | drop permit =>
    obtain ⟨hm, h⟩ := ite_none_right_eq_some.1 h
    cases h
    exact ⟨Moves.giveBack rfl rfl rfl (held_erase hm), .inl rfl⟩
  | newSlot permit =>
    obtain ⟨hm, h⟩ := ite_none_right_eq_some.1 h
    cases h
    refine ⟨.keeps rfl rfl rfl fun w => ?_, .inr (.inr ⟨permit, rfl⟩)⟩
    have := held_erase hm w
    simp only [State.newSlot, State.held, total_concat, Slot.weight, elim_some] at this ⊢
    omega
  | clone i | newTask i =>
    obtain ⟨slot, hi, -, h⟩ := withClone_eq_some.1 h
    cases h
    exact ⟨.setSlot hi rfl, .inr (.inl ⟨i, slot, _, hi, rfl, id, .inl⟩)⟩
  | dropClone i =>
    obtain ⟨slot, hi, -, h⟩ := withClone_eq_some.1 h
    cases h
    exact on_dropClone hi
  | dropTask i =>
    obtain ⟨slot, hi, h⟩ := bind_eq_some_iff.1 h
    obtain ⟨-, h⟩ := ite_none_right_eq_some.1 h
    cases h
    exact ⟨.giveBackHeld hi rfl,
      .inr (.inl ⟨i, slot, _, hi, slots_giveBackHeld .., fun _ => rfl, fun _ => .inr rfl⟩)⟩
  | trade i permit =>
    obtain ⟨slot, hi, -, h⟩ := withClone_eq_some.1 h
    obtain ⟨hm, h⟩ := ite_none_right_eq_some.1 h
    cases h
    exact on_trade hi hm

end State

/-! ## Permits are conserved -/

/-- What was taken is held or was returned, and what is not out is available. -/
structure State.Balanced (capacity : σ → ℕ) (s : State σ) : Prop where
  held : ∀ w : Permit σ → ℕ, s.held w + total w s.returned = total w s.issued
  available : ∀ semaphore,
    s.available semaphore + total (fun p => if p.semaphore = semaphore then 1 else 0) s.issued =
      capacity semaphore + total (fun p => if p.semaphore = semaphore then 1 else 0) s.returned
  ids : ∀ (i : ℕ) (p : Permit σ), s.issued[i]? = some p → p.id = i

variable {capacity : σ → ℕ} {s : State σ}

theorem State.Balanced.moves {t : State σ} (hs : s.Balanced capacity) (h : s.Moves t) :
    t.Balanced capacity := by
  cases h with
  | takes semaphore hf ha his hre hh =>
    refine ⟨fun w => ?_, fun semaphore' => ?_, fun i p hi => ?_⟩
    · have := hs.held w
      rw [hh, his, hre, total_concat]
      omega
    · have := hs.available semaphore'
      rw [ha, his, hre, total_concat]
      by_cases heq : semaphore' = semaphore
      · subst heq
        rw [update_self]
        simp only [if_true]
        omega
      · rw [update_of_ne heq]
        simp only [Ne.symm heq, if_false]
        omega
    · rw [his] at hi
      rcases getElem?_concat_eq_some hi with hi | ⟨rfl, rfl⟩
      · exact hs.ids i p hi
      · rfl
  | gives permit ha his hre hh =>
    refine ⟨fun w => ?_, fun semaphore => ?_, fun i p hi => hs.ids i p (his ▸ hi)⟩
    · have := hs.held w
      have := hh w
      rw [his, hre, total_concat]
      omega
    · have := hs.available semaphore
      rw [ha, his, hre, total_concat]
      by_cases heq : semaphore = permit.semaphore
      · subst heq
        rw [update_self]
        simp only [if_true]
        omega
      · rw [update_of_ne heq]
        simp only [Ne.symm heq, if_false]
        omega
  | keeps ha his hre hh =>
    refine ⟨fun w => ?_, fun semaphore => ?_, fun i p hi => hs.ids i p (his ▸ hi)⟩
    · rw [hh, his, hre, hs.held]
    · rw [ha, his, hre, hs.available]

theorem State.Balanced.nodup_issued (hs : s.Balanced capacity) : s.issued.Nodup := by
  refine pairwise_iff_getElem.2 fun i j hi hj hij heq => ?_
  have hid := hs.ids i _ (getElem?_eq_getElem hi)
  rw [heq, hs.ids j _ (getElem?_eq_getElem hj)] at hid
  omega

theorem balanced_of_reach (hs : (machine capacity).Reachable s) : s.Balanced capacity := by
  refine hs.invariant (I := State.Balanced capacity) ⟨fun _ => rfl, fun _ => rfl, fun i p hi => ?_⟩
    fun s a t _ hi _ h => hi.moves (State.on_of_step h).moves
  cases hi

def State.Empty (i : ℕ) (s : State σ) : Prop :=
  ∃ slot, s.slots[i]? = some slot ∧ slot.held = none

theorem State.Empty.step {i : ℕ} {s t : State σ} {a : Act σ} (hs : s.Empty i)
    (h : s.step a = some t) : t.Empty i := by
  obtain ⟨slot, hi, hem⟩ := hs
  rcases (State.on_of_step h).slots with heq | ⟨j, old, new, hj, heq, ho⟩ | ⟨permit, heq⟩
  · exact ⟨slot, by rw [heq, hi], hem⟩
  · rw [State.Empty, heq]
    exact exists_getElem?_set hj hi ho.empty hem
  · rw [State.Empty, heq]
    exact ⟨slot, getElem?_concat_of_some hi, hem⟩

theorem held_of_ended (hs : (machine capacity).Reachable s) :
    ∀ slot ∈ s.slots, slot.ended = true → slot.held = none := by
  refine hs.invariant (I := fun s : State σ => ∀ slot ∈ s.slots, slot.ended = true →
    slot.held = none) (fun _ hm => by cases hm) fun s a t _ hi _ h => ?_
  rcases (State.on_of_step h).slots with heq | ⟨j, old, new, hj, heq, ho⟩ | ⟨permit, heq⟩
  · rw [heq]
    exact hi
  · rw [heq]
    refine forall_mem_set hi fun hen => ?_
    rcases ho.ended hen with hen | hn
    · exact ho.empty (hi old (mem_of_getElem? hj) hen)
    · exact hn
  · intro slot hm hen
    rw [heq] at hm
    rcases mem_append.1 hm with hm | hm
    · exact hi slot hm hen
    · obtain rfl := mem_singleton.1 hm
      cases hen

def State.holders (s : State σ) : List (Permit σ) := s.hands ++ s.slots.filterMap Slot.held

omit [DecidableEq σ] in
theorem State.total_holders (w : Permit σ → ℕ) (s : State σ) : total w s.holders = s.held w := by
  have hsl : ∀ slots : List (Slot σ),
      total w (slots.filterMap Slot.held) = total (Slot.weight w) slots := by
    intro slots
    induction slots with
    | nil => rfl
    | cons slot slots ih =>
      rw [filterMap_cons, total_cons, ← ih, Slot.weight]
      cases slot.held with
      | none => rw [elim_none, Nat.zero_add]
      | some permit => rw [elim_some, total_cons]
  rw [State.holders, total_append, hsl, State.held]

/-- **Permits are conserved.**  Whatever handlers, tasks and sockets do, what is available of a
semaphore and what is held of it are its capacity; a permit that was taken is held in one place or
was returned once; and a slot whose `TaskPermit` was dropped is empty from then on. -/
theorem permits_conserved (capacity : σ → ℕ) {s : State σ} (hs : (machine capacity).Reachable s) :
    (∀ semaphore, s.available semaphore + s.holders.countP (·.semaphore = semaphore) =
      capacity semaphore) ∧
    (∀ permit, s.holders.count permit + s.returned.count permit =
      if permit ∈ s.issued then 1 else 0) ∧
    ∀ i slot, s.slots[i]? = some slot → slot.ended = true →
      ∀ as t, (machine capacity).run s as = some t → t.Empty i := by
  have hb := balanced_of_reach hs
  refine ⟨fun semaphore => ?_, fun permit => ?_, fun i slot hi hend as t hrun => ?_⟩
  · have hheld := hb.held fun p => if p.semaphore = semaphore then 1 else 0
    have hav := hb.available semaphore
    rw [← State.total_holders] at hheld
    rw [countP_eq_total]
    simp only [decide_eq_true_eq]
    omega
  · have hheld := hb.held fun p => if p == permit then 1 else 0
    rw [← State.total_holders, ← countP_eq_total, ← countP_eq_total, ← countP_eq_total] at hheld
    exact hheld.trans hb.nodup_issued.count
  · have hempty : s.Empty i := ⟨slot, hi, held_of_ended hs slot (mem_of_getElem? hi) hend⟩
    exact Machine.run_invariant (fun _ _ _ hempty h => hempty.step h) hempty hrun

def endsBefore : List (Act Drain.Kind) :=
  [.acquire .socket, .acquire .worker, .newSlot ⟨.worker, 1⟩, .clone 0, .newTask 0, .dropTask 0]

theorem permits_conserved_late :
    ∃ s t : State Drain.Kind, (machine fun _ => 1).Reachable s ∧
      (machine fun _ => 1).run s [.trade 0 ⟨.socket, 0⟩] = some t ∧ t.Empty 0 ∧
      t.available .worker = 1 ∧ t.available .socket = 1 := by
  obtain ⟨s, hs, hp⟩ := (machine fun _ : Drain.Kind => 1).exists_of_run endsBefore
    (fun s => s.slots[0]?.any (·.ended) &&
      ((machine fun _ => 1).run s [.trade 0 ⟨.socket, 0⟩]).any fun t =>
        t.available .worker == 1 && t.available .socket == 1) (by decide)
  obtain ⟨hend, htrade⟩ := Bool.and_eq_true_iff.mp hp
  obtain ⟨slot, hslot, hend⟩ := (Option.any_eq_true _ _).mp hend
  obtain ⟨t, ht, hav⟩ := (Option.any_eq_true _ _).mp htrade
  obtain ⟨hworker, hsock⟩ := Bool.and_eq_true_iff.mp hav
  exact ⟨s, t, hs, ht, (permits_conserved _ hs).2.2 0 slot hslot hend _ t ht,
    beq_iff_eq.mp hworker, beq_iff_eq.mp hsock⟩

end OpenWorkersRunner.Pool.Permits
