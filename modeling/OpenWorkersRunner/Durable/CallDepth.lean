import OpenWorkersRunner.Lib.Parties
import OpenWorkersRunner.Durable.Exclusion

/-!
# Durable Objects: the depth of calls

Objects can call each other, and themselves, so every call has a depth, and one that is deeper than
`MAX_CALL_DEPTH` is refused.  Nothing tells which event makes a call; so a call of an object goes
one deeper than the deepest of the events the object has, which its `CallDepths` count.  What counts
an event is a guard in the hands of its caller.
-/

namespace OpenWorkersRunner.Durable.CallDepth

open Parties

/-! ## The machine -/

/-- `MAX_CALL_DEPTH`. -/
def maxCallDepth : Nat := 16

/-- `CallDepths::deepest`. -/
def deepest (depths : List Nat) : Nat := depths.max?.getD 0

theorem le_deepest {depths : List Nat} {d : Nat} (h : d ∈ depths) : d ≤ deepest depths := by
  cases hm : depths.max? with
  | none =>
    rw [List.max?_eq_none_iff.1 hm] at h
    cases h
  | some m =>
    rw [deepest, hm]
    exact (List.max?_eq_some_iff.1 hm).2 d h

def nextDepth (depths : List Nat) : Nat := deepest depths + 1

def checkDepth (depth : Nat) : Except String Nat :=
  if depth > maxCallDepth then .error "Too many nested Durable Object calls" else .ok depth

inductive Place
  | made
  | refused
  | queued (i : Nat)
  | taken (i : Nat)
  | answered
deriving DecidableEq

structure Call where
  ns : NamespaceConfig
  id : String
  depth : Nat
  parent : Option Nat
  place : Place
  held : Option Nat
deriving DecidableEq

structure State extends Durable.State Nat where
  calls : List Call
  entering : Option (Nat × Nat)

inductive Act
  | send (depth : Nat) (ns : NamespaceConfig) (id : String)
  | sendFrom (p : Nat) (ns : NamespaceConfig) (id : String)
  | admitEvent (n : Nat)
  | enter
  | registry (a : Durable.Act Nat)
  | answer (n : Nat)
  | dropGuard (n : Nat)

def plain : Durable.Act Nat → Bool
  | .admitEvent .. | .dropGuard _ => false
  | _ => true

def locks : Durable.Act Nat → Bool
  | .loaded .. | .leave _ | .release _ | .retire .. | .stopNamespace _ => true
  | _ => false

def front (s : Durable.State Nat) : Durable.Act Nat → Option (Nat × Nat)
  | .tryRecv i _ | .recv i =>
    (s.tasks i).bind fun t => t.mailbox.queue.head?.map fun n => (i, n)
  | _ => none

def modify (calls : List Call) (n : Nat) (f : Call → Call) : List Call :=
  match calls[n]? with
  | some c => calls.set n (f c)
  | none => calls

namespace State

def make (s : State) (parent : Option Nat) (depth : Nat) (ns : NamespaceConfig) (id : String) :
    State :=
  match checkDepth depth with
  | .ok depth => { s with calls := s.calls ++ [⟨ns, id, depth, parent, .made, none⟩] }
  | .error _ => s

def admitCall (s : State) (n : Nat) (c : Call) : State :=
  match if s.stopped c.ns.id then none else s.toState.deliver ⟨c.ns.id, c.id⟩ n with
  | some (i, t) =>
    { s with
      toState := s.toState.setTask i t
      calls := s.calls.set n { c with place := .queued i }
      entering := some (n, i) }
  | none =>
    match s.toState.admitEvent c.ns c.id c.depth n with
    | .ok (r, guard) =>
      { s with
        toState := r
        calls := s.calls.set n
          { c with place := .queued guard.generation, held := some guard.generation } }
    | .error _ => { s with calls := s.calls.set n { c with place := .refused } }

def step (s : State) : Act → Option State
  | .send depth ns id => some (s.make none depth ns id)
  | .sendFrom p ns id =>
    s.calls[p]?.bind fun c =>
      match c.place with
      | .taken i => (s.tasks i).map fun t => s.make (some p) (nextDepth t.depths) ns id
      | _ => none
  | .admitEvent n =>
    if s.entering = none then
      s.calls[n]?.bind fun c => if c.place = .made then some (s.admitCall n c) else none
    else none
  | .enter =>
    s.entering.bind fun (n, i) =>
      s.calls[n]?.bind fun c =>
        (s.tasks i).map fun t =>
          { toState := s.toState.enter i t c.depth n
            calls := s.calls.set n { c with held := some i }
            entering := none }
  | .registry a =>
    if plain a ∧ (locks a → s.entering = none) then
      (s.toState.step a).map fun r =>
        { s with
          toState := r
          calls :=
            match front s.toState a with
            | some (i, n) => modify s.calls n fun c => { c with place := .taken i }
            | none => s.calls }
    else none
  | .answer n =>
    s.calls[n]?.bind fun c =>
      match c.place with
      | .taken _ => some { s with calls := s.calls.set n { c with place := .answered } }
      | _ => none
  | .dropGuard n =>
    s.calls[n]?.bind fun c =>
      c.held.bind fun i =>
        (s.toState.dropGuard ⟨i, c.depth⟩).map fun r =>
          { s with toState := r, calls := s.calls.set n { c with held := none } }

end State

def machine : Machine State Act := ⟨⟨Durable.State.empty, [], none⟩, State.step⟩

/-! ## What a step can do -/

open List Option

inductive State.Step (s : State) : Act → State → Prop
  | sent {c : Call} {depth : Nat} {ns : NamespaceConfig} {id : String} (hplace : c.place = .made)
      (hheld : c.held = none) (hparent : c.parent = none) (hdepth : c.depth ≤ maxCallDepth) :
      State.Step s (.send depth ns id) { s with calls := s.calls ++ [c] }
  | sentFrom {c b : Call} {p i : Nat} {t : Task Nat} {ns : NamespaceConfig} {id : String}
      (hp : s.calls[p]? = some b) (hb : b.place = .taken i) (ht : s.tasks i = some t)
      (hplace : c.place = .made) (hheld : c.held = none) (hparent : c.parent = some p)
      (hnext : c.depth = nextDepth t.depths) (hdepth : c.depth ≤ maxCallDepth) :
      State.Step s (.sendFrom p ns id) { s with calls := s.calls ++ [c] }
  | tooDeep (a : Act) : State.Step s a s
  | refused {n : Nat} {c : Call} (hn : s.calls[n]? = some c) (hplace : c.place = .made) :
      State.Step s (.admitEvent n) { s with calls := s.calls.set n { c with place := .refused } }
  | pushed {n i : Nat} {c : Call} {t : Task Nat} (hn : s.calls[n]? = some c)
      (hplace : c.place = .made) (hentering : s.entering = none) (ht : s.tasks i = some t) :
      State.Step s (.admitEvent n)
        { s with
          toState := s.toState.setTask i
            { t with mailbox := { t.mailbox with queue := t.mailbox.queue ++ [n] } }
          calls := s.calls.set n { c with place := .queued i }
          entering := some (n, i) }
  | spawned {n : Nat} {c : Call} {r : Durable.State Nat} {u : Task Nat}
      (hn : s.calls[n]? = some c) (hplace : c.place = .made) (hentering : s.entering = none)
      (htasks : r.tasks = Function.update s.tasks s.generation (some u))
      (hgeneration : r.generation = s.generation + 1) (hqueue : u.mailbox.queue = [n])
      (hdepths : u.depths = [c.depth]) :
      State.Step s (.admitEvent n)
        { s with
          toState := r
          calls := s.calls.set n
            { c with place := .queued s.generation, held := some s.generation } }
  | entered {n i : Nat} {c : Call} {t : Task Nat} (hentering : s.entering = some (n, i))
      (hn : s.calls[n]? = some c) (ht : s.tasks i = some t) :
      State.Step s .enter
        { toState := s.toState.enter i t c.depth n
          calls := s.calls.set n { c with held := some i }
          entering := none }
  | registry {a : Durable.Act Nat} {r : Durable.State Nat} (hplain : plain a = true)
      (h : s.toState.Step a r) (hfront : front s.toState a = none) :
      State.Step s (.registry a) { s with toState := r }
  | took {a : Durable.Act Nat} {r : Durable.State Nat} {n i : Nat} (hplain : plain a = true)
      (h : s.toState.Step a r) (hfront : front s.toState a = some (i, n)) :
      State.Step s (.registry a)
        { s with toState := r, calls := modify s.calls n fun c => { c with place := .taken i } }
  | answered {n i : Nat} {c : Call} (hn : s.calls[n]? = some c) (hplace : c.place = .taken i) :
      State.Step s (.answer n) { s with calls := s.calls.set n { c with place := .answered } }
  | dropped {n i index : Nat} {c : Call} {t : Task Nat} {guards : List DepthGuard}
      (hn : s.calls[n]? = some c) (hheld : c.held = some i) (ht : s.tasks i = some t)
      (hindex : t.depths.idxOf? c.depth = some index) :
      State.Step s (.dropGuard n)
        { s with
          toState := { s.toState.setTask i
            { t with depths := (t.depths.set index (t.depths.getLastD 0)).dropLast } with
              guards := guards }
          calls := s.calls.set n { c with held := none } }

namespace State

theorem step_make (s : State) (parent : Option Nat) (depth : Nat) (ns : NamespaceConfig)
    (id : String) : s.make parent depth ns id = s ∨
      ∃ c : Call, s.make parent depth ns id = { s with calls := s.calls ++ [c] } ∧
        c.place = .made ∧ c.held = none ∧ c.parent = parent ∧ c.depth = depth ∧
        depth ≤ maxCallDepth := by
  unfold make checkDepth
  by_cases h : depth > maxCallDepth
  · rw [if_pos h]
    exact .inl rfl
  · rw [if_neg h]
    exact .inr ⟨_, rfl, rfl, rfl, rfl, rfl, Nat.le_of_not_gt h⟩

theorem step_admitCall {s : State} {n : Nat} {c : Call} (hn : s.calls[n]? = some c)
    (hp : c.place = .made) (hen : s.entering = none) :
    s.Step (.admitEvent n) (s.admitCall n c) := by
  unfold admitCall
  split
  next i t heq =>
    obtain ⟨-, heq⟩ := ite_none_left_eq_some.1 heq
    obtain ⟨entry, u, -, hu, -, rfl, rfl⟩ := Durable.State.deliver_eq_some heq
    exact .pushed hn hp hen hu
  next hno =>
    split
    next r guard hok =>
      unfold Durable.State.admitEvent at hok
      dsimp only at hok
      by_cases hst : s.stopped c.ns.id = true
      · rw [if_pos hst] at hok
        cases hok
      rw [if_neg hst] at hok hno
      rw [hno] at hok
      dsimp only at hok
      split at hok
      · cases hok
      · cases hok
        exact .spawned hn hp hen rfl rfl rfl rfl
    · exact .refused hn hp

theorem step_of_eq {s t : State} {a : Act} (h : s.step a = some t) : s.Step a t := by
  cases a with
  | send depth ns id =>
    cases h
    rcases step_make s none depth ns id with heq | ⟨c, heq, hp, hh, hpa, rfl, hle⟩
    · rw [heq]
      exact .tooDeep _
    · rw [heq]
      exact .sent hp hh hpa hle
  | sendFrom p ns id =>
    obtain ⟨b, hb, h⟩ := bind_eq_some_iff.1 h
    split at h
    next i hp =>
      obtain ⟨u, hu, rfl⟩ := map_eq_some_iff.1 h
      rcases step_make s (some p) (nextDepth u.depths) ns id with
        heq | ⟨c, heq, hm, hh, hpa, hnext, hle⟩
      · rw [heq]
        exact .tooDeep _
      · rw [heq]
        exact .sentFrom hb hp hu hm hh hpa hnext (hnext ▸ hle)
    · cases h
  | admitEvent n =>
    obtain ⟨hen, h⟩ := ite_none_right_eq_some.1 h
    obtain ⟨c, hn, h⟩ := bind_eq_some_iff.1 h
    obtain ⟨hp, h⟩ := ite_none_right_eq_some.1 h
    cases h
    exact step_admitCall hn hp hen
  | enter =>
    obtain ⟨⟨n, i⟩, hen, h⟩ := bind_eq_some_iff.1 h
    obtain ⟨c, hn, h⟩ := bind_eq_some_iff.1 h
    obtain ⟨u, hu, rfl⟩ := map_eq_some_iff.1 h
    exact .entered hen hn hu
  | registry a =>
    obtain ⟨⟨hpl, -⟩, h⟩ := ite_none_right_eq_some.1 h
    obtain ⟨r, hr, rfl⟩ := map_eq_some_iff.1 h
    have hst := Durable.State.step_of_eq hr
    cases hf : front s.toState a with
    | none => exact .registry hpl hst hf
    | some x => exact .took hpl hst hf
  | answer n =>
    obtain ⟨c, hn, h⟩ := bind_eq_some_iff.1 h
    split at h
    next i hp =>
      cases h
      exact .answered hn hp
    · cases h
  | dropGuard n =>
    obtain ⟨c, hn, h⟩ := bind_eq_some_iff.1 h
    obtain ⟨i, hh, h⟩ := bind_eq_some_iff.1 h
    obtain ⟨r, hr, rfl⟩ := map_eq_some_iff.1 h
    obtain ⟨-, hr⟩ := ite_none_right_eq_some.1 hr
    obtain ⟨u, hu, hr⟩ := bind_eq_some_iff.1 hr
    obtain ⟨idx, hin, rfl⟩ := map_eq_some_iff.1 hr
    exact .dropped hn hh hu hin

end State

variable {a : Durable.Act Nat} {s' : Durable.State Nat} {i n : Nat} {s : State}

/-- What a step of the registry takes: nothing, or the front of a mailbox.  It leaves the depths
alone. -/
theorem taking {s : Durable.State Nat} (hs : s.Step a s') (hpl : plain a = true) :
    s'.generation = s.generation ∧
    ((s'.tasks = s.tasks ∧ front s a = none) ∨
      ∃ i t t', s.tasks i = some t ∧ s'.tasks = Function.update s.tasks i (some t') ∧
        t'.depths = t.depths ∧ (t.phase.isOver = true → t'.phase.isOver = true) ∧
        ((front s a = none ∧ t'.mailbox.queue = t.mailbox.queue) ∨
          ∃ n, front s a = some (i, n) ∧ t.mailbox.queue = n :: t'.mailbox.queue ∧
            t.phase.isOver = false)) := by
  have on {t t' : Task Nat} {p : Phase} (hp : t.phase = p) (ho : p.isOver = false) :
      t.phase.isOver = true → t'.phase.isOver = true := fun h => by
    rw [hp, ho] at h
    cases h
  cases hs with
  | refused | pushed | spawned | dropGuard => cases hpl
  | retire | stopNamespace => exact ⟨rfl, .inl ⟨rfl, rfl⟩⟩
  | tookFirst built ht hp hq =>
    exact ⟨rfl, .inr ⟨_, _, _, ht, rfl, rfl, on hp rfl, .inr ⟨_, by simp [front, ht, hq], hq,
      hp ▸ rfl⟩⟩⟩
  | received ht hp hq =>
    exact ⟨rfl, .inr ⟨_, _, _, ht, rfl, rfl, on hp rfl, .inr ⟨_, by simp [front, ht, hq], hq,
      hp ▸ rfl⟩⟩⟩
  | tookNone _ ht hp hq | receivedNone ht hp hq =>
    exact ⟨rfl, .inr ⟨_, _, _, ht, rfl, rfl, on hp rfl, .inl ⟨by simp [front, ht, hq], rfl⟩⟩⟩
  | start ht hp | loaded _ ht hp | notLoaded ht hp | objectEnds ht hp | stayed ht hp | left ht hp =>
    exact ⟨rfl, .inr ⟨_, _, _, ht, rfl, rfl, on hp rfl, .inl ⟨rfl, rfl⟩⟩⟩
  | die ht hp =>
    exact ⟨rfl, .inr ⟨_, _, _, ht, rfl, rfl, on rfl (Phase.isOver_of_serves hp), .inl ⟨rfl, rfl⟩⟩⟩
  | release ht hp | finish ht hp =>
    exact ⟨rfl, .inr ⟨_, _, _, ht, rfl, rfl, fun _ => rfl, .inl ⟨rfl, rfl⟩⟩⟩

theorem task_before {s : Durable.State Nat} (hs : s.Step a s') (hp : plain a = true)
    {t' : Task Nat} (ht' : s'.tasks i = some t') :
    ∃ t, s.tasks i = some t ∧ t'.depths = t.depths ∧
      (t.phase.isOver = true → t'.phase.isOver = true) := by
  obtain ⟨-, ⟨heq, -⟩ | ⟨j, u, u', hu, heq, hd, ho, -⟩⟩ := taking hs hp
  · exact ⟨t', heq ▸ ht', rfl, id⟩
  · rw [heq] at ht'
    rcases update_some_eq_some ht' with ⟨rfl, rfl⟩ | ⟨-, ht⟩
    · exact ⟨u, hu, hd, ho⟩
    · exact ⟨t', ht, rfl, id⟩

theorem taking_front {s : Durable.State Nat} (hs : s.Step a s') (hp : plain a = true)
    (hf : front s a = some (i, n)) :
    ∃ t t', s.tasks i = some t ∧ s'.tasks = Function.update s.tasks i (some t') ∧
      t.mailbox.queue = n :: t'.mailbox.queue ∧ t.phase.isOver = false := by
  obtain ⟨-, ⟨-, hn⟩ | ⟨j, u, u', hu, heq, -, -, hq⟩⟩ := taking hs hp
  · rw [hf] at hn
    cases hn
  · rcases hq with ⟨hn, -⟩ | ⟨m, hso, hco, hl⟩
    · rw [hf] at hn
      cases hn
    · obtain ⟨rfl, rfl⟩ : i = j ∧ n = m := by simpa using hf.symm.trans hso
      exact ⟨u, u', hu, heq, hco, hl⟩

/-! ## Who has an event -/

def Call.isAt (c : Call) (i : Nat) : Prop :=
  c.place = .queued i ∨ c.place = .taken i ∨ c.held = some i

structure Queued (s : State) : Prop where
  lt : ∀ i t, s.tasks i = some t → i < s.generation
  known : ∀ (n : Nat) (c : Call) (i : Nat), s.calls[n]? = some c → c.isAt i → i < s.generation
  nodup : ∀ i t, s.tasks i = some t → t.mailbox.queue.Nodup
  place : ∀ i t, s.tasks i = some t → ∀ n ∈ t.mailbox.queue,
    ∃ c : Call, s.calls[n]? = some c ∧ c.place = .queued i
  made : ∀ (n : Nat) (c : Call), s.calls[n]? = some c → c.place = .made → c.held = none
  entering : ∀ n i, s.entering = some (n, i) → ∃ c : Call, s.calls[n]? = some c ∧
    c.held = none ∧ c.place ≠ .made ∧ ∀ j, c.place = .queued j ∨ c.place = .taken j → j = i

namespace Queued

variable {s : State}

variable {c : Call} {i n : Nat} {r : Durable.State Nat} {u : Task Nat}

theorem concat (hs : Queued s) (hp : c.place = .made) (hh : c.held = none) :
    Queued { s with calls := s.calls ++ [c] } := by
  have hl : ∀ (n : Nat) (b : Call), s.calls[n]? = some b → (s.calls ++ [c])[n]? = some b :=
    fun n b hn => getElem?_concat_of_some hn
  refine ⟨hs.lt, fun n b i hn ha => ?_, hs.nodup, fun i t ht n hn => ?_, fun n b hn hb => ?_,
    fun n i h => ?_⟩
  · rcases getElem?_concat_eq_some hn with hn | ⟨-, rfl⟩
    · exact hs.known n b i hn ha
    · simp [Call.isAt, hp, hh] at ha
  · obtain ⟨b, hb, hq⟩ := hs.place i t ht n hn
    exact ⟨b, hl n b hb, hq⟩
  · rcases getElem?_concat_eq_some hn with hn | ⟨-, rfl⟩
    · exact hs.made n b hn hb
    · exact hh
  · obtain ⟨b, hb, h⟩ := hs.entering n i h
    exact ⟨b, hl n b hb, h⟩

theorem kept (hs : Queued s) (hn : s.calls[n]? = some c) (c' : Call)
    (hp : ∀ i, c.place = .queued i → c'.place = .queued i) {t : Task Nat}
    (ht : s.tasks i = some t) :
    i < s.generation ∧ t.mailbox.queue.Nodup ∧
      ∀ m ∈ t.mailbox.queue, ∃ b, (s.calls.set n c')[m]? = some b ∧ b.place = .queued i := by
  refine ⟨hs.lt i t ht, hs.nodup i t ht, fun m hm => ?_⟩
  obtain ⟨b, hb, hbp⟩ := hs.place i t ht m hm
  exact exists_getElem?_set hn hb (hp i) hbp

theorem notMem_of_made (hs : Queued s) (hn : s.calls[n]? = some c) (hp : c.place = .made)
    {t : Task Nat} (ht : s.tasks i = some t) : n ∉ t.mailbox.queue := by
  intro hm
  obtain ⟨b, hb, hq⟩ := hs.place i t ht n hm
  rw [mem_unique hb hn, hp] at hq
  cases hq

theorem set {c' : Call} {entering : Option (Nat × Nat)} (hs : Queued s) (hn : s.calls[n]? = some c)
    (hge : s.generation ≤ r.generation) (ha : ∀ i, c'.isAt i → i < r.generation)
    (hma : c'.place = .made → c'.held = none)
    (hts : ∀ i t, r.tasks i = some t → i < r.generation ∧ t.mailbox.queue.Nodup ∧
      ∀ m ∈ t.mailbox.queue, ∃ b, (s.calls.set n c')[m]? = some b ∧ b.place = .queued i)
    (hen : ∀ m i, entering = some (m, i) → (m = n ∧ c'.held = none ∧ c'.place ≠ .made ∧
      ∀ j, c'.place = .queued j ∨ c'.place = .taken j → j = i) ∨
      (m ≠ n ∧ s.entering = some (m, i))) :
    Queued { toState := r, calls := s.calls.set n c', entering := entering } := by
  have hse : (s.calls.set n c')[n]? = some c' :=
    getElem?_set_of_some hn
  refine ⟨fun i t ht => (hts i t ht).1, fun m b i hm hb => ?_, fun i t ht => (hts i t ht).2.1,
    fun i t ht => (hts i t ht).2.2, fun m b hm hb => ?_, fun m i h => ?_⟩
  · rcases getElem?_set_eq_some hm with ⟨-, rfl⟩ | ⟨-, hm⟩
    · exact ha i hb
    · exact Nat.lt_of_lt_of_le (hs.known m b i hm hb) hge
  · rcases getElem?_set_eq_some hm with ⟨-, rfl⟩ | ⟨-, hm⟩
    · exact hma hb
    · exact hs.made m b hm hb
  · rcases hen m i h with ⟨rfl, hc'⟩ | ⟨hmn, h⟩
    · exact ⟨c', hse, hc'⟩
    · obtain ⟨b, hb, hre⟩ := hs.entering m i h
      exact ⟨b, (getElem?_set_ne (Ne.symm hmn)).trans hb, hre⟩

theorem entering_ne {m : Nat} (hs : Queued s) (hn : s.calls[n]? = some c)
    (h : s.entering = some (m, i)) (hc : c.place = .made ∨ c.held ≠ none) : m ≠ n := by
  rintro rfl
  obtain ⟨b, hb, hh, hp, -⟩ := hs.entering m i h
  obtain rfl := mem_unique hn hb
  exact hc.elim hp (absurd hh)

theorem pushed (hs : Queued s) (hn : s.calls[n]? = some c) (hpl : c.place = .made)
    (hu : s.tasks i = some u) :
    Queued
      { s with
        toState := s.toState.setTask i
          { u with mailbox := { u.mailbox with queue := u.mailbox.queue ++ [n] } }
        calls := s.calls.set n { c with place := .queued i }
        entering := some (n, i) } := by
  have hh : c.held = none := hs.made n c hn hpl
  have hno := hs.notMem_of_made hn hpl hu
  obtain ⟨hlt, hnd, hp⟩ :=
    hs.kept hn { c with place := .queued i } (by simp [hpl]) hu
  refine hs.set hn (Nat.le_refl _) (fun j hat => ?_) nofun ?_ fun m j h => ?_
  · have hj : i = j := by simpa [Call.isAt, hh] using hat
    exact hj ▸ hlt
  · refine forall_update_some (fun j v _ hv => hs.kept hn _ (by simp [hpl]) hv)
      ⟨hlt, ?_, fun m hm => ?_⟩
    · exact nodup_append.2 ⟨hnd, nodup_singleton n,
        fun a ha b hb hab => hno (mem_singleton.1 hb ▸ hab ▸ ha)⟩
    · rcases mem_append.1 hm with hm | hm
      · exact hp m hm
      · obtain rfl := mem_singleton.1 hm
        exact ⟨_, getElem?_set_of_some hn, rfl⟩
  · cases h
    refine .inl ⟨rfl, hh, nofun, fun j hj => ?_⟩
    simpa [eq_comm] using hj

theorem spawned (hs : Queued s) (hn : s.calls[n]? = some c) (hp : c.place = .made)
    (hen : s.entering = none)
    (ht : r.tasks = Function.update s.tasks s.generation (some u))
    (hge : r.generation = s.generation + 1) (hq : u.mailbox.queue = [n]) :
    Queued
      { s with
        toState := r
        calls := s.calls.set n
          { c with place := .queued s.generation, held := some s.generation } } := by
  refine hs.set hn (by omega) (fun j ha => ?_) nofun ?_ fun m j h => ?_
  · have hj : s.generation = j := by simpa [Call.isAt] using ha
    omega
  · rw [ht]
    refine forall_update_some (fun j v _ hv => ?_) ?_
    · obtain ⟨hlt, hre⟩ := hs.kept hn
        { c with place := .queued s.generation, held := some s.generation } (by simp [hp]) hv
      exact ⟨by omega, hre⟩
    · rw [hq]
      refine ⟨by omega, nodup_singleton n, fun m hm => ?_⟩
      obtain rfl := mem_singleton.1 hm
      exact ⟨_, getElem?_set_of_some hn, rfl⟩
  · rw [hen] at h
    cases h

theorem setHeld {u' : Task Nat} {held : Option Nat} {entering : Option (Nat × Nat)} (hs : Queued s)
    (hn : s.calls[n]? = some c) (hu : s.tasks i = some u)
    (ht : r.tasks = Function.update s.tasks i (some u')) (hq : u'.mailbox = u.mailbox)
    (hge : r.generation = s.generation) (hh : ∀ j, held = some j → j = i)
    (hm : c.place = .made → held = none)
    (hen : ∀ m j, entering = some (m, j) → m ≠ n ∧ s.entering = some (m, j)) :
    Queued { toState := r, calls := s.calls.set n { c with held := held }, entering := entering } :=
  by
  refine hs.set hn (Nat.le_of_eq hge.symm) (fun j ha => ?_) hm ?_
    fun m j h => .inr (hen m j h)
  · rw [hge]
    rcases ha with ha | ha | ha
    · exact hs.known n c j hn (.inl ha)
    · exact hs.known n c j hn (.inr (.inl ha))
    · exact hh j ha ▸ hs.lt i u hu
  · rw [ht, hge]
    refine forall_update_some
      (fun j v _ hv => hs.kept hn { c with held := held } (fun _ h => h) hv) ?_
    rw [hq]
    exact hs.kept hn { c with held := held } (fun _ h => h) hu

theorem registry {a : Durable.Act Nat} (hs : Queued s) (hp : plain a = true)
    (h : s.toState.Step a r) (hf : front s.toState a = none) :
    Queued { s with toState := r } := by
  obtain ⟨hge, ht⟩ := taking h hp
  have ha : ∀ i u, r.tasks i = some u → i < r.generation ∧ u.mailbox.queue.Nodup ∧
      ∀ m ∈ u.mailbox.queue, ∃ b : Call, s.calls[m]? = some b ∧ b.place = .queued i := by
    rw [hge]
    rcases ht with ⟨heq, -⟩ | ⟨i, u, u', hu, heq, -, -, hq⟩
    · rw [heq]
      exact fun i u hu => ⟨hs.lt i u hu, hs.nodup i u hu, hs.place i u hu⟩
    · rw [heq]
      refine forall_update_some
        (fun j v _ hv => ⟨hs.lt j v hv, hs.nodup j v hv, hs.place j v hv⟩) ?_
      rcases hq with ⟨-, hq⟩ | ⟨n, hso, -⟩
      · rw [hq]
        exact ⟨hs.lt i u hu, hs.nodup i u hu, hs.place i u hu⟩
      · rw [hf] at hso
        cases hso
  exact ⟨fun i u hu => (ha i u hu).1, fun n c i hn hat => hge ▸ hs.known n c i hn hat,
    fun i u hu => (ha i u hu).2.1, fun i u hu => (ha i u hu).2.2, hs.made, hs.entering⟩

theorem took {a : Durable.Act Nat} (hs : Queued s) (hpl : plain a = true)
    (h : s.toState.Step a r) (hf : front s.toState a = some (i, n)) :
    Queued
      { s with toState := r, calls := modify s.calls n fun c => { c with place := .taken i } } := by
  obtain ⟨u, u', hu, heq, hco, -⟩ := taking_front h hpl hf
  have hge := (taking h hpl).1
  obtain ⟨c, hn, hp⟩ := hs.place i u hu n (hco ▸ mem_cons_self)
  have hnd := hs.nodup i u hu
  rw [hco, nodup_cons] at hnd
  have ho : ∀ k v, s.tasks k = some v → ∀ m ∈ v.mailbox.queue, m ≠ n →
      ∃ b, (s.calls.set n { c with place := .taken i })[m]? = some b ∧ b.place = .queued k := by
    intro k v hv m hm hmn
    obtain ⟨b, hb, hq⟩ := hs.place k v hv m hm
    exact ⟨b, (getElem?_set_ne (Ne.symm hmn)).trans hb, hq⟩
  rw [modify, hn]
  refine hs.set hn (Nat.le_of_eq hge.symm) (fun k ha => ?_) nofun ?_ fun m k h => ?_
  · rw [hge]
    rcases ha with ha | ha | ha
    · cases ha
    · cases ha
      exact hs.lt i u hu
    · exact hs.known n c k hn (.inr (.inr ha))
  · rw [hge, heq]
    refine forall_update_some (fun k v hk hv => ⟨hs.lt k v hv, hs.nodup k v hv, fun m hm => ?_⟩)
      ⟨hs.lt i u hu, hnd.2, fun m hm => ?_⟩
    · refine ho k v hv m hm ?_
      rintro rfl
      obtain ⟨b, hb, hq⟩ := hs.place k v hv m hm
      rw [mem_unique hb hn, hp] at hq
      cases hq
      exact hk rfl
    · refine ho i u hu m (hco ▸ mem_cons_of_mem _ hm) ?_
      rintro rfl
      exact hnd.1 hm
  · by_cases hmn : m = n
    · subst hmn
      obtain ⟨b, hb, hh, -, ha⟩ := hs.entering m k h
      obtain rfl := mem_unique hn hb
      refine .inl ⟨rfl, hh, nofun, fun l hl => ?_⟩
      rcases hl with hl | hl
      · cases hl
      · cases hl
        exact ha i (.inl hp)
    · exact .inr ⟨hmn, h⟩

theorem goes {place : Place} (hs : Queued s) (hn : s.calls[n]? = some c)
    (hq : ∀ i, c.place ≠ .queued i)
    (hp : place ≠ .made ∧ ∀ i, place ≠ .queued i ∧ place ≠ .taken i) :
    Queued { s with calls := s.calls.set n { c with place := place } } := by
  refine hs.set hn (Nat.le_refl _) (fun j ha => ?_) (fun h => absurd h hp.1)
    (fun j u hu => hs.kept hn _ (fun i h => absurd h (hq i)) hu) fun m j h => ?_
  · rcases ha with ha | ha | ha
    · exact absurd ha (hp.2 j).1
    · exact absurd ha (hp.2 j).2
    · exact hs.known n c j hn (.inr (.inr ha))
  · by_cases hm : m = n
    · subst hm
      obtain ⟨b, hb, hh, -⟩ := hs.entering m j h
      obtain rfl := mem_unique hn hb
      exact .inl ⟨rfl, hh, hp.1, fun k hk =>
        hk.elim (absurd · (hp.2 k).1) (absurd · (hp.2 k).2)⟩
    · exact .inr ⟨hm, h⟩

/-- **What a step keeps.** -/
theorem step {t : State} {a : Act} (hs : Queued s) (h : s.Step a t) : Queued t := by
  cases h with
  | sent hp hh => exact hs.concat hp hh
  | sentFrom _ _ _ hp hh => exact hs.concat hp hh
  | tooDeep => exact hs
  | refused hn hp => exact hs.goes hn (by simp [hp]) (by simp)
  | answered hn hp => exact hs.goes hn (by simp [hp]) (by simp)
  | pushed hn hp hen hu => exact hs.pushed hn hp hu
  | spawned hn hp hen ht hge hq hd =>
    exact hs.spawned hn hp hen ht hge hq
  | @entered n i c u hen hn hu =>
    obtain ⟨b, hb, -, hne, -⟩ := hs.entering n i hen
    obtain rfl := mem_unique hn hb
    exact hs.setHeld hn hu rfl rfl rfl (by simp [eq_comm]) (absurd · hne) nofun
  | registry hpl h hf => exact hs.registry hpl h hf
  | took hpl h hf => exact hs.took hpl h hf
  | dropped hn hh hu hin =>
    refine hs.setHeld hn hu rfl rfl rfl nofun (fun _ => rfl) fun m j h => ⟨?_, h⟩
    exact hs.entering_ne hn h (.inr (by simp [hh]))

end Queued

theorem queued_of_reach {ok : State → Act → Prop} (hs : machine.Reach ok s) : Queued s := by
  refine hs.invariant ?_ fun _ _ _ _ hs _ h => hs.step (State.step_of_eq h)
  constructor <;> simp [machine, Durable.State.empty]

/-! ## What the depths count -/

def counts (i d : Nat) (c : Call) : Nat := if c.held = some i ∧ c.depth = d then 1 else 0

theorem count_swapRemove {depths : List Nat} {d idx : Nat}
    (h : depths.idxOf? d = some idx) (e : Nat) :
    ((depths.set idx (depths.getLastD 0)).dropLast).count e + (if d = e then 1 else 0) =
      depths.count e := by
  obtain ⟨hlt, hd, -⟩ := findIdx?_eq_some_iff_getElem.1 h
  have hd' : depths[idx] = d := by simpa using hd
  obtain ⟨init, last, rfl⟩ : ∃ init last, depths = init ++ [last] :=
    ⟨depths.dropLast, depths.getLast (ne_nil_of_length_pos (by omega)),
      (dropLast_append_getLast _).symm⟩
  rw [getLastD_concat, count_append]
  by_cases hind : idx < init.length
  · have hin : init[idx] = d := by rwa [getElem_append_left hind] at hd'
    rw [set_append_left _ _ hind, dropLast_concat, count_set hind, hin]
    have hp : (if d = e then 1 else 0) ≤ init.count e := by
      split
      next heq =>
        exact count_pos_iff.2 (heq ▸ hin ▸ getElem_mem hind)
      · exact Nat.zero_le _
    simp only [beq_iff_eq, count_singleton]
    omega
  · have heq : idx = init.length := by
      rw [length_append, length_singleton] at hlt
      omega
    subst heq
    have hl : last = d := by simpa using hd'
    subst hl
    simp [count_singleton]

def Tallied (s : State) : Prop :=
  ∀ i t d, s.tasks i = some t → t.depths.count d = total (counts i d) s.calls

namespace Tallied

variable {s : State}

theorem same {t : State} (hs : Tallied s)
    (ht : ∀ i u, t.tasks i = some u → ∃ v, s.tasks i = some v ∧ u.depths = v.depths)
    (hcl : ∀ i d, total (counts i d) t.calls = total (counts i d) s.calls) : Tallied t := by
  intro i u d hu
  obtain ⟨v, hv, hd⟩ := ht i u hu
  rw [hd, hcl]
  exact hs i v d hv

variable {c : Call} {n : Nat}

theorem total_set_same (hn : s.calls[n]? = some c) (c' : Call) (hh : c'.held = c.held)
    (hd : c'.depth = c.depth) (i d : Nat) :
    total (counts i d) (s.calls.set n c') = total (counts i d) s.calls := by
  have h := total_set (counts i d) (b := c') hn
  have heq : counts i d c' = counts i d c := by rw [counts, counts, hh, hd]
  omega

theorem total_set_enter {j : Nat} (hn : s.calls[n]? = some c) (hh : c.held = none) (c' : Call)
    (hh' : c'.held = some j) (hd : c'.depth = c.depth) (i d : Nat) :
    total (counts i d) (s.calls.set n c') =
      total (counts i d) s.calls + if j = i ∧ c.depth = d then 1 else 0 := by
  have h := total_set (counts i d) (b := c') hn
  have hz : counts i d c = 0 := by rw [counts, hh, if_neg (by simp)]
  rw [hz, Nat.add_zero] at h
  rw [h, counts, hh', hd]
  simp only [some_inj]

theorem total_set_drop {j : Nat} (hn : s.calls[n]? = some c) (hh : c.held = some j) (i d : Nat) :
    total (counts i d) (s.calls.set n { c with held := none }) +
      (if j = i ∧ c.depth = d then 1 else 0) = total (counts i d) s.calls := by
  have h := total_set (counts i d) (b := { c with held := none }) hn
  have hz : counts i d { c with held := none } = 0 := if_neg (by simp)
  rw [hz, Nat.add_zero, counts, hh] at h
  simpa only [some_inj] using h

theorem step {t : State} {a : Act} (hs : Tallied s) (hqd : Queued s) (h : s.Step a t) :
    Tallied t := by
  have keep : ∀ i u, s.tasks i = some u → ∃ v, s.tasks i = some v ∧ u.depths = v.depths :=
    fun i u hu => ⟨u, hu, rfl⟩
  have plainly : ∀ {a : Durable.Act Nat} {r : Durable.State Nat}, s.toState.Step a r →
      plain a = true →
        ∀ i u, r.tasks i = some u → ∃ v, s.tasks i = some v ∧ u.depths = v.depths := by
    intro a r h hpl i u hu
    obtain ⟨v, hv, hd, -⟩ := task_before h hpl hu
    exact ⟨v, hv, hd⟩
  cases h with
  | sent _ hh | sentFrom _ _ _ _ hh =>
    refine hs.same keep fun i d => ?_
    rw [total_concat, counts, hh, if_neg (by simp)]
    rfl
  | tooDeep => exact hs
  | refused hn | answered hn => exact hs.same keep (total_set_same hn _ rfl rfl)
  | registry hpl h => exact hs.same (plainly h hpl) fun _ _ => rfl
  | @took a r n i hpl h hf =>
    refine hs.same (plainly h hpl) fun j d => ?_
    rw [modify]
    split
    next c hn =>
      exact total_set_same hn { c with place := .taken i } rfl rfl j d
    · rfl
  | @pushed n i c u hn hp hen hu =>
    refine hs.same ?_ (total_set_same hn _ rfl rfl)
    exact forall_update_some (fun j v _ hv => keep j v hv) ⟨u, hu, rfl⟩
  | @spawned n c r u hn hp hen ht hge hq hd =>
    intro i v d hv
    rw [ht] at hv
    refine Eq.trans ?_ (total_set_enter hn (hqd.made n c hn hp) _ (by rfl) (by rfl) i d).symm
    rcases update_some_eq_some hv with ⟨rfl, rfl⟩ | ⟨hne, hv⟩
    · -- nothing is counted in a task that is not there yet
      have hno : total (counts s.generation d) s.calls = 0 := by
        refine sum_eq_zero fun x hx => ?_
        obtain ⟨b, hb, rfl⟩ := mem_map.1 hx
        obtain ⟨m, hm⟩ := mem_iff_getElem?.1 hb
        refine if_neg fun h => ?_
        exact absurd (hqd.known m b _ hm (.inr (.inr h.1))) (Nat.lt_irrefl _)
      simp [hd, count_singleton, hno]
    · rw [hs i v d hv, if_neg fun h => hne h.1.symm, Nat.add_zero]
  | @entered n i c u hen hn hu =>
    obtain ⟨b, hb, hh, -⟩ := hqd.entering n i hen
    obtain rfl := mem_unique hn hb
    intro j v d hv
    refine Eq.trans ?_ (total_set_enter hn hh _ (by rfl) (by rfl) j d).symm
    rcases update_some_eq_some hv with ⟨rfl, rfl⟩ | ⟨hne, hv⟩
    · simp [count_append, count_singleton, hs j u d hu]
    · rw [hs j v d hv, if_neg fun h => hne h.1.symm, Nat.add_zero]
  | @dropped n i idx c u guards hn hh hu hin =>
    intro j v d hv
    have hdr := total_set_drop hn hh j d
    rcases update_some_eq_some hv with ⟨rfl, rfl⟩ | ⟨hne, hv⟩
    · have hre := count_swapRemove hin d
      have := hs j u d hu
      show count d (u.depths.set idx (u.depths.getLastD 0)).dropLast =
        total (counts j d) (s.calls.set n { c with held := none })
      simp only [true_and] at hdr
      omega
    · rw [if_neg fun h => hne h.1.symm, Nat.add_zero] at hdr
      rw [hs j v d hv, hdr]

end Tallied

theorem tallied_of_reach {ok : State → Act → Prop} (hs : machine.Reach ok s) : Tallied s :=
  hs.invariant (by simp [machine, Durable.State.empty, Tallied]) fun _ _ _ hr hs _ h =>
    hs.step (queued_of_reach hr) (State.step_of_eq h)

theorem Tallied.mem_depths {c : Call} {t : Task Nat} (hs : Tallied s) (hn : s.calls[n]? = some c)
    (hh : c.held = some i) (ht : s.tasks i = some t) : c.depth ∈ t.depths := by
  have hle := le_total (counts i c.depth) (mem_of_getElem? hn)
  rw [counts, if_pos ⟨hh, rfl⟩, ← hs i t c.depth ht] at hle
  exact count_pos_iff.1 hle

/-! ## Events that are counted while they are handled -/

/-- An event of some depth is counted before it is taken, and until it is answered or lost in the
mailbox of a task that is over. -/
def Orderly (s : State) : Act → Prop
  | .registry a => ∀ (i n j : Nat) (c : Call), front s.toState a = some (i, n) →
    s.calls[n]? = some c → 0 < c.depth → s.entering ≠ some (n, j)
  | .dropGuard n => ∀ c : Call, s.calls[n]? = some c → 0 < c.depth → c.place = .answered ∨
    ∃ i t, c.place = .queued i ∧ s.tasks i = some t ∧ t.phase.isOver = true
  | _ => True

def Covered (s : State) : Prop :=
  ∀ (n : Nat) (c : Call) (i : Nat) (t : Task Nat), s.calls[n]? = some c → 0 < c.depth →
    s.tasks i = some t →
    (c.place = .taken i ∨
      (c.place = .queued i ∧ t.phase.isOver = false ∧ ∀ j, s.entering ≠ some (n, j))) →
    c.held = some i

namespace Covered

variable {s : State}

theorem live_before {v u : Task Nat} (ho : v.phase.isOver = true → u.phase.isOver = true)
    (hu : u.phase.isOver = false) : v.phase.isOver = false := by
  by_contra hv
  rw [ho (by simpa using hv)] at hu
  cases hu

variable {c : Call} {n : Nat}

theorem set {c' : Call} {r : Durable.State Nat} {entering : Option (Nat × Nat)} (hs : Covered s)
    (hn : s.calls[n]? = some c) (ht : ∀ i u, r.tasks i = some u → (∃ v, s.tasks i = some v ∧
      (v.phase.isOver = true → u.phase.isOver = true)) ∨ ∀ m (b : Call), m ≠ n →
        s.calls[m]? = some b → b.place ≠ .taken i ∧ b.place ≠ .queued i)
    (hen : ∀ m i, m ≠ n → s.entering = some (m, i) → entering = some (m, i))
    (hc' : 0 < c'.depth → ∀ i u, r.tasks i = some u → (c'.place = .taken i ∨
      (c'.place = .queued i ∧ u.phase.isOver = false ∧ ∀ j, entering ≠ some (n, j))) →
      c'.held = some i) :
    Covered { toState := r, calls := s.calls.set n c', entering := entering } := by
  intro m b i u hm hd hu hp
  rcases getElem?_set_eq_some hm with ⟨rfl, rfl⟩ | ⟨hmn, hm⟩
  · exact hc' hd i u hu hp
  · rcases ht i u hu with ⟨v, hv, ho⟩ | hnew
    · exact hs m b i v hm hd hv (hp.imp_right fun h =>
        ⟨h.1, live_before ho h.2.1, fun j hj => h.2.2 j (hen m j hmn hj)⟩)
    · obtain ⟨htk, hq⟩ := hnew m b hmn hm
      exact (hp.elim htk fun h => hq h.1).elim

theorem concat (hs : Covered s) (hp : c.place = .made) :
    Covered { s with calls := s.calls ++ [c] } := by
  intro m b i u hm hd hu ha
  rcases getElem?_concat_eq_some hm with hm | ⟨-, rfl⟩
  · exact hs m b i u hm hd hu ha
  · simp [hp] at ha

theorem goes {place : Place} (hs : Covered s) (hn : s.calls[n]? = some c)
    (hp : ∀ i, place ≠ .queued i ∧ place ≠ .taken i) :
    Covered { s with calls := s.calls.set n { c with place := place } } := by
  refine hs.set hn (fun i u hu => .inl ⟨u, hu, id⟩) (fun _ _ _ h => h) fun _ i u hu h => ?_
  exact (h.elim (hp i).2 fun h => (hp i).1 h.1).elim

theorem took {a : Durable.Act Nat} {r : Durable.State Nat} {i : Nat} (hs : Covered s)
    (hq : Queued s) (hok : Orderly s (.registry a)) (hpl : plain a = true)
    (h : s.toState.Step a r) (hf : front s.toState a = some (i, n)) :
    Covered
      { s with toState := r, calls := modify s.calls n fun c => { c with place := .taken i } } := by
  obtain ⟨u, u', hu, -, hco, hl⟩ := taking_front h hpl hf
  obtain ⟨c, hn, hp⟩ := hq.place i u hu n (hco ▸ mem_cons_self)
  rw [modify, hn]
  refine hs.set hn (fun k v hv => ?_) (fun _ _ _ h => h) fun hd k v hv ha => ?_
  · obtain ⟨w, hw, -, ho⟩ := task_before h hpl hv
    exact .inl ⟨w, hw, ho⟩
  · have hk : i = k := by simpa using ha
    exact hk ▸ hs n c i u hn hd hu (.inr ⟨hp, hl, fun l => hok i n l c hf hn hd⟩)

theorem dropped {i idx : Nat} {u : Task Nat} {guards : List DepthGuard} (hs : Covered s)
    (hok : Orderly s (.dropGuard n)) (hn : s.calls[n]? = some c) (hu : s.tasks i = some u) :
    Covered
      { s with
        toState := { s.toState.setTask i
          { u with depths := (u.depths.set idx (u.depths.getLastD 0)).dropLast } with
            guards := guards }
        calls := s.calls.set n { c with held := none } } := by
  refine hs.set hn ?_ (fun _ _ _ h => h) fun hd j v hv h => ?_
  · exact forall_update_some (fun j v _ hv => .inl ⟨v, hv, id⟩) (.inl ⟨u, hu, id⟩)
  · rcases hok c hn hd with ha | ⟨k, w, hq, hw, ho⟩
    · simp [ha] at h
    · -- the task is over, so nobody takes the event
      simp only [hq, reduceCtorEq, false_or, Place.queued.injEq] at h
      obtain ⟨rfl, hl, -⟩ := h
      have hp : v.phase = w.phase := by
        rcases update_some_eq_some hv with ⟨rfl, rfl⟩ | ⟨-, hv⟩
        · rw [mem_unique hu hw]
        · rw [mem_unique hv hw]
      rw [hp, ho] at hl
      cases hl

/-- **What a step keeps.** -/
theorem step {t : State} {a : Act} (hs : Covered s) (hqd : Queued s) (hok : Orderly s a)
    (h : s.Step a t) : Covered t := by
  cases h with
  | sent hp => exact hs.concat hp
  | sentFrom _ _ _ hp => exact hs.concat hp
  | tooDeep => exact hs
  | refused hn | answered hn => exact hs.goes hn (by simp)
  | @pushed n i c u hn hp hen hu =>
    refine hs.set hn ?_ (fun m j _ h => ?_) fun _ j v _ h => ?_
    · exact forall_update_some (fun j v _ hv => .inl ⟨v, hv, id⟩) (.inl ⟨u, hu, id⟩)
    · rw [hen] at h
      cases h
    · -- it is not counted yet
      rcases h with h | ⟨-, -, h⟩
      · cases h
      · exact absurd rfl (h i)
  | @spawned n c r u hn hp hen ht hge hq hd =>
    refine hs.set hn ?_ (fun m j _ h => h) fun _ j v _ h => ?_
    · rw [ht]
      refine forall_update_some (fun j v _ hv => .inl ⟨v, hv, id⟩) (.inr fun m b _ hm => ?_)
      have hno : ¬ b.isAt s.generation := fun h =>
        absurd (hqd.known m b _ hm h) (Nat.lt_irrefl _)
      exact ⟨fun h => hno (.inr (.inl h)), fun h => hno (.inl h)⟩
    · rcases h with h | ⟨h, -⟩
      · cases h
      · cases h
        rfl
  | @entered n i c u hen hn hu =>
    obtain ⟨b, hb, -, -, ha⟩ := hqd.entering n i hen
    obtain rfl := mem_unique hn hb
    refine hs.set hn ?_ (fun m j hmn h => ?_) fun _ j v _ h => ?_
    · exact forall_update_some (fun j v _ hv => .inl ⟨v, hv, id⟩) (.inl ⟨u, hu, id⟩)
    · rw [hen] at h
      cases h
      exact absurd rfl hmn
    · exact congrArg some (ha j (h.symm.imp_left And.left)).symm
  | registry hpl h hf =>
    intro m b i u hm hde hu hp
    obtain ⟨v, hv, -, ho⟩ := task_before h hpl hu
    exact hs m b i v hm hde hv
      (hp.imp_right fun h => ⟨h.1, live_before ho h.2.1, h.2.2⟩)
  | took hpl h hf => exact hs.took hqd hok hpl h hf
  | dropped hn hh hu hin => exact hs.dropped hok hn hu

end Covered

theorem covered_of_reach (hs : machine.Reach Orderly s) : Covered s := by
  refine hs.invariant ?_ fun _ _ _ hr hs hok h =>
    hs.step (queued_of_reach hr) hok (State.step_of_eq h)
  simp [machine, Covered]

/-- **While an instance has an event, `deepest` is at least its depth.** -/
theorem le_deepest_of_taken (hs : machine.Reach Orderly s) {c : Call} {t : Task Nat}
    (hn : s.calls[n]? = some c) (hp : c.place = .taken i) (ht : s.tasks i = some t) :
    c.depth ≤ deepest t.depths := by
  rcases Nat.eq_zero_or_pos c.depth with hz | hpo
  · exact hz ▸ Nat.zero_le _
  · have hh := covered_of_reach hs n c i t hn hpo ht (.inl hp)
    exact le_deepest ((tallied_of_reach hs).mem_depths hn hh ht)

/-! ## Chains of calls -/

inductive Chain (s : State) (a : Nat) : Nat → Nat → Prop
  | self : Chain s a a 0
  | call {p n k : Nat} {c : Call} (h : Chain s a p k) (hn : s.calls[n]? = some c)
      (hparent : c.parent = some p) : Chain s a n (k + 1)

structure Nested (s : State) : Prop where
  bounded : ∀ (n : Nat) (c : Call), s.calls[n]? = some c → c.depth ≤ maxCallDepth
  parent : ∀ (n : Nat) (c : Call) (p : Nat), s.calls[n]? = some c → c.parent = some p →
    ∃ b : Call, s.calls[p]? = some b ∧ b.depth < c.depth

namespace Nested

variable {s : State}

variable {c : Call}

theorem set {n : Nat} {c' : Call} {r : Durable.State Nat} {entering : Option (Nat × Nat)}
    (hs : Nested s) (hn : s.calls[n]? = some c) (hde : c'.depth = c.depth)
    (hpa : c'.parent = c.parent) :
    Nested { toState := r, calls := s.calls.set n c', entering := entering } := by
  have hf : ∀ (m : Nat) (b : Call), s.calls[m]? = some b →
      ∃ b' : Call, (s.calls.set n c')[m]? = some b' ∧ b'.depth = b.depth := by
    intro m b hm
    exact exists_getElem?_set hn hm (fun h => hde.trans h) rfl
  have hba : ∀ (m : Nat) (b : Call), (s.calls.set n c')[m]? = some b →
      ∃ b' : Call, s.calls[m]? = some b' ∧ b.depth = b'.depth ∧ b.parent = b'.parent := by
    intro m b hm
    rcases getElem?_set_eq_some hm with ⟨rfl, rfl⟩ | ⟨-, hm⟩
    · exact ⟨c, hn, hde, hpa⟩
    · exact ⟨b, hm, rfl, rfl⟩
  constructor
  · intro m b hm
    obtain ⟨b', hb', hd, -⟩ := hba m b hm
    exact hd ▸ hs.bounded m b' hb'
  · intro m b p hm hp
    obtain ⟨b', hb', hd, hp'⟩ := hba m b hm
    obtain ⟨x, hx, hlt⟩ := hs.parent m b' p hb' (hp' ▸ hp)
    obtain ⟨x', hx', hdx⟩ := hf p x hx
    exact ⟨x', hx', by omega⟩

theorem concat (hs : Nested s) (hd : c.depth ≤ maxCallDepth)
    (hpa : ∀ p, c.parent = some p → ∃ b : Call, s.calls[p]? = some b ∧ b.depth < c.depth) :
    Nested { s with calls := s.calls ++ [c] } := by
  have hf : ∀ (m : Nat) (b : Call), s.calls[m]? = some b → (s.calls ++ [c])[m]? = some b :=
    fun m b hm => getElem?_concat_of_some hm
  constructor
  · intro m b hm
    rcases getElem?_concat_eq_some hm with hm | ⟨-, rfl⟩
    · exact hs.bounded m b hm
    · exact hd
  · intro m b p hm hp
    rcases getElem?_concat_eq_some hm with hm | ⟨-, rfl⟩
    · obtain ⟨x, hx, hlt⟩ := hs.parent m b p hm hp
      exact ⟨x, hf p x hx, hlt⟩
    · obtain ⟨x, hx, hlt⟩ := hpa p hp
      exact ⟨x, hf p x hx, hlt⟩

theorem step {t : State} {a : Act} (hs : Nested s) (hr : machine.Reach Orderly s)
    (h : s.Step a t) : Nested t := by
  cases h with
  | sent _ _ hpa hd => exact hs.concat hd (by simp [hpa])
  | @sentFrom c b p i u ns id hp hb hu hplace hh hpa hnext hd =>
    refine hs.concat hd fun q hq => ?_
    obtain rfl := mem_unique hpa hq
    have hle := le_deepest_of_taken hr hp hb hu
    exact ⟨b, hp, by rw [hnext, nextDepth]; omega⟩
  | tooDeep => exact hs
  | refused hn | pushed hn | spawned hn | answered hn | dropped hn => exact hs.set hn rfl rfl
  | entered _ hn => exact hs.set hn rfl rfl
  | registry => exact ⟨hs.bounded, hs.parent⟩
  | @took a r n i hpl h hf =>
    rw [modify]
    split
    next c hn =>
      exact hs.set hn rfl rfl
    · exact ⟨hs.bounded, hs.parent⟩

theorem chain {a n k : Nat} {b : Call} (hs : Nested s) (h : Chain s a n k)
    (ha : s.calls[a]? = some b) (hn : s.calls[n]? = some c) : b.depth + k ≤ c.depth := by
  induction h generalizing c with
  | self => rw [mem_unique ha hn, Nat.add_zero]
  | @call p n k c' h hn' hp ih =>
    obtain rfl := some.inj (hn'.symm.trans hn)
    obtain ⟨x, hx, hlt⟩ := hs.parent n c' p hn hp
    have := ih hx
    omega

end Nested

theorem nested_of_reach (hs : machine.Reach Orderly s) : Nested s := by
  refine hs.invariant ?_ fun _ _ _ hr hs _ h => hs.step hr (State.step_of_eq h)
  constructor <;> simp [machine]

/-- **Where each event is counted before it is taken and until it is answered, calls are bounded**:
while an instance has an event of depth `d`, `deepest` is at least `d`, and so a call of the object
has at least the depth `d + 1`; and a chain of calls does not pass `MAX_CALL_DEPTH`. -/
theorem calls_bounded {s : State} (hs : machine.Reach Orderly s) :
    (∀ (n i : Nat) (c : Call) (t : Task Nat), s.calls[n]? = some c → c.place = .taken i →
      s.tasks i = some t → c.depth ≤ deepest t.depths ∧ c.depth + 1 ≤ nextDepth t.depths) ∧
    ∀ (a n k : Nat) (b c : Call), Chain s a n k → s.calls[a]? = some b → s.calls[n]? = some c →
      b.depth + k ≤ c.depth ∧ c.depth ≤ maxCallDepth := by
  have hnest := nested_of_reach hs
  refine ⟨fun n i c t hn hplace ht => ?_, fun a n k b c h ha hn => ?_⟩
  · have hle := le_deepest_of_taken hs hn hplace ht
    exact ⟨hle, Nat.succ_le_succ hle⟩
  · exact ⟨hnest.chain h ha hn, hnest.bounded n c hn⟩

/-- A check that nothing is taken while an event is being counted, and that a guard goes only when
its event was answered. -/
def inOrder (s : State) : Act → Bool
  | .registry _ => s.entering.isNone
  | .dropGuard n => s.calls[n]?.all fun c => c.place == .answered
  | _ => true

theorem orderly_of_inOrder {a : Act} (h : inOrder s a = true) : Orderly s a := by
  cases a with
  | registry a =>
    intro i n j c _ _ _ hen
    rw [inOrder, hen] at h
    cases h
  | dropGuard n =>
    intro c hn _
    rw [inOrder, hn, all_some, beq_iff_eq] at h
    exact .inl h
  | _ => trivial

def rooms : NamespaceConfig := ⟨"n", "account", "worker"⟩

def called : List Act :=
  [.send 1 rooms "o", .admitEvent 0, .registry (.start 0), .registry (.loaded 0 1),
    .registry (.tryRecv 0 true)]

theorem calls_bounded_nested :
    ∃ (s : State) (b c : Call), machine.Reach Orderly s ∧ s.calls[0]? = some b ∧
      s.calls[1]? = some c ∧ Chain s 0 1 1 ∧ b.depth + 1 ≤ c.depth ∧ c.depth ≤ maxCallDepth := by
  obtain ⟨s, hs, hsome, hpar⟩ := Machine.exists_reach_of_runIf (M := machine) inOrder
    (fun _ _ _ h => orderly_of_inOrder h)
    (called ++ [Act.sendFrom 0 rooms "p", .admitEvent 1, .answer 0, .dropGuard 0])
    (fun s => (s.calls[0]?).isSome ∧ s.calls[1]?.map Call.parent = some (some 0)) (by decide)
  obtain ⟨b, hb⟩ := isSome_iff_exists.mp hsome
  obtain ⟨c, hc, hcp⟩ := Option.map_eq_some_iff.mp hpar
  have hch : Chain s 0 1 1 := .call .self hc hcp
  exact ⟨s, b, c, hs, hb, hc, hch, (calls_bounded hs).2 0 1 1 b c hch hb hc⟩

def lost (n : Nat) (s : State) : Bool :=
  s.calls[n]?.any fun c => c.place == .taken 0 &&
    (s.tasks 0).any fun t => decide (deepest t.depths < c.depth)

/-- **The depth of an event is lost while it is handled**: when its caller is cancelled, so that the
next call of the object is of the same depth; and before it is counted, when the object takes it
at once. -/
theorem depth_lost :
    (∃ s, machine.Reachable s ∧ lost 0 s = true ∧
      s.calls.map (fun c => (c.parent, c.depth)) = [(none, 1), (some 0, 1)]) ∧
    ∃ s, machine.Reachable s ∧ lost 1 s = true := by
  constructor
  · obtain ⟨s, hs, hp⟩ := machine.exists_of_run
      (called ++ [Act.dropGuard 0, .sendFrom 0 rooms "o"])
      (fun s => lost 0 s ∧ s.calls.map (fun c => (c.parent, c.depth)) = [(none, 1), (some 0, 1)])
      (by decide)
    exact ⟨s, hs, hp⟩
  · exact machine.exists_of_run
      (called ++
        [Act.answer 0, .dropGuard 0, .send 2 rooms "o", .admitEvent 1, .registry (.recv 0)])
      (lost 1 ·) (by decide)

end OpenWorkersRunner.Durable.CallDepth
