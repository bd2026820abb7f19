import OpenWorkersRunner.Ingress.Pipe
import Mathlib.Algebra.BigOperators.Group.List.Basic

/-!
# What the bridge of a WebSocket delivers

Three invariants of `WebSocket.machine`, one for each thing that its three tasks share.
-/

namespace OpenWorkersRunner.WebSocket

open List Option

/-! ## What a step does -/

namespace State

inductive Moves (s : State) : State → Prop
  | count {m : Outgoing} {rest : List Outgoing} (hcollector : s.collector = .waiting)
      (hsends : s.sends = m :: rest) : Moves s (s.count m rest)
  | enqueue {m : Message × ℕ} (hcollector : s.collector = .counted m) : Moves s (s.enqueue m)
  | collectorEnds : Moves s { s with collector := .ended }
  | write {m : Message × ℕ} {rest : List (Message × ℕ)} (hwriter : s.writer = .waiting)
      (hqueue : s.queue = m :: rest) : Moves s (s.write m rest)
  | wrote {m : Message × ℕ} (hwriter : s.writer = .writing m) (ok : Bool) : Moves s (s.wrote m ok)
  | uncount {m : Message × ℕ} (hwriter : s.writer = .written m) : Moves s (s.uncount m)
  | writerCloses (hwriter : s.writer = .waiting) : Moves s { s with writer := .closing }
  | writerEnds (hwriter : s.writer = .closing ∨ s.slow = true) : Moves s { s with writer := .ended }

inductive Talks (s : State) : State → Prop
  | send (m : Outgoing) : Talks s (s.putOn .worker m)
  | dropSender : Talks s { s with held := false }
  | dropReceiver : Talks s { s with listens := false }
  | drain : Talks s { s with draining := true }
  | select (hreader : s.reader = .reading) (branch : Branch) :
      Talks s { s with reader := .inside branch }
  | act {branch : Branch} (hreader : s.reader = .inside branch) (still : Bool) :
      Talks s (s.act still branch)
  | report {code : UInt16} {reason : String} (hreader : s.reader = .closing code reason) :
      Talks s (s.endWith (.closed code reason))

variable {s t : State} {maxIdle : Bool}

theorem step_cases {a : Act} (h : s.step maxIdle a = some t) : s.Moves t ∨ s.Talks t := by
  cases a with
  | send m =>
    obtain ⟨-, ⟨⟩⟩ := ite_none_right_eq_some.1 h
    exact .inr (.send m)
  | dropSender => cases h; exact .inr .dropSender
  | dropReceiver => cases h; exact .inr .dropReceiver
  | count =>
    simp only [step] at h
    split at h
    · cases h; exact .inl (.count ‹_› ‹_›)
    · cases h
  | enqueue =>
    simp only [step] at h
    split at h
    · cases h; exact .inl (.enqueue ‹_›)
    · cases h
  | collectorEnds =>
    obtain ⟨-, ⟨⟩⟩ := ite_none_right_eq_some.1 h
    exact .inl .collectorEnds
  | write =>
    simp only [step] at h
    split at h
    · cases h; exact .inl (.write ‹_› ‹_›)
    · cases h
  | wrote ok =>
    simp only [step] at h
    split at h
    · cases h; exact .inl (.wrote ‹_› ok)
    · cases h
  | uncount =>
    simp only [step] at h
    split at h
    · cases h; exact .inl (.uncount ‹_›)
    · cases h
  | writerCloses =>
    obtain ⟨⟨hw, -⟩, ⟨⟩⟩ := ite_none_right_eq_some.1 h
    exact .inl (.writerCloses hw)
  | writerEnds =>
    obtain ⟨hw, ⟨⟩⟩ := ite_none_right_eq_some.1 h
    exact .inl (.writerEnds (.inl hw))
  | giveUp =>
    obtain ⟨⟨hsl, -⟩, ⟨⟩⟩ := ite_none_right_eq_some.1 h
    exact .inl (.writerEnds (.inr hsl))
  | drain => cases h; exact .inr .drain
  | select due next =>
    obtain ⟨hrd, h⟩ := ite_none_right_eq_some.1 h
    obtain ⟨branch, -, rfl⟩ := map_eq_some_iff.1 h
    exact .inr (.select hrd branch)
  | act still =>
    simp only [step] at h
    split at h
    · cases h; exact .inr (.act ‹_› still)
    · cases h
  | report =>
    simp only [step] at h
    split at h
    · cases h; exact .inr (.report ‹_›)
    · cases h

/-- Nothing that the collector and the writer do the work with is changed; at most one message is
put on `send_tx`. -/
structure Adds (s t : State) : Prop where
  collector : t.collector = s.collector
  queued : t.queued = s.queued
  slow : t.slow = s.slow
  queue : t.queue = s.queue
  writer : t.writer = s.writer
  admitted : t.admitted = s.admitted
  given : t.given = s.given
  written : t.written = s.written
  put : ∃ ms : List (Origin × Outgoing), t.put = s.put ++ ms ∧ t.sends = s.sends ++ ms.map Prod.snd

theorem adds_of_eq (h : t = { s with
    held := t.held, listens := t.listens, reader := t.reader, draining := t.draining
    events := t.events }) : s.Adds t := by
  rw [h]
  exact ⟨rfl, rfl, rfl, rfl, rfl, rfl, rfl, rfl, [], (append_nil _).symm, (append_nil _).symm⟩

theorem adds_putOn (s : State) (origin : Origin) (m : Outgoing) : s.Adds (s.putOn origin m) := by
  rw [putOn]
  split
  · exact adds_of_eq rfl
  · exact ⟨rfl, rfl, rfl, rfl, rfl, rfl, rfl, rfl, [(origin, m)], rfl, rfl⟩

theorem adds_close (s : State) (code : UInt16) (reason : String) :
    s.Adds (s.close code reason) := by
  have h := adds_putOn s .bridge (.close code reason)
  exact ⟨h.collector, h.queued, h.slow, h.queue, h.writer, h.admitted, h.given, h.written, h.put⟩

theorem adds_tell (s : State) (ev : Incoming) (reader : Reader) :
    s.Adds { s.tell ev with reader := reader } := by
  rw [tell]
  split <;> exact adds_of_eq rfl

theorem adds_act (s : State) (still : Bool) (branch : Branch) : s.Adds (s.act still branch) := by
  cases branch with
  | slow => exact adds_tell s _ _
  | drain => exact adds_close s _ _
  | idle =>
    rw [act]
    split
    · exact adds_close s _ _
    · exact adds_of_eq rfl
  | next read =>
    match read with
    | none => exact adds_of_eq rfl
    | some (.text data) => exact adds_tell s _ _
    | some (.binary data) => exact adds_tell s _ _
    | some (.close none) => exact adds_tell s _ _
    | some (.close (some (code, reason))) => exact adds_tell s _ _
    | some .other => exact adds_of_eq rfl
    | some .tooBig => exact adds_close s _ _
    | some (.failed error) => exact adds_tell s _ _

theorem Talks.adds (h : s.Talks t) : s.Adds t := by
  cases h with
  | send m => exact adds_putOn s .worker m
  | dropSender => exact adds_of_eq rfl
  | dropReceiver => exact adds_of_eq rfl
  | drain => exact adds_of_eq rfl
  | select hrd branch => exact adds_of_eq rfl
  | act hrd still => exact adds_act s still _
  | report hrd => exact adds_tell s _ _

end State

/-! ## The order of the messages -/

def Collector.runs : Collector → Bool
  | .waiting | .counted _ => true
  | .stopping | .ended => false

def Collector.holding : Collector → List (Message × ℕ)
  | .counted m => [m]
  | .waiting | .stopping | .ended => []

def Writer.runs : Writer → Bool
  | .waiting | .writing _ | .written _ => true
  | .closing | .ended => false

def Writer.unwritten : Writer → List (Message × ℕ)
  | .writing m => [m]
  | .waiting | .written _ | .closing | .ended => []

def State.frames (s : State) : List (Message × ℕ) := s.put.map fun x => x.2.convert

structure Ordered (s : State) : Prop where
  sends : s.collector.runs → s.admitted ++ s.sends.map Outgoing.convert = s.frames
  admitted : s.admitted <+: s.frames
  queue : s.collector.runs → s.given ++ s.queue ++ s.collector.holding = s.admitted
  given : s.given ++ s.queue <+: s.admitted
  unwritten : s.writer.runs → s.written ++ s.writer.unwritten = s.given
  written : s.written <+: s.given

theorem ordered_fresh : Ordered .fresh :=
  ⟨fun _ => rfl, prefix_rfl, fun _ => rfl, prefix_rfl, fun _ => rfl, prefix_rfl⟩

namespace Ordered

variable {s t : State}

theorem adds (h : Ordered s) (ht : s.Adds t) : Ordered t := by
  obtain ⟨ms, hp, hsn⟩ := ht.put
  have hf : t.frames = s.frames ++ (ms.map Prod.snd).map Outgoing.convert := by
    rw [State.frames, hp, map_append, List.map_map]
    rfl
  refine ⟨fun hru => ?_, ?_, fun hru => ?_, ?_, fun hru => ?_, ?_⟩
  · rw [ht.collector] at hru
    rw [ht.admitted, hsn, hf, map_append, ← h.sends hru, append_assoc]
  · rw [ht.admitted, hf]
    exact h.admitted.trans (prefix_append _ _)
  · rw [ht.collector] at hru ⊢
    rw [ht.given, ht.queue, ht.admitted]
    exact h.queue hru
  · rw [ht.given, ht.queue, ht.admitted]
    exact h.given
  · rw [ht.writer] at hru ⊢
    rw [ht.written, ht.given]
    exact h.unwritten hru
  · rw [ht.written, ht.given]
    exact h.written

theorem count {m : Outgoing} {rest : List Outgoing} (h : Ordered s)
    (hco : s.collector = .waiting) (hsn : s.sends = m :: rest) :
    Ordered (s.count m rest) := by
  have hru : s.collector.runs := by rw [hco]; rfl
  have hp : s.admitted ++ [m.convert] ++ rest.map Outgoing.convert = s.frames := by
    rw [← h.sends hru, hsn, map_cons, append_assoc]
    rfl
  have hq : s.given ++ s.queue = s.admitted := by
    have := h.queue hru
    rwa [hco, Collector.holding, append_nil] at this
  rw [State.count]
  split
  · exact ⟨fun hst => (Bool.false_ne_true hst).elim, h.admitted,
      fun hst => (Bool.false_ne_true hst).elim, h.given,
      h.unwritten, h.written⟩
  · refine ⟨fun _ => hp, ⟨_, hp⟩, fun _ => ?_, ?_, h.unwritten, h.written⟩
    · exact congrArg (· ++ [m.convert]) hq
    · exact hq ▸ prefix_append _ _

variable {m : Message × ℕ}

theorem enqueue (h : Ordered s) (hco : s.collector = .counted m) :
    Ordered (s.enqueue m) := by
  have hru : s.collector.runs := by rw [hco]; rfl
  have hq : s.given ++ (s.queue ++ [m]) = s.admitted := by
    have := h.queue hru
    rwa [hco, Collector.holding, append_assoc] at this
  rw [State.enqueue]
  split
  · exact ⟨fun hst => (Bool.false_ne_true hst).elim, h.admitted,
      fun hst => (Bool.false_ne_true hst).elim, h.given,
      h.unwritten, h.written⟩
  · refine ⟨fun _ => h.sends hru, h.admitted, fun _ => ?_, ?_, h.unwritten, h.written⟩
    · exact (append_nil _).trans hq
    · exact hq ▸ prefix_rfl

theorem write {rest : List (Message × ℕ)} (h : Ordered s) (hw : s.writer = .waiting)
    (hq : s.queue = m :: rest) : Ordered (s.write m rest) := by
  have hm : s.given ++ [m] ++ rest = s.given ++ s.queue := by
    rw [hq, append_assoc]
    rfl
  have hwr : s.written = s.given := by
    have := h.unwritten (by rw [hw]; rfl)
    rwa [hw, Writer.unwritten, append_nil] at this
  refine ⟨h.sends, h.admitted, fun hru => ?_, ?_, fun _ => ?_, ?_⟩
  · exact (congrArg (· ++ s.collector.holding) hm).trans (h.queue hru)
  · exact hm ▸ h.given
  · exact congrArg (· ++ [m]) hwr
  · exact hwr ▸ prefix_append _ _

theorem wrote (h : Ordered s) (hw : s.writer = .writing m) (ok : Bool) :
    Ordered (s.wrote m ok) := by
  have hgi : s.written ++ [m] = s.given := by
    have := h.unwritten (by rw [hw]; rfl)
    rwa [hw] at this
  rw [State.wrote]
  split
  · exact ⟨h.sends, h.admitted, h.queue, h.given, fun _ => (append_nil _).trans hgi,
      hgi ▸ prefix_rfl⟩
  · exact ⟨h.sends, h.admitted, h.queue, h.given,
      fun hst => (Bool.false_ne_true hst).elim, h.written⟩

theorem moves (h : Ordered s) (ht : s.Moves t) : Ordered t := by
  cases ht with
  | count hco hsn => exact h.count hco hsn
  | enqueue hco => exact h.enqueue hco
  | collectorEnds =>
    exact ⟨fun hst => (Bool.false_ne_true hst).elim, h.admitted,
      fun hst => (Bool.false_ne_true hst).elim, h.given,
      h.unwritten, h.written⟩
  | write hw hq => exact h.write hw hq
  | wrote hw ok => exact h.wrote hw ok
  | uncount hw =>
    have hgi := h.unwritten (by rw [hw]; rfl)
    rw [hw] at hgi
    exact ⟨h.sends, h.admitted, h.queue, h.given, fun _ => hgi, h.written⟩
  | writerCloses | writerEnds =>
    exact ⟨h.sends, h.admitted, h.queue, h.given,
      fun hst => (Bool.false_ne_true hst).elim, h.written⟩

end Ordered

variable {maxIdle : Bool} {s t : State}

theorem ordered (hs : (machine maxIdle).Reachable s) : Ordered s := by
  refine hs.invariant ordered_fresh fun s a t _ h _ hst => ?_
  rcases State.step_cases hst with hm | ht
  · exact h.moves hm
  · exact h.adds ht.adds

/-! ## The count -/

def bytesOf (messages : List (Message × ℕ)) : ℕ := (messages.map Prod.snd).sum

theorem bytesOf_append (xs ys : List (Message × ℕ)) :
    bytesOf (xs ++ ys) = bytesOf xs + bytesOf ys := by
  rw [bytesOf, map_append, sum_append, bytesOf, bytesOf]

theorem bytesOf_concat (xs : List (Message × ℕ)) (m : Message × ℕ) :
    bytesOf (xs ++ [m]) = bytesOf xs + m.2 := by
  rw [bytesOf_append]
  rfl

theorem bytesOf_le {xs ys : List (Message × ℕ)} (h : xs <+: ys) : bytesOf xs ≤ bytesOf ys := by
  obtain ⟨zs, rfl⟩ := h
  rw [bytesOf_append]
  exact Nat.le_add_right _ _

def lastBytes (messages : List (Message × ℕ)) : ℕ := messages.getLast?.elim 0 Prod.snd

theorem lastBytes_concat (xs : List (Message × ℕ)) (m : Message × ℕ) :
    lastBytes (xs ++ [m]) = m.2 := by
  rw [lastBytes, getLast?_concat]
  rfl

def Writer.uncounted : Writer → ℕ
  | .written m => m.2
  | .waiting | .writing _ | .closing | .ended => 0

/-- The count is that of the messages which were admitted and are not written. -/
structure Counted (s : State) : Prop where
  queued : s.queued + bytesOf s.written = bytesOf s.admitted + s.writer.uncounted
  below : s.queued < maxQueuedBytes + lastBytes s.admitted

theorem lastBytes_lt (h : Ordered s) : lastBytes s.admitted < 2 ^ 63 := by
  rw [lastBytes]
  cases hl : s.admitted.getLast? with
  | none => exact Nat.two_pow_pos 63
  | some m =>
    have hm : m ∈ s.frames := h.admitted.subset (mem_of_getLast? hl)
    obtain ⟨x, -, rfl⟩ := mem_map.1 hm
    exact x.2.convert_lt

namespace Counted

theorem uncounted_le (h : Counted s) (ho : Ordered s) : s.writer.uncounted ≤ s.queued := by
  have hw : s.written <+: s.admitted :=
    ho.written.trans ((prefix_append _ _).trans ho.given)
  have := bytesOf_le hw
  have := h.queued
  omega

variable {m : Message × ℕ}

theorem written_le (h : Counted s) (ho : Ordered s) (hw : s.writer = .written m) :
    m.2 ≤ s.queued := by
  have := h.uncounted_le ho
  rwa [hw] at this

theorem queued_lt (h : Counted s) (ho : Ordered s) : s.queued < 2 ^ 64 := by
  have hl := lastBytes_lt ho
  have := h.below
  rw [maxQueuedBytes] at this
  omega

theorem adds (h : Counted s) (ht : s.Adds t) : Counted t := by
  constructor
  · rw [ht.queued, ht.written, ht.admitted, ht.writer]
    exact h.queued
  · rw [ht.queued, ht.admitted]
    exact h.below

theorem count {m : Outgoing} {rest : List Outgoing} (h : Counted s)
    (hsl : (s.count m rest).slow = false) : Counted (s.count m rest) := by
  rw [State.count] at hsl ⊢
  split at hsl
  · cases hsl
  next hbe =>
    rw [if_neg hbe]
    have hsu : fetchAdd s.queued m.convert.2 = s.queued + m.convert.2 := by
      refine fetchAdd_eq ?_
      have := m.convert_lt
      rw [maxQueuedBytes] at hbe
      omega
    constructor
    · show fetchAdd s.queued m.convert.2 + _ = _
      rw [hsu, bytesOf_concat, Nat.add_right_comm, h.queued, Nat.add_right_comm]
    · show fetchAdd s.queued m.convert.2 < _
      rw [hsu, lastBytes_concat]
      exact Nat.add_lt_add_right (Nat.lt_of_not_le hbe) _

theorem uncount (h : Counted s) (ho : Ordered s) (hw : s.writer = .written m) :
    Counted (s.uncount m) := by
  have hle := h.written_le ho hw
  have hd := fetchSub_eq hle (h.queued_lt ho)
  have hq := h.queued
  have hbe := h.below
  rw [hw, Writer.uncounted] at hq
  constructor
  · show fetchSub s.queued m.2 + bytesOf s.written = bytesOf s.admitted + 0
    rw [hd]
    omega
  · show fetchSub s.queued m.2 < _
    rw [hd]
    exact Nat.lt_of_le_of_lt (Nat.sub_le _ _) hbe

theorem wrote (h : Counted s) (hw : s.writer = .writing m) (ok : Bool) :
    Counted (s.wrote m ok) := by
  have hq := h.queued
  rw [hw, Writer.uncounted] at hq
  rw [State.wrote]
  split
  · refine ⟨?_, h.below⟩
    show s.queued + bytesOf (s.written ++ [m]) = bytesOf s.admitted + m.2
    rw [bytesOf_concat]
    omega
  · exact ⟨hq, h.below⟩

end Counted

theorem State.Moves.slow (h : s.Moves t) (hsl : t.slow = false) : s.slow = false := by
  cases h with
  | @count m rest =>
    rw [State.count] at hsl
    split at hsl
    · cases hsl
    · exact hsl
  | @enqueue m =>
    rw [State.enqueue] at hsl
    split at hsl <;> exact hsl
  | @wrote m _ ok =>
    rw [State.wrote] at hsl
    split at hsl <;> exact hsl
  | collectorEnds | write | uncount | writerCloses | writerEnds => exact hsl

theorem Counted.moves (h : Counted s) (ho : Ordered s) (ht : s.Moves t) (hsl : t.slow = false) :
    Counted t := by
  have hs := ht.slow hsl
  cases ht with
  | count => exact h.count hsl
  | @enqueue m =>
    rw [State.enqueue]
    split <;> exact ⟨h.queued, h.below⟩
  | collectorEnds => exact ⟨h.queued, h.below⟩
  | write hw =>
    have hq := h.queued
    rw [hw] at hq
    exact ⟨hq, h.below⟩
  | wrote hw ok => exact h.wrote hw ok
  | uncount hw => exact h.uncount ho hw
  | writerCloses hw =>
    have hq := h.queued
    rw [hw] at hq
    exact ⟨hq, h.below⟩
  | writerEnds hw =>
    rcases hw with hw | hgo
    · have hq := h.queued
      rw [hw] at hq
      exact ⟨hq, h.below⟩
    · rw [hs] at hgo
      cases hgo

theorem counted (hs : (machine maxIdle).Reachable s) : s.slow = false → Counted s := by
  refine hs.invariant (I := fun s => s.slow = false → Counted s) ?_ ?_
  · exact fun _ => ⟨rfl, show 0 < maxQueuedBytes + lastBytes [] by decide⟩
  · intro s a t hs h _ hst hsl
    rcases State.step_cases hst with hm | ht
    · exact (h (hm.slow hsl)).moves (ordered hs) hm hsl
    · exact (h (ht.adds.slow ▸ hsl)).adds ht.adds

/-! ## What the worker hears -/

def State.byBridge (s : State) : List (Origin × Outgoing) := s.put.filter (·.1 = .bridge)

def Reader.runs : Reader → Bool
  | .reading | .inside _ => true
  | .closing _ _ | .ended => false

theorem Reader.ne_ended {reader : Reader} (hru : reader.runs) : reader ≠ .ended := by
  rintro rfl
  exact Bool.false_ne_true hru

/-- The end is told once, and nothing after it; the bridge puts one close on `send_tx` at most. -/
structure Reported (s : State) : Prop where
  frames : s.reader ≠ .ended → ∀ e ∈ s.events, e.isLast = false
  once : ∀ e ∈ s.events.dropLast, e.isLast = false
  unsent : s.reader.runs → s.byBridge = []
  one : s.byBridge.length ≤ 1
  closes : ∀ m ∈ s.byBridge, m.2.isClose

namespace Reported

theorem fresh : Reported .fresh :=
  ⟨fun _ _ h => (not_mem_nil h).elim, fun _ h => (not_mem_nil h).elim, fun _ => rfl,
    Nat.zero_le 1, fun _ h => (not_mem_nil h).elim⟩

theorem of_eq (h : Reported s) (hp : t.put = s.put) (hev : t.events = s.events)
    (hrd : t.reader = s.reader) : Reported t := by
  refine ⟨?_, ?_, ?_, ?_, ?_⟩
  · rw [hrd, hev]; exact h.frames
  · rw [hev]; exact h.once
  · rw [hrd, State.byBridge, hp]; exact h.unsent
  · rw [State.byBridge, hp]; exact h.one
  · rw [State.byBridge, hp]; exact h.closes

theorem moves (h : Reported s) (ht : s.Moves t) : Reported t := by
  cases ht with
  | @count m rest =>
    rw [State.count]
    split <;> exact h.of_eq rfl rfl rfl
  | @enqueue m =>
    rw [State.enqueue]
    split <;> exact h.of_eq rfl rfl rfl
  | @wrote m _ ok =>
    rw [State.wrote]
    split <;> exact h.of_eq rfl rfl rfl
  | collectorEnds | write | uncount | writerCloses | writerEnds => exact h.of_eq rfl rfl rfl

theorem send (h : Reported s) (m : Outgoing) : Reported (s.putOn .worker m) := by
  rw [State.putOn]
  split
  · exact h
  · have hp : (s.put ++ [(Origin.worker, m)]).filter (·.1 = .bridge) = s.byBridge := by
      rw [filter_append, State.byBridge]
      exact append_nil _
    refine ⟨h.frames, h.once, ?_, ?_, ?_⟩ <;> rw [State.byBridge, hp]
    exacts [h.unsent, h.one, h.closes]

theorem setReader (h : Reported s) {reader : Reader} (hru : s.reader.runs) :
    Reported { s with reader := reader } :=
  ⟨fun _ => h.frames (Reader.ne_ended hru), h.once, fun _ => h.unsent hru, h.one, h.closes⟩

theorem endWith (h : Reported s) (ev : Incoming) (hrd : s.reader ≠ .ended) :
    Reported (s.endWith ev) := by
  have ho : (s.endWith ev).byBridge = s.byBridge := by
    rw [State.endWith, State.tell]
    split <;> rfl
  refine ⟨fun hen => (hen rfl).elim, ?_, fun hst => (Bool.false_ne_true hst).elim,
    ho ▸ h.one, ho ▸ h.closes⟩
  rw [State.endWith, State.tell]
  split
  · show ∀ e ∈ (s.events ++ [ev]).dropLast, e.isLast = false
    rw [dropLast_concat]
    exact h.frames hrd
  · exact h.once

theorem pass (h : Reported s) {ev : Incoming} (hev : ev.isLast = false)
    (hru : s.reader.runs) : Reported (s.pass ev) := by
  have hrd := Reader.ne_ended hru
  rw [State.pass, State.tell]
  split
  · have hf : ∀ e ∈ s.events ++ [ev], e.isLast = false := by
      intro e he
      rcases mem_append.1 he with he | he
      · exact h.frames hrd e he
      · rw [mem_singleton.1 he]; exact hev
    exact ⟨fun _ => hf, fun e he => hf e (dropLast_subset _ he),
      fun _ => h.unsent hru, h.one, h.closes⟩
  · exact h.setReader hru

theorem close (h : Reported s) (code : UInt16) (reason : String) (hru : s.reader.runs) :
    Reported (s.close code reason) := by
  have hrd := Reader.ne_ended hru
  have ho : (s.close code reason).byBridge = [] ∨
      (s.close code reason).byBridge = [(.bridge, .close code reason)] := by
    rw [State.close, State.putOn]
    split
    · exact .inl (h.unsent hru)
    · right
      show (s.put ++ [(Origin.bridge, Outgoing.close code reason)]).filter _ = _
      rw [filter_append, show s.put.filter _ = [] from h.unsent hru]
      rfl
  have hev : (s.close code reason).events = s.events := by
    rw [State.close, State.putOn]
    split <;> rfl
  refine ⟨fun _ => hev ▸ h.frames hrd, hev ▸ h.once,
    fun hst => (Bool.false_ne_true hst).elim, ?_, ?_⟩
  · rcases ho with ho | ho <;> rw [ho]
    exacts [Nat.zero_le 1, Nat.le_refl 1]
  · rcases ho with ho | ho <;> rw [ho]
    · exact fun _ hm => (not_mem_nil hm).elim
    · intro m hm
      rw [mem_singleton.1 hm]
      rfl

theorem act (h : Reported s) {branch : Branch} (hrd : s.reader = .inside branch)
    (still : Bool) : Reported (s.act still branch) := by
  have hru : s.reader.runs := by rw [hrd]; rfl
  have hen := Reader.ne_ended hru
  cases branch with
  | slow => exact h.endWith _ hen
  | drain => exact h.close _ _ hru
  | idle =>
    rw [State.act]
    split
    · exact h.close _ _ hru
    · exact h.setReader hru
  | next read =>
    match read with
    | none => exact h.setReader hru
    | some (.text data) => exact h.pass rfl hru
    | some (.binary data) => exact h.pass rfl hru
    | some (.close none) => exact h.endWith _ hen
    | some (.close (some (code, reason))) => exact h.endWith _ hen
    | some .other => exact h.setReader hru
    | some .tooBig => exact h.close _ _ hru
    | some (.failed error) => exact h.endWith _ hen

theorem talks (h : Reported s) (ht : s.Talks t) : Reported t := by
  cases ht with
  | send m => exact h.send m
  | dropSender | dropReceiver | drain => exact h.of_eq rfl rfl rfl
  | select hrd branch => exact h.setReader (by rw [hrd]; rfl)
  | act hrd still => exact h.act hrd still
  | report hrd => exact h.endWith _ fun hen => by rw [hrd] at hen; cases hen

end Reported

theorem reported (hs : (machine maxIdle).Reachable s) : Reported s := by
  refine hs.invariant .fresh fun s a t _ h _ hst => ?_
  rcases State.step_cases hst with hm | ht
  · exact h.moves hm
  · exact h.talks ht

/-! ## The bridge -/

/-- **What a bridge delivers.**  In every state that it reaches:

* the messages given to the socket are a start of those put on `send_tx`, in their order; the bridge
  itself put at most one there, a close;
* until the socket is given up as too slow, and so also after a write failed, `queued` is the bytes
  of the messages that were admitted and are not written, with those of a message just written that
  the writer is about to take off; it takes off no more than there is; and the count is less than
  the limit and the message admitted last;
* of the events that the worker got, only the last can be the end of the socket. -/
theorem bridge_delivers (hs : (machine maxIdle).Reachable s) :
    (s.given <+: s.frames ∧ s.byBridge.length ≤ 1 ∧ ∀ m ∈ s.byBridge, m.2.isClose) ∧
    (s.slow = false → (s.written <+: s.admitted ∧ s.admitted <+: s.frames ∧
        s.queued + bytesOf s.written = bytesOf s.admitted + s.writer.uncounted) ∧
      (∀ m, s.writer = .written m → m.2 ≤ s.queued ∧ (s.uncount m).queued = s.queued - m.2) ∧
      s.queued < maxQueuedBytes + lastBytes s.admitted) ∧
    ∀ e ∈ s.events.dropLast, e.isLast = false := by
  have ho := ordered hs
  have hr := reported hs
  have hgiven : s.given <+: s.admitted := (prefix_append _ _).trans ho.given
  refine ⟨⟨hgiven.trans ho.admitted, hr.one, hr.closes⟩, fun hslow => ?_, hr.once⟩
  have hc := counted hs hslow
  refine ⟨⟨ho.written.trans hgiven, ho.admitted, hc.queued⟩, fun m hwr => ?_, hc.below⟩
  have hle := hc.written_le ho hwr
  exact ⟨hle, fetchSub_eq hle (hc.queued_lt ho)⟩

/-- Two messages, of which the first is written while the second is counted, and then a close for
the idle time. -/
def idleRun : List Act :=
  [Act.send (.text ⟨[104, 105], by decide⟩), .count, .enqueue, .write,
    .send (.binary ⟨[1, 2, 3], by decide⟩), .count, .wrote true, .select true none, .act true,
    .report]

theorem bridge_delivers_idle :
    ∃ s, (machine true).Reachable s ∧ s.slow = false ∧ s.writer = .written (.text [104, 105], 2) ∧
      s.queued = 5 ∧ s.put.length = 3 ∧ s.given <+: s.frames ∧
      s.queued + bytesOf s.written = bytesOf s.admitted + 2 ∧
      (s.uncount (.text [104, 105], 2)).queued = 3 ∧
      s.events = [.closed 1001 "Idle for too long"] := by
  obtain ⟨s, hs, hslow, hwr, hqd, hput, hevents⟩ := (machine true).exists_of_run idleRun
    (fun s => s.slow = false ∧ s.writer = .written (.text [104, 105], 2) ∧ s.queued = 5 ∧
      s.put.length = 3 ∧ s.events = [.closed 1001 "Idle for too long"]) (by decide)
  obtain ⟨⟨hgiven, -⟩, hcount, -⟩ := bridge_delivers hs
  obtain ⟨⟨-, -, hbs⟩, hunc, -⟩ := hcount hslow
  rw [hwr] at hbs
  refine ⟨s, hs, hslow, hwr, hqd, hput, hgiven, hbs, ?_, hevents⟩
  exact (hunc _ hwr).2.trans (congrArg (· - 2) hqd)

end OpenWorkersRunner.WebSocket
