import OpenWorkersRunner.Durable.AlarmInvariant

/-!
# How often a failing alarm runs

An alarm whose runs fail runs again, 2, 4, 8... seconds later, and is dropped after `MAX_RETRIES`
of these further runs.  The count of failed runs is in the index row: `claim` hands it to the
delivery, and each of the ways a delivery settles writes it back.  This file follows one alarm from
the row it starts with to the last of its runs.
-/

namespace OpenWorkersRunner.Alarms

open Function List Option

/-! ## The log of the runs -/

/-- The counts that runs were given, when `next` read the clock, and the rows they left.  A delivery
to an object that is stopped or not loaded counts as a run. -/
structure Log where
  given : List Nat
  decided : List Int
  indexed : List (Option Row)
deriving DecidableEq

def Why.ran : Why → Bool
  | .failed _ | .current | .uncleared => true
  | .early | .notStarted | .gone => false

def Log.add (l : Log) (o o' : Obj) : Act → Log
  | .endRun i outcome _ =>
    match o.calls i with
    | some (.deliver d) =>
      if outcome = .refused then l else { l with given := l.given ++ [d.retryCount] }
    | _ => l
  | .reread _ _ nowMs => { l with decided := l.decided ++ [nowMs] }
  | .settle i _ =>
    match o.calls i with
    | some (.deliver ⟨_, _, .settling _ why⟩) =>
      if why.ran then { l with indexed := l.indexed ++ [o'.row] } else l
    | _ => l
  | _ => l

structure Watched where
  obj : Obj
  log : Log

def watched : Machine Watched Act where
  init := ⟨Obj.empty, ⟨[], [], []⟩⟩
  step w a := (w.obj.step a).map fun o => ⟨o, w.log.add w.obj o a⟩

/-- What may happen while the runs of an alarm fail: a delivery starts or not, its run fails or is
refused, and what follows is written.  Nobody sets the alarm, and its namespace stays. -/
def Act.fails : Act → Bool
  | .claim _ | .acquire _ | .lookup _ .failed _ | .lookup _ .found _ | .read _ _ _
  | .endRun _ .failed _ | .endRun _ .refused _ | .reread _ true _ | .clear _ true _
  | .settle _ true => true
  | _ => false

/-- The steps after which a delivery of the alarm `atMs` does not run the handler: it could not
start, it was refused, or it is early. -/
def Act.skips (atMs : Int) : Act → Bool
  | .lookup _ .failed _ | .endRun _ .refused _ => true
  | .read _ ok nowMs => !ok || decide (nowMs < atMs)
  | _ => false

/-- What the index holds after the failed run number `k`, when `next` follows it at `nowMs`. -/
def indexAfter (nowMs : Int) (k : Nat) : Option Row :=
  if k ≤ maxRetries then
    some { scheduledAt := nowMs + 1000 * 2 ^ k, retryCount := k, delivering := false }
  else none

def rowsAfter (decided : List Int) : List (Option Row) :=
  decided.mapIdx fun j nowMs => indexAfter nowMs (j + 1)

theorem rowsAfter_concat (decided : List Int) (nowMs : Int) :
    rowsAfter (decided ++ [nowMs]) =
      rowsAfter decided ++ [indexAfter nowMs (decided.length + 1)] := by
  simp [rowsAfter]

/-! ## Where a run of failures can be -/

def Log.Whole (l : Log) (n : Nat) : Prop :=
  ∃ ts : List Int, ts.length = n ∧ l = ⟨List.range n, ts, rowsAfter ts⟩

def Log.Ran (l : Log) (n : Nat) : Prop :=
  ∃ ts : List Int, ts.length = n ∧ l = ⟨List.range (n + 1), ts, rowsAfter ts⟩

def Log.Decided (l : Log) (n : Nat) (nowMs : Int) : Prop :=
  ∃ ts : List Int, ts.length = n ∧ l = ⟨List.range (n + 1), ts ++ [nowMs], rowsAfter ts⟩

def callsOf : Option (Nat × Delivery) → Nat → Option Call
  | none => fun _ => none
  | some (i, d) => Function.update (fun _ => none) i (some (.deliver d))

/-- What holds between two deliveries: the alarm waits in the file and in the index, with its count,
or it was dropped from both. -/
def Waits (atMs : Int) (w : Watched) (n : Nat) : Prop :=
  n ≤ maxRetries + 1 ∧ w.log.Whole n ∧ if n ≤ maxRetries then
      w.obj.file = some atMs ∧ ∃ s, w.obj.row = some { scheduledAt := s, retryCount := n,
                                                       delivering := false }
    else w.obj.file = none ∧ w.obj.row = none

def Fits (atMs : Int) (w : Watched) (n : Nat) : Phase → Prop
  | .started | .found => w.obj.file = some atMs ∧ w.log.Whole n
  | .running ran => ran = atMs ∧ w.obj.file = some atMs ∧ w.log.Whole n
  | .pending alarm why =>
    why.ran = false ∧ (∃ s, alarm = some (s, n)) ∧ w.obj.file = some atMs ∧ w.log.Whole n
  | .ended ran failed | .reading ran failed =>
    ran = atMs ∧ failed = true ∧ w.obj.file = some atMs ∧ w.log.Ran n
  | .clearing ran =>
    ran = atMs ∧ n = maxRetries ∧ w.obj.file = some atMs ∧ ∃ nowMs, w.log.Decided n nowMs
  | .settling alarm why =>
    if why.ran then
      (∃ nowMs, w.log.Decided n nowMs ∧ settle w.obj.row alarm = indexAfter nowMs (n + 1)) ∧
        w.obj.file = if n + 1 ≤ maxRetries then some atMs else none
    else (∃ s, alarm = some (s, n)) ∧ w.obj.file = some atMs ∧ w.log.Whole n

structure Tracks (atMs : Int) (w : Watched) (n : Nat) (c : Option (Nat × Delivery)) : Prop where
  calls : w.obj.calls = callsOf c
  lock : w.obj.lock = c.bind fun x => if (Call.deliver x.2).holds then some x.1 else none
  waits : c = none → Waits atMs w n
  fits : ∀ i d, c = some (i, d) → d.retryCount = n ∧ n ≤ maxRetries ∧
    (∃ s, w.obj.row = some { scheduledAt := s, retryCount := n, delivering := true }) ∧
    Fits atMs w n d.phase

/-- How far the runs of the alarm have come: a delivery that runs the handler goes down from its
claim to its settle, and each failed run goes down by more than that. -/
def rank (n : Nat) (c : Option (Nat × Delivery)) : Nat :=
  12 * (maxRetries + 1 - n) + match c with
    | none => 9
    | some (_, d) =>
      match d.phase with
      | .pending _ _ => 11
      | .started => 8
      | .found => 7
      | .running _ => 6
      | .ended _ _ => 5
      | .reading _ _ => 4
      | .clearing _ => 3
      | .settling _ why => if why.ran then 2 else 10

variable {i : Nat} {o : Obj}

theorem callsOf_eq_some {c : Option (Nat × Delivery)} {call : Call} (h : callsOf c i = some call) :
    ∃ d, c = some (i, d) ∧ call = .deliver d := by
  cases c with
  | none => cases h
  | some x =>
    obtain ⟨j, d⟩ := x
    by_cases hij : i = j
    · subst hij
      rw [callsOf, update_self] at h
      cases h
      exact ⟨d, rfl, rfl⟩
    · rw [callsOf, update_of_ne hij] at h
      cases h

theorem callsOf_goto (i : Nat) (d d' : Delivery) :
    update (callsOf (some (i, d))) i (some (.deliver d')) = callsOf (some (i, d')) :=
  update_idem ..

theorem callsOf_done (i : Nat) (d : Delivery) :
    update (callsOf (some (i, d))) i none = callsOf none :=
  (update_idem ..).trans (update_eq_self i _)

section Step

variable {atMs : Int} {w : Watched} {n i : Nat} {d : Delivery}

variable {c : Option (Nat × Delivery)}

theorem Tracks.of_call {retryCount : Nat} {seen : Option Int} {p : Phase} (h : Tracks atMs w n c)
    (hc : w.obj.calls i = some (.deliver ⟨retryCount, seen, p⟩)) :
    c = some (i, ⟨retryCount, seen, p⟩) ∧ retryCount = n ∧ n ≤ maxRetries ∧
      (∃ s, w.obj.row = some { scheduledAt := s, retryCount := n, delivering := true }) ∧
      Fits atMs w n p := by
  rw [h.calls] at hc
  obtain ⟨d, rfl, ⟨⟩⟩ := callsOf_eq_some hc
  exact ⟨rfl, h.fits i _ rfl⟩

theorem Tracks.goto {o' : Obj} {l' : Log} {p : Phase} {seen : Option Int}
    (h : Tracks atMs w n (some (i, d)))
    (hcl : o'.calls = update w.obj.calls i (some (.deliver ⟨d.retryCount, seen, p⟩)))
    (hl : o'.lock = if (Call.deliver ⟨d.retryCount, seen, p⟩).holds then some i else none)
    (hro : o'.row = w.obj.row) (hf : Fits atMs ⟨o', l'⟩ n p) :
    Tracks atMs ⟨o', l'⟩ n (some (i, ⟨d.retryCount, seen, p⟩)) := by
  obtain ⟨hcn, hn, hr, -⟩ := h.fits i d rfl
  refine ⟨?_, hl, fun hc => (by cases hc), ?_⟩
  · rw [hcl, h.calls, callsOf_goto]
  · rintro _ _ ⟨⟩
    exact ⟨hcn, hn, by rw [hro]; exact hr, hf⟩

theorem Tracks.done {o' : Obj} {l' : Log} {n' : Nat} (h : Tracks atMs w n (some (i, d)))
    (hh : (Call.deliver d).holds = true)
    (hcl : o'.calls = update w.obj.calls i none)
    (hlo : o'.lock = if w.obj.lock = some i then none else w.obj.lock)
    (hw : Waits atMs ⟨o', l'⟩ n') : Tracks atMs ⟨o', l'⟩ n' none := by
  refine ⟨?_, ?_, fun _ => hw, fun _ _ hc => by cases hc⟩
  · rw [hcl, h.calls, callsOf_done]
  · have hl : w.obj.lock = some i := by
      rw [h.lock, bind_some, if_pos hh]
    rw [hlo, if_pos hl]
    rfl

theorem Tracks.waits_of_due {row : Row} {now : Int} (h : Tracks atMs w n c)
    (hr : w.obj.row = some row) (hd : row.due now = true) :
    c = none ∧ n ≤ maxRetries ∧ w.obj.file = some atMs ∧ w.log.Whole n ∧ row.retryCount = n := by
  cases c with
  | some x =>
    obtain ⟨-, -, ⟨s, hs⟩, -⟩ := h.fits x.1 x.2 rfl
    rw [hr] at hs
    cases hs
    cases hd
  | none =>
    obtain ⟨-, hl, hw⟩ := h.waits rfl
    split at hw
    · obtain ⟨hf, s, hs⟩ := hw
      rw [hr] at hs
      cases hs
      exact ⟨rfl, ‹_›, hf, hl, rfl⟩
    · rw [hr] at hw
      cases hw.2

theorem next_failed (atMs nowMs : Int) (n : Nat) :
    next atMs (some atMs) (some (n + 1)) nowMs =
      if n + 1 ≤ maxRetries then .keep (retryAt nowMs (n + 1)) (n + 1) else .clear := by
  simp [next]

theorem settle_retryAt {row : Row} {nowMs : Int} {k : Nat} (hk : k ≤ maxRetries) :
    settle (some row) (some (retryAt nowMs k, k)) = indexAfter nowMs k := by
  simp [settle, follow, indexAfter, retryAt, hk]

theorem waits_after {o : Obj} {nowMs : Int} {k : Nat}
    (hf : o.file = if k ≤ maxRetries then some atMs else none) (hr : o.row = indexAfter nowMs k) :
    if k ≤ maxRetries then
      o.file = some atMs ∧ ∃ s, o.row = some { scheduledAt := s, retryCount := k,
                                               delivering := false }
    else o.file = none ∧ o.row = none := by
  unfold indexAfter at hr
  split
  · rw [if_pos ‹_›] at hf hr
    exact ⟨hf, _, hr⟩
  · rw [if_neg ‹_›] at hf hr
    exact ⟨hf, hr⟩

/-- **A step of the runs that fail.**  It leads to a point such runs can be at, and the rank goes
down unless the delivery does not run the handler. -/
theorem Tracks.step {w' : Watched} {a : Act} (h : Tracks atMs w n c) (ha : a.fails = true)
    (hs : watched.step w a = some w') :
    ∃ n' c', Tracks atMs w' n' c' ∧ rank n' c' + 1 ≤ rank n c + if a.skips atMs then 12 else 0 := by
  obtain ⟨o', ho, rfl⟩ := map_eq_some_iff.1 hs
  cases Obj.step_of_eq ho with
  | @claim now row hr hd =>
    obtain ⟨rfl, hn, hf, hlo, hcn⟩ := h.waits_of_due hr hd
    refine ⟨n, some (w.obj.count, ⟨n, w.obj.file, .started⟩), ⟨?_, h.lock, ?_, ?_⟩, ?_⟩
    · show update w.obj.calls _ _ = _
      rw [h.calls, hcn]
      rfl
    · intro hc
      cases hc
    · rintro _ _ ⟨⟩
      refine ⟨rfl, hn, ⟨row.scheduledAt, ?_⟩, hf, hlo⟩
      rw [← hcn]
    · simp [rank, Act.skips]
  | acquireEnded hl hc =>
    obtain ⟨rfl, rfl, hn, hr, hfi⟩ := h.of_call hc
    exact ⟨_, _, h.goto rfl rfl rfl hfi, by simp [rank, Act.skips]⟩
  | acquirePending hl hc =>
    obtain ⟨rfl, rfl, hn, hr, hra, hal⟩ := h.of_call hc
    refine ⟨_, _, h.goto rfl rfl rfl ?_, by simp [rank, Act.skips, hra]⟩
    rw [Fits, hra]
    exact hal
  | lookup ans hc =>
    obtain ⟨rfl, rfl, hn, hr, hf, hlo⟩ := h.of_call hc
    cases ans with
    | gone => cases ha
    | found => exact ⟨_, _, h.goto rfl h.lock rfl ⟨hf, hlo⟩, by simp [rank, Act.skips]⟩
    | failed =>
      exact ⟨_, _, h.goto rfl h.lock rfl ⟨rfl, ⟨_, rfl⟩, hf, hlo⟩, by simp [rank, Act.skips]⟩
  | @read i retryCount seen nowMs hc =>
    obtain ⟨rfl, rfl, hn, hr, hf, hlo⟩ := h.of_call hc
    rw [hf]
    by_cases hle : atMs ≤ nowMs
    · simp only [hle, if_true]
      exact ⟨_, _, h.goto rfl h.lock rfl ⟨rfl, hf, hlo⟩, by simp [rank, Act.skips]⟩
    · simp only [hle, if_false]
      refine ⟨_, _, h.goto rfl h.lock rfl ⟨rfl, ⟨_, rfl⟩, hf, hlo⟩, ?_⟩
      simp [rank, Act.skips, Int.not_le.1 hle]
  | readFails hc =>
    obtain ⟨rfl, rfl, hn, hr, hf, hlo⟩ := h.of_call hc
    exact ⟨_, _, h.goto rfl h.lock rfl ⟨rfl, ⟨_, rfl⟩, hf, hlo⟩, by simp [rank, Act.skips]⟩
  | endRun out hc =>
    obtain ⟨rfl, rfl, hn, hr, rfl, hf, ts, ht, hlo⟩ := h.of_call hc
    cases out with
    | ok => cases ha
    | failed =>
      refine ⟨_, _, h.goto rfl h.lock rfl ⟨rfl, rfl, hf, ts, ht, ?_⟩, by simp [rank, Act.skips]⟩
      simp [Log.add, hc, hlo, range_succ]
    | refused =>
      refine ⟨_, _, h.goto rfl h.lock rfl ⟨rfl, ⟨_, rfl⟩, hf, ts, ht, ?_⟩,
        by simp [rank, Act.skips]⟩
      simp [Log.add, hc, hlo]
  | @reread i retryCount seen ran nowMs failed ok hc =>
    obtain ⟨rfl, rfl, hn, ⟨s, hr⟩, rfl, rfl, hf, ts, ht, hlo⟩ := h.of_call hc
    cases ok with
    | false => cases ha
    | true =>
      have hde : ∀ o, (w.log.add w.obj o (.reread i true nowMs)).Decided retryCount nowMs :=
        fun o => ⟨ts, ht, by rw [hlo]; rfl⟩
      simp only [if_true, hf, next_failed]
      by_cases hk : retryCount + 1 ≤ maxRetries
      · simp only [hk, if_true]
        refine ⟨_, _, h.goto rfl h.lock rfl ⟨⟨nowMs, hde w.obj, ?_⟩, ?_⟩, by
          simp [rank, Act.skips, Why.ran]⟩
        · exact (congrArg (settle · _) hr).trans (settle_retryAt hk)
        · exact hf.trans (if_pos hk).symm
      · simp only [hk, if_false]
        have hla : retryCount = maxRetries := by omega
        exact ⟨_, _, h.goto rfl h.lock rfl ⟨rfl, hla, hf, nowMs, hde w.obj⟩,
          by simp [rank, Act.skips]⟩
  | clear hc =>
    obtain ⟨rfl, rfl, hn, hr, rfl, rfl, hf, nowMs, hde⟩ := h.of_call hc
    have hk : ¬ maxRetries + 1 ≤ maxRetries := Nat.not_succ_le_self _
    simp only [hf, if_true]
    refine ⟨_, _, h.goto rfl h.lock rfl ⟨⟨nowMs, hde, ?_⟩, ?_⟩, by
      simp [rank, Act.skips, Why.ran]⟩
    · exact (if_neg hk).symm
    · exact (if_neg hk).symm
  | @settle i retryCount seen alarm why hc =>
    obtain ⟨rfl, rfl, hn, ⟨s, hr⟩, hfi⟩ := h.of_call hc
    rw [Fits] at hfi
    cases hra : why.ran with
    | false =>
      rw [hra] at hfi
      obtain ⟨⟨t, rfl⟩, hf, hlo⟩ := hfi
      refine ⟨_, _, h.done rfl rfl rfl ⟨Nat.le_succ_of_le hn, ?_, ?_⟩,
        by simp [rank, Act.skips, hra]⟩
      · simpa [Log.add, hc, hra] using hlo
      · rw [if_pos hn]
        exact ⟨hf, t, by rw [hr]; rfl⟩
    | true =>
      rw [hra] at hfi
      obtain ⟨⟨nowMs, ⟨ts, ht, hlo⟩, hro⟩, hf⟩ := hfi
      refine ⟨_, _, h.done rfl rfl rfl ⟨Nat.succ_le_succ hn, ⟨ts ++ [nowMs], ?_, ?_⟩, ?_⟩, ?_⟩
      · rw [length_append, ht]
        rfl
      · simp [Log.add, hc, hra, hlo, rowsAfter_concat, ht, hro]
      · exact waits_after hf hro
      · simp only [rank, Act.skips, hra, if_true]
        omega
  | acquireSet hl hc =>
    rw [h.calls] at hc
    obtain ⟨d, -, hd⟩ := callsOf_eq_some hc
    cases hd
  | _ => cases ha

theorem Tracks.run {w' : Watched} {as : List Act} (h : Tracks atMs w n c)
    (ha : ∀ a ∈ as, a.fails = true) (hr : watched.run w as = some w') :
    ∃ n' c', Tracks atMs w' n' c' ∧
      as.length + rank n' c' ≤ rank n c + 12 * as.countP (Act.skips atMs) := by
  induction as generalizing w n c with
  | nil =>
    cases hr
    exact ⟨n, c, h, by simp⟩
  | cons a as ih =>
    obtain ⟨w1, hs, ht⟩ := bind_eq_some_iff.1 hr
    obtain ⟨n1, c1, h1, hle1⟩ := h.step (ha a mem_cons_self) hs
    obtain ⟨n', c', h', hle'⟩ := ih h1 (fun b hb => ha b (mem_cons_of_mem _ hb)) ht
    refine ⟨n', c', h', ?_⟩
    rw [countP_cons, length_cons]
    by_cases hsk : a.skips atMs = true
    · rw [if_pos hsk] at hle1 ⊢
      omega
    · rw [if_neg hsk] at hle1 ⊢
      omega

theorem Tracks.log (h : Tracks atMs w n c) :
    (∃ m, m ≤ maxRetries + 1 ∧ w.log.given = List.range m) ∧
      w.log.indexed <+: rowsAfter w.log.decided := by
  have hw : ∀ {n}, n ≤ maxRetries + 1 → w.log.Whole n →
      (∃ m, m ≤ maxRetries + 1 ∧ w.log.given = range m) ∧
        w.log.indexed <+: rowsAfter w.log.decided := by
    rintro n hn ⟨ts, -, hl⟩
    rw [hl]
    exact ⟨⟨n, hn, rfl⟩, prefix_refl _⟩
  have hd : ∀ {n nowMs}, n ≤ maxRetries → w.log.Decided n nowMs →
      (∃ m, m ≤ maxRetries + 1 ∧ w.log.given = range m) ∧
        w.log.indexed <+: rowsAfter w.log.decided := by
    rintro n nowMs hn ⟨ts, -, hl⟩
    rw [hl, rowsAfter_concat]
    exact ⟨⟨n + 1, Nat.succ_le_succ hn, rfl⟩, prefix_append _ _⟩
  cases c with
  | none => exact hw (h.waits rfl).1 (h.waits rfl).2.1
  | some x =>
    obtain ⟨i, retryCount, seen, phase⟩ := x
    obtain ⟨-, hn, -, hf⟩ := h.fits i _ rfl
    have hn' := Nat.le_succ_of_le hn
    cases phase with
    | started | found => exact hw hn' hf.2
    | running ran => exact hw hn' hf.2.2
    | pending alarm why => exact hw hn' hf.2.2.2
    | ended ran failed | reading ran failed =>
      obtain ⟨-, -, -, ts, -, hl⟩ := hf
      rw [hl]
      exact ⟨⟨n + 1, Nat.succ_le_succ hn, rfl⟩, prefix_refl _⟩
    | clearing ran =>
      obtain ⟨-, -, -, nowMs, hlo⟩ := hf
      exact hd hn hlo
    | settling alarm why =>
      simp only [Fits] at hf
      split at hf
      · obtain ⟨⟨nowMs, hlo, -⟩, -⟩ := hf
        exact hd hn hlo
      · exact hw hn' hf.2.2

theorem Tracks.can_step (h : Tracks atMs w n c) (hc : c = none → n ≤ maxRetries) :
    ∃ a, a.fails = true ∧ w.obj.step a ≠ none := by
  cases c with
  | none =>
    obtain ⟨-, -, hw⟩ := h.waits rfl
    rw [if_pos (hc rfl)] at hw
    obtain ⟨-, s, hr⟩ := hw
    exact ⟨.claim s, rfl, by simp [Obj.step, Obj.claim, hr, Row.due]⟩
  | some x =>
    obtain ⟨i, retryCount, seen, phase⟩ := x
    have hca : w.obj.calls i = some (.deliver ⟨retryCount, seen, phase⟩) := by
      rw [h.calls, callsOf, update_self]
    have hl := h.lock
    cases phase with
    | started => exact ⟨.lookup i .found 0, rfl, by simp [Obj.step, Obj.lookup, hca]⟩
    | found => exact ⟨.read i true 0, rfl, by simp [Obj.step, Obj.read, hca]⟩
    | running ran => exact ⟨.endRun i .failed 0, rfl, by simp [Obj.step, Obj.endRun, hca]⟩
    | ended ran failed | pending alarm why =>
      exact ⟨.acquire i, rfl, by simp [Obj.step, Obj.acquire, hca, hl, Call.holds]⟩
    | reading ran failed => exact ⟨.reread i true 0, rfl, by simp [Obj.step, Obj.reread, hca]⟩
    | clearing ran => exact ⟨.clear i true 0, rfl, by simp [Obj.step, Obj.clear, hca]⟩
    | settling alarm why => exact ⟨.settle i true, rfl, by simp [Obj.step, Obj.settle, hca]⟩

theorem Tracks.waits_of_quiet (h : Tracks atMs w n c) (hq : w.obj.Quiet) : c = none := by
  cases c with
  | none => rfl
  | some x =>
    have hca := hq x.1
    rw [h.calls, callsOf, update_self] at hca
    cases hca

end Step

/-! ## A run that ends with another alarm -/

theorem stays_of_update {o' : Obj} {j : Nat} {c x : Call} {c' : Option Call}
    (hi : o.calls i = none ∨ o.calls i = some x) (hc : o.calls j = some c)
    (hl : c ≠ x ∨ c' = none) (h : o'.calls = update o.calls j c') :
    o'.calls i = none ∨ o'.calls i = some x := by
  rw [h]
  by_cases hij : i = j
  · subst hij
    rcases hl with hne | hn
    · rw [hc] at hi
      rcases hi with hi | hi
      · cases hi
      · exact absurd (some.inj hi) hne
    · rw [update_self]
      exact .inl hn
  · rw [update_of_ne hij]
    exact hi

theorem Obj.Step.stays_settling {o' : Obj} {a : Act} {n : Nat} {seen : Option Int}
    {alarm : Option (Int × Nat)} {why : Why} (hs : o.Step a o') (hlt : i < o.count)
    (hi : o.calls i = none ∨ o.calls i = some (.deliver ⟨n, seen, .settling alarm why⟩)) :
    i < o'.count ∧ (o'.calls i = none ∨
      o'.calls i = some (.deliver ⟨n, seen, .settling alarm why⟩)) := by
  have hn : ∀ c, update o.calls o.count c i = o.calls i :=
    fun c => update_of_ne (Nat.ne_of_lt hlt) ..
  cases hs with
  | beginSet atMs => exact ⟨Nat.lt_succ_of_lt hlt, hi.imp (hn _).trans (hn _).trans⟩
  | claim hr hd => exact ⟨Nat.lt_succ_of_lt hlt, hi.imp (hn _).trans (hn _).trans⟩
  | restart => exact ⟨hlt, .inl rfl⟩
  | lowerFails hc | writeFails hc | follow hc | followFails hc | stopSet hc | settle hc
  | settleFails hc =>
    exact ⟨hlt, stays_of_update hi hc (.inr rfl) rfl⟩
  | acquireSet hl hc | acquireEnded hl hc | acquirePending hl hc =>
    exact ⟨hlt, stays_of_update hi hc (.inl (by simp)) rfl⟩
  | lower hc | writeSome hc | writeNone hc | read hc | readFails hc | clear hc | clearFails hc =>
    exact ⟨hlt, stays_of_update hi hc (.inl (by simp)) rfl⟩
  | lookup x hc | endRun x hc | reread x hc =>
    exact ⟨hlt, stays_of_update hi hc (.inl (by simp)) rfl⟩

/-- **A run that ends with another alarm keeps it.**  The delivery sees the file under the lock, so
what it settles on is what the file then holds, whatever else happens in between. -/
theorem kept_of_reread {o1 o2 o3 : Obj} {retryCount : Nat} {seen : Option Int} {atMs t nowMs : Int}
    {failed : Bool} {as : List Act} (h : machine.Reachable o)
    (hc : o.calls i = some (.deliver ⟨retryCount, seen, .reading atMs failed⟩))
    (hf : o.file = some t) (ht : t ≠ atMs) (h1 : machine.step o (.reread i true nowMs) = some o1)
    (h2 : machine.run o1 as = some o2) (h3 : machine.step o2 (.settle i true) = some o3) :
    o3.file = some t ∧
      o3.row = some { scheduledAt := t, retryCount := 0, delivering := false } := by
  have hin := inv_of_reach h
  have hlt : i < o.count := hin.lt _ _ hc
  have hse : i < o1.count ∧ (o1.calls i = none ∨
      o1.calls i = some (.deliver ⟨retryCount, seen, .settling (some (t, 0)) .current⟩)) := by
    simp only [machine, Obj.step, Obj.reread, hc, hf, if_true, next, ne_eq, ht,
      not_false_eq_true] at h1
    cases h1
    refine ⟨hlt, .inr ?_⟩
    simp [Obj.goto, ht]
  have hst := Machine.run_invariant (M := machine)
    (fun _ _ _ hi hs => (Obj.step_of_eq hs).stays_settling hi.1 hi.2) hse h2
  have hin2 := inv_of_reach ((h.step trivial h1).run (fun _ _ _ => trivial) h2)
  have hs3 : o2.Step (.settle i true) o3 := Obj.step_of_eq h3
  cases hs3 with
  | settle hc2 =>
    rcases hst.2 with hn | hso
    · rw [hc2] at hn
      cases hn
    · rw [hc2] at hso
      cases hso
      have hfi : some (t, 0) = o2.file.map fun atMs => (atMs, 0) := hin2.ok _ _ hc2
      refine ⟨?_, ?_⟩
      · cases hf2 : o2.file with
        | none => rw [hf2] at hfi; cases hfi
        | some t' => rw [hf2] at hfi; cases hfi; exact hf2
      · cases o2.row <;> simp [Alarms.settle, Alarms.follow]

/-! ## The result -/

/-- What is so after the steps `as` of an alarm that waited with no failed run, when all its runs
fail. -/
structure Counted (atMs : Int) (as : List Act) (w : Watched) : Prop where
  given : ∃ n, n ≤ maxRetries + 1 ∧ w.log.given = List.range n
  indexed : w.log.indexed <+: rowsAfter w.log.decided
  waits : w.obj.Quiet → Waits atMs w w.log.given.length
  bounded : as.length ≤ 12 * (maxRetries + 1) + 9 + 12 * as.countP (Act.skips atMs)
  dropped : (∀ a, a.fails = true → watched.step w a = none) →
    w.log.given = List.range (maxRetries + 1) ∧ w.obj.Quiet ∧ w.obj.file = none ∧ w.obj.row = none

theorem counted_of_quiet {atMs s : Int} {as : List Act} {w : Watched} (hq : o.Quiet)
    (hl : o.lock = none) (hf : o.file = some atMs)
    (hr : o.row = some { scheduledAt := s, retryCount := 0, delivering := false })
    (ha : ∀ a ∈ as, a.fails = true) (hru : watched.run ⟨o, ⟨[], [], []⟩⟩ as = some w) :
    Counted atMs as w := by
  have hstr : Tracks atMs ⟨o, ⟨[], [], []⟩⟩ 0 none := by
    refine ⟨funext hq, hl, fun _ => ⟨Nat.zero_le _, ⟨[], rfl, rfl⟩, hf, s, hr⟩, fun _ _ hc => ?_⟩
    cases hc
  obtain ⟨n, c, h, hlen⟩ := hstr.run ha hru
  refine ⟨h.log.1, h.log.2, fun hqt => ?_, (Nat.le_add_right _ _).trans hlen, fun hst => ?_⟩
  · obtain rfl := h.waits_of_quiet hqt
    have hw := h.waits rfl
    obtain ⟨ts, -, hlo⟩ := hw.2.1
    have hn : w.log.given.length = n := by rw [hlo, length_range]
    rw [hn]
    exact hw
  · by_cases hleft : c = none → n ≤ maxRetries
    · obtain ⟨a, ha, hs⟩ := h.can_step hleft
      exact absurd (map_eq_none_iff.1 (hst a ha)) hs
    · obtain ⟨rfl, hn⟩ := Classical.not_imp.1 hleft
      obtain ⟨hle, ⟨ts, -, hlo⟩, hgo⟩ := h.waits rfl
      rw [if_neg hn] at hgo
      refine ⟨?_, fun i => by rw [h.calls]; rfl, hgo⟩
      rw [hlo, Nat.le_antisymm hle (Nat.lt_of_not_le hn)]

/-- **Alarm retries are bounded and counted.**  Take an alarm that waits with no failed run, and let
every run of its handler fail while nobody sets the alarm and the file and the index are there; any
number of deliveries may be refused, not start, or be early.  Then the runs are `Counted`.

And a run, failed or not, that ends with another alarm in the file leaves that one in file and
index, with no failed run. -/
theorem alarm_retries_counted :
    (∀ (o : Obj) (atMs s : Int), o.Quiet → o.lock = none → o.file = some atMs →
      o.row = some { scheduledAt := s, retryCount := 0, delivering := false } →
      ∀ (as : List Act) (w : Watched), (∀ a ∈ as, a.fails = true) →
      watched.run ⟨o, ⟨[], [], []⟩⟩ as = some w → Counted atMs as w) ∧
    ∀ (o o₁ o₂ o₃ : Obj) (i retryCount : Nat) (seen : Option Int) (atMs t nowMs : Int)
      (failed : Bool) (as : List Act), machine.Reachable o →
      o.calls i = some (.deliver ⟨retryCount, seen, .reading atMs failed⟩) → o.file = some t →
      t ≠ atMs → machine.step o (.reread i true nowMs) = some o₁ → machine.run o₁ as = some o₂ →
      machine.step o₂ (.settle i true) = some o₃ → o₃.file = some t ∧
          o₃.row = some { scheduledAt := t, retryCount := 0, delivering := false } := by
  constructor
  · intro o atMs s hq hl hf hr as w ha hrun
    exact counted_of_quiet hq hl hf hr ha hrun
  · intro o o₁ o₂ o₃ i retryCount seen atMs t nowMs failed as h hc hf ht h₁ h₂ h₃
    exact kept_of_reread h hc hf ht h₁ h₂ h₃

def early : Obj :=
  { Obj.empty with file := some 10, row := some { scheduledAt := 4, retryCount := 0,
                                                  delivering := false } }

def failedRun (i : Nat) (now : Int) : List Act :=
  [.claim now, .lookup i .found now, .read i true now, .endRun i .failed now, .acquire i,
    .reread i true now]

def sevenFailures : List Act :=
  List.flatten [
    [.claim 5, .lookup 0 .found 5, .read 0 true 5, .acquire 0, .settle 0 true],
    failedRun 1 10, [.settle 1 true],
    [.claim 2010, .lookup 2 .found 2010, .read 2 true 2010, .endRun 2 .refused 2010, .acquire 2,
      .settle 2 true],
    failedRun 3 4000, [.settle 3 true],
    [.claim 8000, .lookup 4 .failed 8000, .acquire 4, .settle 4 true],
    failedRun 5 10000, [.settle 5 true], failedRun 6 20000, [.settle 6 true],
    failedRun 7 40000, [.settle 7 true], failedRun 8 80000, [.settle 8 true],
    failedRun 9 160000, [.clear 9 true 160000, .settle 9 true]]

def setsAnother : List Act :=
  [.beginSet (some 10), .acquire 0, .lower 0 true, .write 0 true, .follow 0 true,
    .claim 20, .lookup 1 .found 20, .read 1 true 20,
    .beginSet (some 50), .acquire 2, .lower 2 true, .write 2 true, .follow 2 true,
    .endRun 1 .failed 20, .acquire 1]

theorem alarm_retries_counted_seven :
    (∃ w, watched.run ⟨early, ⟨[], [], []⟩⟩ sevenFailures = some w ∧
      w.log.given = [0, 1, 2, 3, 4, 5, 6] ∧ w.log.indexed <+: rowsAfter w.log.decided) ∧
    ∃ o o₁ o₃, machine.Reachable o ∧ machine.step o (.reread 1 true 20) = some o₁ ∧
      machine.step o₁ (.settle 1 true) = some o₃ ∧ o₃.file = some 50 ∧
      o₃.row = some { scheduledAt := 50, retryCount := 0, delivering := false } := by
  constructor
  · have hrun : ((watched.run ⟨early, ⟨[], [], []⟩⟩ sevenFailures).any
        fun w => decide (w.log.given = [0, 1, 2, 3, 4, 5, 6])) = true := by decide +kernel
    obtain ⟨w, hw, hgiven⟩ := (Option.any_eq_true _ _).mp hrun
    have h := alarm_retries_counted.1 early 10 4 (fun _ => rfl) rfl rfl rfl sevenFailures w
      (by decide) hw
    exact ⟨w, hw, of_decide_eq_true hgiven, h.indexed⟩
  · obtain ⟨o, ho, hc, hf, hstep⟩ := machine.exists_of_run setsAnother
      (fun o => o.calls 1 = some (.deliver ⟨0, some 10, .reading 10 true⟩) ∧ o.file = some 50 ∧
        (machine.step o (.reread 1 true 20)).any fun o₁ =>
          (machine.step o₁ (.settle 1 true)).isSome) (by decide +kernel)
    obtain ⟨o₁, h₁, hsettled⟩ := (Option.any_eq_true _ _).mp hstep
    obtain ⟨o₃, h₃⟩ := isSome_iff_exists.mp hsettled
    have h := alarm_retries_counted.2 o o₁ o₁ o₃ 1 0 (some 10) 10 50 20 true [] ho hc hf
      (by decide) h₁ rfl h₃
    exact ⟨o, o₁, o₃, ho, h₁, h₃, h⟩

end OpenWorkersRunner.Alarms
