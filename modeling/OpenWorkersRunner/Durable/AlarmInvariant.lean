import OpenWorkersRunner.Durable.Alarms

/-!
# The lock of an object, and what its holder knows

The index writes of one object hold its alarm lock.  This file says what that gives: in every
reachable state at most one call is inside `locked`, and what such a call has seen of the file and
of the index row is still so, because nobody else can have written them (`Inv`).
-/

namespace OpenWorkersRunner.Alarms

/-! ## What a step can do -/

inductive Obj.Step (o : Obj) : Act → Obj → Prop
  | beginSet (atMs : Option Int) : Step o (.beginSet atMs) (o.beginSet atMs)
  | acquireSet {i : Nat} {atMs : Option Int} (hl : o.lock = none)
      (hc : o.calls i = some (.set atMs .waiting)) :
      Step o (.acquire i) { o.goto i (.set atMs .locked) with lock := some i }
  | acquireEnded {i retryCount : Nat} {seen : Option Int} {atMs : Int} {failed : Bool}
      (hl : o.lock = none)
      (hc : o.calls i = some (.deliver ⟨retryCount, seen, .ended atMs failed⟩)) :
      Step o (.acquire i)
        { o.goto i (.deliver ⟨retryCount, seen, .reading atMs failed⟩) with lock := some i }
  | acquirePending {i retryCount : Nat} {seen : Option Int} {alarm : Option (Int × Nat)} {why : Why}
      (hl : o.lock = none)
      (hc : o.calls i = some (.deliver ⟨retryCount, seen, .pending alarm why⟩)) :
      Step o (.acquire i)
        { o.goto i (.deliver ⟨retryCount, seen, .settling alarm why⟩) with lock := some i }
  | lower {i : Nat} {atMs : Int} (hc : o.calls i = some (.set (some atMs) .locked)) :
      Step o (.lower i true) { o.goto i (.set (some atMs) .lowered) with
        row := some (Alarms.lower o.row atMs), retryOf := o.row.bind fun _ => o.retryOf }
  | lowerFails {i : Nat} {atMs : Int} (hc : o.calls i = some (.set (some atMs) .locked)) :
      Step o (.lower i false) (o.done i)
  | writeSome {i : Nat} {atMs : Int} (hc : o.calls i = some (.set (some atMs) .lowered)) :
      Step o (.write i true) { o.goto i (.set (some atMs) .written) with file := some atMs }
  | writeNone {i : Nat} (hc : o.calls i = some (.set none .locked)) :
      Step o (.write i true) { o.goto i (.set none .written) with file := none }
  | writeFails {i : Nat} {atMs : Option Int} {phase : SetPhase}
      (hc : o.calls i = some (.set atMs phase)) : Step o (.write i false) (o.done i)
  | follow {i : Nat} {atMs : Option Int} (hc : o.calls i = some (.set atMs .written)) :
      Step o (.follow i true) { o.done i with
        row := Alarms.follow o.row (atMs.map fun atMs => (atMs, 0)) .keep, retryOf := none }
  | followFails {i : Nat} {atMs : Option Int} (hc : o.calls i = some (.set atMs .written)) :
      Step o (.follow i false) (o.done i)
  | stopSet {i : Nat} {atMs : Option Int} {phase : SetPhase}
      (hc : o.calls i = some (.set atMs phase)) : Step o (.stopSet i) (o.done i)
  | claim {now : Int} {row : Row} (hr : o.row = some row) (hd : row.due now = true) :
      Step o (.claim now) { o.goto o.count (.deliver ⟨row.retryCount.toNat, o.file, .started⟩) with
        row := some { row with delivering := true }, count := o.count + 1
        markedBy := some o.count }
  | lookup {i retryCount : Nat} {seen : Option Int} {nowMs : Int} (answer : Lookup)
      (hc : o.calls i = some (.deliver ⟨retryCount, seen, .started⟩)) :
      Step o (.lookup i answer nowMs) (o.goto i (.deliver ⟨retryCount, seen, match answer with
        | .failed => .pending (settleLater nowMs retryCount) .notStarted
        | .gone => .pending none .gone
        | .found => .found⟩))
  | read {i retryCount : Nat} {seen : Option Int} {nowMs : Int}
      (hc : o.calls i = some (.deliver ⟨retryCount, seen, .found⟩)) :
      Step o (.read i true nowMs) (o.goto i (.deliver ⟨retryCount, o.file, match o.file with
        | none => .pending none .early
        | some atMs =>
          if atMs ≤ nowMs then .running atMs else .pending (some (atMs, retryCount)) .early⟩))
  | readFails {i retryCount : Nat} {seen : Option Int} {nowMs : Int}
      (hc : o.calls i = some (.deliver ⟨retryCount, seen, .found⟩)) :
      Step o (.read i false nowMs) (o.goto i (.deliver ⟨retryCount, seen,
        .pending (settleLater nowMs retryCount) .notStarted⟩))
  | endRun {i retryCount : Nat} {seen : Option Int} {atMs nowMs : Int} (outcome : Outcome)
      (hc : o.calls i = some (.deliver ⟨retryCount, seen, .running atMs⟩)) :
      Step o (.endRun i outcome nowMs) (o.goto i (.deliver ⟨retryCount, seen, match outcome with
        | .ok => .ended atMs false
        | .failed => .ended atMs true
        | .refused => .pending (settleLater nowMs retryCount) .notStarted⟩))
  | reread {i retryCount : Nat} {seen : Option Int} {atMs nowMs : Int} {failed : Bool} (ok : Bool)
      (hc : o.calls i = some (.deliver ⟨retryCount, seen, .reading atMs failed⟩)) :
      Step o (.reread i ok nowMs) (o.goto i (.deliver ⟨retryCount, seen,
        match next atMs (if ok then o.file else some atMs)
          (if failed then some (retryCount + 1) else none) nowMs with
        | .clear => .clearing atMs
        | .keep keptAt count => .settling (some (keptAt, count))
            (if (if ok then o.file else some atMs) = some atMs then .failed ok else .current)⟩))
  | clear {i retryCount : Nat} {seen : Option Int} {atMs nowMs : Int}
      (hc : o.calls i = some (.deliver ⟨retryCount, seen, .clearing atMs⟩)) :
      Step o (.clear i true nowMs) { o.goto i (.deliver ⟨retryCount, seen,
          .settling ((if o.file = some atMs then none else o.file).map fun atMs => (atMs, 0))
            .current⟩) with
        file := if o.file = some atMs then none else o.file }
  | clearFails {i retryCount : Nat} {seen : Option Int} {atMs nowMs : Int}
      (hc : o.calls i = some (.deliver ⟨retryCount, seen, .clearing atMs⟩)) :
      Step o (.clear i false nowMs) (o.goto i (.deliver ⟨retryCount, seen,
        .settling (some (retryAt nowMs retryCount, retryCount)) .uncleared⟩))
  | settle {i retryCount : Nat} {seen : Option Int} {alarm : Option (Int × Nat)} {why : Why}
      (hc : o.calls i = some (.deliver ⟨retryCount, seen, .settling alarm why⟩)) :
      Step o (.settle i true) { o.done i with
        row := Alarms.settle o.row alarm
        retryOf := why.retryOf seen }
  | settleFails {i retryCount : Nat} {seen : Option Int} {alarm : Option (Int × Nat)} {why : Why}
      (hc : o.calls i = some (.deliver ⟨retryCount, seen, .settling alarm why⟩)) :
      Step o (.settle i false) (o.done i)
  | restart : Step o .restart o.restart

variable {o o' : Obj} {c c' : Call} {i : Nat}

theorem Obj.step_of_eq {a : Act} (h : o.step a = some o') : o.Step a o' := by
  cases a with
  | beginSet atMs => cases h; exact .beginSet atMs
  | acquire i =>
    simp only [Obj.step, Obj.acquire] at h
    split at h
    · cases h
    next hl =>
      rw [not_not] at hl
      split at h
      · cases h; exact .acquireSet hl ‹_›
      · cases h; exact .acquireEnded hl ‹_›
      · cases h; exact .acquirePending hl ‹_›
      · cases h
  | lower i ok =>
    simp only [Obj.step, Obj.lower] at h
    split at h
    · cases ok <;> cases h
      · exact .lowerFails ‹_›
      · exact .lower ‹_›
    · cases h
  | write i ok =>
    simp only [Obj.step, Obj.write] at h
    split at h
    · cases ok <;> cases h
      · exact .writeFails ‹_›
      · exact .writeSome ‹_›
    · cases ok <;> cases h
      · exact .writeFails ‹_›
      · exact .writeNone ‹_›
    · cases h
  | follow i ok =>
    simp only [Obj.step, Obj.follow] at h
    split at h
    · cases ok <;> cases h
      · exact .followFails ‹_›
      · exact .follow ‹_›
    · cases h
  | stopSet i =>
    simp only [Obj.step, Obj.stopSet] at h
    split at h
    · cases h; exact .stopSet ‹_›
    · cases h
  | claim now =>
    simp only [Obj.step, Obj.claim] at h
    split at h
    · cases h
    · split at h
      · cases h; exact .claim ‹_› ‹_›
      · cases h
  | lookup i ans nowMs =>
    simp only [Obj.step, Obj.lookup] at h
    split at h
    · cases h; exact .lookup ans ‹_›
    · cases h
  | read i ok nowMs =>
    simp only [Obj.step, Obj.read] at h
    split at h
    · cases ok <;> cases h
      · exact .readFails ‹_›
      · exact .read ‹_›
    · cases h
  | endRun i out nowMs =>
    simp only [Obj.step, Obj.endRun] at h
    split at h
    · cases h; exact .endRun out ‹_›
    · cases h
  | reread i ok nowMs =>
    simp only [Obj.step, Obj.reread] at h
    split at h
    · cases h; exact .reread ok ‹_›
    · cases h
  | clear i ok nowMs =>
    simp only [Obj.step, Obj.clear] at h
    split at h
    · cases ok <;> cases h
      · exact .clearFails ‹_›
      · exact .clear ‹_›
    · cases h
  | settle i ok =>
    simp only [Obj.step, Obj.settle] at h
    split at h
    · cases ok <;> cases h
      · exact .settleFails ‹_›
      · exact .settle ‹_›
    · cases h
  | restart => cases h; exact .restart

/-! ## What the calls know -/

def Obj.IndexedBy (o : Obj) (atMs : Int) : Prop := ∃ r, o.row = some r ∧ r.scheduledAt ≤ atMs

/-- What a delivery knows of the alarm it settles on.  The last two reasons only stand under the
lock, and are about the file as it is. -/
def SettleOk (o : Obj) (d : Delivery) (alarm : Option (Int × Nat)) : Why → Prop
  | .early => alarm = d.seen.map fun atMs => (atMs, d.retryCount)
  | .notStarted => alarm ≠ none
  | .gone => alarm = none
  | .failed reread => alarm ≠ none ∧ (reread = true → o.file = d.seen)
  | .current => alarm = o.file.map fun atMs => (atMs, 0)
  | .uncleared => True

def Why.Unread : Why → Prop
  | .early | .notStarted | .gone => True
  | _ => False

def CallOk (o : Obj) : Call → Prop
  | .set (some atMs) .lowered => o.IndexedBy atMs
  | .set (some atMs) .written => o.file = some atMs ∧ o.IndexedBy atMs
  | .set none .written => o.file = none
  | .set _ _ => True
  | .deliver d =>
    match d.phase with
    | .running atMs | .ended atMs _ | .reading atMs _ | .clearing atMs => d.seen = some atMs
    | .pending alarm why => why.Unread ∧ SettleOk o d alarm why
    | .settling alarm why => SettleOk o d alarm why
    | _ => True

/-- The invariant of the lock: whoever is inside `locked` holds it, and every call knows what it
should. -/
structure Inv (o : Obj) : Prop where
  lt : ∀ i c, o.calls i = some c → i < o.count
  holds : ∀ i c, o.calls i = some c → c.holds = true → o.lock = some i
  ok : ∀ i c, o.calls i = some c → CallOk o c

theorem CallOk.of_not_holds (hc : c.holds = false) (h : CallOk o c) : CallOk o' c := by
  cases c with
  | set atMs phase =>
    cases phase
    case waiting => cases atMs <;> trivial
    all_goals cases hc
  | deliver d =>
    obtain ⟨n, seen, phase⟩ := d
    cases phase with
    | pending alarm why =>
      refine ⟨h.1, ?_⟩
      cases why
      case early => exact h.2
      case notStarted => exact h.2
      case gone => exact h.2
      all_goals exact h.1.elim
    | reading | clearing | settling => cases hc
    | _ => exact h

theorem SettleOk.congr {d : Delivery} {alarm : Option (Int × Nat)} {why : Why}
    (hf : o'.file = o.file) (h : SettleOk o d alarm why) : SettleOk o' d alarm why := by
  cases why with
  | failed reread => exact ⟨h.1, fun hr => hf.trans (h.2 hr)⟩
  | current => rw [SettleOk, hf]; exact h
  | _ => exact h

/-- A step that leaves the file alone, and the index no later, takes nothing from what a call
knows. -/
theorem CallOk.congr (hf : o'.file = o.file) (hr : ∀ atMs, o.IndexedBy atMs → o'.IndexedBy atMs)
    (h : CallOk o c) : CallOk o' c := by
  cases c with
  | set atMs phase =>
    cases atMs <;> cases phase
    case some.lowered => exact hr _ h
    case some.written => exact ⟨hf.trans h.1, hr _ h.2⟩
    case none.written => exact hf.trans h
    all_goals trivial
  | deliver d =>
    obtain ⟨n, seen, phase⟩ := d
    cases phase with
    | pending alarm why => exact ⟨h.1, h.2.congr hf⟩
    | settling alarm why => exact SettleOk.congr hf h
    | _ => exact h

/-- **A step keeps the invariant when the call that moves keeps its part.**  Either the step
changes nothing the others know of, or it is made under the lock and no other call holds it. -/
theorem Inv.update (h : Inv o) (i : Nat) (c' : Option Call)
    (hcl : o'.calls = Function.update o.calls i c') (hcn : o.count ≤ o'.count)
    (hi : c' ≠ none → i < o'.count) (hl : ∀ j, j ≠ i → o.lock = some j → o'.lock = some j)
    (hfr : (o'.file = o.file ∧ ∀ atMs, o.IndexedBy atMs → o'.IndexedBy atMs) ∨ o.lock = some i)
    (hn : ∀ c, c' = some c → (c.holds = true → o'.lock = some i) ∧ CallOk o' c) : Inv o' := by
  have hca : ∀ j c, o'.calls j = some c → (j = i ∧ c' = some c) ∨ (j ≠ i ∧ o.calls j = some c) := by
    intro j c hj
    by_cases hji : j = i
    · subst hji; rw [hcl, Function.update_self] at hj; exact .inl ⟨rfl, hj⟩
    · rw [hcl, Function.update_of_ne hji] at hj; exact .inr ⟨hji, hj⟩
  refine ⟨fun j c hj => ?_, fun j c hj hh => ?_, fun j c hj => ?_⟩
  · rcases hca j c hj with ⟨rfl, hc⟩ | ⟨-, hc⟩
    · exact hi (by rw [hc]; simp)
    · exact Nat.lt_of_lt_of_le (h.lt j c hc) hcn
  · rcases hca j c hj with ⟨rfl, hc⟩ | ⟨hji, hc⟩
    · exact (hn c hc).1 hh
    · exact hl j hji (h.holds j c hc hh)
  · rcases hca j c hj with ⟨rfl, hc⟩ | ⟨hji, hc⟩
    · exact (hn c hc).2
    · rcases hfr with ⟨hf, hr⟩ | hli
      · exact (h.ok j c hc).congr hf hr
      · cases hh : c.holds with
        | false => exact (h.ok j c hc).of_not_holds hh
        | true => exact absurd (Option.some.inj ((h.holds j c hc hh).symm.trans hli)) hji

/-! ## Every step keeps it -/

theorem Obj.lock_done {j : Nat} (hji : j ≠ i) (hj : o.lock = some j) :
    (o.done i).lock = some j := by
  simp [Obj.done, hj, hji]

theorem Inv.done (h : Inv o) (i : Nat) : Inv (o.done i) :=
  h.update i none rfl (Nat.le_refl _) (by simp) (fun _ => Obj.lock_done) (.inl ⟨rfl, fun _ h => h⟩)
    (by simp)

theorem Inv.doneWith (h : Inv o) (hc : o.calls i = some c) (hh : c.holds = true) (row : Option Row)
    (retryOf : Option Int) : Inv { o.done i with row := row, retryOf := retryOf } :=
  h.update i none rfl (Nat.le_refl _) (by simp) (fun _ => Obj.lock_done)
    (.inr (h.holds i c hc hh)) (by simp)

theorem Inv.goto (h : Inv o) (hc : o.calls i = some c) (hh : c'.holds = true → c.holds = true)
    (hok : CallOk o c → CallOk o c') : Inv (o.goto i c') := by
  refine h.update i (some c') rfl (Nat.le_refl _) (fun _ => h.lt i c hc) (fun j _ hj => hj)
    (.inl ⟨rfl, fun _ h => h⟩) ?_
  rintro _ ⟨⟩
  exact ⟨fun h' => h.holds i c hc (hh h'), (hok (h.ok i c hc)).congr rfl fun _ h => h⟩

theorem Inv.write (h : Inv o) (hc : o.calls i = some c) (hh : c.holds = true)
    (hcl : o'.calls = Function.update o.calls i (some c')) (hcn : o'.count = o.count)
    (hl : o'.lock = o.lock) (hok : CallOk o' c') : Inv o' := by
  have hli := h.holds i c hc hh
  refine h.update i (some c') hcl (Nat.le_of_eq hcn.symm) (fun _ => ?_)
    (fun j _ hj => hl.trans hj) (.inr hli) ?_
  · rw [hcn]
    exact h.lt i c hc
  · rintro _ ⟨⟩
    exact ⟨fun _ => hl.trans hli, hok⟩

theorem Inv.acquire (h : Inv o) (hc : o.calls i = some c) (hl : o.lock = none)
    (hok : CallOk o c → CallOk o c') : Inv { o.goto i c' with lock := some i } := by
  refine h.update i (some c') rfl (Nat.le_refl _) (fun _ => h.lt i c hc) (fun j _ hj => ?_)
    (.inl ⟨rfl, fun _ h => h⟩) ?_
  · rw [hl] at hj; cases hj
  · rintro _ ⟨⟩
    exact ⟨fun _ => rfl, (hok (h.ok i c hc)).congr rfl fun _ h => h⟩

theorem lower_scheduledAt_le (row : Option Row) (atMs : Int) :
    (lower row atMs).scheduledAt ≤ atMs := by
  cases row with
  | none => exact Int.le_refl _
  | some r => exact Int.min_le_right _ _

theorem next_eq_keep {atMs nowMs keptAt : Int} {cur : Option Int} {failedRuns : Option Nat}
    {count : Nat} (h : next atMs cur failedRuns nowMs = .keep keptAt count) :
    (cur = some keptAt ∧ keptAt ≠ atMs ∧ count = 0) ∨
      (cur = some atMs ∧ failedRuns = some count ∧ count ≤ maxRetries ∧
        keptAt = retryAt nowMs count) := by
  unfold next at h
  split at h
  · cases h
  · split at h
    next hne =>
      cases h
      exact .inl ⟨rfl, hne, rfl⟩
    next heq =>
      rw [not_not] at heq
      split at h
      · cases h
      · split at h
        · cases h
          exact .inr ⟨by rw [heq], rfl, ‹_›, rfl⟩
        · cases h

theorem callOk_reread {n : Nat} {seen : Option Int} {atMs nowMs : Int} {failed : Bool}
    (ok : Bool) (hse : seen = some atMs) :
    CallOk o (.deliver ⟨n, seen, match next atMs (if ok then o.file else some atMs)
        (if failed then some (n + 1) else none) nowMs with
      | .clear => .clearing atMs
      | .keep keptAt count => .settling (some (keptAt, count))
          (if (if ok then o.file else some atMs) = some atMs then .failed ok else .current)⟩) := by
  split
  · exact hse
  next keptAt count hn =>
    by_cases hcu : (if ok then o.file else some atMs) = some atMs
    · rw [if_pos hcu]
      refine ⟨by simp, fun hok => ?_⟩
      rw [hok, if_pos rfl] at hcu
      exact hcu.trans hse.symm
    · rw [if_neg hcu]
      rcases next_eq_keep hn with ⟨hk, -, rfl⟩ | ⟨hk, -⟩
      · cases ok with
        | false => exact absurd rfl hcu
        | true =>
          rw [if_pos rfl] at hk
          exact (by rw [hk]; rfl : some (keptAt, 0) = o.file.map fun atMs => (atMs, 0))
      · exact absurd hk hcu

theorem inv_step {a : Act} (h : Inv o) (hs : o.Step a o') : Inv o' := by
  cases hs with
  | beginSet atMs =>
    refine h.update o.count (some (.set atMs .waiting)) rfl (Nat.le_succ _)
      (fun _ => Nat.lt_succ_self _) (fun j _ hj => hj) (.inl ⟨rfl, fun _ h => h⟩) ?_
    rintro _ ⟨⟩
    exact ⟨nofun, by cases atMs <;> trivial⟩
  | acquireSet hl hc => exact h.acquire hc hl fun _ => by cases ‹Option Int› <;> trivial
  | acquireEnded hl hc => exact h.acquire hc hl fun hk => hk
  | acquirePending hl hc => exact h.acquire hc hl fun hk => hk.2
  | lower hc => exact h.write hc rfl rfl rfl rfl ⟨_, rfl, lower_scheduledAt_le _ _⟩
  | writeSome hc => exact h.write hc rfl rfl rfl rfl ⟨rfl, h.ok _ _ hc⟩
  | writeNone hc => exact h.write hc rfl rfl rfl rfl rfl
  | lowerFails hc | writeFails hc | followFails hc | stopSet hc | settleFails hc => exact h.done _
  | follow hc | settle hc => exact h.doneWith hc rfl _ _
  | @claim now row hr hd =>
    refine h.update o.count (some (.deliver ⟨row.retryCount.toNat, o.file, .started⟩)) rfl
      (Nat.le_succ _) (fun _ => Nat.lt_succ_self _) (fun j _ hj => hj) (.inl ⟨rfl, ?_⟩) ?_
    · rintro atMs ⟨r, hr', hle⟩
      rw [hr] at hr'
      cases hr'
      exact ⟨_, rfl, hle⟩
    · rintro _ ⟨⟩
      exact ⟨nofun, trivial⟩
  | lookup ans hc =>
    refine h.goto hc (fun hh => ?_) fun _ => ?_
    · cases ans <;> cases hh
    · cases ans
      · exact ⟨trivial, by simp [SettleOk, settleLater]⟩
      · exact ⟨trivial, rfl⟩
      · trivial
  | @read i n seen nowMs hc =>
    cases hf : o.file with
    | none =>
      exact h.goto hc nofun fun _ => ⟨trivial, rfl⟩
    | some atMs =>
      by_cases hle : atMs ≤ nowMs
      · simp only [hle, if_true]
        exact h.goto hc nofun fun _ => rfl
      · simp only [hle, if_false]
        exact h.goto hc nofun fun _ => ⟨trivial, rfl⟩
  | readFails hc =>
    exact h.goto hc nofun fun _ => ⟨trivial, by simp [SettleOk, settleLater]⟩
  | endRun out hc =>
    refine h.goto hc (fun hh => ?_) fun hk => ?_
    · cases out <;> cases hh
    · cases out
      · exact hk
      · exact hk
      · exact ⟨trivial, by simp [SettleOk, settleLater]⟩
  | @reread i n seen atMs nowMs failed ok hc =>
    exact h.goto hc (fun _ => rfl) fun hk => callOk_reread ok hk
  | clear hc => exact h.write hc rfl rfl rfl rfl rfl
  | clearFails hc => exact h.goto hc (fun _ => rfl) fun _ => trivial
  | restart => exact ⟨by simp [Obj.restart], by simp [Obj.restart], by simp [Obj.restart]⟩

/-- **The lock excludes, and what is seen under it stays so**, in every reachable state. -/
theorem inv_of_reach {ok : Obj → Act → Prop} (h : machine.Reach ok o) : Inv o := by
  refine h.invariant (I := Inv) ?_ fun o a o' _ hi _ hs => inv_step hi (Obj.step_of_eq hs)
  constructor <;> simp [machine, Obj.empty]

end OpenWorkersRunner.Alarms
