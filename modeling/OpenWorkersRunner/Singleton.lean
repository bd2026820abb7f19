import Mathlib.Order.Basic
import OpenWorkersRunner.Lib.Machine
import OpenWorkersRunner.Lib.Parties

/-!
# One runner per database (`singleton.rs`)

A runner works while `hold` has not returned: from the answer to `pg_try_advisory_lock` on, and as
long as a `SELECT 1` on the session of the lock is answered each time.  The database lets the lock
go when the session ends, which the runner does not see at once, so another runner can start before
this one stops.  The clock is in milliseconds and a timer fires when it is due: time does not pass
it.  How long an answer is on its way, nothing bounds.
-/

namespace OpenWorkersRunner.Singleton

open List Option Parties

@[simp] def checkInterval : ℕ := 1000

@[simp] def checkTimeout : ℕ := 3000

/-- Where a runner is.  `check` is a `SELECT 1` under its timeout; `answered` is set when the
database has answered it, before the runner reads that. -/
inductive Hold
  | acquiring
  | sleep (due : ℕ)
  | check (due : ℕ) (answered : Bool)
  | returned
deriving DecidableEq

def Hold.due : Hold → Option ℕ
  | sleep due | check due _ => some due
  | acquiring | returned => none

structure Runner where
  hold : Hold
  began : ℕ
  lost : Option ℕ
deriving DecidableEq

def Runner.runs (r : Runner) : Bool := r.hold ≠ .acquiring && r.hold ≠ .returned

/-- `lose` is the end of the session at the database, `exit` that of the process by other ways than
`hold`.  Neither waits for the other. -/
inductive Move
  | begin | wake | answer | done | fail | exit | lose
deriving DecidableEq

def Runner.move (now : ℕ) (r : Runner) (m : Move) : Option Runner :=
  match m, r.hold with
  | .begin, .acquiring => some { r with hold := .sleep (now + checkInterval), began := now }
  | .wake, .sleep due =>
    if due ≤ now then some { r with hold := .check (now + checkTimeout) false } else none
  | .answer, .check due _ =>
    if r.lost = none then some { r with hold := .check due true } else none
  | .done, .check _ true => some { r with hold := .sleep (now + checkInterval) }
  -- an error, or no answer in time
  | .fail, .check _ _ => some { r with hold := .returned }
  | .exit, _ => some { r with hold := .returned }
  | .lose, _ => if r.lost = none then some { r with lost := some now } else none
  | _, _ => none

structure State where
  now : ℕ
  runners : List Runner
deriving DecidableEq

inductive Act
  | acquire
  | tick (d : ℕ)
  | move (i : ℕ) (m : Move)
deriving DecidableEq

/-- `acquire` of a lock that a session has is an `Err`, with which the process ends. -/
def State.step (s : State) : Act → Option State
  | .acquire =>
    if ∀ r ∈ s.runners, r.lost ≠ none then
      some { s with runners := s.runners ++ [⟨.acquiring, 0, none⟩] }
    else some s
  | .tick d =>
    if ∀ r ∈ s.runners, ∀ due ∈ r.hold.due, s.now + d ≤ due then some { s with now := s.now + d }
    else none
  | .move i m =>
    s.runners[i]?.bind fun r =>
      (r.move s.now m).map fun r => { s with runners := s.runners.set i r }

def machine : Machine State Act := ⟨⟨0, []⟩, State.step⟩

variable {s t : State} {r r' : Runner} {m : Move} {now : ℕ}

/-! ## The timers of a runner -/

@[simp] def Runner.limit (r : Runner) (lost : ℕ) : ℕ :=
  max (lost + (2 * checkTimeout + checkInterval)) (r.began + (checkInterval + checkTimeout))

/-- How far the timers of a runner reach.  A session that is not lost counts as lost now. -/
def Timely (now : ℕ) (r : Runner) : Prop :=
  let lost := r.lost.getD now
  match r.hold with
  | .acquiring | .returned => True
  | .sleep due =>
    now ≤ due ∧ due ≤ max (lost + checkTimeout + checkInterval) (r.began + checkInterval)
  | .check due answered =>
    now ≤ due ∧ due ≤ now + checkTimeout ∧
      -- the session was there when it answered
      due ≤ if answered then lost + checkTimeout else r.limit lost

theorem Timely.move (ht : Timely now r) (h : r.move now m = some r') : Timely now r' := by
  obtain ⟨hold, began, lost⟩ := r
  revert h
  fun_cases Runner.move now _ m <;> rintro ⟨⟩ <;> simp_all [Timely] <;> omega

theorem Timely.tick {d : ℕ} (ht : Timely now r) (hd : ∀ due ∈ r.hold.due, now + d ≤ due) :
    Timely (now + d) r := by
  obtain ⟨hold, began, lost⟩ := r
  cases hold with
  | acquiring | returned => trivial
  | sleep due =>
    cases lost <;> simp_all [Timely, Hold.due]
    omega
  | check due answered =>
    cases lost <;> cases answered <;> simp_all [Timely, Hold.due] <;> omega

theorem Timely.stops (ht : Timely now r) (hr : r.runs) : now ≤ r.limit (r.lost.getD now) := by
  obtain ⟨hold, began, lost⟩ := r
  cases hold with
  | acquiring | returned => cases hr
  | sleep due => simp_all [Timely]; omega
  | check due answered =>
    cases answered <;> simp_all [Timely] <;> omega

/-! ## Two runners -/

structure Inv (s : State) : Prop where
  alone : ∀ ⦃i j : ℕ⦄ ⦃r r' : Runner⦄, s.runners[i]? = some r → s.runners[j]? = some r' →
    r.lost = none → r'.lost = none → i = j
  timely : ∀ r ∈ s.runners, Timely s.now r

theorem Runner.lost_of_move (h : r.move now m = some r') (hr : r'.lost = none) : r.lost = none := by
  revert h
  fun_cases Runner.move now r m <;> rintro ⟨⟩ <;> first | exact hr | assumption

theorem Inv.step {a : Act} (hs : Inv s) (h : s.step a = some t) : Inv t := by
  cases a with
  | acquire =>
    rw [State.step] at h
    split at h <;> cases h
    next hl =>
      refine ⟨fun i j r r' hi hj hr hr' => ?_, fun r hr => ?_⟩
      · rcases getElem?_concat_eq_some hi with hi | ⟨rfl, -⟩
        · exact absurd hr (hl r (mem_of_getElem? hi))
        rcases getElem?_concat_eq_some hj with hj | ⟨rfl, -⟩
        · exact absurd hr' (hl r' (mem_of_getElem? hj))
        · rfl
      · rcases mem_append.1 hr with hr | hr
        · exact hs.timely r hr
        · cases mem_singleton.1 hr
          trivial
    · exact hs
  | tick d =>
    rw [State.step] at h
    split at h <;> cases h
    next hd => exact ⟨hs.alone, fun r hr => (hs.timely r hr).tick (hd r hr)⟩
  | move k m =>
    obtain ⟨x, hx, h⟩ := bind_eq_some_iff.1 h
    obtain ⟨y, hm, rfl⟩ := map_eq_some_iff.1 h
    -- a runner that has the lock had it before
    have hold : ∀ {i : ℕ} {r : Runner}, (s.runners.set k y)[i]? = some r → r.lost = none →
        ∃ r, s.runners[i]? = some r ∧ r.lost = none := by
      intro i r hi hr
      rcases getElem?_set_eq_some hi with ⟨rfl, rfl⟩ | ⟨-, hi⟩
      · exact ⟨x, hx, Runner.lost_of_move hm hr⟩
      · exact ⟨r, hi, hr⟩
    refine ⟨fun i j r r' hi hj hr hr' => ?_, ?_⟩
    · obtain ⟨q, hi, hq⟩ := hold hi hr
      obtain ⟨q', hj, hq'⟩ := hold hj hr'
      exact hs.alone hi hj hq hq'
    · exact forall_mem_set hs.timely ((hs.timely x (mem_of_getElem? hx)).move hm)

theorem inv (hs : machine.Reachable s) : Inv s :=
  hs.invariant (I := Inv) ⟨by simp [machine], by simp [machine]⟩ fun _ _ _ _ hI _ h => hI.step h

/-- **Two runners run together only for a while.**  The session of one of them is lost, and since
then, or since it began, at most the checks that were under way have passed. -/
theorem overlap_bounded (hs : machine.Reachable s) {i j : ℕ} (hij : i ≠ j)
    (hi : s.runners[i]? = some r) (hj : s.runners[j]? = some r') (hr : r.runs) (hr' : r'.runs) :
    ∃ x ∈ [r, r'], ∃ lost, x.lost = some lost ∧ s.now ≤ x.limit lost := by
  have hx : ∃ x ∈ [r, r'], x ∈ s.runners ∧ x.runs ∧ x.lost ≠ none := by
    by_cases hl : r.lost = none
    · exact ⟨r', by simp, mem_of_getElem? hj, hr', fun hl' => hij ((inv hs).alone hi hj hl hl')⟩
    · exact ⟨r, by simp, mem_of_getElem? hi, hr, hl⟩
  obtain ⟨x, hm, hx, hxr, hl⟩ := hx
  obtain ⟨lost, hl⟩ := ne_none_iff_exists'.1 hl
  exact ⟨x, hm, lost, hl, by simpa [hl] using ((inv hs).timely x hx).stops hxr⟩

/-- The bound is reached: a check was answered just before the session ended, the answer was read
when it was due, and the next check waits in vain. -/
theorem overlap_of_seven_seconds : ∃ s r r', machine.Reachable s ∧ s.now = 8000 ∧
    s.runners = [r, r'] ∧ r.runs ∧ r'.runs ∧ ∃ x ∈ [r, r'], ∃ lost, x.lost = some lost ∧
      s.now ≤ x.limit lost ∧ lost = 1000 ∧ x.began = 0 := by
  obtain ⟨s, hs, rfl⟩ := machine.exists_of_run
    [.acquire, .move 0 .begin, .tick 1000, .move 0 .wake, .move 0 .answer, .move 0 .lose, .acquire,
      .tick 3000, .move 0 .done, .tick 1000, .move 0 .wake, .tick 3000, .move 1 .begin]
    (· = ⟨8000, [⟨.check 8000 false, 0, some 1000⟩, ⟨.sleep 9000, 8000, none⟩]⟩) (by decide)
  obtain ⟨x, hx, lost, hl, h⟩ :=
    overlap_bounded hs (i := 0) (j := 1) (by decide) rfl rfl rfl rfl
  refine ⟨_, _, _, hs, rfl, rfl, rfl, rfl, x, hx, lost, hl, h, ?_⟩
  rcases mem_pair.1 hx with rfl | rfl
  · exact ⟨(some.inj hl).symm, rfl⟩
  · cases hl

end OpenWorkersRunner.Singleton
