import Mathlib.Algebra.Order.Group.Int
import OpenWorkersRunner.Lib.Machine
import OpenWorkersRunner.Lib.Parties

/-!
# Logs: the dates of the lines (`log.rs`)

`LogSink::next_date` is a loop around a compare-exchange.  Calls run at the same time; the clock of
each is read once, before the loop, and can show anything.  The loads are relaxed, so what they see
is part of the action; an exchange succeeds only on the value that is there, and can fail without
a reason.
-/

namespace OpenWorkersRunner.Logs.Dates

/-- A call of `next_date`: its clock, what it took for the last date, and its date once it has
returned. -/
structure Call where
  now : ℤ
  last : Option ℤ
  date : Option ℤ
deriving DecidableEq

structure State where
  lastDate : ℤ
  calls : List Call
deriving DecidableEq

inductive Act
  | start (now : ℤ)
  | load (i : ℕ) (seen : ℤ)
  | exchange (i : ℕ) (spurious : Bool) (seen : ℤ)

def Call.next (c : Call) (last : ℤ) : ℤ := max c.now (last + 1)

def State.step (s : State) : Act → Option State
  | .start now => some { s with calls := s.calls ++ [⟨now, none, none⟩] }
  | .load i seen =>
    s.calls[i]?.bind fun c =>
      if c.last = none then some { s with calls := s.calls.set i { c with last := some seen } }
      else none
  | .exchange i spurious seen =>
    s.calls[i]?.bind fun c => c.last.bind fun last =>
      if c.date ≠ none then none
      else if s.lastDate = last ∧ spurious = false then
        some ⟨c.next last, s.calls.set i { c with date := some (c.next last) }⟩
      else some { s with calls := s.calls.set i { c with last := some seen } }

def machine : Machine State Act := ⟨⟨0, []⟩, State.step⟩

variable {s t : State} {a : Act}

inductive Step (s : State) : State → Prop
  | begins (now : ℤ) : Step s { s with calls := s.calls ++ [⟨now, none, none⟩] }
  | goes {i c} (last : Option ℤ) (hi : s.calls[i]? = some c) :
      Step s { s with calls := s.calls.set i { c with last } }
  | dated {i c} (hi : s.calls[i]? = some c) :
      Step s ⟨c.next s.lastDate, s.calls.set i { c with date := some (c.next s.lastDate) }⟩

theorem step_of_eq (h : s.step a = some t) : Step s t := by
  cases a with
  | start now =>
    cases h
    exact .begins now
  | load i seen =>
    obtain ⟨c, hi, h⟩ := Option.bind_eq_some_iff.1 h
    obtain ⟨-, ⟨⟩⟩ := Option.ite_none_right_eq_some.1 h
    exact .goes _ hi
  | exchange i spurious seen =>
    obtain ⟨c, hi, h⟩ := Option.bind_eq_some_iff.1 h
    obtain ⟨last, -, h⟩ := Option.bind_eq_some_iff.1 h
    obtain ⟨-, h⟩ := Option.ite_none_left_eq_some.1 h
    split at h
    next hl =>
      obtain ⟨rfl, -⟩ := hl
      cases h
      exact .dated hi
    · cases h
      exact .goes _ hi

theorem Step.date_cases (h : Step s t) :
    s.lastDate ≤ t.lastDate ∧ ∃ i : ℕ, ∀ (j : ℕ) (c : Call) (d : ℤ),
      t.calls[j]? = some c → c.date = some d →
      (∃ b, s.calls[j]? = some b ∧ b.now = c.now ∧ b.date = some d) ∨
        (j = i ∧ c.now ≤ d ∧ s.lastDate < d ∧ d = t.lastDate) := by
  cases h with
  | begins now =>
    refine ⟨le_rfl, 0, fun j c d hj hd => ?_⟩
    obtain hj | ⟨-, rfl⟩ := Parties.getElem?_concat_eq_some hj
    · exact .inl ⟨c, hj, rfl, hd⟩
    · cases hd
  | @goes i b last hi =>
    refine ⟨le_rfl, 0, fun j c d hj hd => ?_⟩
    obtain ⟨rfl, rfl⟩ | ⟨-, hj⟩ := Parties.getElem?_set_eq_some hj
    · exact .inl ⟨b, hi, rfl, hd⟩
    · exact .inl ⟨c, hj, rfl, hd⟩
  | @dated i b hi =>
    have hlt : s.lastDate < b.next s.lastDate := Int.lt_of_add_one_le (le_max_right _ _)
    refine ⟨hlt.le, i, fun j c d hj hd => ?_⟩
    obtain ⟨rfl, rfl⟩ | ⟨-, hj⟩ := Parties.getElem?_set_eq_some hj
    · cases hd
      exact .inr ⟨rfl, le_max_left _ _, hlt, rfl⟩
    · exact .inl ⟨c, hj, rfl, hd⟩

structure Dated (s : State) : Prop where
  clock : ∀ (i : ℕ) (c : Call) (d : ℤ), s.calls[i]? = some c → c.date = some d → c.now ≤ d
  last : ∀ (i : ℕ) (c : Call) (d : ℤ), s.calls[i]? = some c → c.date = some d → d ≤ s.lastDate
  distinct : ∀ (i j : ℕ) (b c : Call) (d : ℤ), s.calls[i]? = some b → s.calls[j]? = some c →
    b.date = some d → c.date = some d → i = j

theorem Dated.step (hs : Dated s) (h : Step s t) : Dated t := by
  obtain ⟨hle, k, hca⟩ := h.date_cases
  refine ⟨fun i c d hi hd => ?_, fun i c d hi hd => ?_, fun i j b c d hi hj hb hc => ?_⟩
  · obtain ⟨b, hb, hn, hda⟩ | ⟨-, hn, -⟩ := hca i c d hi hd
    · exact hn ▸ hs.clock i b d hb hda
    · exact hn
  · obtain ⟨b, hb, -, hda⟩ | ⟨-, -, -, rfl⟩ := hca i c d hi hd
    · exact (hs.last i b d hb hda).trans hle
    · exact le_rfl
  · obtain ⟨b', hb', -, hd⟩ | ⟨rfl, -, hlt, -⟩ := hca i b d hi hb
    · obtain ⟨c', hc', -, hd'⟩ | ⟨-, -, hlt, -⟩ := hca j c d hj hc
      · exact hs.distinct i j b' c' d hb' hc' hd hd'
      · exact absurd (hs.last i b' d hb' hd) (not_le.2 hlt)
    · obtain ⟨c', hc', -, hd'⟩ | ⟨rfl, -⟩ := hca j c d hj hc
      · exact absurd (hs.last j c' d hc' hd') (not_le.2 hlt)
      · rfl

theorem dated_of_reach (hs : machine.Reachable s) : Dated s := by
  refine hs.invariant ⟨?_, ?_, ?_⟩ fun _ _ _ _ hs _ h => hs.step (step_of_eq h)
  all_goals
    intros
    simp_all [machine]

def Later (s t : State) : Prop :=
  ∀ (j : ℕ) (c : Call) (d : ℤ), s.calls.length ≤ j → t.calls[j]? = some c → c.date = some d →
    s.lastDate < d

theorem later_of_run {as : List Act} (h : machine.run s as = some t) :
    Later s t := by
  have hI : s.lastDate ≤ t.lastDate ∧ Later s t := by
    refine Machine.run_invariant (I := fun r => s.lastDate ≤ r.lastDate ∧ Later s r) ?_
      ⟨le_rfl, ?_⟩ h
    · rintro r a r' ⟨hle, hl⟩ hst
      obtain ⟨hle', k, hca⟩ := (step_of_eq hst).date_cases
      refine ⟨hle.trans hle', fun j c d hj hc hd => ?_⟩
      obtain ⟨b, hb, -, hda⟩ | ⟨-, -, hlt, -⟩ := hca j c d hc hd
      · exact hl j b d hj hb hda
      · exact hle.trans_lt hlt
    · intro j c d hj hc
      rw [List.getElem?_eq_none hj] at hc
      cases hc
  exact hI.2

/-- **The dates of the lines are strictly ordered.**  Each is at least what the clock of its call
showed, no two calls get one date, and a call that begins when another has returned gets a later
one. -/
theorem log_dates_ordered (s : State) (hs : machine.Reachable s) :
    (∀ (i : ℕ) (c : Call) (d : ℤ), s.calls[i]? = some c → c.date = some d → c.now ≤ d) ∧
    (∀ (i j : ℕ) (b c : Call) (d : ℤ), s.calls[i]? = some b → s.calls[j]? = some c →
      b.date = some d → c.date = some d → i = j) ∧
    ∀ as t, machine.run s as = some t → ∀ (i j : ℕ) (b c : Call) (d d' : ℤ),
      s.calls[i]? = some b → b.date = some d → s.calls.length ≤ j → t.calls[j]? = some c →
      c.date = some d' → d < d' := by
  have hdata := dated_of_reach hs
  refine ⟨hdata.clock, hdata.distinct, fun as t h i j b c d d' hi hd hj hc hd' => ?_⟩
  exact (hdata.last i b d hi hd).trans_lt (later_of_run h j c d' hj hc hd')

/-- Two calls at once, the second of which has to try again, and a third with a clock that was set
back. -/
def threeDates : List Act :=
  [.start 5, .start 5, .load 0 0, .load 1 0, .exchange 0 true 0, .exchange 0 false 0,
    .exchange 1 false 5, .exchange 1 false 0, .start 1, .load 2 0, .exchange 2 false 6,
    .exchange 2 false 0]

theorem log_dates_ordered_three :
    ∃ s, machine.Reachable s ∧ s.calls.map Call.date = [some 5, some 6, some 7] ∧
      ∀ (i : ℕ) (c : Call) (d : ℤ), s.calls[i]? = some c → c.date = some d → c.now ≤ d := by
  obtain ⟨s, hs, hp⟩ := machine.exists_of_run threeDates
    (fun s => s.calls.map Call.date = [some 5, some 6, some 7])
    (by decide)
  exact ⟨s, hs, hp, (log_dates_ordered s hs).1⟩

end OpenWorkersRunner.Logs.Dates
