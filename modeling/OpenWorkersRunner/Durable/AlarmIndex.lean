import OpenWorkersRunner.Durable.AlarmTable

/-!
# The index is never later than the file

The module promises that the index is never later than the file, except while a failed alarm waits
for its next run, so that a crash makes an alarm early, never late or lost.  `Obj.Indexed` is that
promise for one object.
-/

namespace OpenWorkersRunner.Alarms

open Option

/-- **The promise of the index**: an alarm of the file has a row at its time or earlier, or a row
that the end of a failed or not-started run of this same alarm wrote. -/
def Obj.Indexed (o : Obj) : Prop :=
  ∀ atMs, o.file = some atMs → ∃ r, o.row = some r ∧ (r.scheduledAt ≤ atMs ∨ o.retryOf = some atMs)

/-- What a settle needs of the file.  One that goes by what the delivery saw before it took the
lock needs the file to be still the same; one that read the file under the lock needs nothing.
A namespace that is gone takes its alarms with it, and an alarm that ran is deleted from the file
before the settle. -/
def Why.Settled (why : Why) (file seen : Option Int) : Prop :=
  match why with
  | .early | .notStarted | .failed false => file = seen
  | .failed true | .current => True
  | .gone => file = none
  | .uncleared => False

/-- The condition on the steps: every settle that writes the index finds the file as it needs. -/
def SettlesAsSeen (o : Obj) : Act → Prop
  | .settle i true => ∀ retryCount seen alarm why,
      o.calls i = some (.deliver ⟨retryCount, seen, .settling alarm why⟩) → why.Settled o.file seen
  | _ => True

/-! ## One step -/

variable {o o' : Obj}

theorem Obj.Indexed.congr (h : o.Indexed) (hf : o'.file = o.file) (hr : o'.row = o.row)
    (hn : o'.retryOf = o.retryOf) : o'.Indexed := by
  rw [Obj.Indexed, hf, hr, hn]
  exact h

theorem lower_le_scheduledAt (r : Row) (atMs : Int) :
    (lower (some r) atMs).scheduledAt ≤ r.scheduledAt :=
  Int.min_le_left _ _

theorem Obj.Indexed.of_row_le (h : o.Indexed) (hf : o'.file = o.file)
    (hr : ∀ r, o.row = some r → ∃ r', o'.row = some r' ∧ r'.scheduledAt ≤ r.scheduledAt ∧
      o'.retryOf = o.retryOf) : o'.Indexed := by
  intro atMs ha
  obtain ⟨r, hro, hle⟩ := h atMs (hf ▸ ha)
  obtain ⟨r', hro', hle', hn⟩ := hr r hro
  exact ⟨r', hro', hle.imp (Int.le_trans hle') fun h => hn.trans h⟩

theorem follow_some (row : Option Row) (atMs : Int) (n : Nat) (underWay : UnderWay) :
    ∃ r, follow row (some (atMs, n)) underWay = some r ∧ r.scheduledAt = atMs := by
  cases row <;> exact ⟨_, rfl, rfl⟩

/-- After a settle that found the file as it needs, the alarm of the file is in the index; and at
its own time unless the delivery saw this same alarm. -/
theorem settle_indexed {d : Delivery} {alarm : Option (Int × Nat)} {why : Why}
    (hk : SettleOk o d alarm why) (hw : why.Settled o.file d.seen) {atMs : Int}
    (hf : o.file = some atMs) :
    ∃ r, settle o.row alarm = some r ∧
      (r.scheduledAt ≤ atMs ∨ (why.retryOf d.seen = some atMs ∧ d.seen = some atMs)) := by
  -- the alarm of the settle is the alarm of the file, or some alarm and the delivery saw this one
  have key : alarm.map Prod.fst = some atMs ∨
      (alarm ≠ none ∧ why.retryOf d.seen = some atMs ∧ d.seen = some atMs) := by
    cases why with
    | early =>
      rw [Why.Settled, hf] at hw
      rw [SettleOk, ← hw] at hk
      exact .inl (by rw [hk]; rfl)
    | notStarted =>
      rw [Why.Settled, hf] at hw
      exact .inr ⟨hk, hw.symm, hw.symm⟩
    | gone => rw [Why.Settled, hf] at hw; cases hw
    | failed reread =>
      have hse : d.seen = some atMs := by
        cases reread with
        | false => exact hw.symm.trans hf
        | true => exact (hk.2 rfl).symm.trans hf
      exact .inr ⟨hk.1, hse, hse⟩
    | current => rw [SettleOk, hf] at hk; exact .inl (by rw [hk]; rfl)
    | uncleared => exact hw.elim
  cases alarm with
  | none => rcases key with h | h <;> simp at h
  | some alarm =>
    obtain ⟨r, hr, ha⟩ := follow_some o.row alarm.1 alarm.2 .ends
    refine ⟨r, hr, key.imp (fun h => ?_) fun h => h.2⟩
    rw [map_some, some_inj] at h
    exact Int.le_of_eq (ha.trans h)

theorem indexed_step {a : Act} (hi : Inv o) (h : o.Indexed) (hok : SettlesAsSeen o a)
    (hs : o.Step a o') : o'.Indexed := by
  cases hs with
  | @lower i atMs hc =>
    refine h.of_row_le rfl fun r hr => ⟨_, rfl, ?_, ?_⟩
    · rw [hr]; exact lower_le_scheduledAt r atMs
    · simp [hr]
  | writeSome hc =>
    rintro _ ⟨⟩
    obtain ⟨r, hr, hle⟩ := hi.ok _ _ hc
    exact ⟨r, hr, .inl hle⟩
  | writeNone hc => rintro _ ⟨⟩
  | @follow i atMs hc =>
    cases atMs with
    | none => intro atMs ha; cases (hi.ok _ _ hc).symm.trans ha
    | some atMs =>
      intro t ha
      cases (hi.ok _ _ hc).1.symm.trans ha
      obtain ⟨r, hr, hle⟩ := follow_some o.row atMs 0 .keep
      exact ⟨r, hr, .inl (Int.le_of_eq hle)⟩
  | claim hr hd =>
    refine h.of_row_le rfl fun r hr' => ⟨_, rfl, ?_, rfl⟩
    rw [hr] at hr'
    cases hr'
    exact Int.le_refl _
  | @clear i n seen atMs nowMs hc =>
    by_cases hf : o.file = some atMs
    · intro t ha; simp [hf] at ha
    · simp only [hf, if_false]
      exact h.congr rfl rfl rfl
  | settle hc =>
    intro t ha
    obtain ⟨r, hr, hle⟩ := settle_indexed (hi.ok _ _ hc) (hok _ _ _ _ hc) ha
    exact ⟨r, hr, hle.imp id And.left⟩
  | restart =>
    refine h.of_row_le rfl fun r hr => ⟨{ r with delivering := false }, ?_, Int.le_refl _, rfl⟩
    simp only [Obj.restart, hr, map_some]
  | _ => exact h.congr rfl rfl rfl

/-! ## Every run -/

theorem indexed_of_reach (h : machine.Reach SettlesAsSeen o) : o.Indexed := by
  refine h.invariant (I := Obj.Indexed) ?_ fun o a o' hr hi hok hs =>
    indexed_step (inv_of_reach hr) hi hok (Obj.step_of_eq hs)
  simp [Obj.Indexed, machine, Obj.empty]

/-- **The index is never later than the file** when the settles find the file as they need it:
every alarm of every file is in the index at its time or earlier, or waits for the next run of
this same alarm; and a settle leaves the row of an alarm that came after the delivery read the
file, or puts it at its time. -/
theorem index_never_later {s : State} (h : table.Reach (Lift SettlesAsSeen) s) (k : ObjectRef) :
    (s.view k).Indexed ∧ ∀ i ok s' d atMs, Lift SettlesAsSeen s (.obj k (.settle i ok)) →
        table.step s (.obj k (.settle i ok)) = some s' → (s.view k).calls i = some (.deliver d) →
        (s.view k).file = some atMs → d.seen ≠ some atMs →
        (s'.view k).row = (s.view k).row ∨ (s'.view k).IndexedBy atMs := by
  have hr := reach_view h k
  refine ⟨indexed_of_reach hr, fun i ok s' d atMs hok hs hd hf hne => ?_⟩
  obtain ⟨o, ho, rfl⟩ := map_eq_some_iff.mp hs
  rw [State.view_put_self]
  cases Obj.step_of_eq ho with
  | settleFails hc => exact .inl rfl
  | settle hc =>
    obtain rfl := Call.deliver.inj (Option.mem_unique hd hc)
    obtain ⟨r, hr', hle⟩ := settle_indexed ((inv_of_reach hr).ok _ _ hc) (hok _ _ _ _ hc) hf
    exact .inr ⟨r, hr', hle.resolve_right fun h => hne h.2⟩

def wholeSet (k : ObjectRef) (i : Nat) (atMs : Int) : List TableAct :=
  [.obj k (.beginSet (some atMs)), .obj k (.acquire i), .obj k (.lower i true),
    .obj k (.write i true), .obj k (.follow i true)]

/-- The handler of the alarm 10 sets another one, and its delivery is about to settle on it. -/
def rescheduled (k : ObjectRef) : List TableAct :=
  wholeSet k 0 10 ++
    [TableAct.claim 20 100 [k], .obj k (.lookup 1 .found 20), .obj k (.read 1 true 20)] ++
    wholeSet k 2 30 ++
    [TableAct.obj k (.endRun 1 .ok 20), .obj k (.acquire 1), .obj k (.reread 1 true 20)]

theorem index_never_later_rescheduled :
    ∃ s s', table.Reach (Lift SettlesAsSeen) s ∧
      table.step s (.obj ("n", "o") (.settle 1 true)) = some s' ∧ (s.view ("n", "o")).Indexed ∧
      ((s'.view ("n", "o")).row = (s.view ("n", "o")).row ∨ (s'.view ("n", "o")).IndexedBy 30) := by
  obtain ⟨s, hs, hf, hc, hsome⟩ := Machine.exists_reach_of_run (M := table)
    (Lift SettlesAsSeen) (rescheduled ("n", "o"))
    (fun s => (s.view ("n", "o")).file = some 30 ∧ (s.view ("n", "o")).calls 1 =
        some (.deliver ⟨0, some 10, .settling (some (30, 0)) .current⟩) ∧
      (table.step s (.obj ("n", "o") (.settle 1 true))).isSome)
    (by simp [rescheduled, wholeSet, Lift, SettlesAsSeen]) (by decide)
  obtain ⟨s', hs'⟩ := isSome_iff_exists.1 hsome
  obtain ⟨hind, hsettled⟩ := index_never_later hs ("n", "o")
  refine ⟨s, s', hs, hs', hind, hsettled 1 true s' _ 30 ?_ hs' hc hf (by decide)⟩
  -- the settle read the file under the lock, so nothing is asked of it
  intro retryCount seen alarm why hd
  cases hc.symm.trans hd
  trivial

/-- Nothing fails: every write and read succeeds, the namespace is found and the handler ends. -/
def Act.succeeds : Act → Bool
  | .lower _ ok | .write _ ok | .follow _ ok | .settle _ ok => ok
  | .read _ ok _ | .reread _ ok _ | .clear _ ok _ => ok
  | .lookup _ answer _ => answer == .found
  | .endRun _ outcome _ => outcome == .ok
  | _ => true

/-- `setAlarm(10)` of an object, claimed at 20 between the two halves of the call: the delivery
reads the file before it is written, and settles after. -/
def lostAlarm (k : ObjectRef) : List TableAct :=
  [.obj k (.beginSet (some 10)), .obj k (.acquire 0), .obj k (.lower 0 true),
    .claim 20 100 [k], .obj k (.lookup 1 .found 20), .obj k (.read 1 true 20),
    .obj k (.write 0 true), .obj k (.follow 0 true), .obj k (.acquire 1), .obj k (.settle 1 true)]

theorem lostAlarm_succeeds (k : ObjectRef) (s : State) :
    ∀ a ∈ lostAlarm k, Lift (fun _ a => a.succeeds = true) s a := by
  simp [lostAlarm, Lift, Act.succeeds]

/-- Where that run ends: the alarm is in the file, the row is gone, and nothing is in progress. -/
def alarmIsLost (s : State) (k : ObjectRef) : Bool :=
  decide ((s.view k).file = some 10 ∧ (s.view k).row = none ∧
    ∀ i < (s.view k).count, (s.view k).calls i = none)

/-- No call has a number that is not used up yet, so finitely many tests show that none is in
progress. -/
theorem quiet_of_lt (hi : Inv o) (h : ∀ i < o.count, o.calls i = none) : o.Quiet := by
  intro i
  cases hc : o.calls i with
  | none => rfl
  | some c => exact hc.symm.trans (h i (hi.lt i c hc))

theorem index_can_lose_an_alarm :
    ¬ ∀ s, table.Reach (Lift fun _ a => a.succeeds = true) s →
      ∀ k, (s.view k).Quiet → (s.view k).Indexed := by
  intro h
  obtain ⟨s, hs, hp⟩ := Machine.exists_reach_of_run (M := table) _ (lostAlarm ("n", "o"))
    (fun s => alarmIsLost s ("n", "o")) (lostAlarm_succeeds ("n", "o")) (by decide)
  obtain ⟨hf, hr, hc⟩ := of_decide_eq_true hp
  have hi := inv_of_reach (reach_view hs ("n", "o"))
  obtain ⟨r, hr', -⟩ := h s hs ("n", "o") (quiet_of_lt hi hc) 10 hf
  rw [hr] at hr'
  cases hr'

end OpenWorkersRunner.Alarms
