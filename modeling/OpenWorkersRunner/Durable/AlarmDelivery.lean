import OpenWorkersRunner.Durable.AlarmIndex

/-!
# One delivery at a time, and no mark left behind

`claim` marks the rows it takes, and passes over the marked ones, so that one alarm of an object is
delivered at a time; `settle` takes the mark off.  Two things are asked of the mark.

`Obj.Step.delivers` and `Obj.Step.marked` say once what a step does to the deliveries and to the
mark.
-/

namespace OpenWorkersRunner.Alarms

open Function Option

/-! ## What a step does to the deliveries, and to the mark -/

def Call.isDeliver : Call → Bool
  | .set _ _ => false
  | .deliver _ => true

def Obj.delivers (o : Obj) (i : Nat) : Bool := (o.calls i).any Call.isDeliver

def Obj.marked (o : Obj) : Bool := o.row.any Row.delivering

variable {i : Nat} {o o' : Obj} {a : Act}

theorem Obj.delivers_iff : o.delivers i = true ↔ o.Delivering i := by
  rw [Obj.delivers, Obj.Delivering]
  cases h : o.calls i with
  | none => simp
  | some c => cases c <;> simp [Call.isDeliver]

theorem Obj.delivers_of_calls {c : Option Call} (h : o'.calls = update o.calls i c) :
    o'.delivers = update o.delivers i (c.any Call.isDeliver) := by
  funext j
  by_cases hj : j = i
  · subst hj; simp [Obj.delivers, h]
  · simp [Obj.delivers, h, hj]

theorem Obj.delivers_goto {c c' : Call} (hc : o.calls i = some c)
    (h : o'.calls = update o.calls i (some c')) (hd : c'.isDeliver = c.isDeliver) :
    o'.delivers = o.delivers := by
  rw [Obj.delivers_of_calls h, update_eq_self_iff, Obj.delivers, hc]
  exact hd

theorem Obj.delivers_done_set {atMs : Option Int} {phase : SetPhase}
    (hc : o.calls i = some (.set atMs phase)) (h : o'.calls = update o.calls i none) :
    o'.delivers = o.delivers := by
  rw [Obj.delivers_of_calls h, update_eq_self_iff, Obj.delivers, hc]
  rfl

/-- Which calls are deliveries after a step: a claim begins one, a settle ends its own, a restart
ends all of them, and nothing else begins or ends one. -/
def Obj.deliversAfter (o : Obj) : Act → Nat → Bool
  | .claim _ => Function.update o.delivers o.count true
  | .settle i _ => Function.update o.delivers i false
  | .restart => fun _ => false
  | _ => o.delivers

theorem Obj.Step.delivers (hi : Inv o) (hs : o.Step a o') : o'.delivers = o.deliversAfter a := by
  cases hs with
  | beginSet atMs =>
    have hf : o.calls o.count = none := by
      cases hc : o.calls o.count with
      | none => rfl
      | some c => exact absurd (hi.lt _ _ hc) (Nat.lt_irrefl _)
    refine (Obj.delivers_of_calls (i := o.count) (c := some (.set atMs .waiting)) (by rfl)).trans ?_
    show update o.delivers o.count false = o.delivers
    rw [update_eq_self_iff, Obj.delivers, hf]
    rfl
  | @claim now row hr hd =>
    exact Obj.delivers_of_calls (c := some (.deliver ⟨row.retryCount.toNat, o.file, .started⟩))
      (by rfl)
  | settle hc | settleFails hc => exact Obj.delivers_of_calls (c := none) (by rfl)
  | restart => rfl
  | lowerFails hc | writeFails hc | follow hc | followFails hc | stopSet hc =>
    exact Obj.delivers_done_set hc rfl
  | acquireSet hl hc | acquireEnded hl hc | acquirePending hl hc =>
    exact Obj.delivers_goto hc rfl rfl
  | lower hc | writeSome hc | writeNone hc | read hc | readFails hc | clear hc | clearFails hc =>
    exact Obj.delivers_goto hc rfl rfl
  | lookup x hc | endRun x hc | reread x hc => exact Obj.delivers_goto hc rfl rfl

theorem lower_delivering (row : Option Row) (atMs : Int) :
    (lower row atMs).delivering = row.any Row.delivering := by
  cases row <;> rfl

theorem settle_not_delivering (row : Option Row) (alarm : Option (Int × Nat)) :
    (settle row alarm).any Row.delivering = false := by
  cases alarm <;> cases row <;> simp [settle, follow]

theorem follow_keep_delivering (row : Option Row) (alarm : Option (Int × Nat)) :
    (follow row alarm .keep).any Row.delivering = (alarm.isSome && row.any Row.delivering) := by
  cases alarm <;> cases row <;> simp [follow]

/-- What a step does to the mark: a claim puts it on, a settle that is written and a restart take
it off, a deletion of the alarm takes it off with the row, and nothing else touches it. -/
def Obj.MarkAfter (o o' : Obj) : Act → Prop
  | .claim _ => o.marked = false ∧ o'.marked = true ∧ o'.markedBy = some o.count
  | .settle _ true | .restart => o'.marked = false
  | .follow _ true => o'.marked = true → o.marked = true ∧ o'.markedBy = o.markedBy
  | _ => o'.marked = o.marked ∧ o'.markedBy = o.markedBy

theorem Obj.Step.marked (hs : o.Step a o') : o.MarkAfter o' a := by
  cases hs with
  | claim hr hd =>
    refine ⟨?_, rfl, rfl⟩
    simp only [Row.due, Bool.and_eq_true, Bool.not_eq_eq_eq_not, Bool.not_true] at hd
    simp [Obj.marked, hr, hd.1]
  | settle hc => exact settle_not_delivering _ _
  | restart => cases hr : o.row <;> simp [Obj.MarkAfter, Obj.marked, Obj.restart, hr]
  | follow hc =>
    intro h
    rw [Obj.marked, follow_keep_delivering, Bool.and_eq_true] at h
    exact ⟨h.2, rfl⟩
  | lower hc => exact ⟨lower_delivering _ _, rfl⟩
  | _ => exact ⟨rfl, rfl⟩

/-! ## The mark lasts as long as its delivery

The condition is on `lower`, the only statement that can insert a row under a delivery: the
`follow` of a `set` finds the row that its own `lower` left (`Inv`). -/

def InsertsIdle (o : Obj) : Act → Prop
  | .lower _ true => o.row = none → ∀ i, ¬ o.Delivering i
  | _ => True

/-- Deliveries exclude each other, and the mark of a row is of the delivery under way. -/
structure OneDelivery (o : Obj) : Prop where
  one : ∀ i j, o.delivers i = true → o.delivers j = true → i = j
  mark : ∀ i, o.delivers i = true → o.row = none ∨ (o.marked = true ∧ o.markedBy = some i)

theorem OneDelivery.of_none (h : ∀ i, o.delivers i = false) : OneDelivery o :=
  ⟨fun i _ hi => (by rw [h i] at hi; cases hi), fun i hi => (by rw [h i] at hi; cases hi)⟩

theorem OneDelivery.congr (h : OneDelivery o) (hd : o'.delivers = o.delivers)
    (hm : ∀ i, o.delivers i = true → (o.row = none ∨ (o.marked = true ∧ o.markedBy = some i)) →
      o'.row = none ∨ (o'.marked = true ∧ o'.markedBy = some i)) : OneDelivery o' :=
  ⟨by rw [hd]; exact h.one, fun i hi => by rw [hd] at hi; exact hm i hi (h.mark i hi)⟩

theorem delivers_settle_eq_false (h : OneDelivery o) {d : Delivery} {ok : Bool}
    (hc : o.calls i = some (.deliver d)) (j : Nat) : o.deliversAfter (.settle i ok) j = false := by
  by_cases hji : j = i
  · subst hji; exact update_self ..
  · rw [Obj.deliversAfter, update_of_ne hji]
    cases hj : o.delivers j with
    | false => rfl
    | true => exact absurd (h.one j i hj (Obj.delivers_iff.2 ⟨d, hc⟩)) hji

theorem oneDelivery_step {o o' : Obj} {a : Act} (hi : Inv o) (h : OneDelivery o)
    (hok : InsertsIdle o a) (hs : o.Step a o') : OneDelivery o' := by
  have hd := hs.delivers hi
  have hm := hs.marked
  cases hs with
  | @claim now row hr _ =>
    -- the row is not marked, so nothing was under way
    have hn : ∀ i, o.delivers i = false := by
      intro i
      cases hdi : o.delivers i with
      | false => rfl
      | true =>
        rcases h.mark i hdi with hro | ⟨hma, -⟩
        · rw [hr] at hro; cases hro
        · rw [hm.1] at hma; cases hma
    have ho : ∀ i, o.deliversAfter (.claim now) i = true → i = o.count := by
      intro i hi
      by_contra hne
      rw [Obj.deliversAfter, update_of_ne hne, hn i] at hi
      cases hi
    refine ⟨fun i j hi hj => ?_, fun i hi => .inr ⟨hm.2.1, ?_⟩⟩
    · rw [hd] at hi hj
      rw [ho i hi, ho j hj]
    · rw [hd] at hi
      rw [hm.2.2, ho i hi]
  | settle hc | settleFails hc =>
    refine .of_none fun j => ?_
    rw [hd]
    exact delivers_settle_eq_false h hc j
  | restart => exact .of_none fun j => rfl
  | @lower i atMs hc =>
    refine h.congr hd fun j hj hma => ?_
    rcases hma with hro | ⟨hma, hby⟩
    · exact absurd (Obj.delivers_iff.1 hj) (hok hro j)
    · exact .inr ⟨hm.1.trans hma, hby⟩
  | @follow i atMs hc =>
    refine h.congr hd fun j hj hma => ?_
    cases atMs with
    | none => exact .inl rfl
    | some atMs =>
      obtain ⟨-, r, hr, -⟩ := hi.ok _ _ hc
      rcases hma with hro | ⟨hma, hby⟩
      · rw [hr] at hro; cases hro
      · refine .inr ⟨?_, hby⟩
        rw [Obj.marked] at hma ⊢
        rw [follow_keep_delivering, hma]
        rfl
  | _ => exact h.congr hd fun _ _ hma => hma

theorem oneDelivery_of_reach (h : machine.Reach InsertsIdle o) : OneDelivery o := by
  refine h.invariant (I := OneDelivery) (.of_none fun _ => rfl) fun o a o' hr hi hok hs =>
    oneDelivery_step (inv_of_reach hr) hi hok (Obj.step_of_eq hs)

theorem Obj.not_marked_of_due {now : Int} (h : o.row.any (Row.due now) = true) :
    o.row ≠ none ∧ o.marked = false := by
  cases hr : o.row with
  | none => rw [hr] at h; cases h
  | some r =>
    rw [hr, any_some, Row.due, Bool.and_eq_true, Bool.not_eq_eq_eq_not] at h
    exact ⟨by simp, by simpa [Obj.marked, hr] using h.1⟩

theorem claimable_due {idx : Index} {now : Int} {lim : Nat} {taken : List ObjectRef}
    (h : claimable idx now lim taken = true) {k : ObjectRef} (hk : k ∈ taken) :
    (idx.lookup k).any (Row.due now) = true := by
  simp only [claimable, Bool.and_eq_true, List.all_eq_true] at h
  exact h.1.2 k hk

/-- **One delivery at a time**, when no `set` inserts a row under a delivery: at most one delivery
of an object is under way, `claim` takes no object of a delivery that has not settled, and a settle
takes off no mark but its own. -/
theorem one_delivery {s : State} (h : table.Reach (Lift InsertsIdle) s) (k : ObjectRef) :
    (∀ i j, (s.view k).Delivering i → (s.view k).Delivering j → i = j) ∧
      (∀ now limit taken s', table.step s (.claim now limit taken) = some s' → k ∈ taken →
        ∀ i, ¬ (s.view k).Delivering i) ∧
      ∀ i ok s', table.step s (.obj k (.settle i ok)) = some s' → (s.view k).marked = true →
        (s'.view k).marked = false → (s.view k).markedBy = some i := by
  have hone := oneDelivery_of_reach (reach_view h k)
  refine ⟨fun i j hi hj => ?_, fun now limit taken s' hs hk i hd => ?_, fun i ok s' hs hm _ => ?_⟩
  · exact hone.one i j (Obj.delivers_iff.mpr hi) (Obj.delivers_iff.mpr hj)
  · simp only [table, State.step, State.claim] at hs
    split at hs
    · obtain ⟨hrow, hmark⟩ := (s.view k).not_marked_of_due (claimable_due ‹_› hk)
      rcases hone.mark i (Obj.delivers_iff.mpr hd) with hnone | ⟨hm, -⟩
      · exact hrow hnone
      · rw [hmark] at hm; cases hm
    · cases hs
  · obtain ⟨o, ho, -⟩ := map_eq_some_iff.mp hs
    have hd : (s.view k).Delivering i := by
      cases Obj.step_of_eq ho with
      | settle hc => exact ⟨_, hc⟩
      | settleFails hc => exact ⟨_, hc⟩
    rcases hone.mark i (Obj.delivers_iff.mpr hd) with hnone | ⟨-, hby⟩
    · rw [Obj.marked, hnone] at hm; cases hm
    · exact hby

def insertsIdle (s : State) : TableAct → Bool
  | .obj k (.lower _ true) =>
    (s.view k).row.isSome || (List.range (s.view k).count).all fun i => !(s.view k).delivers i
  | _ => true

theorem insertsIdle_sound {s : State} {a : TableAct} (hs : table.Reach (Lift InsertsIdle) s)
    (h : insertsIdle s a = true) : Lift InsertsIdle s a := by
  cases a with
  | obj k a =>
    cases a with
    | lower i ok =>
      cases ok with
      | true =>
        intro hro j ⟨d, hd⟩
        have hj := (inv_of_reach (reach_view hs k)).lt _ _ hd
        simp only [insertsIdle, hro, isSome_none, Bool.false_or, List.all_eq_true,
          List.mem_range, Bool.not_eq_eq_eq_not, Bool.not_true] at h
        exact absurd (Obj.delivers_iff.2 ⟨d, hd⟩) (by rw [h j hj]; simp)
      | false => trivial
    | _ => trivial
  | claim now lim taken => exact fun _ _ => trivial
  | restart => exact fun _ => trivial

def oneSettlesOneDue (k j : ObjectRef) : List TableAct :=
  wholeSet k 0 10 ++
    [TableAct.claim 20 100 [k], .obj k (.lookup 1 .found 20), .obj k (.read 1 true 20),
      .obj k (.endRun 1 .ok 20), .obj k (.acquire 1), .obj k (.reread 1 true 20),
      .obj k (.clear 1 true 20)] ++
    wholeSet j 0 15

theorem one_delivery_one_due :
    ∃ s s' t, table.Reach (Lift InsertsIdle) s ∧
      table.step s (.claim 20 100 [("n", "p")]) = some t ∧
      table.step s (.obj ("n", "o") (.settle 1 true)) = some s' ∧
      (∀ i, ¬ (s.view ("n", "p")).Delivering i) ∧ (s.view ("n", "o")).markedBy = some 1 ∧
      (s.view ("n", "o")).Delivering 1 ∧ ∀ j, (s.view ("n", "o")).Delivering j → j = 1 := by
  obtain ⟨s, hs, hp⟩ := Machine.exists_reach_of_runIf (M := table) insertsIdle
    (fun _ _ => insertsIdle_sound) (oneSettlesOneDue ("n", "o") ("n", "p"))
    (fun s => (s.view ("n", "o")).marked && (s.view ("n", "o")).delivers 1 &&
      (table.step s (.claim 20 100 [("n", "p")])).isSome &&
      (table.step s (.obj ("n", "o") (.settle 1 true))).any fun s' =>
        !(s'.view ("n", "o")).marked) (by decide)
  simp only [Bool.and_eq_true, isSome_iff_exists, any_eq_true,
    Bool.not_eq_eq_eq_not, Bool.not_true, Obj.delivers_iff] at hp
  obtain ⟨⟨⟨hm, hd⟩, t, ht⟩, s', hs', hm'⟩ := hp
  refine ⟨s, s', t, hs, ht, hs', ?_, ?_, hd, ?_⟩
  · exact (one_delivery hs ("n", "p")).2.1 20 100 _ t ht (List.mem_singleton_self _)
  · exact (one_delivery hs ("n", "o")).2.2 1 true s' hs' hm hm'
  · exact fun j hj => (one_delivery hs ("n", "o")).1 j 1 hj hd

def deletedAndSet (k : ObjectRef) : List TableAct :=
  wholeSet k 0 10 ++
    [TableAct.claim 20 100 [k], .obj k (.lookup 1 .found 20), .obj k (.read 1 true 20),
      .obj k (.beginSet none), .obj k (.acquire 2), .obj k (.write 2 true),
      .obj k (.follow 2 true)] ++
    wholeSet k 3 15 ++ [TableAct.claim 20 100 [k]]

theorem two_deliveries :
    ¬ ∀ s, table.Reach (Lift fun _ a => a.succeeds = true) s →
      ∀ k i j, (s.view k).Delivering i → (s.view k).Delivering j → i = j := by
  intro h
  obtain ⟨s, hs, h₁, h₄⟩ := Machine.exists_reach_of_run (M := table)
    (Lift fun _ a => a.succeeds = true) (deletedAndSet ("n", "o"))
    (fun s => (s.view ("n", "o")).delivers 1 ∧ (s.view ("n", "o")).delivers 4)
    (by simp [deletedAndSet, wholeSet, Lift, Act.succeeds]) (by decide)
  exact absurd (h s hs _ 1 4 (Obj.delivers_iff.1 h₁) (Obj.delivers_iff.1 h₄)) (by decide)

/-! ## The mark does not outlast its delivery -/

def SettlesWritten (_ : Obj) : Act → Prop
  | .settle _ ok => ok = true
  | _ => True

def MarkOfDelivery (o : Obj) : Prop :=
  o.marked = true → ∃ i, o.markedBy = some i ∧ o.delivers i = true

theorem markOfDelivery_step (hi : Inv o) (h : MarkOfDelivery o) (hok : SettlesWritten o a)
    (hs : o.Step a o') : MarkOfDelivery o' := by
  have hd := hs.delivers hi
  have hm := hs.marked
  have hst : o'.delivers = o.delivers → o.marked = true → o'.markedBy = o.markedBy →
      ∃ i, o'.markedBy = some i ∧ o'.delivers i = true := by
    intro hd hma hby
    obtain ⟨j, hj, hdj⟩ := h hma
    exact ⟨j, hby.trans hj, by rw [hd]; exact hdj⟩
  intro hma
  cases a with
  | claim now => exact ⟨o.count, hm.2.2, by rw [hd]; exact update_self ..⟩
  | settle i ok =>
    cases ok with
    | true => exact absurd (hma.symm.trans hm) (by simp)
    | false => cases hok
  | restart => exact absurd (hma.symm.trans hm) (by simp)
  | follow i ok =>
    cases ok with
    | true => exact hst hd (hm hma).1 (hm hma).2
    | false => exact hst hd (hm.1.symm.trans hma) hm.2
  | _ => exact hst hd (hm.1.symm.trans hma) hm.2

theorem markOfDelivery_of_reach (h : machine.Reach SettlesWritten o) : MarkOfDelivery o := by
  refine h.invariant (I := MarkOfDelivery) ?_ fun o a o' hr hi hok hs =>
    markOfDelivery_step (inv_of_reach hr) hi hok (Obj.step_of_eq hs)
  intro hm
  cases hm

/-- **No alarm stays stuck as under way**, when the settles are written: whatever else fails, a
marked row is of a delivery in progress, and a row of an object without one can be claimed as soon
as it is due. -/
theorem mark_of_delivery {s : State} (h : table.Reach (Lift SettlesWritten) s) (k : ObjectRef) :
    (∀ r, (s.view k).row = some r → r.delivering = true →
        ∃ i, (s.view k).markedBy = some i ∧ (s.view k).Delivering i) ∧
      ((∀ i, ¬ (s.view k).Delivering i) →
        ∀ r now, (s.view k).row = some r → r.scheduledAt ≤ now → r.due now = true) := by
  have hmark := markOfDelivery_of_reach (reach_view h k)
  have hrow : ∀ r, (s.view k).row = some r → r.delivering = true →
      ∃ i, (s.view k).markedBy = some i ∧ (s.view k).Delivering i := by
    intro r hr hd
    obtain ⟨i, hby, hi⟩ := hmark (by rw [Obj.marked, hr]; exact hd)
    exact ⟨i, hby, Obj.delivers_iff.mp hi⟩
  refine ⟨hrow, fun hnone r now hr hle => ?_⟩
  cases hd : r.delivering with
  | true =>
    obtain ⟨i, -, hi⟩ := hrow r hr hd
    exact absurd hi (hnone i)
  | false => simp [Row.due, hd, hle]

/-- The delivery of one object runs and its row is marked, and the alarm of another is due, whose
last `follow` failed. -/
def oneRunsOneDue (k j : ObjectRef) : List TableAct :=
  wholeSet k 0 10 ++ [TableAct.claim 20 100 [k], .obj j (.beginSet (some 15)), .obj j (.acquire 0),
      .obj j (.lower 0 true), .obj j (.write 0 true), .obj j (.follow 0 false)]

theorem mark_of_delivery_one_due :
    ∃ s, table.Reach (Lift SettlesWritten) s ∧
      (∃ i, (s.view ("n", "o")).markedBy = some i ∧ (s.view ("n", "o")).Delivering i) ∧
      (s.view ("n", "p")).row = some ⟨15, 0, false⟩ ∧ Row.due 20 ⟨15, 0, false⟩ = true := by
  obtain ⟨s, hs, hr, hr', hc⟩ := Machine.exists_reach_of_run (M := table)
    (Lift SettlesWritten) (oneRunsOneDue ("n", "o") ("n", "p"))
    (fun s => (s.view ("n", "o")).row = some ⟨10, 0, true⟩ ∧
      (s.view ("n", "p")).row = some ⟨15, 0, false⟩ ∧
      ∀ i < (s.view ("n", "p")).count, (s.view ("n", "p")).calls i = none)
    (by simp [oneRunsOneDue, wholeSet, Lift, SettlesWritten]) (by decide)
  have hqt := quiet_of_lt (inv_of_reach (reach_view hs ("n", "p"))) hc
  refine ⟨s, hs, (mark_of_delivery hs ("n", "o")).1 _ hr rfl, hr', ?_⟩
  refine (mark_of_delivery hs ("n", "p")).2 (fun i hi => ?_) _ 20 hr' (by decide)
  obtain ⟨d, hd⟩ := hi
  rw [hqt i] at hd
  cases hd

/-- The alarm 10 runs well, the settle of its delivery fails, and `setAlarm(30)` comes after. -/
def settleFails (k : ObjectRef) : List TableAct :=
  wholeSet k 0 10 ++
    [TableAct.claim 20 100 [k], .obj k (.lookup 1 .found 20), .obj k (.read 1 true 20),
      .obj k (.endRun 1 .ok 20), .obj k (.acquire 1), .obj k (.reread 1 true 20),
      .obj k (.clear 1 true 20), .obj k (.settle 1 false)] ++
    wholeSet k 2 30

theorem mark_left_behind :
    ¬ ∀ s, table.Reach (Lift fun _ a => a ≠ .restart) s → ∀ k r, (s.view k).row = some r →
      r.delivering = true → ∃ i, (s.view k).Delivering i := by
  intro h
  obtain ⟨s, hs, hr, hc⟩ := Machine.exists_reach_of_run (M := table)
    (Lift fun _ a => a ≠ .restart) (settleFails ("n", "o"))
    (fun s => (s.view ("n", "o")).row = some ⟨30, 0, true⟩ ∧
      ∀ i < (s.view ("n", "o")).count, (s.view ("n", "o")).calls i = none)
    (by simp [settleFails, wholeSet, Lift]) (by decide)
  obtain ⟨i, d, hd⟩ := h s hs ("n", "o") _ hr rfl
  have hi := inv_of_reach (reach_view hs ("n", "o"))
  rw [quiet_of_lt hi hc i] at hd
  cases hd

end OpenWorkersRunner.Alarms
