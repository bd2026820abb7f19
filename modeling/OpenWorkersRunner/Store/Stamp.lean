import OpenWorkersRunner.Store.Bindings

/-!
# The stamp of an environment

`get_worker_meta` gives a worker with the time of the latest change of its environment, in seconds:
the largest `updated_at` of the environment values it read.  A warm context is kept as long as the
stamp is the same, so the stamp has to change whenever the values do.
-/

/-! ## Largest elements -/

/-- Two lists have different largest elements when one of them has an element above all of the
other. -/
theorem List.max?_ne_max?_iff {l l' : List Int} :
    l.max? ≠ l'.max? ↔ (∃ b ∈ l', ∀ a ∈ l, a < b) ∨ ∃ a ∈ l, ∀ b ∈ l', b < a := by
  cases hl : l.max? with
  | none =>
    obtain rfl := max?_eq_none_iff.1 hl
    cases hl' : l'.max? with
    | none => simp [max?_eq_none_iff.1 hl']
    | some m' => simpa using ⟨m', (max?_eq_some_iff.1 hl').1⟩
  | some m =>
    obtain ⟨hm, hle⟩ := max?_eq_some_iff.1 hl
    cases hl' : l'.max? with
    | none => simpa [max?_eq_none_iff.1 hl'] using ⟨m, hm⟩
    | some m' =>
      obtain ⟨hm', hle'⟩ := max?_eq_some_iff.1 hl'
      constructor
      · intro hne
        have hne' : m ≠ m' := fun h => hne (congrArg some h)
        rcases Int.lt_or_gt_of_ne hne' with hlt | hlt
        · exact .inl ⟨m', hm', fun a ha => Int.lt_of_le_of_lt (hle a ha) hlt⟩
        · exact .inr ⟨m, hm, fun b hb => Int.lt_of_le_of_lt (hle' b hb) hlt⟩
      · rintro (⟨b, hb, h⟩ | ⟨a, ha, h⟩) heq
        · have := h m hm
          have := hle' b hb
          cases heq
          omega
        · have := h m' hm'
          have := hle a ha
          cases heq
          omega

namespace OpenWorkersRunner.Store

open List Option

/-! ## The stamp of the rows -/

namespace Tables

variable {resolver : Resolver} {tables : Tables}

theorem gathered_envUpdatedAt (userId : String) (rows : List BindingRow) (g : Gathered) :
    (tables.gathered resolver userId rows g).envUpdatedAt =
      (g.envUpdatedAt.toList ++ rows.filterMap BindingRow.updatedAtEpoch).max? := by
  induction rows generalizing g with
  | nil => cases h : g.envUpdatedAt <;> simp [gathered, readRows, h]
  | cons row rows ih =>
    have hp (b : Option Binding) : (g.push row b).envUpdatedAt =
        (g.envUpdatedAt.toList ++ row.updatedAtEpoch.toList).max? := by
      unfold Gathered.push
      cases row.updatedAtEpoch <;> cases g.envUpdatedAt <;> rfl
    rw [gathered_cons, ih, hp, filterMap_cons]
    cases row.updatedAtEpoch <;> cases g.envUpdatedAt <;> rfl

end Tables

/-! ## Histories -/

namespace Stamp

structure Columns where
  environmentId : String
  userId : String
  key : String
  value : Option String
  bindingType : BindingType
deriving DecidableEq

structure Entry extends Columns where
  updatedAt : Nat
  statement : Nat
deriving DecidableEq

def extractEpoch (micros : Nat) : Int := ((micros + 500000) / 1000000 : Nat)

theorem extractEpoch_le {a b : Nat} (h : a ≤ b) : extractEpoch a ≤ extractEpoch b := by
  unfold extractEpoch
  omega

namespace Entry

def second (e : Entry) : Int := extractEpoch e.updatedAt

def bindingRow (e : Entry) : BindingRow := ⟨e.key, e.value, e.bindingType, some e.second⟩

def environmentValue (e : Entry) : EnvironmentValue := ⟨e.environmentId, e.userId, e.bindingRow⟩

end Entry

structure State where
  now : Nat
  statements : Nat
  rows : List Entry

inductive Act
  | wait (micros : Nat)
  | insert (columns : Columns)
  | update (i : Nat) (columns : Columns)
  | delete (i : Nat)

namespace State

def entry (s : State) (columns : Columns) : Entry := ⟨columns, s.now, s.statements⟩

def step (s : State) : Act → Option State
  | .wait micros => some { s with now := s.now + micros }
  | .insert columns =>
    some { s with statements := s.statements + 1, rows := s.rows ++ [s.entry columns] }
  | .update i columns =>
    if i < s.rows.length then
      some { s with statements := s.statements + 1, rows := s.rows.set i (s.entry columns) }
    else none
  | .delete i =>
    if i < s.rows.length then
      some { s with statements := s.statements + 1, rows := s.rows.eraseIdx i }
    else none

end State

def machine : Machine State Act := ⟨⟨0, 0, []⟩, State.step⟩

variable {a : Act} {s t : State} {workerId : String}

theorem State.step_rows (h : s.step a = some t) :
    s.now ≤ t.now ∧ s.statements ≤ t.statements ∧
    ∀ e ∈ t.rows, e ∈ s.rows ∨
      e.statement = s.statements ∧ e.updatedAt = s.now ∧ e.statement < t.statements := by
  cases a with
  | wait micros =>
    cases h
    exact ⟨Nat.le_add_right _ _, Nat.le_refl _, fun e he => .inl he⟩
  | insert cols =>
    cases h
    refine ⟨Nat.le_refl _, Nat.le_succ _, fun e he => ?_⟩
    rcases mem_append.1 he with he | he
    · exact .inl he
    · obtain rfl := mem_singleton.1 he
      exact .inr ⟨rfl, rfl, Nat.lt_succ_self _⟩
  | update i cols =>
    obtain ⟨-, h⟩ := ite_none_right_eq_some.1 h
    cases h
    refine ⟨Nat.le_refl _, Nat.le_succ _, fun e he => ?_⟩
    rcases mem_or_eq_of_mem_set he with he | rfl
    · exact .inl he
    · exact .inr ⟨rfl, rfl, Nat.lt_succ_self _⟩
  | delete i =>
    obtain ⟨-, h⟩ := ite_none_right_eq_some.1 h
    cases h
    exact ⟨Nat.le_refl _, Nat.le_succ _, fun e he => .inl (mem_of_mem_eraseIdx he)⟩

structure Dated (s : State) : Prop where
  statement : ∀ e ∈ s.rows, e.statement < s.statements
  updatedAt : ∀ e ∈ s.rows, e.updatedAt ≤ s.now

theorem Dated.step (hs : Dated s) (h : s.step a = some t) : Dated t := by
  obtain ⟨hn, hst, hro⟩ := State.step_rows h
  constructor
  · intro e he
    rcases hro e he with he | ⟨-, -, hlt⟩
    · exact Nat.lt_of_lt_of_le (hs.statement e he) hst
    · exact hlt
  · intro e he
    rcases hro e he with he | ⟨-, ha, -⟩
    · exact Nat.le_trans (hs.updatedAt e he) hn
    · exact ha ▸ hn

theorem dated_of_reach (hs : machine.Reachable s) : Dated s :=
  hs.invariant ⟨nofun, nofun⟩ fun _ _ _ _ hs _ h => hs.step h

structure Since (s t : State) : Prop where
  now : s.now ≤ t.now
  statements : s.statements ≤ t.statements
  kept : ∀ e ∈ t.rows, e.statement < s.statements → e ∈ s.rows
  later : ∀ e ∈ t.rows, s.statements ≤ e.statement → s.now ≤ e.updatedAt

theorem Dated.since_self (hs : Dated s) : Since s s :=
  ⟨Nat.le_refl _, Nat.le_refl _, fun _ he _ => he,
    fun e he hle => absurd (hs.statement e he) (Nat.not_lt.2 hle)⟩

theorem Since.step {u : State} (hst : Since s t) (h : t.step a = some u) : Since s u := by
  obtain ⟨hn, hstate, hro⟩ := State.step_rows h
  refine ⟨Nat.le_trans hst.now hn, Nat.le_trans hst.statements hstate, ?_, ?_⟩
  · intro e he hlt
    rcases hro e he with he | ⟨heq, -, -⟩
    · exact hst.kept e he hlt
    · exact absurd (heq ▸ hlt) (Nat.not_lt.2 hst.statements)
  · intro e he hle
    rcases hro e he with he | ⟨-, ha, -⟩
    · exact hst.later e he hle
    · exact ha ▸ hst.now

theorem since_of_run {as : List Act} (hs : machine.Reachable s) (h : machine.run s as = some t) :
    Since s t :=
  Machine.run_invariant (fun _ _ _ hst h => hst.step h) (dated_of_reach hs).since_self h

/-! ## The worker of a history -/

def State.tables (s : State) (base : Tables) : Tables :=
  { base with environmentValues := s.rows.map Entry.environmentValue }

def Entry.isOf (base : Tables) (workerId : String) (e : Entry) : Bool :=
  (base.workers.lookup workerId).any fun row =>
    base.environment row == some e.environmentId && e.userId == row.userId

def State.rowsOf (s : State) (base : Tables) (workerId : String) : List Entry :=
  s.rows.filter (Entry.isOf base workerId)

variable {base : Tables} {resolver : Resolver} {identifier : WorkerIdentifier}

theorem bindingRows_tables (s : State) (workerId : String) :
    (s.tables base).bindingRows workerId = (s.rowsOf base workerId).map Entry.bindingRow := by
  unfold Tables.bindingRows State.rowsOf
  cases hw : base.workers.lookup workerId with
  | none => simp [State.tables, Entry.isOf, hw]
  | some row =>
    simp only [State.tables, hw, List.filter_map, List.map_map]
    refine congrArg (List.map _) (filter_congr fun e _ => ?_)
    simp only [Entry.isOf, hw, any_some]
    rfl

theorem answer_worker (s : State) :
    (s.tables base).answer resolver (.worker identifier) =
      base.answer resolver (.worker identifier) := by
  cases identifier <;> rfl

theorem stamp_eq {m : WorkerMeta} (hm : (s.tables base).workerMeta resolver identifier = some m) :
    m.envUpdatedAt = ((s.rowsOf base m.id).map Entry.second).max? := by
  cases hba : (s.tables base).answer resolver (.worker identifier) with
  | error err =>
    simp [Tables.workerMeta, getWorkerMeta, query, hba] at hm
  | ok basic =>
    rw [Tables.workerMeta_of_ok hba, some_inj] at hm
    subst hm
    have hro : ((s.rowsOf base basic.id).map Entry.bindingRow).filterMap
        BindingRow.updatedAtEpoch = (s.rowsOf base basic.id).map Entry.second := by
      rw [filterMap_map, ← filterMap_eq_map]
      rfl
    rw [BasicWorker.toMeta, Tables.gathered_envUpdatedAt, bindingRows_tables, hro]
    rfl

theorem id_eq {m m' : WorkerMeta} (hm : (s.tables base).workerMeta resolver identifier = some m)
    (hm' : (t.tables base).workerMeta resolver identifier = some m') : m'.id = m.id := by
  cases hba : base.answer resolver (.worker identifier) with
  | error err =>
    have hs := (answer_worker s).trans hba
    simp [Tables.workerMeta, getWorkerMeta, query, hs] at hm
  | ok basic =>
    rw [Tables.workerMeta_of_ok ((answer_worker s).trans hba), some_inj] at hm
    rw [Tables.workerMeta_of_ok ((answer_worker t).trans hba), some_inj] at hm'
    rw [← hm, ← hm']
    rfl

/-! ## When the stamp differs -/

/-- A value that was written since, and is still there, is in a later second than all values
before. -/
def Raised (base : Tables) (workerId : String) (s t : State) : Prop :=
  ∃ e ∈ t.rowsOf base workerId, s.statements ≤ e.statement ∧
    ∀ e' ∈ s.rowsOf base workerId, e'.second < e.second

def Lowered (base : Tables) (workerId : String) (s t : State) : Prop :=
  (∀ e ∈ t.rowsOf base workerId, e.statement < s.statements) ∧
  s.rowsOf base workerId ≠ [] ∧
  ∀ e ∈ s.rowsOf base workerId, (∀ e' ∈ s.rowsOf base workerId, e'.second ≤ e.second) →
    e ∉ t.rowsOf base workerId

theorem Since.mem_rowsOf (hst : Since s t) {e : Entry} (he : e ∈ t.rowsOf base workerId)
    (hlt : e.statement < s.statements) : e ∈ s.rowsOf base workerId := by
  obtain ⟨hm, ho⟩ := mem_filter.1 he
  exact mem_filter.2 ⟨hst.kept e hm hlt, ho⟩

theorem Since.second_le (hst : Since s t) (hs : Dated s) {e e' : Entry}
    (he : e ∈ t.rowsOf base workerId) (hle : s.statements ≤ e.statement)
    (he' : e' ∈ s.rowsOf base workerId) : e'.second ≤ e.second :=
  extractEpoch_le (Nat.le_trans (hs.updatedAt e' (mem_filter.1 he').1)
    (hst.later e (mem_filter.1 he).1 hle))

theorem raised_iff (hst : Since s t) :
    Raised base workerId s t ↔ ∃ e ∈ t.rowsOf base workerId,
      ∀ e' ∈ s.rowsOf base workerId, e'.second < e.second := by
  constructor
  · rintro ⟨e, he, -, h⟩
    exact ⟨e, he, h⟩
  · rintro ⟨e, he, h⟩
    refine ⟨e, he, ?_, h⟩
    by_contra hlt
    exact absurd (h e (hst.mem_rowsOf he (Nat.lt_of_not_le hlt))) (Int.lt_irrefl _)

theorem lowered_iff (hst : Since s t) (hs : Dated s) :
    Lowered base workerId s t ↔ ∃ e ∈ s.rowsOf base workerId,
      ∀ e' ∈ t.rowsOf base workerId, e'.second < e.second := by
  constructor
  · rintro ⟨hold, hne, hgo⟩
    -- a value of the latest second
    obtain ⟨m, hm⟩ : ∃ m, ((s.rowsOf base workerId).map Entry.second).max? = some m :=
      ne_none_iff_exists'.1 (by simpa using hne)
    obtain ⟨hme, hma⟩ := max?_eq_some_iff.1 hm
    obtain ⟨e, he, rfl⟩ := mem_map.1 hme
    refine ⟨e, he, fun e' he' => ?_⟩
    have hle : ∀ e'' ∈ s.rowsOf base workerId, e''.second ≤ e.second := fun e'' he'' =>
      hma _ (mem_map_of_mem he'')
    have he1 := hst.mem_rowsOf he' (hold e' he')
    by_contra hlt
    refine hgo e' he1 (fun e'' he'' => ?_) he'
    exact Int.le_trans (hle e'' he'') (Int.not_lt.1 hlt)
  · rintro ⟨e, he, h⟩
    refine ⟨fun e' he' => ?_, ne_nil_of_mem he, fun e' he' hma hme => ?_⟩
    · by_contra hle
      have := hst.second_le hs he' (Nat.le_of_not_lt hle) he
      exact absurd (h e' he') (Int.not_lt.2 this)
    · exact absurd (h e' hme) (Int.not_lt.2 (hma e he))

/-- **The stamps of two moments differ exactly if a value written in between is in a later second
than all values before, or nothing written in between is there and all values of the latest second
are gone.** -/
theorem stamp_differs_iff {s t : State} {as : List Act} {m m' : WorkerMeta}
    (hs : machine.Reachable s) (hrun : machine.run s as = some t)
    (hm : (s.tables base).workerMeta resolver identifier = some m)
    (hm' : (t.tables base).workerMeta resolver identifier = some m') :
    m.envUpdatedAt ≠ m'.envUpdatedAt ↔ Raised base m.id s t ∨ Lowered base m.id s t := by
  have hst := since_of_run hs hrun
  rw [raised_iff hst, lowered_iff hst (dated_of_reach hs), stamp_eq hm, stamp_eq hm', id_eq hm hm',
    List.max?_ne_max?_iff]
  simp only [List.mem_map, exists_exists_and_eq_and, forall_exists_index, and_imp,
    forall_apply_eq_imp_iff₂]

def oneWorker : Tables :=
  { Tables.empty with
    workers := .singleton "w" ⟨none, "alice", 1, none, some "e"⟩
    workerDeployments := .singleton ("w", 1) ⟨.javascript, []⟩ }

abbrev readWorker (s : State) : Option WorkerMeta :=
  (s.tables oneWorker).workerMeta (fun _ _ _ _ _ => .error .rowNotFound) (.id "w")

def twoValues : State where
  now := 5000000
  statements := 2
  rows :=
    [⟨⟨"e", "alice", "TOKEN", some "t", .secret⟩, 1000000, 0⟩,
      ⟨⟨"e", "alice", "MODE", some "on", .var⟩, 5000000, 1⟩]

theorem reachable_twoValues : machine.Reachable twoValues := by
  have hru : machine.run machine.init [.wait 1000000,
      .insert ⟨"e", "alice", "TOKEN", some "t", .secret⟩, .wait 4000000,
      .insert ⟨"e", "alice", "MODE", some "on", .var⟩] = some twoValues := rfl
  exact Machine.Reach.init.run (fun _ _ _ => trivial) hru

theorem stamp_differs_iff_changed :
    ∃ t m m', machine.run twoValues
        [.wait 2000000, .update 0 ⟨"e", "alice", "TOKEN", some "u", .secret⟩] = some t ∧
      readWorker twoValues = some m ∧ readWorker t = some m' ∧
      m.envUpdatedAt ≠ m'.envUpdatedAt := by
  obtain ⟨m, hm, hid⟩ : ∃ m, readWorker twoValues = some m ∧ m.id = "w" := ⟨_, rfl, rfl⟩
  obtain ⟨t, ht, hrows⟩ : ∃ t, machine.run twoValues [.wait 2000000,
      .update 0 ⟨"e", "alice", "TOKEN", some "u", .secret⟩] = some t ∧
      t.rows = [⟨⟨"e", "alice", "TOKEN", some "u", .secret⟩, 7000000, 2⟩,
        ⟨⟨"e", "alice", "MODE", some "on", .var⟩, 5000000, 1⟩] := ⟨_, rfl, rfl⟩
  obtain ⟨m', hm'⟩ : ∃ m', readWorker t = some m' := by
    rw [readWorker, State.tables, hrows]
    exact ⟨_, rfl⟩
  refine ⟨t, m, m', ht, hm, hm', (stamp_differs_iff reachable_twoValues ht hm hm').mpr (.inl ?_)⟩
  rw [hid, Raised, State.rowsOf, hrows]
  exact ⟨⟨⟨"e", "alice", "TOKEN", some "u", .secret⟩, 7000000, 2⟩, by decide, by decide, by decide⟩

/-- **A secret is removed, and the stamp stays.** -/
theorem secret_removed :
    ∃ t m m', machine.Reachable twoValues ∧ machine.run twoValues [.delete 0] = some t ∧
      readWorker twoValues = some m ∧ readWorker t = some m' ∧ m.version = m'.version ∧
      m.bindings = [.secret "TOKEN" "t", .var "MODE" "on"] ∧ m'.bindings = [.var "MODE" "on"] ∧
      m.envUpdatedAt = m'.envUpdatedAt :=
  ⟨_, _, _, reachable_twoValues, rfl, rfl, rfl, rfl, rfl, rfl, rfl⟩

end Stamp
end OpenWorkersRunner.Store
