import Mathlib.Data.List.Nodup
import OpenWorkersRunner.D1.Session

/-!
# D1: migrations apply once

A migration runs in one transaction with the ledger that records it: the table of the ledger is
created, the row of the migration looked up, its statements run, its row added, and all of that is
committed.  Each of these can fail.
-/

namespace OpenWorkersRunner.D1.Sqlite

open List Option World

/-! ## What a migration does -/

theorem Statement.ledgerOp_find (role : Role) (name : String) :
    Statement.ledgerOp ⟨role, Database.selectChecksum, [.string name]⟩ = some (.find name) := by
  have hne : Database.selectChecksum ≠ Database.migrationsTable := by decide +kernel
  rw [Statement.ledgerOp, if_neg hne]
  exact if_pos rfl

theorem Statement.ledgerOp_insert (role : Role) (name sum : String) :
    Statement.ledgerOp ⟨role, Database.insertMigration, [.string name, .string sum]⟩ =
      some (.insert name sum) := by
  have hne : Database.insertMigration ≠ Database.migrationsTable := by decide +kernel
  rw [Statement.ledgerOp, if_neg hne]
  exact if_pos rfl

namespace Content

variable {δ : Type} (e : Engine δ) {c : Content δ}

def runText (c : Content δ) (text : String) : Content δ :=
  if text = Database.migrationsTable then c.withLedger else e.effect text [] c

def runTexts (c : Content δ) (texts : List String) : Content δ := texts.foldl (runText e) c

def apply (c : Content δ) (m : Migration) : Content δ :=
  (c.withLedger.runTexts e (e.statements m.sql)).record m.name m.checksum

def names (c : Content δ) : List String := (c.ledger.getD []).map Prod.fst

theorem runTexts_cons (text : String) (texts : List String) :
    c.runTexts e (text :: texts) = (c.runText e text).runTexts e texts := foldl_cons ..

theorem succeed_text (text : String) (read : Option (Option String)) :
    c.succeed e ⟨.work, text, []⟩ read = some (c.runText e text) := by
  unfold succeed Statement.ledgerOp runText
  split <;> simp_all

theorem succeed_table (read : Option (Option String)) :
    c.succeed e ⟨.work, Database.migrationsTable, []⟩ read = some c.withLedger := by
  rw [succeed_text, runText, if_pos rfl]

theorem succeed_find {st : Statement} {name : String} (ho : st.ledgerOp = some (.find name))
    (read : Option String) :
    c.succeed e st (some read) =
      if c.ledger.isSome && read == c.checksum name then some c else none := by
  unfold succeed
  rewrite [ho]
  rfl

variable {name : String}

theorem succeed_insert {st : Statement} {sum : String}
    (ho : st.ledgerOp = some (.insert name sum)) (hh : e.hooked c.data = false)
    (read : Option (Option String)) :
    c.succeed e st read =
      if c.ledger.isSome && (c.checksum name).isNone then some (c.record name sum)
      else none := by
  unfold succeed
  rewrite [ho]
  exact if_neg (Bool.eq_false_iff.1 hh)

variable {e}

@[simp] theorem checksum_withLedger (name : String) :
    c.withLedger.checksum name = c.checksum name := rfl

theorem mem_names_iff : name ∈ c.names ↔ c.checksum name ≠ none := by
  rw [names, checksum, Ne, lookup_eq_none_iff]
  simp

theorem withLedger_of_checksum {sum : String} (h : c.checksum name = some sum) :
    c.withLedger = c := by
  cases c with
  | mk data ledger =>
    cases ledger with
    | none => cases h
    | some rows => rfl

end Content

/-- The SQL of the migration does not itself write the ledger. -/
def Engine.writesNoLedger {δ : Type} (e : Engine δ) (m : Migration) : Prop :=
  ∀ text ∈ e.statements m.sql, ∀ c, (e.effect text [] c).ledger = c.ledger

/-- The SQL of the migration puts no trigger on the ledger. -/
def Engine.hooksNoLedger {δ : Type} (e : Engine δ) (m : Migration) : Prop :=
  ∀ text ∈ e.statements m.sql, ∀ c, e.hooked c.data = false →
    e.hooked (e.effect text [] c).data = false

def Engine.sparesLedger {δ : Type} (e : Engine δ) (m : Migration) : Prop :=
  e.writesNoLedger m ∧ e.hooksNoLedger m

section Ledger

variable {δ : Type} {e : Engine δ}

variable {c : Content δ} {m : Migration}

theorem ledger_runTexts {texts : List String}
    (ht : ∀ text ∈ texts, ∀ c, (e.effect text [] c).ledger = c.ledger)
    {rows : List (String × String)} (hc : c.ledger = some rows) :
    (c.runTexts e texts).ledger = some rows := by
  induction texts generalizing c with
  | nil => exact hc
  | cons text texts ih =>
    rw [Content.runTexts_cons]
    refine ih (fun text h => ht text (mem_cons_of_mem _ h)) ?_
    by_cases htb : text = Database.migrationsTable
    · rw [Content.runText, if_pos htb, Content.withLedger, hc, getD_some]
    · rw [Content.runText, if_neg htb, ht text mem_cons_self, hc]

theorem rows_apply (hm : e.sparesLedger m) (c : Content δ) :
    (c.apply e m).ledger.getD [] = c.ledger.getD [] ++ [(m.name, m.checksum)] := by
  have hro : (c.withLedger.runTexts e (e.statements m.sql)).ledger = some (c.ledger.getD []) :=
    ledger_runTexts hm.1 rfl
  rw [Content.apply, Content.record, hro]
  rfl

theorem names_apply (hm : e.sparesLedger m) (c : Content δ) :
    (c.apply e m).names = c.names ++ [m.name] := by
  rw [Content.names, rows_apply hm, map_append]
  rfl

theorem hooked_runTexts {texts : List String}
    (ht : ∀ text ∈ texts, ∀ c, e.hooked c.data = false → e.hooked (e.effect text [] c).data = false)
    (hc : e.hooked c.data = false) :
    e.hooked (c.runTexts e texts).data = false := by
  induction texts generalizing c with
  | nil => exact hc
  | cons text texts ih =>
    rw [Content.runTexts_cons]
    refine ih (fun text h => ht text (mem_cons_of_mem _ h)) ?_
    by_cases htb : text = Database.migrationsTable
    · rw [Content.runText, if_pos htb]
      exact hc
    · rw [Content.runText, if_neg htb]
      exact ht text mem_cons_self c hc

theorem hooked_apply (hm : e.sparesLedger m)
    (hc : e.hooked c.data = false) : e.hooked (c.apply e m).data = false :=
  hooked_runTexts hm.2 (c := c.withLedger) hc

end Ledger

/-- **What a call comes to**, and what the database is then.  A migration that was applied before
with the same checksum fails for an `excuse` only. -/
inductive Outcome {δ : Type} (e : Engine δ) (excuse : Prop) (m : Migration) (c : Content δ) :
    Done → Content δ → Prop
  | failed (err : D1Error) (h : c.checksum m.name = some m.checksum → excuse) :
      Outcome e excuse m c (.d1 (.error err)) c
  | repeated (h : c.checksum m.name = some m.checksum) :
      Outcome e excuse m c (.d1 (.exec 0)) c
  | applied (h : c.checksum m.name = none) :
      Outcome e excuse m c (.d1 (.exec (e.statements m.sql).length)) (c.apply e m)

/-! ## What the program does -/

namespace Link

variable {δ : Type} {e : Engine δ} {careful idle smooth : Bool}

def Based (c₀ : Content δ) (P : Prop) : Content δ → Option (Content δ) → Prop :=
  fun k _ => k = c₀ ∧ P

def Inside (c₀ c : Content δ) : Content δ → Option (Content δ) → Prop :=
  fun k w => k = c₀ ∧ w = some c

section Statements

variable {guest : Bool} {c₀ c : Content δ} {st : Statement} {P : Prop}

variable {shape : Shape}

theorem spec_inside (hp : e.kind st.sql = .plain) (hP : smooth = false → P) :
    (world e careful idle smooth).Spec (At guest (Inside c₀ c)) (execute shape st)
      (fun res l => ∃ c', At guest (Inside c₀ c') l ∧ c.succeed e st (shape.text? res) = some c')
      (At guest (Based c₀ P)) := by
  refine spec_execute (fun l hl res after l' h => ?_) fun l hl after _ hsm => ?_
  · obtain ⟨hgs, hba, hw⟩ := hl
    rw [succeed_of_plain hp, content, hw, getD_some] at h
    obtain ⟨c', hc', rfl⟩ := map_eq_some_iff.1 h
    rw [write_of_some hw]
    exact ⟨c', ⟨hgs, hba, rfl⟩, hc'⟩
  · obtain ⟨hgs, hba, hw⟩ := hl
    rcases l.fail_cases (e := e) st after with h | h | ⟨-, c', h⟩
    · rw [h]
      exact ⟨hgs, hba, hP hsm⟩
    · rw [h]
      exact ⟨hgs, hba, hP hsm⟩
    · rw [h, write_of_some hw]
      exact ⟨hgs, hba, hP hsm⟩

theorem spec_begin (ho : e.kind st.sql = .opens) (hP : smooth = false → P) :
    (world e careful idle smooth).Spec (At guest (Based c₀ True)) (execute shape st)
      (fun _ => At guest (Inside c₀ c₀)) (At guest (Based c₀ P)) := by
  refine spec_execute (fun l hl res after l' h => ?_) fun l hl after _ hsm => ?_
  · rw [succeed_of_opens ho] at h
    split at h
    · cases h
      exact ⟨hl.1, hl.2.1, congrArg some hl.2.1⟩
    · cases h
  · rw [fail_of_opens ho]
    exact ⟨hl.1, hl.2.1, hP hsm⟩

theorem based_fail {l : Link δ} (hl : At guest (Based c₀ P) l) (hk : e.kind st.sql ≠ .plain)
    (after : Aftermath δ) : At guest (Based c₀ P) (l.fail e st after) := by
  rcases l.fail_cases (e := e) st after with h | h | ⟨hp, -⟩
  · rw [h]
    exact hl
  · rw [h]
    exact hl
  · exact absurd hp hk

theorem spec_commit {R : Content δ → Prop} (hco : e.kind st.sql = .commits)
    (hP : smooth = false → P) :
    (world e careful idle smooth).Spec (At guest fun k w => k = c₀ ∧ ∃ c, w = some c ∧ R c)
      (execute shape st) (fun _ => At guest fun k _ => R k) (At guest (Based c₀ P)) := by
  refine spec_execute (fun l hl res after l' h => ?_) fun l hl after _ hsm => ?_
  · obtain ⟨hgs, -, c, hw, hR⟩ := hl
    rw [succeed_of_commits hco, hw] at h
    cases h
    exact ⟨hgs, hR⟩
  · exact based_fail ⟨hl.1, hl.2.1, hP hsm⟩ (by rw [hco]; nofun) after

theorem spec_undo (hro : e.kind st.sql = .rollsBack) :
    (world e careful idle smooth).Keeps (At guest (Based c₀ P)) (execute shape st) := by
  refine spec_execute (fun l hl res after l' h => ?_) fun l hl after _ _ => ?_
  · rw [succeed_of_rollsBack hro] at h
    obtain ⟨c, -, rfl⟩ := map_eq_some_iff.1 h
    exact hl
  · exact based_fail hl (by rw [hro]; nofun) after

end Statements

variable (d : Database) {c₀ : Content δ} {P : Prop}

theorem spec_scriptFrom (sql : String) (bs count : Nat) (c : Content δ)
    (hcn : count ≤ (e.statements sql).length)
    (hbs : (e.statements sql).length ≤ count + bs) (hP : P) :
    (world e careful idle smooth).Spec (At true (Inside c₀ c)) (d.scriptFrom sql bs count)
      (fun n l => At true (Inside c₀ (c.runTexts e ((e.statements sql).drop count))) l ∧
        n = (e.statements sql).length) (At true (Based c₀ P)) := by
  have hf : ∀ l, At true (Inside c₀ c) l → At true (Based c₀ P) l :=
    fun l hl => ⟨hl.1, hl.2.1, hP⟩
  induction bs generalizing count c with
  | zero =>
    have hen : count = (e.statements sql).length := by omega
    refine Spec.value count fun l hl => ⟨?_, hen⟩
    rw [hen, drop_length]
    exact hl
  | succ bs ih =>
    refine Spec.bind (((spec_nextStatement sql count).adapt _).mono (fun _ hl => hl)
      (fun _ _ hl => hl) hf) fun found => ?_
    refine Triple.assume fun ⟨hfn, hp⟩ => ?_
    cases found with
    | none =>
      have hen : count = (e.statements sql).length := by
        have := List.getElem?_eq_none_iff.1 hfn.symm
        omega
      refine Spec.value count fun l hl => ⟨?_, hen⟩
      rw [hen, drop_length]
      exact hl
    | some stmt =>
      obtain ⟨hlt, hge⟩ := List.getElem?_eq_some_iff.1 hfn.symm
      have hd : (e.statements sql).drop count =
          stmt.sql :: (e.statements sql).drop (count + 1) := by
        rw [drop_eq_getElem_cons hlt, hge]
      rw [hd, Content.runTexts_cons]
      refine Spec.bind (spec_check hf _) fun _ => ?_
      refine Spec.bind (spec_check hf _) fun _ => ?_
      refine Spec.bind ((spec_inside (hp stmt rfl) fun _ => hP).adapt _) fun _ => ?_
      rintro l ⟨c', hl, hc'⟩
      obtain rfl : c.runText e stmt.sql = c' :=
        some.inj ((c.succeed_text e _ _).symm.trans hc')
      have hre := ih (count + 1) (c.runText e stmt.sql) (by omega) (by omega)
        fun l hl => ⟨hl.1, hl.2.1, hP⟩
      exact hre l hl

theorem spec_migrateInTransaction {excuse : Prop} (hex : smooth = false → excuse)
    {m : Migration} (hm : e.sparesLedger m) (hh : e.hooked c₀.data = false) :
    (world e careful idle smooth).Spec (At true (Inside c₀ c₀)) (d.migrateInTransaction m)
      (fun count => At true fun k w =>
        k = c₀ ∧ ∃ c, w = some c ∧ Outcome e excuse m c₀ (.d1 (.exec count)) c)
      (At true (Based c₀ (c₀.checksum m.name = some m.checksum → excuse))) := by
  have hf : smooth = false → c₀.checksum m.name = some m.checksum → excuse :=
    fun h _ => hex h
  have ht : (world e careful idle smooth).Spec (At false (Inside c₀ c₀))
      (execute .nothing ⟨.work, Database.migrationsTable, []⟩)
      (fun _ => At false (Inside c₀ c₀.withLedger))
      (At false (Based c₀ (c₀.checksum m.name = some m.checksum → excuse))) := by
    refine (spec_inside (kind_text (by simp [runnerTexts, ledgerTexts])) hf).mono
      (fun _ hl => hl) ?_ (fun _ hl => hl)
    rintro res l ⟨c', hl, hc'⟩
    obtain rfl : c₀.withLedger = c' :=
      some.inj ((c₀.succeed_table e _).symm.trans hc')
    exact hl
  refine Spec.bind (spec_trusted ht) fun _ => ?_
  refine Spec.bind ((spec_inside (kind_text (by simp [runnerTexts, ledgerTexts]))
    hf).adapt _) fun applied => ?_
  rintro l ⟨c', hl, hc'⟩
  replace hc' := (Content.succeed_find e (Statement.ledgerOp_find _ m.name) applied).symm.trans hc'
  split at hc'
  next hre =>
    obtain rfl := some.inj hc'
    obtain ⟨-, rfl⟩ : _ ∧ applied = c₀.checksum m.name := by simpa using hre
    cases hch : c₀.checksum m.name with
    | some sum =>
      simp only
      split
      next hsa =>
        rw [Content.withLedger_of_checksum hch] at hl
        exact ⟨hl.1, hl.2.1, c₀, hl.2.2, .repeated (hsa ▸ hch)⟩
      next ho =>
        exact ⟨hl.1, hl.2.1, fun h => absurd (some.inj h) ho⟩
    | none =>
      have hno : none = some m.checksum → excuse := fun h => by cases h
      refine Spec.bind (spec_scriptFrom d m.sql _ 0 c₀.withLedger (Nat.zero_le _)
        (by rw [Nat.zero_add]; exact e.statements_le m.sql) hno) (fun count => ?_) l hl
      refine Triple.assume fun hcn => ?_
      refine Spec.bind ((spec_inside (kind_text (by simp [runnerTexts, ledgerTexts]))
        fun _ => hno).adapt _) fun _ => ?_
      rintro l ⟨c', hl, hc'⟩
      have hhe : e.hooked (c₀.withLedger.runTexts e ((e.statements m.sql).drop 0)).data = false :=
        hooked_runTexts hm.2 (c := c₀.withLedger) hh
      replace hc' := (Content.succeed_insert e (Statement.ledgerOp_insert ..) hhe _).symm.trans hc'
      split at hc'
      · obtain rfl := some.inj hc'
        rw [hcn]
        exact ⟨hl.1, hl.2.1, _, hl.2.2, .applied hch⟩
      · cases hc'
  · cases hc'

/-- **A call of a migration**, whatever an earlier one left open. -/
theorem triple_migrate {m : Migration} (hm : e.sparesLedger m) (hh : e.hooked c₀.data = false) :
    (world e careful idle smooth).Triple (At true (Based c₀ True)) (d.job (.migrate m) false)
      fun r => At true fun k _ =>
        Outcome e (smooth = false ∨ d.checkWrites ≠ .ok ()) m c₀ r.1 k := by
  have hca : (world e careful idle smooth).Spec (At true (Based c₀ True)) (do
      check d.checkWrites
      Database.inTransaction (d.migrateInTransaction m))
      (fun count => At true fun k _ =>
        Outcome e (smooth = false ∨ d.checkWrites ≠ .ok ()) m c₀ (.d1 (.exec count)) k)
      (At true (Based c₀ (c₀.checksum m.name = some m.checksum →
        smooth = false ∨ d.checkWrites ≠ .ok ()))) := by
    cases hw : d.checkWrites with
    | error err => exact fun l hl => ⟨hl.1, hl.2.1, fun _ => .inr nofun⟩
    | ok _ =>
      exact spec_inTransaction (spec_begin e.kind_immediate fun h _ => .inl h)
        (spec_migrateInTransaction d .inl hm hh)
        (fun _ => spec_commit e.kind_commit fun h _ => .inl h)
        (fun _ h => h) (spec_undo e.kind_rollback)
  refine Triple.bind (Triple.bind (Triple.bind hca fun r => ?_)
    fun _ _ hl => hl) fun _ _ hl => hl
  cases r with
  | ok count => exact fun _ hl => hl
  | error err =>
    rintro l ⟨hgs, rfl, h⟩
    exact ⟨hgs, .failed err h⟩

end Link

/-! ## Histories -/

/-- If a job begins, it is a migration of this kind.  Migrations are of databases, so the bytes of
an object are not measured after them. -/
def SessionAct.migrates {δ : Type} (kind : Migration → Prop) : SessionAct δ → Prop
  | .start _ (.migrate m) measure => measure = false ∧ kind m
  | .start _ _ _ => False
  | _ => True

def Finished.applied {δ : Type} (f : Finished δ) : Option Migration :=
  match f.job, f.result.1 with
  | .migrate m, .d1 (.exec _) =>
    if f.before.committed.checksum m.name = none then some m else none
  | _, _ => none

def Finished.excused {δ : Type} (f : Finished δ) : Prop :=
  f.failed = true ∨ f.database.checkWrites ≠ .ok ()

def Finished.CameTo {δ : Type} (e : Engine δ) (f : Finished δ) (m : Migration) : Prop :=
  f.job = .migrate m ∧ Outcome e f.excused m f.before.committed f.result.1 f.after.committed

/-- What a call did to the database: it applied its migration, which was not there before, or
nothing. -/
theorem Finished.CameTo.applied_cases {δ : Type} {e : Engine δ} {f : Finished δ} {m : Migration}
    (h : f.CameTo e m) :
    f.applied = none ∧ f.after.committed = f.before.committed ∨
      f.applied = some m ∧ f.after.committed = f.before.committed.apply e m ∧
        f.before.committed.checksum m.name = none := by
  obtain ⟨d, job, ⟨done, bs⟩, failed, before, ⟨guest, committed, working⟩⟩ := f
  obtain ⟨hj, h⟩ := h
  dsimp only at hj h
  subst hj
  cases h with
  | failed err => exact .inl ⟨rfl, rfl⟩
  | repeated hro => exact .inl ⟨by simp [Finished.applied, hro], rfl⟩
  | applied hro => exact .inr ⟨by simp [Finished.applied, hro], rfl, hro⟩

def Running.WillCome {δ : Type} (e : Engine δ) (r : Running δ) (l : Link δ) (m : Migration) :
    Prop :=
  r.job = .migrate m ∧ ∀ smooth, (smooth = true → r.failed = false) →
    r.rest.Meets (Link.world e false false smooth)
      (fun result => Link.At true fun k _ =>
        Outcome e (smooth = false ∨ r.database.checkWrites ≠ .ok ()) m r.before.committed result.1
          k)
      l

namespace Session

variable {δ : Type} (e : Engine δ)

def applied (s : Session δ) : List Migration := s.finished.filterMap Finished.applied

/-- The database is what the migrations applied to `c` make of it; a call under way will come to
what it should, and those that ended have. -/
structure Migrated (c : Content δ) (s : Session δ) : Prop where
  rest : s.current = none →
    s.link.guest = true ∧ s.link.committed = s.applied.foldl (Content.apply e) c
  running : ∀ r, s.current = some r → ∃ m, e.sparesLedger m ∧ r.WillCome e s.link m ∧
    r.before.committed = s.applied.foldl (Content.apply e) c
  finished : ∀ f ∈ s.finished, ∃ m, e.sparesLedger m ∧ f.CameTo e m
  names : (s.applied.foldl (Content.apply e) c).names.Nodup
  unhooked : e.hooked (s.applied.foldl (Content.apply e) c).data = false

variable {e} {c : Content δ} {s t : Session δ} {a : SessionAct δ}

theorem applied_append (f : Finished δ) (link : Link δ) (cur : Option (Running δ)) :
    applied ⟨link, cur, s.finished ++ [f]⟩ = s.applied ++ f.applied.toList := by
  rw [applied, filterMap_append, filterMap_cons, filterMap_nil]
  cases f.applied <;> rfl

theorem Migrated.finish (h : s.Migrated e c) {f : Finished δ} {m : Migration}
    (hm : e.sparesLedger m) (hf : f.CameTo e m) (hgs : s.link.guest = true)
    (hbe : f.before.committed = s.applied.foldl (Content.apply e) c)
    (haf : f.after = s.link) : Migrated e c ⟨s.link, none, s.finished ++ [f]⟩ := by
  have hnm := h.names
  have hun := h.unhooked
  rw [← hbe] at hnm hun
  -- the call applied nothing, or its migration
  have hno : f.after.committed =
      (applied ⟨s.link, none, s.finished ++ [f]⟩).foldl (Content.apply e) c ∧
      f.after.committed.names.Nodup ∧ e.hooked f.after.committed.data = false := by
    rw [applied_append, foldl_append, ← hbe]
    obtain ⟨hn, hsa⟩ | ⟨hso, ha, hro⟩ := hf.applied_cases
    · rw [hn, hsa]
      exact ⟨rfl, hnm, hun⟩
    · rw [hso, ha, names_apply hm]
      have hnew : m.name ∉ f.before.committed.names :=
        fun hme => Content.mem_names_iff.1 hme hro
      exact ⟨rfl, List.Nodup.append hnm (nodup_singleton _) (disjoint_singleton.2 hnew),
        hooked_apply hm hun⟩
  refine ⟨fun _ => ⟨hgs, haf ▸ hno.1⟩, fun _ hr => (by cases hr), fun g hg => ?_,
    hno.1 ▸ hno.2.1, hno.1 ▸ hno.2.2⟩
  obtain hg | hg := mem_append.1 hg
  · exact h.finished g hg
  · cases mem_singleton.1 hg
    exact ⟨m, hm, hf⟩

theorem Migrated.step (h : s.Migrated e c) (ha : a.migrates e.sparesLedger)
    (hst : s.step e a = some t) :
    t.Migrated e c := by
  obtain ⟨d, job, measure, hcu⟩ | ⟨hcu, han⟩ | hcu | hcu := step_of_eq hst
  · obtain ⟨hgs, hba⟩ := h.rest hcu
    refine ⟨nofun, fun r hr => ?_, h.finished, h.names, h.unhooked⟩
    cases hr
    cases job with
    | migrate m =>
      obtain ⟨rfl, hm⟩ := ha
      have hun : e.hooked s.link.committed.data = false := hba ▸ h.unhooked
      exact ⟨m, hm, ⟨rfl, fun _ _ => Link.triple_migrate d hm hun _ ⟨hgs, rfl, trivial⟩⟩, hba⟩
    | op op => cases ha
    | object op => cases ha
    | clearAlarm at_ => cases ha
  · obtain ⟨m, hm, ⟨hj, hre⟩, hba⟩ := h.running _ hcu
    refine ⟨nofun, fun r hr => ?_, h.finished, h.names, h.unhooked⟩
    cases hr
    refine ⟨m, hm, ⟨hj, fun smooth hsm => ?_⟩, hba⟩
    -- the world without failures is left at the first one
    have ho : smooth = true → _ ∧ _ := fun h => Bool.or_eq_false_iff.1 (hsm h)
    exact (hre smooth fun h => (ho h).1).2 _ _
      ⟨_, han, fun h => absurd h Bool.false_ne_true, fun h => (ho h).2⟩
  next d job failed before res =>
    obtain ⟨m, hm, ⟨hj, hre⟩, hba⟩ := h.running _ hcu
    obtain ⟨hgs, hd⟩ := hre (!failed) (by simp)
    have hca : Finished.CameTo e ⟨d, job, res, failed, before, s.link⟩ m :=
      ⟨hj, by simpa [Finished.excused] using hd⟩
    exact h.finish hm hca hgs hba rfl
  · obtain ⟨-, hba⟩ := h.rest hcu
    exact ⟨fun _ => ⟨rfl, hba⟩, fun r hr => absurd (hcu.symm.trans hr) nofun, h.finished,
      h.names, h.unhooked⟩

theorem Migrated.sparesLedger (h : s.Migrated e c) : ∀ m ∈ s.applied, e.sparesLedger m := by
  intro m hme
  obtain ⟨f, hf, ha⟩ := mem_filterMap.1 hme
  obtain ⟨m', hm, hca⟩ := h.finished f hf
  obtain ⟨hn, -⟩ | ⟨hso, -⟩ := hca.applied_cases
  · cases hn.symm.trans ha
  · cases hso.symm.trans ha
    exact hm

end Session

end OpenWorkersRunner.D1.Sqlite
