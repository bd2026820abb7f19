import OpenWorkersRunner.D1.Tables

/-!
# D1: paused writes

When writes are paused a job still runs, and each of its places that write checks the pause for
itself.  This file is about what such a job changes, whatever the job is and whatever fails.
-/

namespace OpenWorkersRunner.D1.Sqlite

open List Option World

def Content.HasTables {ρ : Type} (c : Content (Data ρ)) : Prop :=
  ∃ entries alarm, c.data.tables = some ⟨some entries, some alarm⟩

/-- The operation changes nothing where both tables are. -/
def TableOp.Leaves (op : TableOp) : Prop := ∀ entries alarm t' found,
  op.run ⟨some entries, some alarm⟩ = some (t', found) → t' = ⟨some entries, some alarm⟩

namespace Link

/-- The file holds `c₀`, and the transaction that is open has changed nothing, or is the one of
before. -/
def Untouched {δ : Type} (c₀ : Content δ) (w₀ : Option (Content δ)) :
    Content δ → Option (Content δ) → Prop :=
  fun c w => c = c₀ ∧ (w = w₀ ∨ w = none ∨ w = some c₀)

variable {ρ : Type} {e : Engine (Data ρ)} {readonly : String → Bool} {idle smooth guest : Bool}
  {c₀ : Content (Data ρ)} {w₀ : Option (Content (Data ρ))}

variable {l l₀ : Link (Data ρ)}

theorem untouched_gone (h : l.At guest (Untouched c₀ w₀)) :
    At guest (Untouched c₀ w₀) { l with working := none } := ⟨h.1, h.2.1, .inr (.inl rfl)⟩

theorem untouched_of_none (h : l.At guest (Untouched c₀ none)) : l.At guest (Untouched c₀ w₀) := by
  refine ⟨h.1, h.2.1, ?_⟩
  rcases h.2.2 with hn | hw
  · exact .inr (.inl hn)
  · exact .inr hw

/-! ## The statements of a guest -/

theorem spec_prepare_stored {P : Content (Data ρ) → Option (Content (Data ρ)) → Prop}
    (sql : String) :
    (storage e readonly idle smooth).Spec (At true P) (prepare sql)
      (fun stmt l => At true P l ∧ e.kind stmt.sql = .plain ∧ stmt.readonly = readonly stmt.sql)
      (At true P) := by
  refine Triple.ask (fun _ _ => trivial) fun l hl ans l' => ?_
  rintro ⟨⟨after, ha, -⟩, hst, -⟩
  cases ans with
  | ok stmt =>
    obtain ⟨had, ⟨⟩⟩ := ite_none_right_eq_some.1 ha
    exact ⟨hl, plain_of_admits hl.1 had, hst⟩
  | error err =>
    cases ha
    exact hl

theorem spec_next_stored {P : Content (Data ρ) → Option (Content (Data ρ)) → Prop} (sql : String)
    (idx : ℕ) :
    (storage e readonly idle smooth).Spec (At true P) (nextStatement sql idx)
      (fun found l => At true P l ∧ ∀ stmt, found = some stmt →
        e.kind stmt.sql = .plain ∧ stmt.readonly = readonly stmt.sql) (At true P) := by
  refine Triple.ask (fun _ _ => trivial) fun l hl ans l' => ?_
  rintro ⟨⟨after, ha, -⟩, hst, -⟩
  cases ans with
  | ok found =>
    obtain ⟨⟨-, had⟩, ⟨⟩⟩ := ite_none_right_eq_some.1 ha
    refine ⟨hl, ?_⟩
    rintro stmt rfl
    exact ⟨plain_of_admits hl.1 had, hst stmt rfl⟩
  | error err =>
    cases ha
    exact hl

theorem spec_checked {ε : Type} {P : Link (Data ρ) → Prop} (r : Except ε Unit) :
    (storage e readonly idle smooth).Keeps P (check r) := by
  cases r with
  | ok _ => exact fun _ hl => hl
  | error _ => exact fun _ hl => hl

variable {d : Database} {reason : String}

theorem checkWrites_paused (hp : d.paused = some reason) :
    ∃ err, d.checkWrites = .error err := ⟨_, by rw [Database.checkWrites, hp]⟩

theorem spec_guarded {ε α : Type} {shape : Shape} {stmt : Prepared} {ps : List SqlPrimitive}
    {r : Except ε Unit} {f : SqliteError → ε} {k : shape.Result → ExceptT ε Conn α}
    (hp : e.kind stmt.sql = .plain) (hrd : stmt.readonly = readonly stmt.sql)
    (hr : stmt.readonly = false → ∃ err, r = .error err)
    (hk : ∀ res, (storage e readonly idle smooth).Keeps (At true (Untouched c₀ w₀))
      (k res)) :
    (storage e readonly idle smooth).Keeps (At true (Untouched c₀ w₀)) (do
      check r
      let res ← (execute shape ⟨.work, stmt.sql, ps⟩).adapt f
      k res) := by
  cases hst : stmt.readonly with
  | false =>
    obtain ⟨err, rfl⟩ := hr hst
    exact fun _ hl => hl
  | true =>
    refine Spec.bind (spec_checked r) fun _ => Spec.bind (Spec.adapt ?_ f) hk
    exact spec_readonly hp (hrd ▸ hst) fun _ hl => untouched_gone hl

theorem spec_query_paused (hp : d.paused = some reason) (statement : D1Statement) (rows : D1Rows) :
    (storage e readonly idle smooth).Keeps (At true (Untouched c₀ w₀))
      (d.query statement rows) := by
  refine Spec.bind ((spec_prepare_stored statement.sql).adapt sqlError) fun stmt => ?_
  refine Triple.assume fun ⟨hpl, hrd⟩ => Spec.bind (spec_checked _) fun _ => ?_
  refine spec_guarded hpl hrd (fun hw => ?_) fun found => ?_
  · rw [hw]
    exact checkWrites_paused hp
  · refine Spec.bind (spec_checked _) fun _ => ?_
    have hsi : (storage e readonly idle smooth).Triple (At true (Untouched c₀ w₀)) d.size
        fun _ => At true (Untouched c₀ w₀) :=
      storage_of_sqlite (triple_size_keeps d fun _ _ _ h => ⟨h.1, .inr (.inl rfl)⟩)
    exact Spec.bind (Spec.lift hsi) fun _ => Keeps.value _

theorem spec_queries_paused (hp : d.paused = some reason) (idx : ℕ) (stmts : List D1Statement) :
    (storage e readonly idle smooth).Keeps (At true (Untouched c₀ w₀))
      (d.queries idx stmts) := by
  induction stmts generalizing idx with
  | nil => exact Keeps.value _
  | cons stmt rest ih =>
    refine Spec.bind ((spec_query_paused hp stmt .all).adapt _) fun _ => ?_
    exact Spec.bind (ih (idx + 1)) fun _ => Keeps.value _

theorem spec_script_paused (hp : d.paused = some reason) (sql : String) (bs count : ℕ) :
    (storage e readonly idle smooth).Keeps (At true (Untouched c₀ w₀))
      (d.scriptFrom sql bs count) := by
  induction bs generalizing count with
  | zero => exact Keeps.value _
  | succ bs ih =>
    refine Spec.bind ((spec_next_stored sql count).adapt _) fun found => ?_
    refine Triple.assume fun hf => ?_
    cases found with
    | none => exact Keeps.value _
    | some stmt =>
      obtain ⟨hpl, hrd⟩ := hf stmt rfl
      refine Spec.bind (spec_checked _) fun _ => ?_
      refine spec_guarded hpl hrd (fun hw => ?_) fun _ => ih (count + 1)
      obtain ⟨err, her⟩ := checkWrites_paused hp
      rw [hw, if_neg Bool.false_ne_true, her]
      exact ⟨_, rfl⟩

/-! ## A batch -/

theorem spec_begin_untouched :
    (storage e readonly idle smooth).Spec (At true (Untouched c₀ w₀))
      (trusted .control "BEGIN IMMEDIATE") (fun _ => At true (Untouched c₀ none))
      (At true (Untouched c₀ w₀)) := by
  refine storage_of_world (spec_trusted (spec_execute (fun l hl res after l' h => ?_)
    fun l hl after _ _ => ?_))
  · rw [succeed_of_opens e.kind_immediate] at h
    split at h
    · cases h
      exact ⟨hl.1, hl.2.1, .inr (.inr (congrArg some hl.2.1))⟩
    · cases h
  · rw [fail_of_opens e.kind_immediate]
    exact hl

theorem untouched_fail {st : Statement} (hl : l.At guest (Untouched c₀ none))
    (hk : e.kind st.sql ≠ .plain) (after : Aftermath (Data ρ)) :
    (l.fail e st after).At guest (Untouched c₀ none) := by
  rcases l.fail_cases (e := e) st after with h | h | ⟨hp, -⟩
  · rw [h]
    exact hl
  · rw [h]
    exact untouched_gone hl
  · exact absurd hp hk

theorem spec_commit_untouched :
    (storage e readonly idle smooth).Keeps (At true (Untouched c₀ none))
      (trusted .control "COMMIT") := by
  refine storage_of_world (spec_trusted (spec_execute (fun l hl res after l' h => ?_)
    fun l hl after _ _ => untouched_fail hl (by rw [e.kind_commit]; nofun) after))
  obtain ⟨hgs, -, hw⟩ := hl
  rw [succeed_of_commits e.kind_commit] at h
  obtain ⟨c, hc, rfl⟩ := map_eq_some_iff.1 h
  refine ⟨hgs, ?_, .inl rfl⟩
  rcases hw with hn | hn | hso
  · rw [hn] at hc
    cases hc
  · rw [hn] at hc
    cases hc
  · exact mem_unique hc hso

theorem triple_rollback_untouched :
    (storage e readonly idle smooth).Triple (At true (Untouched c₀ none)) rollback
      fun _ => At true (Untouched c₀ none) := by
  refine storage_of_world (triple_rollback (fun _ h => h) (spec_execute
    (fun l hl res after l' h => ?_)
    fun l hl after _ _ => untouched_fail hl (by rw [e.kind_rollback]; nofun) after))
  rw [succeed_of_rollsBack e.kind_rollback] at h
  obtain ⟨c, -, rfl⟩ := map_eq_some_iff.1 h
  exact untouched_gone hl

theorem spec_batch_paused (hp : d.paused = some reason) (stmts : List D1Statement) :
    (storage e readonly idle smooth).Keeps (At true (Untouched c₀ w₀))
      (Database.inTransaction (d.queries 0 stmts)) := by
  have ho : ∀ l, At true (Untouched c₀ none) l → At true (Untouched c₀ w₀) l :=
    fun _ hl => untouched_of_none hl
  refine spec_transaction spec_begin_untouched (spec_queries_paused hp 0 stmts)
    (fun _ => ?_) (triple_rollback_untouched.mono (fun _ hl => hl) fun _ => ho)
  exact spec_commit_untouched.mono (fun _ hl => hl) (fun _ => ho) fun _ hl => hl

/-! ## The storage of an object -/

def HasTables (l : Link (Data ρ)) : Prop :=
  l.committed.HasTables ∧ ∀ w, l.working = some w → w.HasTables

theorem hasTables_content (ht : l₀.HasTables)
    (hl : l.At guest (Untouched l₀.committed l₀.working)) : l.content.HasTables := by
  obtain ⟨-, hco, hwk⟩ := hl
  rcases hwk with hw | hw | hw
  · rw [content, hw, hco]
    cases hw0 : l₀.working with
    | none => exact ht.1
    | some w => exact ht.2 w hw0
  · rw [content, hw, hco]
    exact ht.1
  · rw [content, hw]
    exact ht.1

theorem spec_table_same {shape : Shape} {st : Statement} {op : TableOp} (htb : l₀.HasTables)
    (ho : tableOp st.sql st.params = some op) (hru : op.Leaves) :
    (storage e readonly idle smooth).Keeps (At false (Untouched l₀.committed l₀.working))
      (executeText shape st) := by
  have hex : (storage e readonly idle smooth).Keeps
      (At false (Untouched l₀.committed l₀.working)) (execute shape st) := by
    refine Triple.ask (fun _ _ => trivial) fun l hl ans l' hst => ?_
    obtain ⟨entries, alarm, ht⟩ := hasTables_content htb hl
    cases ans with
    | ok res =>
      obtain ⟨t', found, hf, -, rfl⟩ := hst.2.1.2 op _ ho ht
      rw [hru entries alarm t' found hf, Content.withTables_self ht, write_content]
      exact hl
    | error err =>
      obtain rfl | rfl := hst.2.1 (.inr ⟨by rw [ho]; rfl, by rw [ht]; rfl⟩)
      · exact hl
      · exact untouched_gone hl
  exact hex.adapt _

section Object

variable {l₀ : Link (Data ρ)}

theorem run_list_same {q : Select} {ps : List SqlPrimitive} {t t' : Tables} {found : Found}
    (h : (TableOp.list q ps).run t = some (t', found)) : t' = t := by
  obtain ⟨entries, -, h⟩ := bind_eq_some_iff.1 h
  obtain ⟨rows, -, h⟩ := map_eq_some_iff.1 h
  exact (congrArg Prod.fst h).symm

theorem spec_alarm_paused (ht : l₀.HasTables) :
    (storage e readonly idle smooth).Keeps (At false (Untouched l₀.committed l₀.working))
      alarm := by
  have hse : (selectAlarm, TableOp.getAlarm) ∈ fixedOps [] := by simp [fixedOps]
  refine spec_table_same ht (tableOp_of_mem hse) fun entries alarm t' found h => ?_
  cases h
  rfl

theorem spec_getValues_paused (ht : l₀.HasTables) (keys : List String) :
    (storage e readonly idle smooth).Keeps (At false (Untouched l₀.committed l₀.working))
      (getValues keys) := by
  induction keys with
  | nil => exact Keeps.value _
  | cons key keys ih =>
    have hge : (storage e readonly idle smooth).Keeps
        (At false (Untouched l₀.committed l₀.working))
        (executeText .blob ⟨.work, selectValue, [.string key]⟩) := by
      have hse : (selectValue, TableOp.get key) ∈ fixedOps [.string key] := by simp [fixedOps]
      refine spec_table_same ht (tableOp_of_mem hse) fun entries alarm t' found h => ?_
      cases h
      rfl
    exact Spec.bind hge fun _ => Spec.bind ih fun _ =>
      Keeps.value _

/-- **An operation on an object that has its tables**, while writes are paused. -/
theorem spec_objectOp_paused (ht : l₀.HasTables) (hps : d.paused = some reason)
    (op : ObjectStorageOp) :
    (storage e readonly idle smooth).Keeps (At false (Untouched l₀.committed l₀.working))
      (d.objectOp op) := by
  obtain ⟨message, hw⟩ : ∃ message, d.checkWritesText = .error message := by
    obtain ⟨err, her⟩ := checkWrites_paused hps
    exact ⟨err.message, by rw [Database.checkWritesText, her]; rfl⟩
  have hp (sql : String) : (storage e readonly idle smooth).Keeps
      (At false (Untouched l₀.committed l₀.working)) ((prepare sql).adapt SqliteError.text) :=
    ((spec_prepare_keeps sql).adapt _).mono (fun _ hl => hl) (fun _ _ hl => hl) fun _ hl => hl.1
  have htb : (TableOp.createEntries).Leaves := fun _ _ _ _ h => by cases h; rfl
  have ha : (TableOp.createAlarm).Leaves := fun _ _ _ _ h => by cases h; rfl
  have hte : (table, TableOp.createEntries) ∈ fixedOps [] := by simp [fixedOps]
  have hal : (alarmTable, TableOp.createAlarm) ∈ fixedOps [] := by simp [fixedOps]
  refine Spec.bind (spec_table_same ht (tableOp_of_mem hte) htb) fun _ => ?_
  refine Spec.bind (spec_table_same ht (tableOp_of_mem hal) ha) fun _ => ?_
  cases op with
  | getAlarm => exact (spec_alarm_paused ht).map _ fun _ _ hl => hl
  | setAlarm at_ =>
    simp only [hw]
    exact fun _ hl => hl
  | get keys =>
    refine Spec.bind (spec_checked _) fun _ => ?_
    refine Spec.bind (hp _) fun _ => ?_
    exact (spec_getValues_paused ht keys).map _ fun _ _ hl => hl
  | list start startAfter stop pre reverse lim =>
    refine Spec.bind (hp _) fun _ => ?_
    refine Spec.bind (spec_table_same ht (tableOp_listStatement ..)
      fun _ _ _ _ h => run_list_same h) fun found => ?_
    exact Spec.bind (spec_checked _) fun _ => Keeps.value _
  | write puts deletes deleteAll =>
    refine Spec.bind (spec_checked _) fun _ => Spec.bind (spec_checked _) fun _ => ?_
    rw [hw]
    exact fun _ hl => hl

theorem triple_answered_storage {P : Content (Data ρ) → Option (Content (Data ρ)) → Prop}
    {p : ExceptT String Conn ObjectStorageResult}
    (hp : (storage e readonly idle smooth).Keeps (At false P) p) :
    (storage e readonly idle smooth).Triple (At true P) (Database.answered p)
      fun _ => At true P := by
  have hse (on : Bool) : (storage e readonly idle smooth).Triple (At (!on) P) (setGuest on)
      fun _ => At on P := storage_of_world (triple_setGuest on)
  have hru : (storage e readonly idle smooth).Triple (At true P) (unrestricted p.run)
      fun _ => At true P :=
    (hse false).bind fun _ => (Spec.triple hp).bind fun _ =>
      (hse true).bind fun _ _ hl => hl
  refine hru.bind fun r => ?_
  cases r with
  | ok _ => exact fun _ hl => hl
  | error _ => exact fun _ hl => hl

end Object

/-- **A paused job**, from any connection with the restrictions on. -/
theorem triple_run_paused {job : Job} (hp : d.paused = some reason)
    (hw : ∀ op, job = .object op → l₀.HasTables) :
    (storage e readonly idle smooth).Triple (At true (Untouched l₀.committed l₀.working))
      (d.run job) fun _ => At true (Untouched l₀.committed l₀.working) := by
  cases job with
  | op op =>
    cases op with
    | query stmt rows =>
      refine (Spec.triple (spec_query_paused hp stmt rows)).bind fun r => ?_
      cases r <;> exact fun _ hl => hl
    | batch stmts =>
      refine Triple.bind ?_ fun _ _ hl => hl
      refine (Spec.triple (spec_batch_paused hp stmts)).bind fun r => ?_
      cases r <;> exact fun _ hl => hl
    | exec sql =>
      refine Triple.bind ?_ fun _ _ hl => hl
      refine (Spec.triple (spec_script_paused hp sql _ 0)).bind fun r => ?_
      cases r <;> exact fun _ hl => hl
  | migrate mig =>
    obtain ⟨err, her⟩ := checkWrites_paused hp
    rw [Database.run, Database.migrate, her]
    exact fun _ hl => hl
  | object op =>
    exact (triple_answered_storage (spec_objectOp_paused (hw op rfl) hp op)).bind
      fun _ _ hl => hl
  | clearAlarm at_ =>
    refine Triple.bind (triple_answered_storage ?_) fun _ _ hl => hl
    obtain ⟨err, her⟩ := checkWrites_paused hp
    rw [Database.checkWritesText, her]
    exact fun _ hl => hl

end Link

/-! ## What only reads -/

def Database.unpaused (d : Database) : Database := { d with paused := none }

def Job.reads {δ : Type} (e : Engine δ) (readonly : String → Bool) : Job → Bool
  | .op (.query statement _) => readonly (e.first statement.sql)
  | .op (.batch statements) => statements.all fun statement => readonly (e.first statement.sql)
  | .op (.exec sql) => (e.statements sql).all readonly
  | .object .getAlarm | .object (.get _) | .object (.list ..) => true
  | _ => false

section Reads

variable {ρ : Type} {e : Engine (Data ρ)} {readonly : String → Bool} {idle smooth : Bool}
  {d : Database}

theorem readonly_of_prepare {sql : String} {stmt : Prepared} {l l' : Link (Data ρ)}
    (h : (Link.storage e readonly idle smooth).Runs (prepare sql).run l (.ok stmt) l') :
    stmt.readonly = readonly (e.first sql) := by
  cases h with
  | ask hst hre =>
    obtain ⟨rfl, -⟩ := runs_done.1 hre
    obtain ⟨⟨after, -, -, hsn⟩, hstored, -⟩ := hst
    exact hstored.trans (congrArg readonly hsn)

theorem readonly_of_next {sql : String} {idx : ℕ} {stmt : Prepared} {l l' : Link (Data ρ)}
    (h : (Link.storage e readonly idle smooth).Runs (nextStatement sql idx).run l
      (.ok (some stmt)) l') :
    stmt.sql ∈ e.statements sql ∧ stmt.readonly = readonly stmt.sql := by
  cases h with
  | ask hst hre =>
    obtain ⟨rfl, -⟩ := runs_done.1 hre
    obtain ⟨⟨after, ha, -⟩, hstored, -⟩ := hst
    obtain ⟨⟨hf, -⟩, -⟩ := ite_none_right_eq_some.1 ha
    exact ⟨mem_of_getElem? hf.symm, hstored stmt rfl⟩

theorem same_query {statement : D1Statement} {rows : D1Rows}
    (hrd : readonly (e.first statement.sql) = true) :
    (Link.storage e readonly idle smooth).Same (d.query statement rows).run
      (d.unpaused.query statement rows).run := by
  refine Same.bind_except (Same.refl _) fun l stmt l' hp => ?_
  obtain ⟨x, hp, hx⟩ := runs_adapt.1 hp
  cases x with
  | error err => cases hx
  | ok stmt' =>
    cases hx
    have hst : stmt.readonly = true := (readonly_of_prepare hp).trans hrd
    simp only [hst, if_true]
    exact Same.refl _

theorem same_queries {stmts : List D1Statement} {idx : ℕ}
    (hrd : ∀ stmt ∈ stmts, readonly (e.first stmt.sql) = true) :
    (Link.storage e readonly idle smooth).Same (d.queries idx stmts).run
      (d.unpaused.queries idx stmts).run := by
  induction stmts generalizing idx with
  | nil => exact Same.refl _
  | cons stmt rest ih =>
    obtain ⟨hf, hre⟩ := forall_mem_cons.1 hrd
    refine Same.bind_except ?_ fun _ _ _ _ => ?_
    · exact Same.bind (same_query hf) fun _ _ _ _ => Same.refl _
    · exact Same.bind_except (ih hre) fun _ _ _ _ => Same.refl _

theorem same_scriptFrom {sql : String} {bs count : ℕ}
    (hrd : ∀ text ∈ e.statements sql, readonly text = true) :
    (Link.storage e readonly idle smooth).Same (d.scriptFrom sql bs count).run
      (d.unpaused.scriptFrom sql bs count).run := by
  induction bs generalizing count with
  | zero => exact Same.refl _
  | succ bs ih =>
    refine Same.bind_except (Same.refl _) fun l found l' hn => ?_
    cases found with
    | none => exact Same.refl _
    | some stmt =>
      obtain ⟨x, hn, hx⟩ := runs_adapt.1 hn
      cases x with
      | error err => cases hx
      | ok found =>
        cases hx
        obtain ⟨hm, hst⟩ := readonly_of_next hn
        rw [hrd _ hm] at hst
        simp only [hst, if_true]
        refine Same.bind_except (Same.refl _) fun _ _ _ _ => ?_
        refine Same.bind_except (Same.refl _) fun _ _ _ _ => ?_
        exact Same.bind_except (Same.refl _) fun _ _ _ _ => ih

/-- **A job that only reads has the runs it has without the pause.** -/
theorem same_run {job : Job} (hrd : job.reads e readonly = true) :
    (Link.storage e readonly idle smooth).Same (d.run job) (d.unpaused.run job) := by
  cases job with
  | op op =>
    cases op with
    | query stmt rows =>
      exact Same.bind (same_query hrd) fun _ _ _ _ => Same.refl _
    | batch stmts =>
      refine Same.bind (Same.bind ?_ fun _ _ _ _ => Same.refl _)
        fun _ _ _ _ => Same.refl _
      refine Same.bind_except (Same.refl _) fun _ _ _ _ => ?_
      refine Same.bind_except ?_ fun _ _ _ _ => Same.refl _
      exact Same.bind (same_queries (all_eq_true.1 hrd)) fun _ _ _ _ =>
        Same.refl _
    | exec sql =>
      refine Same.bind (Same.bind ?_ fun _ _ _ _ => Same.refl _)
        fun _ _ _ _ => Same.refl _
      exact same_scriptFrom (all_eq_true.1 hrd)
  | migrate mig => cases hrd
  | object op =>
    -- these never look at the pause
    cases op with
    | getAlarm => exact Same.refl _
    | get keys => exact Same.refl _
    | list start startAfter stop pre reverse lim => exact Same.refl _
    | setAlarm at_ => cases hrd
    | write puts deletes deleteAll => cases hrd
  | clearAlarm at_ => cases hrd

end Reads

/-! ## What creates tables -/

def pausedDatabase : Database := ⟨4096, 1000, some "no disk space left", none⟩

namespace Link

variable {ρ : Type} {l : Link (Data ρ)}

theorem step_prepare_fails (sql : String) (err : SqliteError) :
    (storage (tableEngine (ρ := ρ)) (fun _ => false) false false).step l (.prepare sql) (.error err)
      l :=
  ⟨⟨.undone, rfl, fun _ => rfl, trivial⟩, trivial, fun h => absurd h Bool.false_ne_true⟩

/-- **An operation that finds no tables creates them**, whatever it is, and then fails or answers.
-/
theorem runs_created_paused {t : Tables} (op : ObjectStorageOp) (hgs : l.guest = false)
    (ht : l.content.data.tables = some t) :
    ∃ x, (storage tableEngine (fun _ => false) false false).Runs (pausedDatabase.objectOp op).run l
      x (l.write (l.content.withTables t.created)) := by
  have hfail (sql : String) {α : Type} (k : Prepared → ExceptT String Conn α) (l : Link (Data ρ)) :
      (storage tableEngine (fun _ => false) false false).Runs
        ((prepare sql).adapt SqliteError.text >>= k).run l (.error "interrupted") l :=
    .ask (step_prepare_fails sql ⟨some 9, some "interrupted", "interrupted", "interrupted"⟩)
      (.done _ _)
  cases op with
  | getAlarm =>
    exact ⟨_, runs_created hgs ht (.ask (step_fails .int _ ⟨none, none, "", ""⟩) (.done _ _))⟩
  | setAlarm at_ => exact ⟨_, runs_created hgs ht (.done _ _)⟩
  | get keys =>
    cases hch : checkKeys keys with
    | error message => exact ⟨_, runs_created hgs ht ((runs_check_error hch).2 ⟨rfl, rfl⟩)⟩
    | ok u => exact ⟨_, runs_created hgs ht ((runs_check_ok hch).2 (hfail _ _ _))⟩
  | list start startAfter stop pre reverse lim => exact ⟨_, runs_created hgs ht (hfail _ _ _)⟩
  | write puts deletes deleteAll =>
    cases hch : checkKeys deletes with
    | error message => exact ⟨_, runs_created hgs ht ((runs_check_error hch).2 ⟨rfl, rfl⟩)⟩
    | ok u =>
      cases hcp : checkPuts puts with
      | error message =>
        exact ⟨_, runs_created hgs ht ((runs_check_ok hch).2 ((runs_check_error hcp).2
          ⟨rfl, rfl⟩))⟩
      | ok u =>
        exact ⟨_, runs_created hgs ht ((runs_check_ok hch).2 ((runs_check_ok hcp).2
          (.done _ _)))⟩

end Link

theorem Tables.created_eq_self_iff {t : Tables} :
    t.created = t ↔ t.entries.isSome = true ∧ t.alarm.isSome = true := by
  cases t with
  | mk entries alarm => cases entries <;> cases alarm <;> simp [Tables.created]

/-- **A paused job changes nothing**, whatever it is and whatever fails, if it is no operation on
the storage of an object or the object has its tables: the file is as it was, and a transaction that
is open then is the one of before or has changed nothing.  **It changes nothing only then**: where a
table of the object is missing, the operation creates it.  **And what only reads does and answers
what it does without the pause.** -/
theorem paused_writes_nothing {ρ : Type} (job : Job) :
    (∀ (e : Engine (Data ρ)) (readonly : String → Bool) (idle smooth : Bool) (d : Database)
      (reason : String) (c : Content (Data ρ)) (w : Option (Content (Data ρ))) (r : Done)
      (l' : Link (Data ρ)), d.paused = some reason →
      (∀ op, job = .object op → Link.HasTables ⟨true, c, w⟩) →
      (Link.storage e readonly idle smooth).Runs (d.run job) ⟨true, c, w⟩ r l' →
      l'.committed = c ∧ (l'.working = w ∨ l'.working = none ∨ l'.working = some c)) ∧
    (∀ (c : Content (Data ρ)) (t : Tables),
      (∀ (e : Engine (Data ρ)) (readonly : String → Bool) (idle smooth : Bool) (d : Database)
        (reason : String) (r : Done) (l' : Link (Data ρ)), d.paused = some reason →
        (Link.storage e readonly idle smooth).Runs (d.run job) (.fresh (c.withTables t)) r l' →
        l'.committed = c.withTables t) ↔
      ∀ op, job = .object op → t.entries.isSome = true ∧ t.alarm.isSome = true) ∧
    ∀ (e : Engine (Data ρ)) (readonly : String → Bool) (idle smooth : Bool) (d : Database),
      job.reads e readonly = true → ∀ l r l',
      (Link.storage e readonly idle smooth).Runs (d.run job) l r l' ↔
        (Link.storage e readonly idle smooth).Runs (d.unpaused.run job) l r l' := by
  have hsame (e : Engine (Data ρ)) (readonly : String → Bool) (idle smooth : Bool) (d : Database)
      (reason : String) (c : Content (Data ρ)) (w : Option (Content (Data ρ))) (r : Done)
      (l' : Link (Data ρ)) (hpaused : d.paused = some reason)
      (htables : ∀ op, job = .object op → Link.HasTables ⟨true, c, w⟩)
      (h : (Link.storage e readonly idle smooth).Runs (d.run job) ⟨true, c, w⟩ r l') :
      l'.committed = c ∧ (l'.working = w ∨ l'.working = none ∨ l'.working = some c) :=
    ((Link.triple_run_paused hpaused htables).of_runs ⟨rfl, rfl, .inl rfl⟩ h).2
  refine ⟨hsame, fun c t => ⟨fun h op hjob => ?_, fun h => ?_⟩,
    fun _ _ _ _ _ hreads l r l' => same_run hreads l r l'⟩
  · subst hjob
    obtain ⟨x, hrun⟩ := Link.runs_created_paused (l := ⟨false, c.withTables t, none⟩) op rfl rfl
    have hfile := h _ _ _ _ _ _ _ _ rfl (Link.runs_of_objectOp (l := .fresh (c.withTables t)) hrun)
    refine Tables.created_eq_self_iff.1 ?_
    exact some.inj (congrArg (fun c : Content (Data ρ) => c.data.tables) hfile)
  · intro e readonly idle smooth d reason r l' hpaused hrun
    refine (hsame e readonly idle smooth d reason _ none r l' hpaused (fun op hjob => ?_) hrun).1
    obtain ⟨entries, hentries⟩ := isSome_iff_exists.1 (h op hjob).1
    obtain ⟨alarm, halarm⟩ := isSome_iff_exists.1 (h op hjob).2
    refine ⟨⟨entries, alarm, ?_⟩, nofun⟩
    rw [← hentries, ← halarm]
    rfl

theorem runs_getAlarm (d : Database) (t : Tables) :
    OpRuns true true d .getAlarm (objectFile t) none (.ok (.alarm (t.alarm.getD none)))
      (objectFile t.created) none := by
  have hse : (selectAlarm, TableOp.getAlarm) ∈ fixedOps [] := by simp [fixedOps]
  refine Link.runs_created rfl rfl ?_
  exact .ask (Link.step_text rfl hse rfl rfl rfl) (.done _ _)

theorem paused_creates_tables :
    ¬ ∀ (e : Engine (Data Unit)) (readonly : String → Bool) (idle smooth : Bool) (d : Database)
      (reason : String) (job : Job) (l l' : Link (Data Unit)) (r : Done),
      d.paused = some reason → l.guest = true →
      (Link.storage e readonly idle smooth).Runs (d.run job) l r l' →
      l'.committed = l.committed := by
  intro h
  have hrun := Link.runs_of_objectOp (l := .fresh _) (runs_getAlarm pausedDatabase ⟨none, none⟩)
  have hsame := h _ _ _ _ _ _ _ _ _ _ rfl rfl hrun
  cases hsame

end OpenWorkersRunner.D1.Sqlite
