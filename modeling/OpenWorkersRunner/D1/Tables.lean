import OpenWorkersRunner.D1.Atomic
import OpenWorkersRunner.D1.Select

/-!
# D1: the tables of an object

The file of an object has a table of entries and a table with one row for the alarm.  The runner
works on them with eleven statements, and this file says what SQLite makes of each: `tableOp` reads
the text, and `TableOp.run` is what it does to the tables and what it finds.
-/

namespace OpenWorkersRunner.D1.Sqlite

open List Option World

/-! ## What the statements do -/

structure Tables where
  entries : Option Entries
  alarm : Option (Option Int)
deriving DecidableEq

def Tables.created (t : Tables) : Tables :=
  ⟨some (t.entries.getD .empty), some (t.alarm.getD none)⟩

inductive TableOp
  | createEntries
  | createAlarm
  | getAlarm
  | setAlarm (at_ : Int)
  | deleteAlarm
  | clearAlarm (at_ : Int)
  | get (key : String)
  | clear
  | delete (key : String)
  | put (key : String) (value : List UInt8)
  | list (q : Select) (params : List SqlPrimitive)
deriving DecidableEq

inductive Found
  | nothing
  | changes (count : ℕ)
  | alarm (at_ : Option Int)
  | value (value : Option (List UInt8))
  | entries (rows : List Entry)
deriving DecidableEq

def TableOp.run (t : Tables) : TableOp → Option (Tables × Found)
  | createEntries => some ({ t with entries := some (t.entries.getD .empty) }, .nothing)
  | createAlarm => some ({ t with alarm := some (t.alarm.getD none) }, .nothing)
  | getAlarm => t.alarm.map fun at_ => (t, .alarm at_)
  | setAlarm at_ => t.alarm.map fun _ => ({ t with alarm := some (some at_) }, .changes 1)
  | deleteAlarm => t.alarm.map fun at_ =>
    ({ t with alarm := some none }, .changes (if at_.isSome then 1 else 0))
  | clearAlarm at_ => t.alarm.map fun old =>
    ({ t with alarm := some (old.filter (· ≠ at_)) }, .changes (if old = some at_ then 1 else 0))
  | get key => t.entries.map fun entries => (t, .value (entries.get key))
  | clear => t.entries.map fun entries =>
    ({ t with entries := some .empty }, .changes entries.rows.length)
  | delete key => t.entries.map fun entries =>
    ({ t with entries := some (entries.erase (utf8 key)) },
      .changes (if (entries.get key).isSome then 1 else 0))
  | put key value => t.entries.map fun entries =>
    ({ t with entries := some (entries.insert (key, value)) }, .changes 1)
  | list q params => t.entries.bind fun entries =>
    (q.eval params entries).map fun rows => (t, .entries rows)

def Shape.Reads : (shape : Shape) → shape.Result → Found → Prop
  | .changes, count, .changes found => count = found
  | .int, at_, .alarm found => at_ = found
  | .blob, value, .value found => value = found
  | .entries, result, .entries found => result = found
  | _, _, _ => True

/-! ## How their texts are read -/

/-- What the statements with these parameters do, by their texts. -/
def fixedOps : List SqlPrimitive → List (String × TableOp)
  | [] =>
    [(table, .createEntries), (alarmTable, .createAlarm), (selectAlarm, .getAlarm),
      (deleteAlarm, .deleteAlarm), (deleteAllEntries, .clear)]
  | [.int at_] => [(insertAlarm, .setAlarm at_), (deleteAlarmAt, .clearAlarm at_)]
  | [.string key] => [(selectValue, .get key), (deleteEntry, .delete key)]
  | [.string key, .bytes value] => [(insertEntry, .put key value)]
  | _ => []

def tableOp (sql : String) (params : List SqlPrimitive) : Option TableOp :=
  match Select.read sql.toList with
  | some q => some (.list q params)
  | none => (fixedOps params).lookup sql

section Texts

theorem read_ofList {l : List Char} (h : l.take 8 ≠ ['S', 'E', 'L', 'E', 'C', 'T', ' ', 'k']) :
    Select.read (String.ofList l).toList = none := by
  have ha : after? "SELECT key, value FROM kv WHERE 1" l = none := by
    refine eq_none_iff_forall_ne_some.2 fun t ht => h ?_
    rw [after?, isPrefixOf?_eq_some_iff_append_eq] at ht
    rw [← ht]
    simp
  rw [String.toList_ofList, Select.read, ha]
  rfl

theorem lookup_of_mem {α β : Type} [BEq α] [LawfulBEq α] {rows : List (α × β)} {a : α} {b : β}
    (hn : (rows.map Prod.fst).Nodup) (h : (a, b) ∈ rows) : rows.lookup a = some b := by
  induction rows with
  | nil => cases h
  | cons row rows ih =>
    obtain ⟨hrow, hrows⟩ := nodup_cons.1 hn
    rcases mem_cons.1 h with rfl | h
    · exact lookup_cons_self
    · have hne : (a == row.1) = false :=
        beq_eq_false_iff_ne.2 fun heq => hrow (heq ▸ mem_map_of_mem h)
      rw [lookup_cons, hne]
      exact ih hrows h

variable {sql : String} {ps : List SqlPrimitive} {op : TableOp}

theorem mem_objectTexts (h : (sql, op) ∈ fixedOps ps) : sql ∈ objectTexts := by
  have hall : ∀ text ∈ (fixedOps ps).map Prod.fst, text ∈ objectTexts := by
    unfold fixedOps
    split <;> simp [objectTexts]
  exact hall sql (mem_map_of_mem h)

/-- **A text of the runner is read as what it does.** -/
theorem tableOp_of_mem (h : (sql, op) ∈ fixedOps ps) : tableOp sql ps = some op := by
  have hread : ∀ text ∈ objectTexts,
      text.toList.take 8 ≠ ['S', 'E', 'L', 'E', 'C', 'T', ' ', 'k'] := by decide +kernel
  have hnodup : ((fixedOps ps).map Prod.fst).Nodup := by
    unfold fixedOps
    split <;> simp only [map_cons, map_nil] <;> decide +kernel
  have hnone : Select.read sql.toList = none := by
    have hsql := read_ofList (hread sql (mem_objectTexts h))
    rwa [String.ofList_toList] at hsql
  rw [tableOp, hnone]
  exact lookup_of_mem hnodup h

theorem tableOp_listStatement (start startAfter stop pre : Option String) (reverse : Bool)
    (lim : Option ℕ) :
    tableOp (listStatement start startAfter stop pre reverse lim).sql
        (listStatement start startAfter stop pre reverse lim).params =
      some (.list (listSelect start startAfter stop pre reverse lim)
        (listStatement start startAfter stop pre reverse lim).params) := by
  rw [tableOp, read_listStatement]

end Texts

/-! ## Who answers -/

structure Data (ρ : Type) where
  tables : Option Tables
  rest : ρ
deriving DecidableEq

def Content.withTables {ρ : Type} (c : Content (Data ρ)) (t : Tables) : Content (Data ρ) :=
  { c with data := { c.data with tables := some t } }

theorem Content.withTables_self {ρ : Type} {c : Content (Data ρ)} {t : Tables}
    (h : c.data.tables = some t) : c.withTables t = c := by
  cases c with
  | mk data ledger =>
    cases data with
    | mk tables rest =>
      cases h
      rfl

namespace Link

variable {ρ : Type} (e : Engine (Data ρ)) (readonly : String → Bool)

/-- What more is known of an answer.  SQLite says which statements only read, and these leave the
connection as it is; a statement about the tables of an object does to them what it does.  If one
of either fails, then nothing of its work is left. -/
def Stored (l : Link (Data ρ)) : (q : Ask) → q.Answer → Link (Data ρ) → Prop
  | .prepare _, .ok stmt, _ => stmt.readonly = readonly stmt.sql
  | .next _ _, .ok found, _ => ∀ stmt, found = some stmt → stmt.readonly = readonly stmt.sql
  | .execute shape st, .ok result, l' =>
    (e.kind st.sql = .plain → readonly st.sql = true → l' = l) ∧
      ∀ op t, tableOp st.sql st.params = some op → l.content.data.tables = some t →
        ∃ t' found, op.run t = some (t', found) ∧ shape.Reads result found ∧
          l' = l.write (l.content.withTables t')
  | .execute _ st, .error _, l' =>
    e.kind st.sql = .plain ∧ readonly st.sql = true ∨
      (tableOp st.sql st.params).isSome = true ∧ l.content.data.tables.isSome = true →
        l' = l ∨ l' = { l with working := none }
  | _, _, _ => True

/-- SQLite, with the tables of an object.  With `idle`, a transaction that is rolled back is over;
with `smooth`, nothing fails. -/
def storage (idle smooth : Bool) : World (Link (Data ρ)) Ask Ask.Answer where
  safe _ _ := True
  step l q answer l' := (sqlite e idle false).step l q answer l' ∧ l.Stored e readonly q answer l' ∧
    (smooth = true → q.failed answer = false)

variable {e readonly} {idle smooth : Bool}

variable {δ : Type} {P : Link (Data ρ) → Prop} {shape : Shape} {st : Statement}

theorem write_content (l : Link δ) : l.write l.content = l := by
  cases l with
  | mk guest committed working => cases working <;> rfl

theorem write_write (l : Link δ) (c c' : Content δ) : (l.write c).write c' = l.write c' := by
  cases l with
  | mk guest committed working => cases working <;> rfl

theorem content_write (l : Link δ) (c : Content δ) : (l.write c).content = c := by
  cases l with
  | mk guest committed working => cases working <;> rfl

theorem storage_of_world {α : Type} {p : Conn α} {R : α → Link (Data ρ) → Prop}
    (h : (world e false idle smooth).Triple P p R) :
    (storage e readonly idle smooth).Triple P p R := by
  refine fun l hl => (h l hl).of_le (fun _ _ _ => trivial) ?_
  rintro l q ans l' ⟨⟨after, ha, hro, -⟩, -, hsm⟩
  exact ⟨after, ha, hro, hsm⟩

theorem storage_of_sqlite {α : Type} {p : Conn α} {R : α → Link (Data ρ) → Prop}
    (h : (sqlite e idle false).Triple P p R) : (storage e readonly idle smooth).Triple P p R :=
  fun l hl => (h l hl).of_le (fun _ _ _ => trivial) fun _ _ _ _ (hst : _ ∧ _) => hst.1

theorem smooth_of_error {err : SqliteError} {l l' : Link (Data ρ)}
    (h : (storage e readonly idle smooth).step l (.execute shape st) (.error err) l') :
    smooth = false := Bool.eq_false_iff.2 fun hsm => Bool.noConfusion (h.2.2 hsm)

/-- **A statement about the tables** does to them what it does. -/
theorem spec_table {op : TableOp} {t t' : Tables} {found : Found} {F : Link (Data ρ) → Prop}
    {R : shape.Result → Link (Data ρ) → Prop} (ho : tableOp st.sql st.params = some op)
    (hru : op.run t = some (t', found)) (ht : ∀ l, P l → l.content.data.tables = some t)
    (hok : ∀ l, P l → ∀ res, shape.Reads res found → R res (l.write (l.content.withTables t')))
    (her : smooth = false → ∀ l, P l → F l ∧ F { l with working := none }) :
    (storage e readonly idle smooth).Spec P (execute shape st) R F := by
  refine Triple.ask (fun _ _ => trivial) fun l hl ans l' hst => ?_
  cases ans with
  | ok res =>
    obtain ⟨t1, found1, hru1, hrd, rfl⟩ := hst.2.1.2 op t ho (ht l hl)
    rw [hru] at hru1
    cases hru1
    exact hok l hl res hrd
  | error err =>
    have hsm := smooth_of_error hst
    obtain rfl | rfl := hst.2.1 (.inr ⟨by rw [ho]; rfl, by rw [ht l hl]; rfl⟩)
    · exact (her hsm _ hl).1
    · exact (her hsm _ hl).2

/-- **A statement that only reads** leaves the connection as it is, or without its transaction. -/
theorem spec_readonly (hp : e.kind st.sql = .plain) (hrd : readonly st.sql = true)
    (hgo : ∀ l, P l → P { l with working := none }) :
    (storage e readonly idle smooth).Keeps P (execute shape st) := by
  refine Triple.ask (fun _ _ => trivial) fun l hl ans l' hst => ?_
  cases ans with
  | ok res =>
    rw [hst.2.1.1 hp hrd]
    exact hl
  | error err =>
    obtain rfl | rfl := hst.2.1 (.inl ⟨hp, hrd⟩)
    · exact hl
    · exact hgo _ hl

theorem spec_prepare_keeps (sql : String) :
    (storage e readonly idle smooth).Spec P (prepare sql) (fun _ => P)
      (fun l => P l ∧ smooth = false) := by
  refine Triple.ask (fun _ _ => trivial) fun l hl ans l' => ?_
  rintro ⟨⟨after, ha, -⟩, -, hsm⟩
  cases ans with
  | ok stmt =>
    obtain ⟨-, ⟨⟩⟩ := ite_none_right_eq_some.1 ha
    exact hl
  | error err =>
    cases ha
    exact ⟨hl, Bool.eq_false_iff.2 fun h => Bool.noConfusion (hsm h)⟩

/-! ## Operations -/

def resultOf : Except String ObjectStorageResult → ObjectStorageResult
  | .ok result => result
  | .error message => .error message

theorem step_setGuest (l : Link (Data ρ)) (on : Bool) :
    (storage e readonly idle smooth).step l (.setGuest on) () { l with guest := on } :=
  ⟨⟨.undone, rfl, fun _ => rfl, trivial⟩, trivial, fun _ => rfl⟩

section Runs

variable {d : Database} {op : ObjectStorageOp} {l l' : Link (Data ρ)}

theorem runs_object {r : ObjectStorageResult}
    (h : (storage e readonly idle smooth).Runs (d.object op) l r l') :
    ∃ x l1, r = resultOf x ∧ l' = { l1 with guest := true } ∧
      (storage e readonly idle smooth).Runs (d.objectOp op).run { l with guest := false } x l1 := by
  have hse {on : Bool} {k k' : Link (Data ρ)} {u : Unit}
      (hru : (storage e readonly idle smooth).Runs (setGuest on) k u k') :
      k' = { k with guest := on } := by
    cases hru with
    | ask hst hre =>
      obtain ⟨-, rfl⟩ := runs_done.1 hre
      obtain ⟨⟨after, ha, -⟩, -⟩ := hst
      exact (some.inj ha).symm
  obtain ⟨x, l1, hru, h⟩ := runs_bind.1 h
  obtain ⟨_, l2, ho, hru⟩ := runs_bind.1 hru
  obtain ⟨y, l3, hop, hru⟩ := runs_bind.1 hru
  obtain ⟨_, l4, hon, hru⟩ := runs_bind.1 hru
  obtain ⟨rfl, rfl⟩ := runs_done.1 hru
  rw [hse ho] at hop
  refine ⟨x, l3, ?_, ?_, hop⟩
  · cases x <;> exact (runs_done.1 h).1
  · rw [← hse hon]
    cases x <;> exact (runs_done.1 h).2

theorem runs_of_objectOp {x : Except String ObjectStorageResult}
    (h : (storage e readonly idle smooth).Runs (d.objectOp op).run { l with guest := false } x l') :
    (storage e readonly idle smooth).Runs (d.run (.object op)) l (.object (resultOf x))
      { l' with guest := true } := by
  have hse (k : Link (Data ρ)) (on : Bool) : (storage e readonly idle smooth).Runs (setGuest on) k
      () { k with guest := on } := .ask (step_setGuest k on) (.done _ _)
  have hru : (storage e readonly idle smooth).Runs (unrestricted (d.objectOp op).run) l x
      { l' with guest := true } :=
    runs_bind.2 ⟨_, _, hse l false, runs_bind.2 ⟨_, _, h, runs_bind.2
      ⟨_, _, hse l' true, .done _ _⟩⟩⟩
  refine runs_bind.2 ⟨resultOf x, _, runs_bind.2 ⟨x, _, hru, ?_⟩, .done _ _⟩
  cases x <;> exact .done _ _

end Runs

end Link

/-! ## An engine -/

def tableEffect {ρ : Type} (sql : String) (params : List SqlPrimitive)
    (c : Content (Data ρ)) : Content (Data ρ) :=
  match tableOp sql params, c.data.tables with
  | some op, some t => (op.run t).elim c fun result => c.withTables result.1
  | _, _ => c

def Engine.withEffect {δ δ' : Type} (e : Engine δ)
    (effect : String → List SqlPrimitive → Content δ' → Content δ') : Engine δ' where
  statements := e.statements
  kind := e.kind
  actions := e.actions
  effect := effect
  hooked _ := false
  recorded _ _ c := c
  statements_le := e.statements_le
  asked := e.asked
  kind_immediate := e.kind_immediate
  kind_deferred := e.kind_deferred
  kind_commit := e.kind_commit
  kind_rollback := e.kind_rollback
  kind_plain := e.kind_plain

def tableEngine {ρ : Type} : Engine (Data ρ) := plainEngine.withEffect tableEffect

def objectFile (t : Tables) : Content (Data Unit) := ⟨⟨some t, ()⟩, none⟩

theorem ledgerOp_texts {st : Statement} (h : st.sql ∈ objectTexts) : st.ledgerOp = none := by
  have hne : ∀ text ∈ objectTexts, text ∉ ledgerTexts := by decide +kernel
  exact Statement.ledgerOp_eq_none (hne _ h)

set_option maxRecDepth 2000 in
theorem ledgerOp_listStatement (start startAfter stop pre : Option String) (reverse : Bool)
    (lim : Option ℕ) :
    (listStatement start startAfter stop pre reverse lim).ledgerOp = none := by
  have hre := read_listStatement start startAfter stop pre reverse lim
  have htb : Select.read Database.migrationsTable.toList = none := read_ofList (by decide)
  have hse : Select.read Database.selectChecksum.toList = none := read_ofList (by decide)
  have hin : Select.read Database.insertMigration.toList = none := read_ofList (by decide)
  refine Statement.ledgerOp_eq_none fun hm => ?_
  simp only [ledgerTexts, mem_cons, not_mem_nil, or_false] at hm
  rcases hm with h | h | h <;> rw [h] at hre
  · cases htb.symm.trans hre
  · cases hse.symm.trans hre
  · cases hin.symm.trans hre

namespace Link

variable {ρ : Type} {idle smooth : Bool} {l : Link (Data ρ)} {t : Tables} {sql : String}

theorem step_table {shape : Shape} {st : Statement} {op : TableOp} {t' : Tables} {found : Found}
    {res : shape.Result} (hgs : l.guest = false) (hw : st.role = .work)
    (hk : plainKind st.sql = .plain) (hl : st.ledgerOp = none)
    (ho : tableOp st.sql st.params = some op) (ht : l.content.data.tables = some t)
    (hru : op.run t = some (t', found)) (hrd : shape.Reads res found) :
    (storage tableEngine (fun _ => false) idle smooth).step l (.execute shape st) (.ok res)
      (l.write (l.content.withTables t')) := by
  have hsu : l.content.succeed tableEngine st (shape.text? res) =
      some (l.content.withTables t') := by
    have hef : tableEngine.effect st.sql st.params l.content = l.content.withTables t' := by
      change tableEffect st.sql st.params l.content = _
      rw [tableEffect, ho, ht]
      simp only [hru, elim_some]
    unfold Content.succeed
    rw [hl]
    simp only [hef]
  have ha : l.answer tableEngine (.execute shape st) (.ok res) .undone =
      some (l.write (l.content.withTables t')) := by
    have had : l.admits tableEngine st.sql = true := by simp [admits, hgs]
    rw [Link.answer, if_pos had, succeed_of_plain hk, hsu, map_some]
  refine ⟨⟨.undone, ha, fun _ => rfl, fun hm => ?_⟩,
    ⟨fun _ hre => absurd hre Bool.false_ne_true, ?_⟩, fun _ => rfl⟩
  · rw [hw] at hm
    cases hm
  · intro op1 t1 ho1 ht1
    rw [ho] at ho1
    rw [ht] at ht1
    cases ho1
    cases ht1
    exact ⟨t', found, hru, hrd, rfl⟩

theorem step_text {shape : Shape} {ps : List SqlPrimitive} {op : TableOp} {t' : Tables}
    {found : Found} {res : shape.Result} (hgs : l.guest = false) (ho : (sql, op) ∈ fixedOps ps)
    (ht : l.content.data.tables = some t)
    (hru : op.run t = some (t', found)) (hrd : shape.Reads res found) :
    (storage tableEngine (fun _ => false) idle smooth).step l
      (.execute shape ⟨.work, sql, ps⟩) (.ok res) (l.write (l.content.withTables t')) :=
  step_table hgs rfl
    (kind_text (e := tableEngine (ρ := ρ)) (mem_append_left _ (mem_objectTexts ho)))
    (ledgerOp_texts (mem_objectTexts ho)) (tableOp_of_mem ho) ht hru hrd

theorem tableOp_control :
    ∀ sql ∈ ["BEGIN DEFERRED", "COMMIT", "ROLLBACK"], tableOp sql [] = none := by decide +kernel

theorem step_control {l' : Link (Data ρ)} (hgs : l.guest = false)
    (hsql : sql ∈ ["BEGIN DEFERRED", "COMMIT", "ROLLBACK"])
    (h : l.succeed tableEngine ⟨.control, sql, []⟩ none .undone = some l') :
    (storage tableEngine (fun _ => false) idle smooth).step l
      (.execute .nothing ⟨.control, sql, []⟩) (.ok ()) l' := by
  have ha : l.admits tableEngine sql = true := by simp [admits, hgs]
  refine ⟨⟨.undone, (if_pos ha).trans h, fun _ => rfl, fun hm => ?_⟩,
    ⟨fun _ hre => absurd hre Bool.false_ne_true, fun op t ho => ?_⟩, fun _ => rfl⟩
  · cases hm
  · rw [tableOp_control sql hsql] at ho
    cases ho

theorem step_fails (shape : Shape) (st : Statement) (err : SqliteError) :
    (storage tableEngine (fun _ => false) false false).step l (.execute shape st) (.error err)
      l := by
  have hu : l.fail tableEngine st .undone = l := by
    cases hk : (tableEngine (ρ := ρ)).kind st.sql <;> simp only [fail, hk]
  exact ⟨⟨.undone, congrArg some hu, fun h => absurd h Bool.false_ne_true,
    fun _ => .inl rfl⟩, fun _ => .inl rfl, fun h => absurd h Bool.false_ne_true⟩

theorem step_isAutocommit (l : Link (Data ρ)) :
    (storage tableEngine (fun _ => false) idle smooth).step l .isAutocommit l.autocommit l :=
  ⟨⟨.undone, if_pos rfl, fun _ => rfl, trivial⟩, trivial, fun _ => rfl⟩

theorem step_prepare (hgs : l.guest = false) (hsql : sql ≠ "") :
    (storage tableEngine (fun _ => false) idle smooth).step l (.prepare sql)
      (.ok ⟨sql, [], false, [], none⟩) l := by
  have ha : l.admits tableEngine sql = true := by simp [admits, hgs]
  refine ⟨⟨.undone, if_pos ha, fun _ => rfl, ?_⟩, rfl, fun _ => rfl⟩
  change sql = (if sql = "" then [] else [sql]).headD ""
  rw [if_neg hsql]
  rfl

theorem runs_created {k : ExceptT String Conn ObjectStorageResult}
    {x : Except String ObjectStorageResult} {l' : Link (Data ρ)} (hgs : l.guest = false)
    (ht : l.content.data.tables = some t)
    (h : (storage tableEngine (fun _ => false) idle smooth).Runs k.run
      (l.write (l.content.withTables t.created)) x l') :
    (storage tableEngine (fun _ => false) idle smooth).Runs (do
      let _ ← executeText .changes ⟨.work, table, []⟩
      let _ ← executeText .changes ⟨.work, alarmTable, []⟩
      k).run l x l' := by
  have hz : Shape.changes.Reads (0 : ℕ) .nothing := trivial
  have hte : (table, TableOp.createEntries) ∈ fixedOps [] := by simp [fixedOps]
  have hal : (alarmTable, TableOp.createAlarm) ∈ fixedOps [] := by simp [fixedOps]
  refine .ask (step_text hgs hte ht rfl hz) ?_
  refine .ask (step_text ((write_guest ..).trans hgs) hal (by rw [content_write]; rfl) rfl hz) ?_
  rw [write_write, content_write]
  exact h

end Link

abbrev OpRuns (idle smooth : Bool) (d : Database) (op : ObjectStorageOp)
    (c : Content (Data Unit)) (w : Option (Content (Data Unit)))
    (x : Except String ObjectStorageResult) (c' : Content (Data Unit))
    (w' : Option (Content (Data Unit))) : Prop :=
  (Link.storage tableEngine (fun _ => false) idle smooth).Runs (d.objectOp op).run ⟨false, c, w⟩ x
    ⟨false, c', w'⟩

end OpenWorkersRunner.D1.Sqlite
