import Mathlib.Logic.Function.Basic
import OpenWorkersRunner.D1.Tables

/-!
# D1: the storage of an object is a map

What a guest sees of the storage of its object is a map from keys to values, and an alarm.  This
file says what its operations do to them (`Storage.Answers`), and that `object_op` does no more and
no less, with the two tables, the transaction and the checks that it does it with.
-/

namespace OpenWorkersRunner.D1.Sqlite

open List World

/-! ## The map -/

abbrev EntryMap := String → Option (List UInt8)

namespace EntryMap

def remove (m : EntryMap) (key : String) : EntryMap := Function.update m key none

def put (m : EntryMap) (entry : Entry) : EntryMap := Function.update m entry.1 (some entry.2)

def cleared (m : EntryMap) (deleteAll : Bool) : EntryMap := if deleteAll then fun _ => none else m

def write (m : EntryMap) (puts : List Entry) (deletes : List String) (deleteAll : Bool) :
    EntryMap := puts.foldl put (deletes.foldl remove (m.cleared deleteAll))

def present (m : EntryMap) : List String → ℕ
  | [] => 0
  | key :: keys => (if (m key).isSome then 1 else 0) + (m.remove key).present keys

end EntryMap

structure Storage where
  entries : EntryMap
  alarm : Option Int

def Tables.storage (t : Tables) : Storage := ⟨(t.entries.getD .empty).get, t.alarm.getD none⟩

def Database.admits (d : Database) : ObjectStorageOp → Except String Unit
  | .getAlarm | .list .. => .ok ()
  | .setAlarm _ => d.checkWritesText
  | .get keys => checkKeys keys
  | .write puts deletes _ => do
    checkKeys deletes
    checkPuts puts
    d.checkWritesText
    d.full.elim (.ok ()) fun reason => refuse (puts ≠ []) ("the storage is full: " ++ reason)

/-- **What an operation answers, and what it does to the storage.**  With `smooth`, no statement
fails. -/
inductive Storage.Answers (d : Database) (smooth : Bool) (s : Storage) :
    ObjectStorageOp → ObjectStorageResult → Storage → Prop
  | alarm : Answers d smooth s .getAlarm (.alarm s.alarm) s
  | setAlarm {at_ : Option Int} (h : d.admits (.setAlarm at_) = .ok ()) :
      Answers d smooth s (.setAlarm at_) (.alarm at_) { s with alarm := at_ }
  | values {keys : List String} (h : d.admits (.get keys) = .ok ()) :
      Answers d smooth s (.get keys) (.values (keys.map s.entries)) s
  | entries {start startAfter stop keyPrefix : Option String} {reverse : Bool} {limit : Option ℕ}
      {found : List Entry} :
      Answers d smooth s (.list start startAfter stop keyPrefix reverse limit) (.entries found) s
  | tooLarge {start startAfter stop keyPrefix : Option String} {reverse : Bool} {limit : Option ℕ} :
      Answers d smooth s (.list start startAfter stop keyPrefix reverse limit)
        (.error "the list is too large; list with a limit") s
  | written {puts : List Entry} {deletes : List String} {deleteAll : Bool}
      (h : d.admits (.write puts deletes deleteAll) = .ok ()) :
      Answers d smooth s (.write puts deletes deleteAll)
        (.written ((s.entries.cleared deleteAll).present deletes))
        { s with entries := s.entries.write puts deletes deleteAll }
  | refused {op : ObjectStorageOp} {message : String} (h : d.admits op = .error message) :
      Answers d smooth s op (.error message) s
  | failed {op : ObjectStorageOp} {message : String} (h : smooth = false) :
      Answers d smooth s op (.error message) s

/-! ## What the statements make of the map -/

theorem get_erase (entries : Entries) (key : String) :
    Entries.get (entries.erase (utf8 key)) = EntryMap.remove entries.get key := by
  funext k
  rw [Entries.get, Keyed.find_erase, EntryMap.remove, Function.update_apply]
  by_cases hk : k = key
  · rw [if_pos (congrArg utf8 hk), if_pos hk]
    rfl
  · rw [if_neg fun h => hk (utf8_inj h), if_neg hk]
    rfl

theorem get_insert (entries : Entries) (entry : Entry) :
    Entries.get (entries.insert entry) = EntryMap.put entries.get entry := by
  funext k
  rw [Entries.get, Keyed.find_insert, EntryMap.put, Function.update_apply]
  by_cases hk : k = entry.1
  · rw [if_pos (congrArg utf8 hk), if_pos hk]
    rfl
  · rw [if_neg fun h => hk (utf8_inj h), if_neg hk]
    rfl

namespace Link

variable {ρ : Type} {e : Engine (Data ρ)} {readonly : String → Bool} {idle smooth : Bool}

def Alone {δ : Type} (c : Content δ) : Content δ → Option (Content δ) → Prop :=
  fun k w => k = c ∧ w = none

def Shows (guest : Bool) (s : Storage) : Link (Data ρ) → Prop :=
  At guest fun c w => w = none ∧ ∃ t, c.data.tables = some t ∧ t.storage = s

section Statements

variable {c₀ c : Content (Data ρ)} {shape : Shape} {st : Statement} {op : TableOp} {t t' : Tables}
  {found : Found}

theorem spec_table_alone (ho : tableOp st.sql st.params = some op)
    (hru : op.run t = some (t', found)) :
    (storage e readonly idle smooth).Spec (At false (Alone (c.withTables t)))
      (executeText shape st)
      (fun res l => At false (Alone (c.withTables t')) l ∧ shape.Reads res found)
      (fun l => At false (Alone (c.withTables t)) l ∧ smooth = false) := by
  have hco : ∀ l : Link (Data ρ), At false (Alone (c.withTables t)) l →
      l.content = c.withTables t := by
    rintro l ⟨-, hf, hw⟩
    rw [content, hw, hf]
    rfl
  refine Spec.adapt (spec_table ho hru (fun l hl => ?_) (fun l hl res hrd => ?_)
    fun hsm l hl => ⟨⟨hl, hsm⟩, ⟨hl.1, hl.2.1, rfl⟩, hsm⟩) _
  · rw [hco l hl]
    rfl
  · rw [hco l hl, write_of_none hl.2.2]
    exact ⟨⟨hl.1, rfl, hl.2.2⟩, hrd⟩

theorem spec_table_inside (ho : tableOp st.sql st.params = some op)
    (hru : op.run t = some (t', found)) :
    (storage e readonly idle smooth).Spec (At false (Inside c₀ (c.withTables t)))
      (executeText shape st)
      (fun res l => At false (Inside c₀ (c.withTables t')) l ∧ shape.Reads res found)
      (At false (Based c₀ (smooth = false))) := by
  have hco : ∀ l : Link (Data ρ), At false (Inside c₀ (c.withTables t)) l →
      l.content = c.withTables t := by
    rintro l ⟨-, -, hw⟩
    rw [content, hw]
    rfl
  refine Spec.adapt (spec_table ho hru (fun l hl => ?_) (fun l hl res hrd => ?_)
    fun hsm l hl => ⟨⟨hl.1, hl.2.1, hsm⟩, hl.1, hl.2.1, hsm⟩) _
  · rw [hco l hl]
    rfl
  · rw [hco l hl, write_of_some hl.2.2]
    exact ⟨⟨hl.1, hl.2.1, rfl⟩, hrd⟩

end Statements

/-! ## The transaction of a write -/

section Write

variable {c₀ c : Content (Data ρ)} {alarm : Option (Option Int)}

theorem spec_deleteEntries (entries : Entries) (deleteAll : Bool) :
    (storage e readonly idle smooth).Spec
      (At false (Inside c₀ (c.withTables ⟨some entries, alarm⟩))) (deleteEntries deleteAll)
      (fun _ l => ∃ entries', At false (Inside c₀ (c.withTables ⟨some entries', alarm⟩)) l ∧
        entries'.get = EntryMap.cleared entries.get deleteAll)
      (At false (Based c₀ (smooth = false))) := by
  cases deleteAll with
  | true =>
    have hc : (deleteAllEntries, TableOp.clear) ∈ fixedOps [] := by simp [fixedOps]
    refine Spec.bind (spec_table_inside (tableOp_of_mem hc) rfl) fun _ => ?_
    exact Spec.value _ fun l hl => ⟨.empty, hl.1, rfl⟩
  | false => exact Spec.value _ fun l hl => ⟨entries, hl, rfl⟩

theorem spec_deleteKeys (keys : List String) (entries : Entries) :
    (storage e readonly idle smooth).Spec
      (At false (Inside c₀ (c.withTables ⟨some entries, alarm⟩))) (deleteKeys keys)
      (fun count l => ∃ entries', At false (Inside c₀ (c.withTables ⟨some entries', alarm⟩)) l ∧
        entries'.get = keys.foldl EntryMap.remove entries.get ∧
        count = EntryMap.present entries.get keys)
      (At false (Based c₀ (smooth = false))) := by
  induction keys generalizing entries with
  | nil => exact Spec.value _ fun l hl => ⟨entries, hl, rfl, rfl⟩
  | cons key keys ih =>
    have hd : (deleteEntry, TableOp.delete key) ∈ fixedOps [.string key] := by simp [fixedOps]
    refine Spec.bind (spec_table_inside (tableOp_of_mem hd) rfl) fun count => ?_
    refine Triple.assume fun hcn => ?_
    refine Spec.bind (ih (entries.erase (utf8 key))) fun counts => ?_
    refine Spec.value _ ?_
    rintro l ⟨entries', hl, hge, rfl⟩
    refine ⟨entries', hl, ?_, ?_⟩
    · rw [hge, get_erase, foldl_cons]
    · rw [get_erase, EntryMap.present, hcn]

theorem spec_putEntries (puts : List Entry) (entries : Entries) :
    (storage e readonly idle smooth).Spec
      (At false (Inside c₀ (c.withTables ⟨some entries, alarm⟩))) (putEntries puts)
      (fun _ l => ∃ entries', At false (Inside c₀ (c.withTables ⟨some entries', alarm⟩)) l ∧
        entries'.get = puts.foldl EntryMap.put entries.get)
      (At false (Based c₀ (smooth = false))) := by
  induction puts generalizing entries with
  | nil => exact Spec.value _ fun l hl => ⟨entries, hl, rfl⟩
  | cons entry puts ih =>
    obtain ⟨key, val⟩ := entry
    have hin : (insertEntry, TableOp.put key val) ∈ fixedOps [.string key, .bytes val] := by
      simp [fixedOps]
    refine Spec.bind (spec_table_inside (tableOp_of_mem hin) rfl) fun _ => ?_
    refine Triple.assume fun _ => ?_
    refine Spec.mono (ih (entries.insert (key, val))) (fun _ hl => hl) ?_ fun _ hl => hl
    rintro _ l ⟨entries', hl, hge⟩
    exact ⟨entries', hl, by rw [hge, get_insert, foldl_cons]⟩

theorem spec_begin_write (c : Content (Data ρ)) :
    (storage e readonly idle smooth).Spec (At false (Alone c))
      (executeText .nothing ⟨.control, "BEGIN DEFERRED", []⟩) (fun _ => At false (Inside c c))
      (fun l => At false (Alone c) l ∧ smooth = false) := by
  refine storage_of_world (Spec.adapt (spec_execute (fun l hl res after l' h => ?_)
    fun l hl after _ hsm => ?_) _)
  · rw [succeed_of_opens e.kind_deferred, hl.2.2] at h
    cases h
    exact ⟨hl.1, hl.2.1, congrArg some hl.2.1⟩
  · rw [fail_of_opens e.kind_deferred]
    exact ⟨hl, hsm⟩

theorem spec_commit_write (c₀ c : Content (Data ρ)) :
    (storage e readonly idle smooth).Spec (At false (Inside c₀ c))
      (executeText .nothing ⟨.control, "COMMIT", []⟩) (fun _ => At false (Alone c))
      (At false (Based c₀ (smooth = false))) := by
  refine storage_of_world (Spec.adapt (spec_execute (fun l hl res after l' h => ?_)
    fun l hl after _ hsm => ?_) _)
  · rw [succeed_of_commits e.kind_commit, hl.2.2] at h
    cases h
    exact ⟨hl.1, rfl, rfl⟩
  · have hba : At false (Based c₀ (smooth = false)) l := ⟨hl.1, hl.2.1, hsm⟩
    exact based_fail hba (by rw [e.kind_commit]; nofun) after

theorem triple_drop_write (c₀ : Content (Data ρ)) :
    (storage e readonly true smooth).Triple (At false (Based c₀ (smooth = false))) dropTransaction
      fun _ l => At false (Alone c₀) l ∧ smooth = false := by
  have hba : (world e false true smooth).Triple (At false (Based c₀ (smooth = false)))
      dropTransaction fun _ => At false (Based c₀ (smooth = false)) := by
    refine triple_unlessAutocommit (fun _ h => h) ?_
    refine Triple.bind (spec_undo e.kind_rollback) fun r => ?_
    cases r <;> exact fun _ hl => hl
  refine storage_of_world ((hba.and triple_dropTransaction).mono
    (fun l hl => ⟨hl, hl.1, fun h => absurd h Bool.false_ne_true⟩) ?_)
  rintro _ l ⟨⟨hgs, hf, hsm⟩, -, hw⟩
  exact ⟨⟨hgs, hf, hw rfl⟩, hsm⟩

/-- **The transaction of a write**: what it makes of the map, or nothing. -/
theorem spec_writeEntries (entries : Entries) (puts : List Entry) (deletes : List String)
    (deleteAll : Bool) :
    (storage e readonly true smooth).Spec
      (At false (Alone (c.withTables ⟨some entries, alarm⟩)))
      (Database.writeEntries puts deletes deleteAll)
      (fun count l => ∃ entries', At false (Alone (c.withTables ⟨some entries', alarm⟩)) l ∧
        entries'.get = EntryMap.write entries.get puts deletes deleteAll ∧
        count = (EntryMap.cleared entries.get deleteAll).present deletes)
      (fun l => At false (Alone (c.withTables ⟨some entries, alarm⟩)) l ∧ smooth = false) := by
  refine Spec.bind (spec_begin_write _) fun _ => ?_
  refine Spec.handled ?_ (triple_drop_write _)
  refine Spec.bind (spec_deleteEntries entries deleteAll) fun _ => ?_
  rintro l ⟨cleared, hl, hcl⟩
  refine Spec.bind (spec_deleteKeys deletes cleared) (fun count => ?_) l hl
  rintro l ⟨removed, hl, hre, hcn⟩
  refine Spec.bind (spec_putEntries puts removed) (fun _ => ?_) l hl
  rintro l ⟨written, hl, hw⟩
  refine Spec.bind (spec_commit_write _ _) (fun _ => ?_) l hl
  refine Spec.value _ fun l hl => ⟨written, hl, ?_, ?_⟩
  · rw [hw, hre, hcl, EntryMap.write]
  · rw [hcn, hcl]

end Write

/-! ## Operations -/

section Operations

variable {c : Content (Data ρ)} {entries : Entries} {at_ : Option Int}

theorem spec_getValues (keys : List String) :
    (storage e readonly idle smooth).Spec
      (At false (Alone (c.withTables ⟨some entries, some at_⟩))) (getValues keys)
      (fun values l => At false (Alone (c.withTables ⟨some entries, some at_⟩)) l ∧
        values = keys.map entries.get)
      (fun l => At false (Alone (c.withTables ⟨some entries, some at_⟩)) l ∧ smooth = false) := by
  induction keys with
  | nil => exact Spec.value _ fun l hl => ⟨hl, rfl⟩
  | cons key keys ih =>
    have hse : (selectValue, TableOp.get key) ∈ fixedOps [.string key] := by simp [fixedOps]
    refine Spec.bind (spec_table_alone (tableOp_of_mem hse) rfl) fun val => ?_
    refine Triple.assume fun hv => Spec.bind ih fun values => ?_
    refine Spec.value _ ?_
    rintro l ⟨hl, rfl⟩
    exact ⟨hl, by rw [map_cons, hv]⟩

theorem shows_of_alone {guest : Bool} {t : Tables} {l : Link (Data ρ)}
    (h : l.At guest (Alone (c.withTables t))) : l.Shows guest t.storage := by
  obtain ⟨hgs, hf, hw⟩ := h
  exact ⟨hgs, hw, t, by rw [hf]; rfl, rfl⟩

variable {d : Database} {op : ObjectStorageOp} {s : Storage} {l l' : Link (Data ρ)}
  {x : Except String ObjectStorageResult}

theorem answers_of_spec {p : ExceptT String Conn ObjectStorageResult} {P : Link (Data ρ) → Prop}
    (hp : (storage e readonly idle smooth).Spec P p
      (fun r l => ∃ s', s.Answers d smooth op r s' ∧ l.Shows false s')
      (fun l => l.Shows false s ∧ smooth = false)) (hl : P l)
    (h : (storage e readonly idle smooth).Runs p.run l x l') :
    ∃ s', s.Answers d smooth op (resultOf x) s' ∧ l'.Shows false s' := by
  have hpo := Triple.of_runs hp hl h
  cases x with
  | ok r => exact hpo
  | error msg => exact ⟨s, .failed hpo.2, hpo.1⟩

theorem answers_of_check {r : Except String Unit}
    {k : Unit → ExceptT String Conn ObjectStorageResult}
    (hr : ∀ msg, r = .error msg → d.admits op = .error msg) (hl : l.Shows false s)
    (h : (storage e readonly idle smooth).Runs (check r >>= k).run l x l')
    (hk : r = .ok () → (storage e readonly idle smooth).Runs (k ()).run l x l' →
      ∃ s', s.Answers d smooth op (resultOf x) s' ∧ l'.Shows false s') :
    ∃ s', s.Answers d smooth op (resultOf x) s' ∧ l'.Shows false s' := by
  cases r with
  | ok _ => exact hk rfl h
  | error msg =>
    obtain ⟨rfl, rfl⟩ := runs_done.1 h
    exact ⟨s, .refused (hr msg rfl), hl⟩

section Acts

def entriesSize (found : List Entry) : ℕ :=
  (found.map fun entry => entry.1.utf8ByteSize + entry.2.length).sum

def Ready (c : Content (Data ρ)) (entries : Entries) (at_ : Option Int) : Link (Data ρ) → Prop :=
  At false (Alone (c.withTables ⟨some entries, some at_⟩))

theorem shows_of_ready (h : Ready c entries at_ l) : l.Shows false ⟨entries.get, at_⟩ :=
  shows_of_alone h

theorem answers_getAlarm (hl : Ready c entries at_ l)
    (h : (storage e readonly idle smooth).Runs (.alarm <$> alarm : ExceptT String Conn _).run l x
      l') :
    ∃ s', Storage.Answers d smooth ⟨entries.get, at_⟩ .getAlarm (resultOf x) s' ∧
      l'.Shows false s' := by
  have hse : (selectAlarm, TableOp.getAlarm) ∈ fixedOps [] := by simp [fixedOps]
  refine answers_of_spec (Spec.map ((spec_table_alone (tableOp_of_mem hse) rfl).mono
    (fun _ hl => hl) (fun _ _ hl => hl) fun l hl => ⟨shows_of_ready hl.1, hl.2⟩) _ ?_) hl h
  rintro res l ⟨hl, hre⟩
  cases hre
  exact ⟨_, .alarm, shows_of_ready hl⟩

theorem answers_setAlarm {new : Option Int} {st : Statement} {top : TableOp} {found : Found}
    (ha : d.admits (.setAlarm new) = .ok ()) (ho : tableOp st.sql st.params = some top)
    (hru : top.run ⟨some entries, some at_⟩ = some (⟨some entries, some new⟩, found))
    (hl : Ready c entries at_ l)
    (h : (storage e readonly idle smooth).Runs (do
      let _ ← executeText .changes st
      pure (ObjectStorageResult.alarm new)).run l x l') :
    ∃ s', Storage.Answers d smooth ⟨entries.get, at_⟩ (.setAlarm new) (resultOf x) s' ∧
      l'.Shows false s' := by
  refine answers_of_spec (Spec.bind ((spec_table_alone ho hru).mono (fun _ hl => hl)
    (fun _ _ hl => hl.1) fun l hl => ⟨shows_of_ready hl.1, hl.2⟩) fun _ =>
    Spec.value _ fun l hl => ?_) hl h
  exact ⟨_, .setAlarm ha, shows_of_ready hl⟩

theorem answers_get {keys : List String} (ha : d.admits (.get keys) = .ok ())
    (hl : Ready c entries at_ l)
    (h : (storage e readonly idle smooth).Runs (do
      let _ ← (prepare selectValue).adapt SqliteError.text
      ObjectStorageResult.values <$> getValues keys).run l x l') :
    ∃ s', Storage.Answers d smooth ⟨entries.get, at_⟩ (.get keys) (resultOf x) s' ∧
      l'.Shows false s' := by
  have hf : ∀ l, (Ready c entries at_ l ∧ smooth = false) →
      l.Shows false ⟨entries.get, at_⟩ ∧ smooth = false := fun l hl => ⟨shows_of_ready hl.1, hl.2⟩
  refine answers_of_spec (Spec.bind (((spec_prepare_keeps _).adapt _).mono (fun _ hl => hl)
    (fun _ _ hl => hl) hf) fun _ => Spec.map ((spec_getValues keys).mono (fun _ hl => hl)
    (fun _ _ hl => hl) hf) _ ?_) hl h
  rintro values l ⟨hl, rfl⟩
  exact ⟨_, .values ha, shows_of_ready hl⟩

theorem answers_write {puts : List Entry} {deletes : List String} {deleteAll : Bool}
    (ha : d.admits (.write puts deletes deleteAll) = .ok ()) (hl : Ready c entries at_ l)
    (h : (storage e readonly true smooth).Runs
      (ObjectStorageResult.written <$> Database.writeEntries puts deletes deleteAll).run l x l') :
    ∃ s', Storage.Answers d smooth ⟨entries.get, at_⟩ (.write puts deletes deleteAll) (resultOf x)
      s' ∧ l'.Shows false s' := by
  refine answers_of_spec (Spec.map ((spec_writeEntries entries puts deletes deleteAll).mono
    (fun _ hl => hl) (fun _ _ hl => hl) fun l hl => ⟨shows_of_ready hl.1, hl.2⟩) _ ?_) hl h
  rintro count l ⟨written, hl, hw, rfl⟩
  refine ⟨_, .written ha, ?_⟩
  rw [← hw]
  exact shows_of_ready hl

/-- **A list** finds what its statement selects, and answers that if it is not too large. -/
theorem list_cases {start startAfter stop pre : Option String} {reverse : Bool}
    {lim : Option ℕ} (hl : Ready c entries at_ l)
    (h : (storage e readonly idle smooth).Runs (do
      let statement := listStatement start startAfter stop pre reverse lim
      let _ ← (prepare statement.sql).adapt SqliteError.text
      let found : List Entry ← executeText .entries statement
      check (refuse (d.resultBytes < entriesSize found) "the list is too large; list with a limit")
      pure (ObjectStorageResult.entries found)).run l x l') :
    Ready c entries at_ l' ∧ let found := selected start startAfter stop pre reverse lim entries
      (x = .ok (.entries found) ∧ entriesSize found ≤ d.resultBytes ∨
        x = .error "the list is too large; list with a limit" ∧ d.resultBytes < entriesSize found ∨
        smooth = false ∧ ∃ msg, x = .error msg) := by
  have hru : (TableOp.list (listSelect start startAfter stop pre reverse lim)
      (listStatement start startAfter stop pre reverse lim).params).run
      ⟨some entries, some at_⟩ = some (⟨some entries, some at_⟩,
        .entries (selected start startAfter stop pre reverse lim entries)) := by
    rw [TableOp.run, Option.bind_some, eval_listSelect]
    rfl
  obtain ⟨_, l1, hp, h⟩ | ⟨msg, rfl, hp⟩ := runs_bind_except.1 h
  swap
  · obtain ⟨hl', hsm⟩ := ((spec_prepare_keeps _).adapt _).of_runs hl hp
    exact ⟨hl', .inr (.inr ⟨hsm, msg, rfl⟩)⟩
  have hl1 : Ready c entries at_ l1 := ((spec_prepare_keeps _).adapt _).of_runs hl hp
  obtain ⟨found, l2, hse, h⟩ | ⟨msg, rfl, hse⟩ := runs_bind_except.1 h
  swap
  · obtain ⟨hl', hsm⟩ := (spec_table_alone (tableOp_listStatement ..) hru).of_runs hl1 hse
    exact ⟨hl', .inr (.inr ⟨hsm, msg, rfl⟩)⟩
  obtain ⟨hl2, hf⟩ :=
    (spec_table_alone (tableOp_listStatement ..) hru).of_runs hl1 hse
  cases hf
  by_cases hsi : d.resultBytes <
      entriesSize (selected start startAfter stop pre reverse lim entries)
  · rw [refuse, if_pos (decide_eq_true hsi)] at h
    obtain ⟨rfl, rfl⟩ := runs_done.1 h
    exact ⟨hl2, .inr (.inl ⟨rfl, hsi⟩)⟩
  · rw [refuse, if_neg (fun ht => hsi (of_decide_eq_true ht))] at h
    obtain ⟨rfl, rfl⟩ := runs_done.1 h
    exact ⟨hl2, .inl ⟨rfl, Nat.le_of_not_lt hsi⟩⟩

end Acts

/-- **The tables are created** unless they are there, which shows the same storage. -/
theorem created_cases {t : Tables} {k : ExceptT String Conn ObjectStorageResult}
    (hl : l.At false (Alone (c.withTables t)))
    (h : (storage e readonly idle smooth).Runs (do
      let _ ← executeText .changes ⟨.work, table, []⟩
      let _ ← executeText .changes ⟨.work, alarmTable, []⟩
      k).run l x l') :
    (smooth = false ∧ (∃ msg, x = .error msg) ∧ l'.Shows false t.storage) ∨
      ∃ l1, Ready c (t.entries.getD .empty) (t.alarm.getD none) l1 ∧
        (storage e readonly idle smooth).Runs k.run l1 x l' := by
  have hte : (table, TableOp.createEntries) ∈ fixedOps [] := by simp [fixedOps]
  have hal : (alarmTable, TableOp.createAlarm) ∈ fixedOps [] := by simp [fixedOps]
  obtain ⟨_, l1, hcr, h1⟩ | ⟨msg, rfl, hcr⟩ := runs_bind_except.1 h
  swap
  · obtain ⟨hl', hsm⟩ := (spec_table_alone (tableOp_of_mem hte) rfl).of_runs hl hcr
    exact .inl ⟨hsm, ⟨msg, rfl⟩, shows_of_alone hl'⟩
  obtain ⟨hl1, -⟩ := (spec_table_alone (tableOp_of_mem hte) rfl).of_runs hl hcr
  obtain ⟨_, l2, hcr, h2⟩ | ⟨msg, rfl, hcr⟩ := runs_bind_except.1 h1
  swap
  · obtain ⟨hl', hsm⟩ := (spec_table_alone (tableOp_of_mem hal) rfl).of_runs hl1 hcr
    have hsh := shows_of_alone hl'
    exact .inl ⟨hsm, ⟨msg, rfl⟩, hsh⟩
  obtain ⟨hl2, -⟩ := (spec_table_alone (tableOp_of_mem hal) rfl).of_runs hl1 hcr
  exact .inr ⟨l2, hl2, h2⟩

/-- **An operation** answers as it should. -/
theorem answers_of_objectOp (hl : l.Shows false s)
    (hru : (storage e readonly true smooth).Runs (d.objectOp op).run l x l') :
    ∃ s', s.Answers d smooth op (resultOf x) s' ∧ l'.Shows false s' := by
  obtain ⟨hgs, hwk, t, ht, rfl⟩ := hl
  have hl : l.At false (Alone (l.committed.withTables t)) :=
    ⟨hgs, (Content.withTables_self ht).symm, hwk⟩
  obtain ⟨hsm, ⟨msg, rfl⟩, hsh⟩ | ⟨l2, hl2, h⟩ := created_cases hl hru
  · exact ⟨_, .failed hsm, hsh⟩
  have hsh := shows_of_ready hl2
  cases op with
  | getAlarm => exact answers_getAlarm hl2 h
  | setAlarm new =>
    refine answers_of_check (fun _ hr => hr) hsh h fun hr h => ?_
    have hin (new : Int) : (insertAlarm, TableOp.setAlarm new) ∈ fixedOps [.int new] := by
      simp [fixedOps]
    have hd : (deleteAlarm, TableOp.deleteAlarm) ∈ fixedOps [] := by simp [fixedOps]
    cases new with
    | some new => exact answers_setAlarm hr (tableOp_of_mem (hin new)) rfl hl2 h
    | none => exact answers_setAlarm hr (tableOp_of_mem hd) rfl hl2 h
  | get keys =>
    exact answers_of_check (fun _ hr => hr) hsh h fun hr h => answers_get hr hl2 h
  | list start startAfter stop pre reverse lim =>
    obtain ⟨hl', ⟨rfl, -⟩ | ⟨rfl, -⟩ | ⟨hsm, msg, rfl⟩⟩ := list_cases hl2 h
    · exact ⟨_, .entries, shows_of_ready hl'⟩
    · exact ⟨_, .tooLarge, shows_of_ready hl'⟩
    · exact ⟨_, .failed hsm, shows_of_ready hl'⟩
  | write puts deletes deleteAll =>
    -- four checks, of which the first that fails is the refusal
    refine answers_of_check (fun _ hr => ?_) hsh h fun hd h => ?_
    · rw [Database.admits, hr]
      rfl
    refine answers_of_check (fun _ hr => ?_) hsh h fun hp h => ?_
    · rw [Database.admits, hd, hr]
      rfl
    refine answers_of_check (fun _ hr => ?_) hsh h fun hw h => ?_
    · rw [Database.admits, hd, hp, hr]
      rfl
    refine answers_of_check (fun _ hr => ?_) hsh h fun hf h => ?_
    · rw [Database.admits, hd, hp, hw]
      exact hr
    refine answers_write ?_ hl2 h
    rw [Database.admits, hd, hp, hw]
    exact hf

/-- **One operation on the storage of an object.** -/
theorem answers_of_runs {r : Done} (hl : l.Shows true s)
    (h : (storage e readonly true smooth).Runs (d.run (.object op)) l r l') :
    ∃ res s', r = .object res ∧ s.Answers d smooth op res s' ∧ l'.Shows true s' := by
  obtain ⟨res, l0, h, hd⟩ := runs_bind.1 h
  obtain ⟨rfl, rfl⟩ := runs_done.1 hd
  obtain ⟨x, l1, rfl, rfl, hop⟩ := runs_object h
  have ho : ({ l with guest := false } : Link (Data ρ)).Shows false s := ⟨rfl, hl.2⟩
  obtain ⟨s', ha, hsh⟩ := answers_of_objectOp ho hop
  exact ⟨resultOf x, s', rfl, ha, rfl, hsh.2⟩

end Operations

end Link

/-! ## Histories -/

structure Call where
  database : Database
  op : ObjectStorageOp
  result : ObjectStorageResult

inductive History {ρ : Type} (W : World (Link (Data ρ)) Ask Ask.Answer) :
    Link (Data ρ) → List Call → Link (Data ρ) → Prop
  | nil (l : Link (Data ρ)) : History W l [] l
  | call {call : Call} {calls : List Call} {l l₁ l' : Link (Data ρ)}
      (hcall : W.Runs (call.database.run (.object call.op)) l (.object call.result) l₁)
      (hrest : History W l₁ calls l') : History W l (call :: calls) l'
  | reopen {calls : List Call} {l l' : Link (Data ρ)}
      (hrest : History W (.fresh l.committed) calls l') : History W l calls l'

inductive Storage.Replays (smooth : Bool) : Storage → List Call → Storage → Prop
  | nil (s : Storage) : Replays smooth s [] s
  | call {call : Call} {calls : List Call} {s s₁ s' : Storage}
      (hcall : s.Answers call.database smooth call.op call.result s₁)
      (hrest : Replays smooth s₁ calls s') : Replays smooth s (call :: calls) s'

/-- **The storage of an object is a map with atomic writes**, if no `ROLLBACK` fails with its
transaction open: every history of operations on the object is one of the storage its file shows,
whatever else fails, with any limits and pauses, and with the connection opened again or not. -/
theorem object_storage_is_map {ρ : Type} (e : Engine (Data ρ)) (readonly : String → Bool)
    (smooth : Bool) (calls : List Call) (t : Tables) (l l' : Link (Data ρ))
    (hguest : l.guest = true) (hopen : l.working = none)
    (ht : l.committed.data.tables = some t)
    (h : History (Link.storage e readonly true smooth) l calls l') :
    ∃ t', l'.committed.data.tables = some t' ∧ l'.working = none ∧
      t.storage.Replays smooth calls t'.storage := by
  have hsh : l.Shows true t.storage := ⟨hguest, hopen, t, ht, rfl⟩
  clear hguest hopen ht
  generalize t.storage = s at hsh ⊢
  induction h generalizing s with
  | nil l =>
    obtain ⟨-, hwk, t', ht', rfl⟩ := hsh
    exact ⟨t', ht', hwk, .nil _⟩
  | call hcall hrest ih =>
    obtain ⟨result, s₁, ⟨⟩, hanswer, hsh⟩ := Link.answers_of_runs hsh hcall
    obtain ⟨t', ht', hwk, hreplies⟩ := ih s₁ hsh
    exact ⟨t', ht', hwk, .call hanswer hreplies⟩
  | reopen hrest ih => exact ih s ⟨rfl, rfl, hsh.2.2⟩

/-! ### Two histories -/

def smallEntries : Entries := Keyed.empty.insert ("k", [1])

def openDatabase : Database := ⟨4096, 1000, none, none⟩

theorem runs_write :
    OpRuns true true openDatabase (.write [("k", [1])] ["k"] false) (objectFile ⟨none, none⟩) none
      (.ok (.written 0)) (objectFile ⟨some smallEntries, some none⟩) none := by
  have hd : (deleteEntry, TableOp.delete "k") ∈ fixedOps [.string "k"] := by simp [fixedOps]
  have hin : (insertEntry, TableOp.put "k" [1]) ∈ fixedOps [.string "k", .bytes [1]] := by
    simp [fixedOps]
  refine Link.runs_created rfl rfl ?_
  refine .ask (Link.step_control rfl (by simp) rfl) ?_
  refine .ask (Link.step_text rfl hd rfl rfl rfl) ?_
  refine .ask (Link.step_text rfl hin rfl rfl rfl) ?_
  exact .ask (Link.step_control rfl (by simp) rfl) (.done _ _)

theorem object_storage_is_map_written :
    ∃ t' : Tables, t'.storage.entries "k" = some [1] ∧ (⟨none, none⟩ : Tables).storage.Replays true
        [⟨openDatabase, .write [("k", [1])] ["k"] false, .written 0⟩] t'.storage := by
  have hwrite := Link.runs_of_objectOp (l := .fresh _) runs_write
  obtain ⟨t', ht', -, hreplies⟩ := object_storage_is_map tableEngine (fun _ => false) true
    [⟨openDatabase, .write [("k", [1])] ["k"] false, .written 0⟩] ⟨none, none⟩
    (.fresh (objectFile ⟨none, none⟩)) _ rfl rfl rfl (.call hwrite (.nil _))
  cases ht'
  exact ⟨_, by decide, hreplies⟩

def interrupted : SqliteError := ⟨some 9, some "interrupted", "interrupted", "interrupted"⟩

theorem runs_aborted :
    OpRuns false false openDatabase (.write [] [] true)
      (objectFile ⟨some smallEntries, some none⟩) none (.error "interrupted")
      (objectFile ⟨some smallEntries, some none⟩) (objectFile ⟨some .empty, some none⟩) := by
  have hd : (deleteAllEntries, TableOp.clear) ∈ fixedOps [] := by simp [fixedOps]
  refine Link.runs_created rfl rfl ?_
  refine .ask (Link.step_control rfl (by simp) rfl) ?_
  refine .ask (Link.step_text rfl hd rfl rfl rfl) ?_
  refine .ask (Link.step_fails .nothing _ interrupted) ?_
  refine .ask (Link.step_isAutocommit _) ?_
  exact .ask (Link.step_fails .nothing _ interrupted) (.done _ _)

theorem runs_get_aborted :
    OpRuns false false openDatabase (.get ["k"]) (objectFile ⟨some smallEntries, some none⟩)
      (objectFile ⟨some .empty, some none⟩) (.ok (.values [none]))
      (objectFile ⟨some smallEntries, some none⟩) (objectFile ⟨some .empty, some none⟩) := by
  have hse : (selectValue, TableOp.get "k") ∈ fixedOps [.string "k"] := by simp [fixedOps]
  refine Link.runs_created rfl rfl ?_
  refine .ask (Link.step_prepare rfl (by decide)) ?_
  exact .ask (Link.step_text rfl hse rfl rfl rfl) (.done _ _)

theorem aborted_write_is_read :
    ¬ ∀ (e : Engine (Data Unit)) (readonly : String → Bool) (smooth : Bool) (calls : List Call)
      (t : Tables) (l l' : Link (Data Unit)), l.guest = true → l.working = none →
      l.committed.data.tables = some t → History (Link.storage e readonly false smooth) l calls l' →
      ∃ s', t.storage.Replays smooth calls s' := by
  intro h
  have hwrite := Link.runs_of_objectOp (l := .fresh _) runs_aborted
  have hread := Link.runs_of_objectOp (l := ⟨true, _, _⟩) runs_get_aborted
  have hhist : History (Link.storage tableEngine (fun _ => false) false false)
      (.fresh (objectFile ⟨some smallEntries, some none⟩))
      [⟨openDatabase, .write [] [] true, .error "interrupted"⟩,
        ⟨openDatabase, .get ["k"], .values [none]⟩] _ :=
    .call hwrite (.call hread (.nil _))
  obtain ⟨s', hreplies⟩ := h _ _ _ _ _ _ _ rfl rfl rfl hhist
  -- the write answered an error, so the map should still have the key
  have hget : ∀ s₁, (⟨some smallEntries, some none⟩ : Tables).storage.Answers openDatabase false
      (.write [] [] true) (.error "interrupted") s₁ → s₁.entries "k" = some [1] := by
    intro s₁ hanswer
    cases hanswer with
    | refused _ => decide
    | failed _ => decide
  cases hreplies with
  | call hwrite hrest =>
    have hkey := hget _ hwrite
    cases hrest with
    | call hread _ =>
      generalize hval : ObjectStorageResult.values [none] = r at hread
      cases hread with
      | values _ =>
        rw [map_singleton, hkey] at hval
        cases hval
      | refused _ => cases hval
      | failed _ => cases hval

end OpenWorkersRunner.D1.Sqlite
