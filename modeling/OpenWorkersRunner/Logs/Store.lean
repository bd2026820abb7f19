import Mathlib.Data.List.Basic

/-!
# Logs: the lines of the workers in the table

The store task writes the lines of all workers in batches, with one `INSERT` for a batch
(`logs.rs`).  A line whose worker id is no UUID is left out of it, and the statement itself leaves
out the lines of workers that are not there, so that neither can fail the batch.  The text of a
message is what its worker wrote, and PostgreSQL refuses a text with the character U+0000: the
statement fails as a whole, the error is logged, and the batch is gone.
-/

namespace OpenWorkersRunner.Logs

open List

/-! ## Lines -/

inductive LogLevel
  | error
  | warn
  | info
  | log
  | debug
  | trace
deriving DecidableEq

def levelName : LogLevel → String
  | .error => "error"
  | .warn => "warn"
  | .info => "info"
  | .log => "log"
  | .debug => "debug"
  | .trace => "trace"

def parseLevel (name : String) : Option LogLevel :=
  [LogLevel.error, .warn, .info, .log, .debug, .trace].find? fun level => levelName level == name

structure LogEntry where
  date : Int
  workerId : String
  level : LogLevel
  message : String
deriving DecidableEq

/-- The UUIDs, as far as the runner looks at them: the ids of workers are read as such, and written
in one of the ways they can be read. -/
structure Uuids (U : Type) where
  parseStr : String → Option U
  text : U → String
  parseStr_text : ∀ id, parseStr (text id) = some id

structure Row (U : Type) where
  date : Int
  workerId : U
  message : String
  level : String
deriving DecidableEq

/-! ## The store task -/

def storeBatchLines : Nat := 500

def messageChars : Nat := 255

def storable (text : String) : Bool := !text.toList.contains (Char.ofNat 0)

def left (text : String) (chars : Nat) : String := .ofList (text.toList.take chars)

def LogEntry.row {U : Type} (line : LogEntry) (id : U) : Row U :=
  ⟨line.date, id, left line.message messageChars, levelName line.level⟩

section

variable {U : Type} (ids : Uuids U)

def bound (lines : List LogEntry) : List (U × LogEntry) :=
  lines.filterMap fun line => (ids.parseStr line.workerId).map fun id => (id, line)

theorem mem_bound {ids : Uuids U} {lines : List LogEntry} {id : U} {line : LogEntry} :
    (id, line) ∈ bound ids lines ↔ line ∈ lines ∧ ids.parseStr line.workerId = some id := by
  simp only [bound, mem_filterMap, Option.map_eq_some_iff, Prod.mk.injEq]
  constructor
  · rintro ⟨line', hl, id', hid, rfl, rfl⟩
    exact ⟨hl, hid⟩
  · rintro ⟨hl, hid⟩
    exact ⟨line, hl, id, hid, rfl, rfl⟩

theorem bound_sublist {ids : Uuids U} (lines : List LogEntry) :
    ((bound ids lines).map Prod.snd).Sublist lines := by
  induction lines with
  | nil => exact .slnil
  | cons line lines ih =>
    rw [bound, filterMap_cons]
    cases ids.parseStr line.workerId with
    | none => exact ih.cons line
    | some id => exact ih.cons_cons line

variable [DecidableEq U]

def insert (workers : List U) (table : List (Row U)) (lines : List LogEntry) :
    Option (List (Row U)) :=
  let lines := bound ids lines
  if lines.isEmpty then some table
  else if lines.all fun (_, line) => storable line.message then
    let joined := lines.filter fun (id, _) => workers.contains id
    some (table ++ joined.map fun (id, line) => line.row id)
  else none

def storeBatch (workers : List U) (table : List (Row U)) (lines : List LogEntry) : List (Row U) :=
  (insert ids workers table lines).getD table

variable {ids} {workers : List U} {table : List (Row U)} {lines : List LogEntry}

/-- **What a batch adds**: the rows of the lines whose worker is there. -/
theorem exists_append_of_insert {table' : List (Row U)}
    (h : insert ids workers table lines = some table') :
    ∃ added, table' = table ++ added ∧ ∀ {row}, row ∈ added ↔ ∃ line ∈ lines, ∃ id,
      ids.parseStr line.workerId = some id ∧ id ∈ workers ∧ row = line.row id := by
  dsimp only [insert] at h
  split at h
  next hem =>
    cases h
    refine ⟨[], (append_nil _).symm, fun {row} => iff_of_false not_mem_nil ?_⟩
    rintro ⟨line, hl, id, hid, -⟩
    have hm := mem_bound.2 ⟨hl, hid⟩
    rw [isEmpty_iff.1 hem] at hm
    cases hm
  · split at h
    · cases h
      refine ⟨_, rfl, fun {row} => ?_⟩
      simp only [mem_map, mem_filter, contains_iff_mem, Prod.exists, mem_bound]
      constructor
      · rintro ⟨id, line, ⟨⟨hl, hid⟩, hw⟩, rfl⟩
        exact ⟨line, hl, id, hid, hw, rfl⟩
      · rintro ⟨line, hl, id, hid, hw, rfl⟩
        exact ⟨id, line, ⟨⟨hl, hid⟩, hw⟩, rfl⟩
    · cases h

theorem dates_storeBatch_sublist (workers : List U) (table : List (Row U)) (lines : List LogEntry) :
    ((storeBatch ids workers table lines).map Row.date).Sublist
      (table.map Row.date ++ lines.map LogEntry.date) := by
  unfold storeBatch
  dsimp only [insert]
  split
  · exact sublist_append_left _ _
  · split
    · have hd : ∀ joined : List (U × LogEntry),
          (joined.map fun (id, line) => line.row id).map Row.date =
            (joined.map Prod.snd).map LogEntry.date := fun joined => by
        rw [map_map, map_map]
        rfl
      rw [Option.getD_some, map_append, hd]
      refine (List.Sublist.map _ ?_).append_left _
      exact (filter_sublist.map Prod.snd).trans (bound_sublist lines)
    · exact sublist_append_left _ _

/-- The statement fails for a text that the database refuses, and for nothing else. -/
theorem insert_eq_none_iff :
    insert ids workers table lines = none ↔
      ∃ line ∈ lines, (ids.parseStr line.workerId).isSome ∧ storable line.message = false := by
  have ha : ((bound ids lines).all fun (_, line) => storable line.message) = true ↔
      ¬ ∃ line ∈ lines, (ids.parseStr line.workerId).isSome ∧ storable line.message = false := by
    simp only [all_eq_true, Prod.forall, mem_bound, Option.isSome_iff_exists]
    grind
  dsimp only [insert]
  by_cases hem : (bound ids lines).isEmpty = true
  · rw [if_pos hem]
    rw [isEmpty_iff.1 hem] at ha
    exact iff_of_false nofun (ha.1 rfl)
  · rw [if_neg hem, ite_eq_right_iff]
    simp only [reduceCtorEq, imp_false, ha, not_not]

end

/-- **When the lines of a batch do not affect each other.**  All lines whose worker is there and
whose own text can be stored are added to the table exactly if no line with the id of a worker,
there or not, has a text that the database refuses, or there is no line to be stored at all. -/
theorem lines_stored {U : Type} [DecidableEq U] (ids : Uuids U) (workers : List U)
    (table : List (Row U)) (lines : List LogEntry) :
    (∃ added, storeBatch ids workers table lines = table ++ added ∧
      ∀ line ∈ lines, ∀ id, ids.parseStr line.workerId = some id → id ∈ workers →
        storable line.message = true → line.row id ∈ added) ↔
      (∀ line ∈ lines, (ids.parseStr line.workerId).isSome → storable line.message = true) ∨
        ∀ line ∈ lines, ∀ id, ids.parseStr line.workerId = some id → id ∈ workers →
          storable line.message = false := by
  cases h : insert ids workers table lines with
  | none =>
    obtain ⟨bad, hbad, hid, hnul⟩ := insert_eq_none_iff.mp h
    rw [storeBatch, h, Option.getD_none]
    constructor
    · rintro ⟨added, hadded, hall⟩
      obtain rfl : added = [] := List.append_right_eq_self.mp hadded.symm
      refine .inr fun line hline id hparse hworker => ?_
      by_contra hstores
      exact not_mem_nil (hall line hline id hparse hworker (Bool.of_not_eq_false hstores))
    · rintro (hgood | hnone)
      · rw [hgood bad hbad hid] at hnul
        cases hnul
      · refine ⟨[], (append_nil _).symm, fun line hline id hparse hworker hstores => ?_⟩
        rw [hnone line hline id hparse hworker] at hstores
        cases hstores
  | some table' =>
    have hgood : ∀ line ∈ lines, (ids.parseStr line.workerId).isSome →
        storable line.message = true := by
      intro line hline hid
      by_contra hstores
      have hfail : insert ids workers table lines = none :=
        insert_eq_none_iff.mpr ⟨line, hline, hid, Bool.of_not_eq_true hstores⟩
      cases h.symm.trans hfail
    refine iff_of_true ?_ (.inl hgood)
    obtain ⟨added, rfl, hadded⟩ := exists_append_of_insert h
    rw [storeBatch, h, Option.getD_some]
    exact ⟨added, rfl, fun line hline id hparse hworker _ =>
      hadded.2 ⟨line, hline, id, hparse, hworker, rfl⟩⟩

/-! ### Two workers -/

def twoWorkers : Uuids Bool where
  parseStr text :=
    if text = "8d3b8a52-5a5e-4c43-9d0c-3a1f7f1f0b01" then some false
    else if text = "8d3b8a52-5a5e-4c43-9d0c-3a1f7f1f0b02" then some true
    else none
  text
    | false => "8d3b8a52-5a5e-4c43-9d0c-3a1f7f1f0b01"
    | true => "8d3b8a52-5a5e-4c43-9d0c-3a1f7f1f0b02"
  parseStr_text id := by cases id <;> decide

def threeLines (other : String) : List LogEntry :=
  [⟨0, "8d3b8a52-5a5e-4c43-9d0c-3a1f7f1f0b01", .log, "mine"⟩,
    ⟨1, "8d3b8a52-5a5e-4c43-9d0c-3a1f7f1f0b02", .log, other⟩,
    ⟨2, "worker", .log, .ofList [Char.ofNat 0]⟩]

theorem line_lost :
    ¬ ∀ (workers : List Bool) (table : List (Row Bool)) (lines : List LogEntry), ∀ line ∈ lines,
      ∀ id, twoWorkers.parseStr line.workerId = some id → id ∈ workers →
        storable line.message = true →
        line.row id ∈ storeBatch twoWorkers workers table lines := by
  intro h
  have hlost := h [false, true] [] (threeLines (.ofList [Char.ofNat 0]))
    ⟨0, "8d3b8a52-5a5e-4c43-9d0c-3a1f7f1f0b01", .log, "mine"⟩ mem_cons_self false
    (by decide) (by decide) (by decide)
  revert hlost
  decide

end OpenWorkersRunner.Logs
