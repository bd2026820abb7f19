import OpenWorkersRunner.Lib.Machine
import OpenWorkersRunner.Lib.Decimal

/-!
# The archive of snapshots (`src/d1/archive.rs`)

`save` uploads a snapshot, checks the size of what is stored, records it in the index, and then
removes the oldest snapshots beyond `keep`; `forget_all` removes all snapshots of a database;
`fetch_latest` reads the latest one.  The snapshots are in object storage, and the index is in the
platform database, so each of the two is remote, and each access to it is a step of its own that
can fail.
-/

namespace OpenWorkersRunner.Archive

open List Function

/-! ## The keys of the store -/

/-- `str::split_once`. -/
def splitOnce (c : Char) : List Char → Option (List Char × List Char)
  | [] => none
  | x :: xs => if x = c then some ([], xs) else (splitOnce c xs).map fun p => (x :: p.1, p.2)

def parseObjectKey (key : String) : Option (String × String) :=
  if "objects/".toList.isPrefixOf key.toList then
    (splitOnce '/' (key.toList.drop 8)).map fun p => (String.ofList p.1, String.ofList p.2)
  else none

def directory (databaseId : String) : String :=
  match parseObjectKey databaseId with
  | some (ns, object) => "do/" ++ ns ++ "/" ++ object
  | none => "d1/" ++ databaseId

def objectName (databaseId : String) (epoch seq : Int) : String :=
  directory databaseId ++ "/" ++ toString epoch ++ "/" ++ toString seq ++ ".sqlite.zst"

theorem splitOnce_eq_some {c : Char} {l a b : List Char} (h : splitOnce c l = some (a, b)) :
    l = a ++ c :: b := by
  induction l generalizing a with
  | nil => cases h
  | cons x xs ih =>
    rw [splitOnce] at h
    split at h
    · cases h
      simp_all
    · obtain ⟨⟨a', b'⟩, hsp, heq⟩ := Option.map_eq_some_iff.1 h
      cases heq
      rw [ih hsp]
      rfl

theorem parseObjectKey_eq_some {key ns obj : String} (h : parseObjectKey key = some (ns, obj)) :
    key.toList = "objects/".toList ++ (ns.toList ++ '/' :: obj.toList) := by
  rw [parseObjectKey] at h
  split at h
  next hpr =>
    obtain ⟨⟨before, after⟩, hsp, heq⟩ := Option.map_eq_some_iff.1 h
    obtain ⟨rest, hre⟩ := isPrefixOf_iff_prefix.1 hpr
    rw [← hre] at hsp
    have hp : rest = before ++ '/' :: after := splitOnce_eq_some hsp
    cases heq
    simp only [← hre, hp, String.toList_ofList]
  · cases h

theorem directory_inj {a b : String} (h : directory a = directory b) : a = b := by
  have hlist := congrArg String.toList h
  apply String.toList_injective
  cases ha : parseObjectKey a with
  | none =>
    cases hb : parseObjectKey b with
    | none => simpa [directory, ha, hb] using hlist
    | some parts => simp [directory, ha, hb] at hlist
  | some parts =>
    cases hb : parseObjectKey b with
    | none => simp [directory, ha, hb] at hlist
    | some parts' =>
      rw [parseObjectKey_eq_some ha, parseObjectKey_eq_some hb]
      simpa [directory, ha, hb] using hlist

theorem toList_objectName (db : String) (epoch seq : Int) :
    (objectName db epoch seq).toList = ((directory db).toList ++ '/' :: decimal epoch) ++
        '/' :: (decimal seq ++ ".sqlite.zst".toList) := by
  simp [objectName, decimal]

/-- **Snapshots of different databases, epochs or times have different keys.** -/
theorem objectName_inj {a b : String} {epoch epoch' seq seq' : Int}
    (h : objectName a epoch seq = objectName b epoch' seq') :
    a = b ∧ epoch = epoch' ∧ seq = seq' := by
  have hsl : ∀ n, '/' ∉ decimal n := notMem_decimal (by decide) (by decide)
  have hl : ∀ n, '/' ∉ decimal n ++ ".sqlite.zst".toList := by
    intro n hm
    rcases mem_append.1 hm with hm | hm
    · exact hsl n hm
    · revert hm
      decide
  have hlist := congrArg String.toList h
  rw [toList_objectName, toList_objectName] at hlist
  obtain ⟨hf, hse⟩ := append_cons_inj_of_notMem_right (hl _) (hl _) hlist
  obtain ⟨hd, hep⟩ :=
    append_cons_inj_of_notMem_right (hsl _) (hsl _) hf
  exact ⟨directory_inj (String.toList_injective hd), decimal_inj hep,
    decimal_inj (append_cancel_right hse)⟩

/-! ## The store and the index -/

abbrev Bytes := List UInt8

structure Config where
  digest : Bytes → String
  keep : Nat

structure Snapshot where
  databaseId : String
  seq : Int
  epoch : Int
  key : String
  checksum : String
  size : Nat
deriving DecidableEq

structure Remote where
  store : String → Option Bytes
  rows : List Snapshot
  epochs : List Int

namespace Remote

variable (r : Remote)

def put (key : String) (bytes : Bytes) : Remote :=
  { r with store := Function.update r.store key (some bytes) }

def delete (key : String) : Remote := { r with store := Function.update r.store key none }

/-- `epoch = (SELECT max(epoch) FROM runner_epochs)`. -/
def isLatest (epoch : Int) : Bool := r.epochs.max? = some epoch

def record (snapshot : Snapshot) : Remote :=
  if r.isLatest snapshot.epoch then { r with rows := r.rows ++ [snapshot] } else r

def rowsOf (databaseId : String) : List Snapshot :=
  r.rows.filter fun row => row.databaseId = databaseId

/-- `DELETE`. -/
def forget (databaseId : String) (seq : Int) : Remote :=
  { r with rows := r.rows.filter fun row => ¬ (row.databaseId = databaseId ∧ row.seq = seq) }

@[simp] theorem store_put_self (key : String) (bytes : Bytes) :
    (r.put key bytes).store key = some bytes := update_self ..

theorem store_put_of_ne {key key' : String} (h : key' ≠ key) (bs : Bytes) :
    (r.put key bs).store key' = r.store key' := update_of_ne h ..

theorem store_delete_of_ne {key key' : String} (h : key' ≠ key) :
    (r.delete key).store key' = r.store key' := update_of_ne h ..

theorem mem_rows_forget {db : String} {seq : Int} {row : Snapshot} :
    row ∈ (r.forget db seq).rows ↔ row ∈ r.rows ∧ ¬ (row.databaseId = db ∧ row.seq = seq) := by
  simp only [forget, mem_filter, decide_eq_true_eq]

structure IsListing (databaseId : String) (listing : List Snapshot) : Prop where
  perm : listing.Perm (r.rowsOf databaseId)
  sorted : listing.Pairwise fun a b => b.seq ≤ a.seq

instance (databaseId : String) (listing : List Snapshot) :
    Decidable (r.IsListing databaseId listing) :=
  decidable_of_iff (listing.Perm (r.rowsOf databaseId) ∧ listing.Pairwise fun a b => b.seq ≤ a.seq)
    ⟨fun h => ⟨h.1, h.2⟩, fun h => ⟨h.perm, h.sorted⟩⟩

def fetchLatest (config : Config) (listing : List Snapshot) : Except String (Option Bytes) :=
  match listing with
  | [] => .ok none
  | latest :: _ =>
    match r.store latest.key with
    | none => .error (latest.key ++ ": missing from the archive")
    | some bytes =>
      if config.digest bytes = latest.checksum then .ok (some bytes)
      else .error (latest.key ++ ": checksum mismatch")

end Remote

inductive Outcome
  | done
  | failed (error : String)
  | lost (error : String)
deriving DecidableEq

def Outcome.error : Outcome → Option String
  | .done => none
  | .failed e | .lost e => some e

def Outcome.remote (o : Outcome) (before after : Remote) : Remote :=
  match o with
  | .failed _ => before
  | .done | .lost _ => after

/-! ## The calls -/

inductive Access
  | put (outcome : Outcome)
  | size (error : Option String)
  | record (outcome : Outcome)
  | list (answer : Except String (List Snapshot))
  | forget (outcome : Outcome)
  | delete (outcome : Outcome)

inductive Removal
  | forget (old : Snapshot) (rest : List Snapshot)
  | delete (old : Snapshot) (rest : List Snapshot)
deriving DecidableEq

namespace Removal

def start : List Snapshot → Option Removal
  | [] => none
  | old :: rest => some (.forget old rest)

def snapshots : Removal → List Snapshot
  | .forget old rest | .delete old rest => old :: rest

def step (r : Remote) : Removal → Access → Option (Except String (Option Removal) × Remote)
  | .forget old rest, .forget o =>
    some (o.error.elim (.ok (some (.delete old rest))) .error,
      o.remote r (r.forget old.databaseId old.seq))
  | .delete old rest, .delete o =>
    some (o.error.elim (.ok (start rest)) .error, o.remote r (r.delete old.key))
  | _, _ => none

end Removal

structure Upload where
  databaseId : String
  bytes : Bytes
  epoch : Int
  seq : Int
deriving DecidableEq

namespace Upload

def key (u : Upload) : String := objectName u.databaseId u.epoch u.seq

def snapshot (config : Config) (u : Upload) : Snapshot :=
  ⟨u.databaseId, u.seq, u.epoch, u.key, config.digest u.bytes, u.bytes.length⟩

end Upload

inductive SaveStage
  | put
  | size
  | record
  | list
  | removing (loop : Removal)
  | returned (result : Except String Snapshot)
deriving DecidableEq

def debug : Option Nat → String
  | none => "None"
  | some n => "Some(" ++ toString n ++ ")"

def Upload.sizeError (u : Upload) (stored : Option Nat) : String :=
  u.key ++ ": stored size " ++ debug stored ++ ", expected " ++ toString u.bytes.length

def fenced (epoch : Int) : String :=
  "epoch " ++ toString epoch ++ " is no longer the latest: another runner started"

def SaveStage.ofLoop (snapshot : Snapshot) : Option Removal → SaveStage
  | some loop => .removing loop
  | none => .returned (.ok snapshot)

def Upload.step (config : Config) (r : Remote) (u : Upload) :
    SaveStage → Access → Option (SaveStage × Remote)
  | .put, .put o =>
    some (o.error.elim .size fun e => .returned (.error e), o.remote r (r.put u.key u.bytes))
  | .size, .size (some e) => some (.returned (.error e), r)
  | .size, .size none =>
    let stored := (r.store u.key).map List.length
    some (if stored = some u.bytes.length then .record
      else .returned (.error (u.sizeError stored)), r)
  | .record, .record o =>
    some
      (o.error.elim
        (if r.isLatest u.epoch then .list else .returned (.error (fenced u.epoch)))
        fun e => .returned (.error e),
      o.remote r (r.record (u.snapshot config)))
  | .list, .list (.ok listing) =>
    if r.IsListing u.databaseId listing then
      some (.ofLoop (u.snapshot config) (Removal.start (listing.drop config.keep)), r)
    else none
  | .list, .list (.error _) => some (.returned (.ok (u.snapshot config)), r)
  | .removing loop, a =>
    (loop.step r a).map fun (next, r') =>
      (match next with
        | .ok next => .ofLoop (u.snapshot config) next
        | .error _ => .returned (.ok (u.snapshot config)),
      r')
  | _, _ => none

inductive ForgetStage
  | list
  | removing (loop : Removal)
  | returned (result : Except String Unit)
deriving DecidableEq

def ForgetStage.ofLoop : Option Removal → ForgetStage
  | some loop => .removing loop
  | none => .returned (.ok ())

def forgetAll (r : Remote) (databaseId : String) :
    ForgetStage → Access → Option (ForgetStage × Remote)
  | .list, .list (.ok listing) =>
    if r.IsListing databaseId listing then some (.ofLoop (Removal.start listing), r) else none
  | .list, .list (.error e) => some (.returned (.error e), r)
  | .removing loop, a =>
    (loop.step r a).map fun (next, r') =>
      (match next with
        | .ok next => .ofLoop next
        | .error e => .returned (.error e),
      r')
  | _, _ => none

inductive Call
  | save (upload : Upload) (stage : SaveStage)
  | forgetAll (databaseId : String) (stage : ForgetStage)
deriving DecidableEq

def Call.step (config : Config) (r : Remote) : Call → Access → Option (Call × Remote)
  | .save u stage, a => (u.step config r stage a).map fun (stage, r') => (.save u stage, r')
  | .forgetAll databaseId stage, a =>
    (Archive.forgetAll r databaseId stage a).map
      fun (stage, r') => (.forgetAll databaseId stage, r')

/-! ## The machine -/

structure State extends Remote where
  calls : List Call

inductive Act
  | start (epoch : Int)
  | save (upload : Upload)
  | forgetAll (databaseId : String)
  | access (i : Nat) (a : Access)

def State.step (config : Config) (s : State) : Act → Option State
  | .start epoch =>
    if epoch ∈ s.epochs then none else some { s with epochs := s.epochs ++ [epoch] }
  | .save u =>
    if u.epoch ∈ s.epochs then some { s with calls := s.calls ++ [.save u .put] } else none
  | .forgetAll databaseId => some { s with calls := s.calls ++ [.forgetAll databaseId .list] }
  | .access i a =>
    s.calls[i]?.bind fun call =>
      (call.step config s.toRemote a).map fun (call', r) =>
        { toRemote := r, calls := s.calls.set i call' }

def State.empty : State := ⟨⟨fun _ => none, [], []⟩, []⟩

def machine (config : Config) : Machine State Act := ⟨State.empty, State.step config⟩

end OpenWorkersRunner.Archive
