import Mathlib.Data.List.AList
import OpenWorkersRunner.Services.KvList

/-!
# Values under keys (`services/kv.rs`)

The rows of `kv_data` are under a namespace and a key.  A row past its time stays in the table,
where neither `get` nor `list` sees it.  A statement is done at the `NOW()` of the database, or
fails and changes nothing; and one that is done can lose its answer, which is an error too.
-/

namespace OpenWorkersRunner.Kv

open List Option
open KvList (KvResult)

variable {ω : Type}

structure Cell (ω : Type) where
  value : ω
  expiresAt : Option Int
deriving DecidableEq

abbrev KvData (ω : Type) := AList fun _ : String × String => Cell ω

inductive Op (ω : Type)
  | get
  | put (value : ω) (expiresIn : Option UInt64)
  | delete

/-- What the runner hears of a statement; one whose answer is `lost` was done. -/
inductive Reply
  | done
  | failed (error : String)
  | lost (error : String)
deriving DecidableEq

structure Call (ω : Type) where
  id : String × String
  op : Op ω
  now : Int
  reply : Reply

/-- `expires_at IS NULL OR expires_at > NOW()`, the condition of `list`. -/
def Cell.isFresh (now : Int) (id : String × String) (cell : Cell ω) : Bool :=
  KvList.Row.isFresh now ⟨id.1, id.2, cell.expiresAt⟩

def get (data : KvData ω) (id : String × String) (now : Int) : Reply → KvResult ω
  | .failed e | .lost e => .error ("KV get failed: " ++ e)
  | .done => .value (((data.lookup id).filter (Cell.isFresh now id)).map Cell.value)

def maxValueSize : ℕ := 100 * 1024

/-- `NOW() + $4 * INTERVAL '1 second'`, in microseconds since 2000; the seconds of the guest are
cast, `ttl as i64`.  An interval has 64 bits and a timestamp is of the years 4713 BC to 294276;
what is not in these ranges is an error. -/
def expiry (now : Int) (ttl : UInt64) : Option Int :=
  let span := ttl.toInt64.toInt * 1000000
  if span.natAbs < 2 ^ 63 ∧ -211813488000000000 ≤ now + span ∧
    now + span < 9223371331200000000 then some (now + span) else none

/-- The `expires_at` of a row, or `none` if it is out of range. -/
def expiresAt (now : Int) : Option UInt64 → Option (Option Int)
  | none => some none
  | some ttl => (expiry now ttl).map some

/-- `size` is the length of the JSON text of a value. -/
def put (size : ω → ℕ) (data : KvData ω) (id : String × String) (value : ω)
    (expiresIn : Option UInt64) (now : Int) (reply : Reply) : KvData ω × KvResult ω :=
  if maxValueSize < size value then
    (data, .error s!"Value too large: {size value} bytes (max {maxValueSize} bytes)")
  else
    match expiresAt now expiresIn, reply with
    | none, _ => (data, .error "KV put failed: out of range")
    | some _, .failed e => (data, .error ("KV put failed: " ++ e))
    | some at_, .lost e => (data.insert id ⟨value, at_⟩, .error ("KV put failed: " ++ e))
    | some at_, .done => (data.insert id ⟨value, at_⟩, .ok)

def delete (data : KvData ω) (id : String × String) : Reply → KvData ω × KvResult ω
  | .failed e => (data, .error ("KV delete failed: " ++ e))
  | .lost e => (data.erase id, .error ("KV delete failed: " ++ e))
  | .done => (data.erase id, .ok)

variable (size : ω → ℕ)

def call (data : KvData ω) (c : Call ω) : KvData ω × KvResult ω :=
  match c.op with
  | .get => (data, get data c.id c.now c.reply)
  | .put value expiresIn => put size data c.id value expiresIn c.now c.reply
  | .delete => delete data c.id c.reply

def run (calls : List (Call ω)) : KvData ω := calls.foldl (fun data c => (call size data c).1) ∅

/-! ## What a key holds after any calls -/

/-- What a call writes under its key, `some none` if it deletes, and `none` if it writes nothing. -/
def Call.written (c : Call ω) : Option (Option (Cell ω)) :=
  match c.op, c.reply with
  | .get, _ | _, .failed _ => none
  | .put value expiresIn, _ =>
    if maxValueSize < size value then none
    else (expiresAt c.now expiresIn).map fun at_ => some ⟨value, at_⟩
  | .delete, _ => some none

/-- What the last call that wrote under this key left there. -/
def lastWritten (calls : List (Call ω)) (id : String × String) : Option (Cell ω) :=
  (calls.reverse.findSome? fun c => if c.id = id then c.written size else none).getD none

variable {size}

theorem call_fst (data : KvData ω) (c : Call ω) :
    (call size data c).1 =
      (c.written size).elim data fun cell => cell.elim (data.erase c.id) (data.insert c.id) := by
  obtain ⟨id, op, now, reply⟩ := c
  cases op with
  | get => cases reply <;> rfl
  | put value expiresIn =>
    simp only [call, put, Call.written]
    split
    next hlt => cases reply <;> simp [hlt]
    next hle => cases hat : expiresAt now expiresIn <;> cases reply <;> simp [hle, hat]
  | delete => cases reply <;> rfl

/-- **A call that is acknowledged has written**, so an error is the only answer that leaves open
whether it did. -/
theorem written_of_ok {data : KvData ω} {c : Call ω} (h : (call size data c).2 = .ok) :
    (c.written size).isSome = true := by
  obtain ⟨id, op, now, reply⟩ := c
  cases op with
  | get => cases reply <;> cases h
  | put value expiresIn =>
    simp only [call, put, Call.written] at h ⊢
    split at h
    · cases h
    · cases hat : expiresAt now expiresIn <;> cases reply <;> simp_all
  | delete => cases reply <;> first | rfl | cases h

theorem lookup_call (data : KvData ω) (c : Call ω) (id : String × String) :
    (call size data c).1.lookup id =
      ((if c.id = id then c.written size else none)).getD (data.lookup id) := by
  rw [call_fst]
  by_cases hid : c.id = id
  · subst hid
    obtain hw | hw | ⟨cell, hw⟩ : c.written size = none ∨ c.written size = some none ∨
        ∃ cell, c.written size = some (some cell) := by
      rcases c.written size with _ | _ | cell <;> simp
    all_goals simp [hw]
  · rw [if_neg hid]
    rcases c.written size with _ | _ | cell <;> simp [Ne.symm hid]

theorem lookup_run (calls : List (Call ω)) (id : String × String) :
    (run size calls).lookup id = lastWritten size calls id := by
  induction calls using reverseRecOn with
  | nil => rfl
  | append_singleton calls c ih =>
    have hru : run size (calls ++ [c]) = (call size (run size calls) c).1 := by simp [run]
    rw [hru, lookup_call, ih, lastWritten, lastWritten, reverse_concat, findSome?_cons]
    cases if c.id = id then c.written size else none <;> rfl

/-- **A key holds what was last written there**, whatever was done to other keys and namespaces and
whatever failed: `get` gives the value of the last call that wrote under the key, if that was a
`put` and has not expired, and every call that was acknowledged wrote. -/
theorem get_run (calls : List (Call ω)) (id : String × String) (now : Int) :
    get (run size calls) id now .done =
        .value (((lastWritten size calls id).filter (Cell.isFresh now id)).map Cell.value) ∧
      ∀ c ∈ calls, ∀ data, (call size data c).2 = .ok → (c.written size).isSome = true := by
  refine ⟨?_, fun c _ data h => written_of_ok h⟩
  rw [get, lookup_run]

end OpenWorkersRunner.Kv
