import Mathlib.Data.List.Nodup
import OpenWorkersRunner.D1.Sqlite
import OpenWorkersRunner.Lib.Machine
import OpenWorkersRunner.Lib.Parties
import OpenWorkersRunner.Lib.Table

/-!
# D1: management requests

`d1/requests.rs` serves the rows of `d1_requests`: a pass reads those that are not finished, runs
one after the other on its database, and writes the result into the row.  Running a request and
marking its row are two steps in two systems, so the mark can be lost: the `UPDATE` fails,
`listen_once` returns, and the first pass on the next connection finds the row unfinished.  Nothing
else holds a row back, neither for that pass nor for another listener of the same table.
-/

namespace OpenWorkersRunner.D1.Requests

open List Option Parties

open Sqlite (D1Op Migration D1Result D1ErrorKind)

/-! ## Requests -/

inductive Request
  | op (op : D1Op)
  | migrate (migration : Migration)
  | restore
deriving DecidableEq

inductive Json
  | request (request : Request)
  | bad (error : String)
deriving DecidableEq

def Json.isRequest : Json → Bool
  | .request _ => true
  | .bad _ => false

structure Row where
  id : String
  databaseId : String
  request : Json
  createdAt : Nat
  result : Option D1Result
deriving DecidableEq

structure Pending where
  id : String
  databaseId : String
  request : Json
  createdAt : Nat
  deleted : Bool
deriving DecidableEq

def failure (kind : D1ErrorKind) (message : String) : D1Result := .error ⟨kind, message, none⟩

inductive Answer
  | d1 (result : D1Result)
  | reset (outcome : Except String Unit)

def serve : Json → Answer → Option D1Result
  | .request (.op _), .d1 result => some result
  | .request (.migrate _), .d1 result => some result
  | .request .restore, .reset (.ok ()) => some (.exec 0)
  | .request .restore, .reset (.error err) => some (failure .unavailable err)
  | .bad err, _ => some (failure .type ("bad request: " ++ err))
  | _, _ => none

/-! ## Listeners -/

inductive Stage
  | down
  | waiting
  | selecting (notified : Bool)
  | serving (notified : Bool) (pending : List Pending)
  | marking (notified : Bool) (row : Pending) (ran : Bool) (result : D1Result)
      (pending : List Pending)
  | cleaning
  | ended
deriving DecidableEq

structure Listener where
  stop : Bool
  stage : Stage
deriving DecidableEq

structure State where
  databases : List (String × Bool)
  requests : List Row
  listeners : List Listener
  ids : List String
  executed : List String

inductive Act
  | insertDatabase (id : String)
  | deleteDatabase (id : String)
  | insert (row : Row)
  | delete (id : String)
  | join
  | stop (i : Nat)
  | connect (i : Nat)
  | lose (i : Nat)
  | wake (i : Nat) (notified : Bool)
  | select (i : Nat) (pending : List Pending)
  | selectFails (i : Nat)
  | serve (i : Nat) (answer : Answer)
  | update (i : Nat) (outcome : Sent)
  | pass (i : Nat)
  | cleaned (i : Nat) (ok : Bool)
  | finish (i : Nat)

namespace State

def pending (s : State) : List Pending :=
  s.requests.filterMap fun row =>
    if row.result = none then
      (s.databases.lookup row.databaseId).map fun deleted =>
        ⟨row.id, row.databaseId, row.request, row.createdAt, deleted⟩
    else none

/-- `UPDATE d1_requests SET result = $2, finished_at = now()
WHERE id = $1 AND finished_at IS NULL`. -/
def update (s : State) (id : String) (result : D1Result) : State :=
  { s with
    requests := s.requests.map fun row =>
      if row.id = id ∧ row.result = none then { row with result := some result } else row }

def goto (s : State) (i : Nat) (l : Listener) (stage : Stage) : State :=
  { s with listeners := s.listeners.set i { l with stage } }

def afterPass (notified : Bool) : Stage := if notified then .waiting else .cleaning

def act (s : State) (i : Nat) (l : Listener) : Act → Option State
  | .stop _ => some { s with listeners := s.listeners.set i { l with stop := true } }
  | .connect _ =>
    match l.stage with
    | .down => if l.stop then none else some (s.goto i l .waiting)
    | _ => none
  | .lose _ =>
    match l.stage with
    | .waiting => some (s.goto i l .down)
    | _ => none
  | .wake _ notified =>
    match l.stage with
    | .waiting => some (s.goto i l (.selecting notified))
    | _ => none
  | .select _ pending =>
    match l.stage with
    | .selecting notified =>
      if pending.Perm s.pending ∧ pending.Pairwise (fun p q => p.createdAt ≤ q.createdAt) then
        some (s.goto i l (.serving notified pending))
      else none
    | _ => none
  | .selectFails _ =>
    match l.stage with
    | .selecting _ => some (s.goto i l .down)
    | _ => none
  | .serve _ answer =>
    match l.stage with
    | .serving notified (row :: rest) =>
      if l.stop then none
      else if row.deleted then
        let result := failure .unavailable "the database is deleted"
        some (s.goto i l (.marking notified row false result rest))
      else
        (Requests.serve row.request answer).map fun result =>
          let s' := s.goto i l (.marking notified row row.request.isRequest result rest)
          if row.request.isRequest then { s' with executed := s.executed ++ [row.id] } else s'
    | _ => none
  | .update _ outcome =>
    match l.stage with
    | .marking notified row _ result rest =>
      match outcome with
      | .done => some ((s.update row.id result).goto i l (.serving notified rest))
      | .failed => some (s.goto i l .down)
      | .unacknowledged => some ((s.update row.id result).goto i l .down)
    | _ => none
  | .pass _ =>
    match l.stage with
    | .serving notified pending =>
      if pending = [] ∨ l.stop then some (s.goto i l (afterPass notified)) else none
    | _ => none
  | .cleaned _ ok =>
    match l.stage with
    | .cleaning => some (s.goto i l (if ok then .waiting else .down))
    | _ => none
  | .finish _ =>
    match l.stage with
    | .waiting | .down => if l.stop then some (s.goto i l .ended) else none
    | _ => none
  | _ => none

end State

def Act.listener : Act → Option Nat
  | .stop i | .connect i | .lose i | .wake i _ | .select i _ | .selectFails i | .serve i _
  | .update i _ | .pass i | .cleaned i _ | .finish i => some i
  | _ => none

namespace State

def step (s : State) : Act → Option State
  | .insertDatabase id =>
    if (s.databases.lookup id).isSome then none
    else some { s with databases := (id, false) :: s.databases }
  | .deleteDatabase id =>
    some
      { s with
        databases := s.databases.map fun (other, deleted) => (other, deleted || other == id) }
  | .insert row =>
    if row.id ∈ s.ids ∨ row.result ≠ none then none
    else some { s with requests := row :: s.requests, ids := row.id :: s.ids }
  | .delete id => some { s with requests := s.requests.filter (·.id ≠ id) }
  | .join => some { s with listeners := s.listeners ++ [⟨false, .down⟩] }
  | a => do
    let i ← a.listener
    let l ← s.listeners[i]?
    s.act i l a

end State

def machine : Machine State Act where
  init := ⟨[], [], [], [], []⟩
  step := State.step

/-! ## What a step can do -/

def Stage.held : Stage → List Pending
  | .serving _ pending => pending
  | .marking _ _ _ _ pending => pending
  | _ => []

def Stage.marks : Stage → Option String
  | .marking _ row true _ _ => some row.id
  | _ => none

def Stage.busy : Stage → Bool
  | .serving _ pending => !pending.isEmpty
  | .marking .. => true
  | _ => false

namespace State

inductive Step (s : State) : Act → State → Prop
  | databases {a : Act} (databases : List (String × Bool)) : Step s a { s with databases }
  | insert {row : Row} (hfresh : row.id ∉ s.ids) :
      Step s (.insert row) { s with requests := row :: s.requests, ids := row.id :: s.ids }
  | delete (id : String) :
      Step s (.delete id) { s with requests := s.requests.filter (·.id ≠ id) }
  | join : Step s .join { s with listeners := s.listeners ++ [⟨false, .down⟩] }
  | stop {i : Nat} {l : Listener} (hl : s.listeners[i]? = some l) :
      Step s (.stop i) { s with listeners := s.listeners.set i { l with stop := true } }
  | idle {a : Act} {i : Nat} {l : Listener} {stage : Stage} (hl : s.listeners[i]? = some l)
      (hmarks : l.stage.marks = none) (hidle : stage.busy = false) : Step s a (s.goto i l stage)
  | select {i : Nat} {l : Listener} {notified : Bool} {pending : List Pending}
      (hl : s.listeners[i]? = some l) (hstage : l.stage = .selecting notified)
      (hpending : pending.Perm s.pending) :
      Step s (.select i pending) (s.goto i l (.serving notified pending))
  | refuse {i : Nat} {l : Listener} {notified : Bool} {row : Pending} {rest : List Pending}
      {answer : Answer} (result : D1Result) (hl : s.listeners[i]? = some l)
      (hstage : l.stage = .serving notified (row :: rest)) :
      Step s (.serve i answer) (s.goto i l (.marking notified row false result rest))
  | run {i : Nat} {l : Listener} {notified : Bool} {row : Pending} {rest : List Pending}
      {answer : Answer} (result : D1Result) (hl : s.listeners[i]? = some l)
      (hstage : l.stage = .serving notified (row :: rest)) :
      Step s (.serve i answer)
        { s.goto i l (.marking notified row true result rest) with
          executed := s.executed ++ [row.id] }
  | update {i : Nat} {l : Listener} {notified ran : Bool} {row : Pending} {result : D1Result}
      {rest : List Pending} {outcome : Sent} {stage : Stage} (hl : s.listeners[i]? = some l)
      (hstage : l.stage = .marking notified row ran result rest)
      (hnext : stage = .serving notified rest ∨ stage = .down) :
      Step s (.update i outcome) ((s.update row.id result).goto i l stage)
  | updateFails {i : Nat} {l : Listener} {notified ran : Bool} {row : Pending} {result : D1Result}
      {rest : List Pending} (hl : s.listeners[i]? = some l)
      (hstage : l.stage = .marking notified row ran result rest) :
      Step s (.update i .failed) (s.goto i l .down)

variable {s t : State} {a : Act}

theorem step_of_act {i : Nat} {l : Listener} (hl : s.listeners[i]? = some l)
    (ha : a.listener = some i) (h : s.act i l a = some t) : s.Step a t := by
  cases a with
  | insertDatabase | deleteDatabase | insert | delete | join => cases ha
  | stop j =>
    cases ha
    cases h
    exact .stop hl
  | select j pending =>
    cases ha
    dsimp only [act] at h
    split at h
    · split at h
      next hst hco =>
        cases h
        exact .select hl hst hco.1
      · cases h
    · cases h
  | serve j ans =>
    cases ha
    dsimp only [act] at h
    split at h
    next hst =>
      split at h
      · cases h
      · split at h
        · cases h
          exact .refuse _ hl hst
        · obtain ⟨res, -, rfl⟩ := map_eq_some_iff.1 h
          split
          next hru =>
            rw [hru]
            exact .run res hl hst
          next hru =>
            rw [Bool.not_eq_true] at hru
            rw [hru]
            exact .refuse res hl hst
    · cases h
  | update j out =>
    cases ha
    dsimp only [act] at h
    split at h
    next hst =>
      cases out with
      | done =>
        cases h
        exact .update hl hst (.inl rfl)
      | failed =>
        cases h
        exact .updateFails hl hst
      | unacknowledged =>
        cases h
        exact .update hl hst (.inr rfl)
    · cases h
  | lose j | wake j notified | selectFails j =>
    cases ha
    dsimp only [act] at h
    split at h
    next hst =>
      cases h
      exact .idle hl (by rw [hst]; rfl) rfl
    · cases h
  | cleaned j ok =>
    cases ha
    dsimp only [act] at h
    split at h
    next hst =>
      cases h
      exact .idle hl (by rw [hst]; rfl) (by cases ok <;> rfl)
    · cases h
  | connect j =>
    cases ha
    dsimp only [act] at h
    split at h
    next hst =>
      split at h
      · cases h
      · cases h
        exact .idle hl (by rw [hst]; rfl) rfl
    · cases h
  | finish j =>
    cases ha
    dsimp only [act] at h
    split at h
    next hst =>
      split at h
      · cases h
        exact .idle hl (by rw [hst]; rfl) rfl
      · cases h
    next hst =>
      split at h
      · cases h
        exact .idle hl (by rw [hst]; rfl) rfl
      · cases h
    · cases h
  | pass j =>
    cases ha
    dsimp only [act] at h
    split at h
    next notified pending hst =>
      split at h
      · cases h
        exact .idle hl (by rw [hst]; rfl) (by cases notified <;> rfl)
      · cases h
    · cases h

theorem step_of_eq (h : s.step a = some t) : s.Step a t := by
  have ha (h : (do
      let i ← a.listener
      let l ← s.listeners[i]?
      s.act i l a) = some t) : s.Step a t := by
    obtain ⟨i, hi, h⟩ := bind_eq_some_iff.1 h
    obtain ⟨l, hl, h⟩ := bind_eq_some_iff.1 h
    exact step_of_act hl hi h
  cases a with
  | insertDatabase id =>
    dsimp only [step] at h
    split at h
    · cases h
    · cases h
      exact .databases _
  | deleteDatabase id =>
    cases h
    exact .databases _
  | insert row =>
    dsimp only [step] at h
    split at h
    · cases h
    next hco =>
      cases h
      exact .insert fun hm => hco (.inl hm)
  | delete id =>
    cases h
    exact .delete id
  | join =>
    cases h
    exact .join
  | _ => exact ha h

end State

/-! ## At most once -/

theorem Stage.free_of_busy {stage : Stage} (h : stage.busy = false) :
    stage.held = [] ∧ stage.marks = none := by
  cases stage with
  | serving notified pending => simpa [busy, held, marks] using h
  | marking => cases h
  | _ => exact ⟨rfl, rfl⟩

theorem Stage.busy_of_marks {stage : Stage} {id : String} (h : stage.marks = some id) :
    stage.busy = true := by
  cases stage with
  | marking => rfl
  | _ => cases h

namespace State

/-- What a step may do: no `UPDATE` fails for a row that ran, and the rows are read while no
listener has any in hand. -/
def allows (s : State) : Act → Bool
  | .update i .failed => (s.listeners[i]?.bind fun l => l.stage.marks).isNone
  | .select _ _ => s.listeners.all fun l => !l.stage.busy
  | _ => true

/-- Where the rows are: those that ran are finished or about to be marked, and those in hand have
not run. -/
structure Once (s : State) : Prop where
  executed : s.executed.Nodup
  executed_used : ∀ id ∈ s.executed, id ∈ s.ids
  rows : (s.requests.map Row.id).Nodup
  rows_used : ∀ id ∈ s.requests.map Row.id, id ∈ s.ids
  held : ∀ l ∈ s.listeners, (l.stage.held.map Pending.id).Nodup ∧
    ∀ p ∈ l.stage.held, p.id ∈ s.ids ∧ p.id ∉ s.executed
  alone : ∀ (i j : Nat) (l l' : Listener), s.listeners[i]? = some l → s.listeners[j]? = some l' →
    l.stage.busy = true → l'.stage.busy = true → i = j
  marked : ∀ row ∈ s.requests, row.result = none → row.id ∈ s.executed →
    ∃ l ∈ s.listeners, l.stage.marks = some row.id

namespace Once

variable {s t : State} {i : Nat} {l : Listener}

theorem others (hs : s.Once) (hl : s.listeners[i]? = some l) (hbu : l.stage.busy = true)
    {j : Nat} {l' : Listener} (hj : j ≠ i) (hl' : s.listeners[j]? = some l') :
    l'.stage.busy = false :=
  Bool.eq_false_iff.2 fun h => hj (hs.alone j i l' l hl' hl h hbu)

variable {row : Row} {notified : Bool} {rest : List Pending}

theorem marked_by (hs : s.Once) (hl : s.listeners[i]? = some l) (hbu : l.stage.busy = true)
    (hro : row ∈ s.requests) (hre : row.result = none) (hra : row.id ∈ s.executed) :
    l.stage.marks = some row.id := by
  obtain ⟨l', hme, hm⟩ := hs.marked row hro hre hra
  obtain ⟨j, hj⟩ := mem_iff_getElem?.1 hme
  obtain rfl : i = j := hs.alone i j l l' hl hj hbu (Stage.busy_of_marks hm)
  cases hl.symm.trans hj
  exact hm

theorem move (hs : s.Once) {l' : Listener} (hid : t.ids = s.ids)
    (hl : t.listeners = s.listeners.set i l')
    (hro : t.requests.map Row.id = s.requests.map Row.id)
    (hex : t.executed.Nodup) (hu : ∀ id ∈ t.executed, id ∈ s.ids)
    (hh : (l'.stage.held.map Pending.id).Nodup ∧
      ∀ p ∈ l'.stage.held, p.id ∈ s.ids ∧ p.id ∉ t.executed)
    (ho : ∀ j l, j ≠ i → s.listeners[j]? = some l →
      l.stage.busy = false ∨ l'.stage.busy = false ∧ t.executed = s.executed)
    (hm : ∀ row ∈ t.requests, row.result = none → row.id ∈ t.executed →
      ∃ l ∈ t.listeners, l.stage.marks = some row.id) : t.Once := by
  refine ⟨hex, hid ▸ hu, hro ▸ hs.rows, ?_, fun k hk => ?_, ?_, hm⟩
  · rw [hro, hid]
    exact hs.rows_used
  · rw [hl] at hk
    rw [hid]
    obtain rfl | ⟨j, hj, hge⟩ := eq_or_exists_of_mem_set hk
    · exact hh
    · obtain hf | ⟨-, hsa⟩ := ho j k hj hge
      · rw [(Stage.free_of_busy hf).1]
        exact ⟨nodup_nil, nofun⟩
      · rw [hsa]
        exact hs.held k (mem_of_getElem? hge)
  · intro j j' k k' hk hk' hbu hbu'
    rw [hl] at hk hk'
    -- of two listeners with rows in hand, neither is another than the one that goes on
    have hon {j : Nat} {k : Listener} (hj : j ≠ i) (hk : s.listeners[j]? = some k)
        (hbu : k.stage.busy = true) : l'.stage.busy = false := by
      obtain hf | ⟨hf, -⟩ := ho j k hj hk
      · cases hbu.symm.trans hf
      · exact hf
    obtain ⟨rfl, rfl⟩ | ⟨hj, hold⟩ := getElem?_set_eq_some hk
    · obtain ⟨rfl, rfl⟩ | ⟨hj', hold'⟩ := getElem?_set_eq_some hk'
      · rfl
      · cases hbu.symm.trans (hon hj' hold' hbu')
    · obtain ⟨rfl, rfl⟩ | ⟨-, hold'⟩ := getElem?_set_eq_some hk'
      · cases hbu'.symm.trans (hon hj hold hbu)
      · exact hs.alone j j' k k' hold hold' hbu hbu'

theorem insert (hs : s.Once) (hf : row.id ∉ s.ids) :
    Once { s with requests := row :: s.requests, ids := row.id :: s.ids } := by
  refine ⟨hs.executed, fun id h => mem_cons_of_mem _ (hs.executed_used id h), ?_, ?_,
    fun l hl => ⟨(hs.held l hl).1, fun p hp => ?_⟩, hs.alone, fun row' hro hre hra => ?_⟩
  · exact nodup_cons.2 ⟨fun h => hf (hs.rows_used _ h), hs.rows⟩
  · exact forall_mem_cons.2
      ⟨mem_cons_self, fun id h => mem_cons_of_mem _ (hs.rows_used id h)⟩
  · obtain ⟨hu, hn⟩ := (hs.held l hl).2 p hp
    exact ⟨mem_cons_of_mem _ hu, hn⟩
  · obtain rfl | hro := mem_cons.1 hro
    · exact absurd (hs.executed_used _ hra) hf
    · exact hs.marked row' hro hre hra

theorem join (hs : s.Once) : Once { s with listeners := s.listeners ++ [⟨false, .down⟩] } := by
  refine ⟨hs.executed, hs.executed_used, hs.rows, hs.rows_used, fun k hk => ?_, ?_,
    fun row hro hre hra => ?_⟩
  · obtain hk | hk := mem_append.1 hk
    · exact hs.held k hk
    · cases mem_singleton.1 hk
      exact ⟨nodup_nil, nofun⟩
  · intro j j' k k' hk hk' hbu hbu'
    obtain hk | ⟨-, rfl⟩ := getElem?_concat_eq_some hk
    · obtain hk' | ⟨-, rfl⟩ := getElem?_concat_eq_some hk'
      · exact hs.alone j j' k k' hk hk' hbu hbu'
      · cases hbu'
    · cases hbu
  · obtain ⟨k, hk, hm⟩ := hs.marked row hro hre hra
    exact ⟨k, mem_append_left _ hk, hm⟩

theorem stop (hs : s.Once) (hl : s.listeners[i]? = some l) :
    Once { s with listeners := s.listeners.set i { l with stop := true } } := by
  refine hs.move rfl rfl rfl hs.executed hs.executed_used (hs.held l (mem_of_getElem? hl))
    (fun j k hj hk => ?_) fun row hro hre hra => ?_
  · cases hbu : l.stage.busy with
    | true => exact .inl (hs.others hl hbu hj hk)
    | false => exact .inr ⟨rfl, rfl⟩
  · exact exists_mem_set hl id (hs.marked row hro hre hra)

theorem idle (hs : s.Once) {stage : Stage} (hl : s.listeners[i]? = some l)
    (hm : l.stage.marks = none) (hid : stage.busy = false) : (s.goto i l stage).Once := by
  refine hs.move rfl rfl rfl hs.executed hs.executed_used ?_ (fun _ _ _ _ => .inr ⟨hid, rfl⟩)
    fun row hro hre hra => ?_
  · rw [(Stage.free_of_busy hid).1]
    exact ⟨nodup_nil, nofun⟩
  · refine exists_mem_set hl (fun hro => ?_) (hs.marked row hro hre hra)
    cases hm.symm.trans hro

theorem row_of_pending {p : Pending} (h : (if row.result = none then
      (s.databases.lookup row.databaseId).map fun deleted =>
        (⟨row.id, row.databaseId, row.request, row.createdAt, deleted⟩ : Pending)
    else none) = some p) : row.result = none ∧ row.id = p.id := by
  split at h
  · obtain ⟨deleted, -, rfl⟩ := map_eq_some_iff.1 h
    exact ⟨‹_›, rfl⟩
  · cases h

theorem nodup_pending (hs : s.Once) : (s.pending.map Pending.id).Nodup := by
  have hro := pairwise_map.1 hs.rows
  rw [List.Nodup, pairwise_map, pending, pairwise_filterMap]
  refine hro.imp fun hne p hp q hq heq => hne ?_
  rw [(row_of_pending hp).2, (row_of_pending hq).2, heq]

theorem select (hs : s.Once) {pending : List Pending}
    (hf : ∀ l ∈ s.listeners, l.stage.busy = false) (hpn : pending.Perm s.pending) :
    (s.goto i l (.serving notified pending)).Once := by
  -- nobody is about to mark a row, so what is not finished has not run
  have hn : ∀ row ∈ s.requests, row.result = none → row.id ∉ s.executed := by
    intro row hro hre hra
    obtain ⟨k, hk, hkm⟩ := hs.marked row hro hre hra
    cases (Stage.free_of_busy (hf k hk)).2.symm.trans hkm
  refine hs.move rfl rfl rfl hs.executed hs.executed_used ⟨?_, fun p hp => ?_⟩
    (fun j k _ hk => .inl (hf k (mem_of_getElem? hk)))
    fun row hro hre hra => absurd hra (hn row hro hre)
  · exact (hpn.map Pending.id).nodup_iff.2 hs.nodup_pending
  · obtain ⟨row, hro, hso⟩ := mem_filterMap.1 (hpn.mem_iff.1 hp)
    obtain ⟨hre, hid⟩ := row_of_pending hso
    rw [← hid]
    exact ⟨hs.rows_used _ (mem_map_of_mem hro), hn row hro hre⟩

theorem refuse (hs : s.Once) {row : Pending} (res : D1Result) (hl : s.listeners[i]? = some l)
    (hst : l.stage = .serving notified (row :: rest)) :
    (s.goto i l (.marking notified row false res rest)).Once := by
  have hh := hs.held l (mem_of_getElem? hl)
  have hbu : l.stage.busy = true := by rw [hst]; rfl
  rw [hst] at hh
  refine hs.move rfl rfl rfl hs.executed hs.executed_used
    ⟨(nodup_cons.1 hh.1).2, fun p hp => hh.2 p (mem_cons_of_mem _ hp)⟩
    (fun j k hj hk => .inl (hs.others hl hbu hj hk)) fun row' hro hre hra => ?_
  have hm := hs.marked_by hl hbu hro hre hra
  rw [hst] at hm
  cases hm

theorem run (hs : s.Once) {row : Pending} (res : D1Result) (hl : s.listeners[i]? = some l)
    (hst : l.stage = .serving notified (row :: rest)) :
    Once { s.goto i l (.marking notified row true res rest) with
      executed := s.executed ++ [row.id] } := by
  have hh := hs.held l (mem_of_getElem? hl)
  have hbu : l.stage.busy = true := by rw [hst]; rfl
  rw [hst] at hh
  obtain ⟨hn, hre⟩ := nodup_cons.1 hh.1
  obtain ⟨hro, hrowN⟩ := hh.2 row mem_cons_self
  refine hs.move rfl rfl rfl ?_ ?_ ⟨hre, fun p hp => ?_⟩
    (fun j k hj hk => .inl (hs.others hl hbu hj hk)) fun row' hrow hres hra => ?_
  · exact List.Nodup.append hs.executed (nodup_singleton _) (disjoint_singleton.2 hrowN)
  · simpa [or_imp, forall_and] using ⟨hs.executed_used, hro⟩
  · obtain ⟨hpU, hpN⟩ := hh.2 p (mem_cons_of_mem _ hp)
    have hne : p.id ≠ row.id := fun h => hn (h ▸ List.mem_map_of_mem hp)
    exact ⟨hpU, by simp [hpN, hne]⟩
  · obtain hra | hra := mem_append.1 hra
    · have hm := hs.marked_by hl hbu hrow hres hra
      rw [hst] at hm
      cases hm
    · obtain ⟨hlt, -⟩ := List.getElem?_eq_some_iff.1 hl
      rw [mem_singleton.1 hra]
      exact ⟨_, mem_set hlt _, rfl⟩

theorem update (hs : s.Once) {ran : Bool} {row : Pending} {result result' : D1Result}
    {stage : Stage} (hl : s.listeners[i]? = some l)
    (hst : l.stage = .marking notified row ran result rest)
    (hn : stage = .serving notified rest ∨ stage = .down) :
    ((s.update row.id result').goto i l stage).Once := by
  have hro : (s.update row.id result').requests.map Row.id = s.requests.map Row.id := by
    rw [State.update, List.map_map]
    refine map_congr_left fun row' _ => ?_
    dsimp only [Function.comp]
    split <;> rfl
  have hh := hs.held l (mem_of_getElem? hl)
  have hbu : l.stage.busy = true := by rw [hst]; rfl
  rw [hst] at hh
  refine hs.move rfl rfl hro hs.executed hs.executed_used ?_
    (fun j k hj hk => .inl (hs.others hl hbu hj hk)) fun row' hrow' hre hra => ?_
  · obtain rfl | rfl := hn
    · exact hh
    · exact ⟨nodup_nil, nofun⟩
  · -- the only row that ran and was not finished is the one that is marked
    obtain ⟨old, hold, rfl⟩ := List.mem_map.1 hrow'
    split at hre
    · cases hre
    next hco =>
      rw [if_neg hco] at hra
      have hm := hs.marked_by hl hbu hold hre hra
      rw [hst] at hm
      cases ran with
      | true => exact absurd ⟨(some.inj hm).symm, hre⟩ hco
      | false => cases hm

theorem step (hs : s.Once) {a : Act} (ha : s.allows a = true) (h : s.step a = some t) : t.Once := by
  cases step_of_eq h with
  | databases databases =>
    exact ⟨hs.executed, hs.executed_used, hs.rows, hs.rows_used, hs.held, hs.alone, hs.marked⟩
  | insert hf => exact hs.insert hf
  | delete id =>
    have hsu : (s.requests.filter (·.id ≠ id)).Sublist s.requests := filter_sublist
    exact ⟨hs.executed, hs.executed_used, (hsu.map _).nodup hs.rows,
      fun id h => hs.rows_used id ((hsu.map _).subset h), hs.held, hs.alone,
      fun row hro => hs.marked row (hsu.subset hro)⟩
  | join => exact hs.join
  | stop hl => exact hs.stop hl
  | idle hl hm hid => exact hs.idle hl hm hid
  | select hl hst hp =>
    exact hs.select (by simpa [allows] using ha) hp
  | refuse res hl hst => exact hs.refuse res hl hst
  | run res hl hst => exact hs.run res hl hst
  | update hl hst hn => exact hs.update hl hst hn
  | updateFails hl hst =>
    refine hs.idle hl ?_ rfl
    simpa [allows, hl] using ha

end Once

end State

/-- **Each request runs at most once**, if no `UPDATE` fails for a row that ran and no listener
reads the table while another has rows in hand. -/
theorem requests_run_once (s : State)
    (hs : machine.Reach (fun s a => s.allows a = true) s) : s.executed.Nodup := by
  have h0 : State.Once ⟨[], [], [], [], []⟩ := by constructor <;> simp
  have h : s.Once := hs.invariant h0 fun _ _ _ _ h ha hstep => h.step ha hstep
  exact h.executed

def script : Json := .request (.op (.exec "INSERT INTO t VALUES (1)"))

def scriptRow : Row := ⟨"r", "d", script, 0, none⟩

def scriptPending : Pending := ⟨"r", "d", script, 0, false⟩

def runsRow : List Act :=
  [.connect 0, .wake 0 false, .select 0 [scriptPending], .serve 0 (.d1 (.exec 1))]

theorem requests_run_once_script :
    ∃ s, machine.Reach (fun s a => s.allows a = true) s ∧ s.executed = ["r"] ∧
      s.executed.Nodup := by
  obtain ⟨s, hs, hp⟩ := Machine.exists_reach_of_runIf (M := machine) State.allows
    (fun _ _ _ h => h)
    ([Act.insertDatabase "d", .insert scriptRow, .join] ++ runsRow ++
      [Act.update 0 .unacknowledged, .connect 0, .wake 0 false, .select 0 [], .pass 0])
    (fun s => s.executed = ["r"]) (by decide)
  exact ⟨s, hs, hp, requests_run_once s hs⟩

theorem request_runs_twice : ¬ ∀ s, machine.Reachable s → s.executed.Nodup := by
  intro h
  obtain ⟨s, hs, hp⟩ := machine.exists_of_run
    ([Act.insertDatabase "d", .insert scriptRow, .join] ++ runsRow ++ [Act.update 0 .failed] ++
      runsRow)
    (fun s => !s.executed.Nodup) (by decide)
  simp only [Bool.not_eq_true', decide_eq_false_iff_not] at hp
  exact hp (h s hs)

end OpenWorkersRunner.D1.Requests
