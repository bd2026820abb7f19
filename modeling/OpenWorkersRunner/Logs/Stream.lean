import Mathlib.Data.List.Nodup
import OpenWorkersRunner.Lib.Machine
import OpenWorkersRunner.Lib.Parties
import OpenWorkersRunner.Lib.Table
import OpenWorkersRunner.Logs.Store

/-!
# Logs: the streams

A client of a log stream gets the last lines of its worker from the table, and then each line as it
is sent (`logs.rs`).  The stream subscribes before it reads the table, but a line comes to the table
through a queue, at some time after it was sent to the subscribers.  So the two can overlap or leave
a gap: a line that was sent after the subscription and was stored before the table is read comes
twice, and a line that was sent before the subscription and is stored after the table is read does
not come at all.
-/

namespace OpenWorkersRunner.Logs

open List Option Parties

def liveCapacity : Nat := 1024

def storeCapacity : Nat := 10000

def historyLines : Nat := 10

/-! ## Senders and clients -/

inductive SendStage
  | counting
  | sending
  | queueing
  | sent
deriving DecidableEq

structure Sending where
  entry : LogEntry
  stage : SendStage
deriving DecidableEq

def Sending.past (k : Sending) : Bool :=
  match k.stage with
  | .queueing | .sent => true
  | _ => false

inductive ClientStage
  | authorizing
  | subscribing
  | querying
  | following
  | ended
deriving DecidableEq

structure Client (U : Type) where
  worker : U
  stage : ClientStage
  live : List LogEntry
  lagged : Bool
  history : List LogEntry
  delivered : List LogEntry
deriving DecidableEq

section

variable {U : Type}

def Client.subscribed (c : Client U) : Bool :=
  match c.stage with
  | .querying | .following => true
  | _ => false

def Client.receive (c : Client U) (entry : LogEntry) : Client U :=
  if c.subscribed then
    if c.live.length < liveCapacity then { c with live := c.live ++ [entry] }
    else { c with lagged := true }
  else c

def Row.entry (row : Row U) (workerId : String) : LogEntry :=
  ⟨row.date, workerId, (parseLevel row.level).getD .info, row.message⟩

inductive ClientAct (U : Type)
  | authorize (ok : Bool)
  | subscribe
  | history (rows : Option (List (Row U)))
  | recv
  | leave

def Client.step [DecidableEq U] (ids : Uuids U) (table : List (Row U)) (c : Client U) :
    ClientAct U → Option (Client U)
  | .authorize ok =>
    match c.stage with
    | .authorizing => some { c with stage := if ok then .subscribing else .ended }
    | _ => none
  | .subscribe =>
    match c.stage with
    | .subscribing => some { c with stage := .querying }
    | _ => none
  | .history rows =>
    match c.stage with
    | .querying =>
      match rows with
      | none => some { c with stage := .ended }
      | some rows =>
        if rows.Perm (table.filter (·.workerId = c.worker)) ∧
            rows.Pairwise (fun r r' => r'.date ≤ r.date) then
          let history := (rows.take historyLines).reverse.map (·.entry (ids.text c.worker))
          some { c with stage := .following, history }
        else none
    | _ => none
  | .recv =>
    match c.stage with
    | .following =>
      if c.lagged then some { c with stage := .ended }
      else
        match c.live with
        | [] => none
        | entry :: live =>
          let delivered :=
            if entry.workerId = ids.text c.worker then c.delivered ++ [entry] else c.delivered
          some { c with live, delivered }
    | _ => none
  | .leave => some { c with stage := .ended }

/-! ## Steps -/

structure State (U : Type) where
  lastDate : Int
  sends : List Sending
  queue : List LogEntry
  closed : Bool
  lost : Nat
  batch : List LogEntry
  workers : List U
  table : List (Row U)
  clients : List (Client U)

inductive SendAct
  | count
  | broadcast
  | enqueue

inductive Act (U : Type)
  | insertWorker (id : U)
  | deleteWorker (id : U)
  | send (workerId : String) (level : LogLevel) (message : String) (now : Int)
  | sender (k : Nat) (a : SendAct)
  | recvMany (lines : Nat)
  | insert (outcome : Sent)
  | close
  | connect (worker : U)
  | client (i : Nat) (a : ClientAct U)

namespace State

def sendStep (s : State U) (k : Nat) (m : Sending) : SendAct → Option (State U)
  | .count =>
    match m.stage with
    | .counting =>
      let stage := if s.clients.any Client.subscribed then .sending else .queueing
      some { s with sends := s.sends.set k { m with stage } }
    | _ => none
  | .broadcast =>
    match m.stage with
    | .sending =>
      some
        { s with
          sends := s.sends.set k { m with stage := .queueing }
          clients := s.clients.map (·.receive m.entry) }
    | _ => none
  | .enqueue =>
    match m.stage with
    | .queueing =>
      let sends := s.sends.set k { m with stage := .sent }
      if s.closed = false ∧ s.queue.length < storeCapacity then
        some { s with sends, queue := s.queue ++ [m.entry] }
      else some { s with sends, lost := s.lost + 1 }
    | _ => none

section

variable {s t : State U} {k : Nat} {m : Sending}

theorem sendStep_count (h : s.sendStep k m .count = some t) : m.stage = .counting ∧ t = { s with
      sends := s.sends.set k
        { m with stage := if s.clients.any Client.subscribed then .sending else .queueing } } := by
  dsimp only [sendStep] at h
  split at h
  · exact ⟨‹_›, (some.inj h).symm⟩
  · cases h

theorem sendStep_broadcast (h : s.sendStep k m .broadcast = some t) : m.stage = .sending ∧
    t = { s with
      sends := s.sends.set k { m with stage := .queueing }
      clients := s.clients.map (·.receive m.entry) } := by
  dsimp only [sendStep] at h
  split at h
  · exact ⟨‹_›, (some.inj h).symm⟩
  · cases h

theorem sendStep_enqueue (h : s.sendStep k m .enqueue = some t) : m.stage = .queueing ∧
    (t = { s with
        sends := s.sends.set k { m with stage := .sent }, queue := s.queue ++ [m.entry] } ∨
      t = { s with sends := s.sends.set k { m with stage := .sent }, lost := s.lost + 1 }) := by
  dsimp only [sendStep] at h
  split at h
  · refine ⟨‹_›, ?_⟩
    split at h
    · exact .inl (some.inj h).symm
    · exact .inr (some.inj h).symm
  · cases h

end

def nextDate (s : State U) (now : Int) : Int := max now (s.lastDate + 1)

variable [DecidableEq U] (ids : Uuids U)

def step (s : State U) : Act U → Option (State U)
  | .insertWorker id => some { s with workers := id :: s.workers }
  | .deleteWorker id => some { s with workers := s.workers.filter (· ≠ id) }
  | .send workerId level message now =>
    let date := s.nextDate now
    some
      { s with
        lastDate := date
        sends := s.sends ++ [⟨⟨date, workerId, level, message⟩, .counting⟩] }
  | .sender k a => s.sends[k]?.bind fun m => s.sendStep k m a
  | .recvMany lines =>
    if s.batch = [] ∧ 0 < lines ∧ lines ≤ storeBatchLines ∧ lines ≤ s.queue.length then
      some { s with batch := s.queue.take lines, queue := s.queue.drop lines }
    else none
  | .insert outcome =>
    if s.batch = [] then none
    else
      match outcome with
      | .failed => some { s with batch := [] }
      | .done | .unacknowledged =>
        some { s with batch := [], table := storeBatch ids s.workers s.table s.batch }
  | .close => some { s with closed := true }
  | .connect worker =>
    some { s with clients := s.clients ++ [⟨worker, .authorizing, [], false, [], []⟩] }
  | .client i a =>
    s.clients[i]?.bind fun c => (c.step ids s.table a).map fun c' =>
      { s with clients := s.clients.set i c' }

/-- When a client reads the table: of the lines of its worker that have been sent to the
subscribers, from the oldest one on that it reads, those that are not in its channel are in the
table, and no others. -/
def agrees (s : State U) : Act U → Bool
  | .client i (.history (some rows)) =>
    s.clients[i]?.all fun c => s.sends.all fun k =>
      !(k.past && k.entry.workerId == ids.text c.worker &&
          (rows.take historyLines).getLast?.all (·.date ≤ k.entry.date)) ||
        (s.table.any (fun row => row.workerId == c.worker && row.date == k.entry.date) !=
          c.live.any (·.date == k.entry.date))
  | _ => true

end State

end

def machine {U : Type} [DecidableEq U] (ids : Uuids U) : Machine (State U) (Act U) where
  init := ⟨0, [], [], false, 0, [], [], [], []⟩
  step := State.step ids

/-! ## What a client has got -/

section

variable {U : Type} {ids : Uuids U} {P : LogEntry → Prop} {c : Client U}

/-- A line of the worker, by its date: it is older than what was read of the table, or it came
through the channel and not from the table, or the other way round. -/
def Client.Covers (c : Client U) (date : Int) : Prop :=
  (∃ oldest, c.history.head? = some oldest ∧ date < oldest.date) ∨
    (date ∈ (c.delivered ++ c.live).map LogEntry.date ↔ date ∉ c.history.map LogEntry.date)

/-- What holds of a client, if the lines that have been sent to the subscribers are those of `P`. -/
structure Client.Good (ids : Uuids U) (P : LogEntry → Prop) (c : Client U) : Prop where
  early : c.stage ≠ .following → c.stage ≠ .ended → c.delivered = []
  received : ((c.delivered ++ c.live).map LogEntry.date).Nodup
  origin : ∀ e ∈ c.delivered ++ c.live, P e
  history : (c.history.map LogEntry.date).Nodup
  historyOrigin : ∀ h ∈ c.history, ∃ e, P e ∧ e.date = h.date
  covers : c.stage = .following → c.lagged = false → ∀ e, P e → e.workerId = ids.text c.worker →
    c.Covers e.date

namespace Client.Good

theorem congr {Q : LogEntry → Prop} (h : c.Good ids P) (hP : ∀ e, P e ↔ Q e) : c.Good ids Q := by
  obtain rfl : P = Q := funext fun e => propext (hP e)
  exact h

theorem toStage (h : c.Good ids P) {stage : ClientStage} (hn : stage ≠ .following)
    (hea : stage = .ended ∨ c.stage ≠ .following ∧ c.stage ≠ .ended) :
    Client.Good ids P { c with stage } :=
  ⟨fun _ hen => hea.elim (absurd · hen) fun hst => h.early hst.1 hst.2,
    h.received, h.origin, h.history, h.historyOrigin, fun hst => absurd hst hn⟩

theorem missed (h : c.Good ids P) (entry : LogEntry) (hn : c.stage ≠ .following) :
    c.Good ids fun e => P e ∨ e = entry :=
  ⟨h.early, h.received, fun e he => .inl (h.origin e he), h.history,
    fun r hr => (h.historyOrigin r hr).imp fun _ he => ⟨.inl he.1, he.2⟩,
    fun hst => absurd hst hn⟩

theorem receive (h : c.Good ids P) {entry : LogEntry} (hf : ∀ e, P e → e.date ≠ entry.date) :
    (c.receive entry).Good ids fun e => P e ∨ e = entry := by
  unfold Client.receive
  split
  · have hh : ∀ r ∈ c.history, ∃ e, (P e ∨ e = entry) ∧ e.date = r.date :=
      fun r hr => (h.historyOrigin r hr).imp fun _ he => ⟨.inl he.1, he.2⟩
    have hnew : entry.date ∉ (c.delivered ++ c.live).map LogEntry.date := by
      rw [List.mem_map]
      rintro ⟨e, he, hd⟩
      exact hf e (h.origin e he) hd
    have hn : entry.date ∉ c.history.map LogEntry.date := by
      rw [List.mem_map]
      rintro ⟨r, hr, hd⟩
      obtain ⟨e, he, hsa⟩ := h.historyOrigin r hr
      exact hf e he (hsa.trans hd)
    split
    · refine ⟨h.early, ?_, fun e he => ?_, h.history, hh, fun hst hl e he hw => ?_⟩
      · rw [← append_assoc, map_append]
        exact List.Nodup.append h.received (nodup_singleton _) (disjoint_singleton.2 hnew)
      · rw [← append_assoc] at he
        exact (mem_append.1 he).imp (h.origin e) mem_singleton.1
      · rw [Client.Covers, ← append_assoc, map_append, map_singleton, mem_append, mem_singleton]
        obtain he | rfl := he
        · simp only [hf e he, or_false]
          exact h.covers hst hl e he hw
        · exact .inr (iff_of_true (.inr rfl) hn)
    · exact ⟨h.early, h.received, fun e he => .inl (h.origin e he), h.history, hh,
        fun _ hl => absurd hl nofun⟩
  next hsu =>
    refine h.missed entry fun hst => hsu ?_
    rw [Client.subscribed, hst]

theorem recv (h : c.Good ids P) (hu : ∀ e e', P e → P e' → e.date = e'.date → e = e')
    {entry : LogEntry} {live : List LogEntry} (hl : c.live = entry :: live)
    (hst : c.stage = .following) :
    Client.Good ids P
      { c with
        live
        delivered :=
          if entry.workerId = ids.text c.worker then c.delivered ++ [entry] else c.delivered } := by
  have hre := h.received
  have hor := h.origin
  rw [hl] at hre hor
  have hco := h.covers
  split
  · -- nothing changes but where the line is
    have hsa : c.delivered ++ [entry] ++ live = c.delivered ++ entry :: live := by simp
    refine ⟨fun hn => absurd hst hn, hsa ▸ hre, hsa ▸ hor, h.history,
      h.historyOrigin, fun hst hla e he hw => ?_⟩
    have hc := hco hst hla e he hw
    rwa [Client.Covers, hl, ← hsa] at hc
  next ho =>
    have hsu : (c.delivered ++ live).Sublist (c.delivered ++ entry :: live) :=
      (sublist_cons_self entry live).append_left c.delivered
    refine ⟨fun hn => absurd hst hn, (hsu.map _).nodup hre,
      fun e he => hor e (hsu.subset he), h.history, h.historyOrigin,
      fun hst hla e he hw => ?_⟩
    -- the line that goes is another worker's, so it is none of those that count
    have hne : e.date ≠ entry.date := fun hd =>
      ho (hu e entry he (hor entry (by simp)) hd ▸ hw)
    have hc := hco hst hla e he hw
    simp only [Client.Covers, hl, map_append, map_cons, mem_append, mem_cons, hne, false_or] at hc
    simpa only [Client.Covers, map_append, mem_append] using hc

theorem older_of_mem_drop {rows : List (Row U)} {n : Nat} (hn : 0 < n)
    (hda : (rows.map Row.date).Nodup) (hso : rows.Pairwise fun r r' => r'.date ≤ r.date)
    {row : Row U} (hro : row ∈ rows.drop n) :
    ∃ oldest, (rows.take n).getLast? = some oldest ∧ row.date < oldest.date := by
  have hne : rows.take n ≠ [] := by
    rintro hni
    rw [take_eq_nil_iff] at hni
    obtain rfl | rfl := hni
    · omega
    · rw [drop_nil] at hro
      cases hro
  have hl := getLast_mem hne
  rw [← take_append_drop n rows] at hso hda
  rw [map_append] at hda
  have hle := (pairwise_append.1 hso).2.2 _ hl row hro
  have hd : row.date ≠ ((rows.take n).getLast hne).date := fun heq =>
    (nodup_append.1 hda).2.2 _ (mem_map_of_mem hl) _ (mem_map_of_mem hro)
      heq.symm
  exact ⟨_, getLast?_eq_getLast_of_ne_nil hne, by omega⟩

theorem query (h : c.Good ids P) {table rows : List (Row U)} (hst : c.stage = .querying)
    (hor : ∀ row ∈ table, ∃ e, P e ∧ e.date = row.date)
    (hro : ∀ row, row ∈ rows ↔ row ∈ table ∧ row.workerId = c.worker)
    (hrowsD : (rows.map Row.date).Nodup)
    (hso : rows.Pairwise fun r r' => r'.date ≤ r.date)
    (ha : ∀ e, P e → e.workerId = ids.text c.worker →
      (∀ oldest, (rows.take historyLines).getLast? = some oldest → oldest.date ≤ e.date) →
      ((∃ row ∈ table, row.workerId = c.worker ∧ row.date = e.date) ↔
        e.date ∉ c.live.map LogEntry.date)) :
    Client.Good ids P
      { c with
        stage := .following
        history := (rows.take historyLines).reverse.map (·.entry (ids.text c.worker)) } := by
  have hde : c.delivered = [] := h.early (by rw [hst]; nofun) (by rw [hst]; nofun)
  have hm : ((rows.take historyLines).reverse.map (·.entry (ids.text c.worker))).map
      LogEntry.date = ((rows.take historyLines).map Row.date).reverse := by
    rw [List.map_map, ← map_reverse]
    rfl
  have hsu : (rows.take historyLines).Sublist rows := take_sublist _ _
  refine ⟨fun hn => absurd rfl hn, h.received, h.origin, ?_, ?_, ?_⟩
  · rw [hm, nodup_reverse]
    exact (hsu.map _).nodup hrowsD
  · intro r hr
    obtain ⟨row, hrow, rfl⟩ := List.mem_map.1 hr
    exact hor row ((hro row).1 (hsu.subset (mem_reverse.1 hrow))).1
  · intro _ _ e he hw
    have hh : ((rows.take historyLines).reverse.map (·.entry (ids.text c.worker))).head? =
        (rows.take historyLines).getLast?.map (·.entry (ids.text c.worker)) := by
      rw [List.head?_map, List.head?_reverse]
    by_cases hold : ∃ oldest, (rows.take historyLines).getLast? = some oldest ∧ e.date < oldest.date
    · obtain ⟨oldest, ho, hlt⟩ := hold
      exact .inl ⟨oldest.entry (ids.text c.worker), by rw [hh, ho]; rfl, hlt⟩
    · refine .inr ?_
      have ha := ha e he hw fun oldest ho =>
        Int.not_lt.1 fun hlt => hold ⟨oldest, ho, hlt⟩
      -- what is in the table and not that old is among the rows that are taken
      have htk : e.date ∈ (rows.take historyLines).map Row.date ↔
          ∃ row ∈ table, row.workerId = c.worker ∧ row.date = e.date := by
        rw [List.mem_map]
        constructor
        · rintro ⟨row, hrow, hd⟩
          obtain ⟨ht, hid⟩ := (hro row).1 (hsu.subset hrow)
          exact ⟨row, ht, hid, hd⟩
        · rintro ⟨row, ht, hid, hd⟩
          have hrow := (hro row).2 ⟨ht, hid⟩
          rw [← take_append_drop historyLines rows] at hrow
          obtain hrow | hrow := mem_append.1 hrow
          · exact ⟨row, hrow, hd⟩
          · obtain ⟨oldest, ho, hlt⟩ := older_of_mem_drop (by decide) hrowsD hso hrow
            exact absurd ⟨oldest, ho, hd ▸ hlt⟩ hold
      rw [hm, hde, nil_append, mem_reverse, htk, ha, not_not]

end Client.Good

end

/-! ## Runs -/

namespace State

section

variable {U : Type} {s t : State U} {k : Nat} {m m' : Sending}

def isLine (s : State U) (e : LogEntry) : Prop := ∃ k ∈ s.sends, k.past = true ∧ k.entry = e

def storedDates (s : State U) : List Int :=
  s.table.map Row.date ++ (s.batch ++ s.queue).map LogEntry.date

structure Dated (s : State U) : Prop where
  dates : (s.sends.map (·.entry.date)).Nodup
  last : ∀ k ∈ s.sends, k.entry.date ≤ s.lastDate
  stored : s.storedDates.Nodup
  sent : ∀ date ∈ s.storedDates, ∃ k ∈ s.sends, k.stage = .sent ∧ k.entry.date = date

theorem Dated.eq_of_date (h : s.Dated) {k k' : Sending} (hk : k ∈ s.sends) (hk' : k' ∈ s.sends)
    (hd : k.entry.date = k'.entry.date) : k = k' :=
  inj_on_of_nodup_map h.dates hk hk' hd

theorem Dated.unique (h : s.Dated) (e e' : LogEntry) (he : s.isLine e) (he' : s.isLine e')
    (hd : e.date = e'.date) : e = e' := by
  obtain ⟨k, hk, -, rfl⟩ := he
  obtain ⟨k', hk', -, rfl⟩ := he'
  rw [h.eq_of_date hk hk' hd]

theorem Dated.fresh (h : s.Dated) (hm : m ∈ s.sends) (hp : m.past = false) (e : LogEntry)
    (he : s.isLine e) : e.date ≠ m.entry.date := by
  rintro hd
  obtain ⟨k, hk, hkp, rfl⟩ := he
  rw [h.eq_of_date hk hm hd, hp] at hkp
  cases hkp

theorem Dated.row (h : s.Dated) {row : Row U} (hro : row ∈ s.table) :
    ∃ e, s.isLine e ∧ e.date = row.date := by
  obtain ⟨k, hk, hst, hd⟩ :=
    h.sent row.date (mem_append_left _ (mem_map_of_mem hro))
  exact ⟨k.entry, ⟨k, hk, by rw [Sending.past, hst], rfl⟩, hd⟩

theorem Dated.send (h : s.Dated) (now : Int) (wid : String) (level : LogLevel) (msg : String) :
    Dated { s with
      lastDate := s.nextDate now
      sends := s.sends ++ [⟨⟨s.nextDate now, wid, level, msg⟩, .counting⟩] } := by
  have hl : s.lastDate < s.nextDate now := by
    rw [nextDate]
    omega
  refine ⟨?_, fun k hk => ?_, h.stored, fun date hd => ?_⟩
  · rw [map_append]
    refine List.Nodup.append h.dates (nodup_singleton _) (disjoint_singleton.2 ?_)
    rw [List.mem_map]
    rintro ⟨k, hk, hd⟩
    have := h.last k hk
    dsimp only at hd
    omega
  · obtain hk | hk := mem_append.1 hk
    · exact Int.le_of_lt (Int.lt_of_le_of_lt (h.last k hk) hl)
    · cases mem_singleton.1 hk
      exact Int.le_refl _
  · obtain ⟨k, hk, hse⟩ := h.sent date hd
    exact ⟨k, mem_append_left _ hk, hse⟩

theorem Dated.set (h : s.Dated) (hk : s.sends[k]? = some m) (hsn : t.sends = s.sends.set k m')
    (hl : t.lastDate = s.lastDate) (hstored : t.storedDates = s.storedDates)
    (hen : m'.entry = m.entry) (hst : m.stage = .sent → m'.stage = .sent) : t.Dated := by
  refine ⟨?_, ?_, hstored ▸ h.stored, fun date hd => ?_⟩
  · rw [hsn, map_set_eq hk (congrArg LogEntry.date hen)]
    exact h.dates
  · rw [hsn, hl]
    refine forall_mem_set h.last ?_
    rw [hen]
    exact h.last m (mem_of_getElem? hk)
  · rw [hstored] at hd
    rw [hsn]
    refine exists_mem_set hk (fun hm => ⟨hst hm.1, ?_⟩) (h.sent date hd)
    rw [hen, hm.2]

theorem isLine_congr (hsn : t.sends = s.sends) (e : LogEntry) : s.isLine e ↔ t.isLine e := by
  rw [isLine, isLine, hsn]

theorem isLine_set (hk : s.sends[k]? = some m) (hsn : t.sends = s.sends.set k m')
    (hen : m'.entry = m.entry) (hp : m.past = true → m'.past = true) (e : LogEntry) :
    t.isLine e ↔ s.isLine e ∨ m'.past = true ∧ e = m.entry := by
  constructor
  · rintro ⟨k', hk', hkp, rfl⟩
    rw [hsn] at hk'
    obtain rfl | ⟨j, -, hj⟩ := eq_or_exists_of_mem_set hk'
    · exact .inr ⟨hkp, hen⟩
    · exact .inl ⟨k', mem_of_getElem? hj, hkp, rfl⟩
  · rw [isLine, isLine, hsn]
    rintro (hl | ⟨hn, rfl⟩)
    · exact exists_mem_set hk (fun hm => ⟨hp hm.1, hen.trans hm.2⟩) hl
    · exact ⟨m', mem_set (List.getElem?_eq_some_iff.1 hk).1 m', hn, hen⟩

theorem isLine_set_same (hk : s.sends[k]? = some m) (hsn : t.sends = s.sends.set k m')
    (hen : m'.entry = m.entry) (hp : m'.past = m.past) (e : LogEntry) :
    s.isLine e ↔ t.isLine e := by
  rw [isLine_set hk hsn hen fun h => hp.trans h, hp]
  refine (or_iff_left_of_imp ?_).symm
  rintro ⟨hm, rfl⟩
  exact ⟨m, mem_of_getElem? hk, hm, rfl⟩

theorem isLine_set_new (hk : s.sends[k]? = some m) (hsn : t.sends = s.sends.set k m')
    (hen : m'.entry = m.entry) (hp : m'.past = true) (e : LogEntry) :
    s.isLine e ∨ e = m.entry ↔ t.isLine e := by
  rw [isLine_set hk hsn hen fun _ => hp, hp]
  simp only [true_and]

theorem Dated.congr (h : s.Dated) (hsn : t.sends = s.sends) (hl : t.lastDate = s.lastDate)
    (hsu : t.storedDates.Sublist s.storedDates) : t.Dated := by
  refine ⟨hsn ▸ h.dates, ?_, hsu.nodup h.stored, fun date hd => ?_⟩
  · rw [hsn, hl]
    exact h.last
  · rw [hsn]
    exact h.sent date (hsu.subset hd)

theorem Dated.enqueue (h : s.Dated) (hk : s.sends[k]? = some m) (hst : m.stage = .queueing) :
    Dated { s with
      sends := s.sends.set k { m with stage := .sent }, queue := s.queue ++ [m.entry] } := by
  have hset : Dated { s with sends := s.sends.set k { m with stage := .sent } } :=
    h.set hk rfl rfl rfl rfl fun _ => rfl
  have hn : m.entry.date ∉ s.storedDates := fun hm => by
    obtain ⟨k', hk', hse, hd⟩ := h.sent _ hm
    rw [h.eq_of_date hk' (mem_of_getElem? hk) hd, hst] at hse
    cases hse
  have hda : storedDates { s with
      sends := s.sends.set k { m with stage := .sent }, queue := s.queue ++ [m.entry] } =
      s.storedDates ++ [m.entry.date] := by
    simp only [storedDates, ← append_assoc, map_append, map_singleton]
  refine ⟨hset.dates, hset.last, ?_, fun date hd => ?_⟩
  · rw [hda]
    exact List.Nodup.append h.stored (nodup_singleton _) (disjoint_singleton.2 hn)
  · rw [hda] at hd
    obtain hd | hd := mem_append.1 hd
    · exact hset.sent date hd
    · obtain ⟨hlt, -⟩ := List.getElem?_eq_some_iff.1 hk
      exact ⟨_, mem_set hlt _, rfl, (mem_singleton.1 hd).symm⟩

end

variable {U : Type} {ids : Uuids U} {s t : State U}

structure Exact (ids : Uuids U) (s : State U) : Prop where
  dated : s.Dated
  clients : ∀ c ∈ s.clients, c.Good ids s.isLine

theorem Exact.congr (hs : s.Exact ids) (hsn : t.sends = s.sends)
    (hl : t.lastDate = s.lastDate) (hsu : t.storedDates.Sublist s.storedDates)
    (hcl : ∀ c ∈ t.clients, c.Good ids s.isLine) : t.Exact ids :=
  ⟨hs.dated.congr hsn hl hsu, fun c hc => (hcl c hc).congr (isLine_congr hsn)⟩

theorem Exact.sendStep (hs : s.Exact ids) {k : Nat} {m : Sending} {a : SendAct}
    (hk : s.sends[k]? = some m) (h : s.sendStep k m a = some t) : t.Exact ids := by
  have hme := mem_of_getElem? hk
  cases a with
  | count =>
    obtain ⟨hst, rfl⟩ := sendStep_count h
    refine ⟨hs.dated.set hk rfl rfl rfl rfl (by rw [hst]; nofun), fun c hc => ?_⟩
    by_cases ha : s.clients.any Client.subscribed = true
    · exact (hs.clients c hc).congr
        (isLine_set_same hk rfl rfl (by simp only [Sending.past, hst, if_pos ha]))
    · -- nobody is there to whom the line could be sent
      have hn : c.stage ≠ .following := fun hf =>
        ha (any_eq_true.2 ⟨c, hc, by rw [Client.subscribed, hf]⟩)
      exact ((hs.clients c hc).missed m.entry hn).congr
        (isLine_set_new hk rfl rfl (by simp only [Sending.past, if_neg ha]))
  | broadcast =>
    obtain ⟨hst, rfl⟩ := sendStep_broadcast h
    refine ⟨hs.dated.set hk rfl rfl rfl rfl (by rw [hst]; nofun), fun c hc => ?_⟩
    obtain ⟨c, hm, rfl⟩ := mem_map.1 hc
    have hfr := hs.dated.fresh hme (by rw [Sending.past, hst])
    exact ((hs.clients c hm).receive hfr).congr (isLine_set_new hk rfl rfl rfl)
  | enqueue =>
    obtain ⟨hst, rfl | rfl⟩ := sendStep_enqueue h
    · exact ⟨hs.dated.enqueue hk hst, fun c hc => (hs.clients c hc).congr
        (isLine_set_same hk rfl rfl (by rw [Sending.past, Sending.past, hst]))⟩
    · exact ⟨hs.dated.set hk rfl rfl rfl rfl fun _ => rfl, fun c hc => (hs.clients c hc).congr
        (isLine_set_same hk rfl rfl (by rw [Sending.past, Sending.past, hst]))⟩

theorem agrees_history [DecidableEq U] {i : Nat} {c : Client U} {rows : List (Row U)}
    (ha : s.agrees ids (.client i (.history (some rows))) = true) (hi : s.clients[i]? = some c)
    (e : LogEntry) (he : s.isLine e) (hw : e.workerId = ids.text c.worker)
    (hd : ∀ oldest, (rows.take historyLines).getLast? = some oldest → oldest.date ≤ e.date) :
    (∃ row ∈ s.table, row.workerId = c.worker ∧ row.date = e.date) ↔
      e.date ∉ c.live.map LogEntry.date := by
  obtain ⟨k, hk, hp, rfl⟩ := he
  simp only [agrees, hi, all_some, List.all_eq_true] at ha
  have h := ha k hk
  have hl : (rows.take historyLines).getLast?.all (·.date ≤ k.entry.date) = true := by
    rw [Option.all_eq_true]
    exact fun oldest ho => decide_eq_true (hd oldest ho)
  rw [hp, hw, beq_self_eq_true, hl, Bool.and_self, Bool.and_self, Bool.not_true,
    Bool.false_or, bne_iff_ne, ne_eq, Bool.eq_iff_iff] at h
  simp only [List.any_eq_true, Bool.and_eq_true, beq_iff_eq] at h
  simp only [List.mem_map]
  exact (not_iff_comm.1 (not_iff.1 h)).symm

theorem Exact.clientStep [DecidableEq U] (hs : s.Exact ids) {i : Nat} {c c' : Client U}
    {a : ClientAct U} (hi : s.clients[i]? = some c) (h : c.step ids s.table a = some c')
    (ha : s.agrees ids (.client i a) = true) : c'.Good ids s.isLine := by
  have hc := hs.clients c (mem_of_getElem? hi)
  cases a with
  | authorize ok =>
    dsimp only [Client.step] at h
    split at h
    · cases h
      refine hc.toStage (by cases ok <;> nofun) (.inr ?_)
      simp only [*]
      decide
    · cases h
  | subscribe =>
    dsimp only [Client.step] at h
    split at h
    · cases h
      refine hc.toStage nofun (.inr ?_)
      simp only [*]
      decide
    · cases h
  | history rows =>
    dsimp only [Client.step] at h
    split at h
    next hst =>
      cases rows with
      | none =>
        cases h
        exact hc.toStage nofun (.inl rfl)
      | some rows =>
        dsimp only at h
        split at h
        next hro =>
          cases h
          have hm : ∀ row, row ∈ rows ↔ row ∈ s.table ∧ row.workerId = c.worker := fun row => by
            rw [hro.1.mem_iff, mem_filter, decide_eq_true_eq]
          have hd : (rows.map Row.date).Nodup := by
            rw [(hro.1.map _).nodup_iff]
            exact (filter_sublist.map _).nodup (nodup_append.1 hs.dated.stored).1
          exact hc.query hst (fun _ => hs.dated.row) hm hd hro.2
            (agrees_history ha hi)
        · cases h
    · cases h
  | recv =>
    dsimp only [Client.step] at h
    split at h
    next hst =>
      split at h
      · cases h
        exact hc.toStage nofun (.inl rfl)
      · split at h
        · cases h
        next hl =>
          cases h
          exact hc.recv hs.dated.unique hl hst
    · cases h
  | leave =>
    cases h
    exact hc.toStage nofun (.inl rfl)

theorem Exact.step [DecidableEq U] (hs : s.Exact ids) {a : Act U} (h : s.step ids a = some t)
    (ha : s.agrees ids a = true) : t.Exact ids := by
  cases a with
  | insertWorker id =>
    cases h
    exact hs.congr rfl rfl (List.Sublist.refl _) hs.clients
  | deleteWorker id =>
    cases h
    exact hs.congr rfl rfl (List.Sublist.refl _) hs.clients
  | send wid level msg now =>
    cases h
    refine ⟨hs.dated.send now wid level msg, fun c hc => (hs.clients c hc).congr fun e => ?_⟩
    simp [isLine, Sending.past, or_and_right, exists_or]
  | sender k a =>
    obtain ⟨m, hk, h⟩ := bind_eq_some_iff.1 h
    exact hs.sendStep hk h
  | recvMany lines =>
    dsimp only [State.step] at h
    split at h
    next hgr =>
      cases h
      refine hs.congr rfl rfl ?_ hs.clients
      rw [storedDates, storedDates, hgr.1, take_append_drop, nil_append]
    · cases h
  | insert out =>
    dsimp only [State.step] at h
    split at h
    · cases h
    · have hba : s.storedDates = (s.table.map Row.date ++ s.batch.map LogEntry.date) ++
          s.queue.map LogEntry.date := by
        rw [storedDates, map_append, append_assoc]
      cases out with
      | failed =>
        cases h
        refine hs.congr rfl rfl ?_ hs.clients
        rw [hba]
        exact (sublist_append_left _ _).append_right _
      | done | unacknowledged =>
        cases h
        refine hs.congr rfl rfl ?_ hs.clients
        rw [hba]
        exact (dates_storeBatch_sublist ..).append_right _
  | close =>
    cases h
    exact hs.congr rfl rfl (List.Sublist.refl _) hs.clients
  | connect worker =>
    cases h
    refine hs.congr rfl rfl (List.Sublist.refl _) fun c hc => ?_
    obtain hc | hc := mem_append.1 hc
    · exact hs.clients c hc
    · cases mem_singleton.1 hc
      constructor <;> simp
  | client i a =>
    obtain ⟨c, hi, h⟩ := bind_eq_some_iff.1 h
    obtain ⟨c', hc', rfl⟩ := map_eq_some_iff.1 h
    exact hs.congr rfl rfl (List.Sublist.refl _)
      (forall_mem_set hs.clients (hs.clientStep hi hc' ha))

theorem exact_of_reach [DecidableEq U]
    (h : (machine ids).Reach (fun s a => s.agrees ids a = true) s) : s.Exact ids := by
  refine h.invariant ⟨by constructor <;> simp [machine, storedDates], fun c hc => (by cases hc)⟩ ?_
  intro s a t _ hs ha hst
  exact hs.step hst ha

end State

theorem countP_date_eq_one {xs ys : List LogEntry} {date : Int} (hx : (xs.map LogEntry.date).Nodup)
    (hy : (ys.map LogEntry.date).Nodup)
    (h : date ∈ ys.map LogEntry.date ↔ date ∉ xs.map LogEntry.date) :
    (xs ++ ys).countP (·.date = date) = 1 := by
  have hcn : (xs ++ ys).countP (·.date = date) = ((xs ++ ys).map LogEntry.date).count date := by
    rw [count_eq_countP, countP_map]
    rfl
  rw [hcn, map_append, count_append, hx.count, hy.count]
  by_cases hd : date ∈ xs.map LogEntry.date
  · rw [if_pos hd, if_neg (fun hy => h.1 hy hd)]
  · rw [if_neg hd, if_pos (h.2 hd)]

/-- A client that has not fallen behind and has taken all lines out of its channel has got each line
of its worker that was sent, from the oldest line of its history on, exactly once. -/
def State.ExactlyOnce {U : Type} (ids : Uuids U) (s : State U) : Prop :=
  ∀ c ∈ s.clients, c.stage = .following → c.lagged = false → c.live = [] →
    ∀ k ∈ s.sends, k.past = true → k.entry.workerId = ids.text c.worker →
      (∀ oldest ∈ c.history.head?, oldest.date ≤ k.entry.date) →
      (c.history ++ c.delivered).countP (·.date = k.entry.date) = 1

instance {U : Type} (ids : Uuids U) (s : State U) : Decidable (s.ExactlyOnce ids) :=
  inferInstanceAs (Decidable (∀ c ∈ s.clients, _))

/-- **Log streams are exactly-once**, if each client reads the table at a moment at which it agrees
with the channel.  The date of a line is its own. -/
theorem lines_exactly_once {U : Type} [DecidableEq U] (ids : Uuids U) (s : State U)
    (h : (machine ids).Reach (fun s a => s.agrees ids a = true) s) :
    (s.sends.map (·.entry.date)).Nodup ∧ s.ExactlyOnce ids := by
  have hs := State.exact_of_reach h
  refine ⟨hs.dated.dates, fun c hc hst hlagged hlive k hk hpast hworker hdate => ?_⟩
  have hgood := hs.clients c hc
  have hrec := hgood.received
  have hcovers := hgood.covers hst hlagged k.entry ⟨k, hk, hpast, rfl⟩ hworker
  rw [Client.Covers, hlive, append_nil] at hcovers
  rw [hlive, append_nil] at hrec
  obtain ⟨oldest, holde, hlt⟩ | hone := hcovers
  · exact absurd (hdate oldest holde) (Int.not_le.2 hlt)
  · exact countP_date_eq_one hgood.history hrec hone

/-! ### One worker and one client -/

def writes (k : Nat) (steps : List SendAct) : List (Act Bool) :=
  .send (twoWorkers.text false) .log "line" 0 :: steps.map (.sender k)

def stores : List (Act Bool) := [.recvMany 1, .insert .done]

def lineRow (date : Int) : Row Bool := ⟨date, false, "line", "log"⟩

def subscribes : List (Act Bool) :=
  [.connect false, .client 0 (.authorize true), .client 0 .subscribe]

theorem lines_exactly_once_two :
    ∃ s : State Bool, (machine twoWorkers).Reach (fun s a => s.agrees twoWorkers a = true) s ∧
      (s.clients.map fun c => (c.history.length, c.delivered.length)) = [(1, 1)] ∧
      s.ExactlyOnce twoWorkers := by
  obtain ⟨s, hs, hp⟩ := Machine.exists_reach_of_runIf (M := machine twoWorkers)
    (State.agrees twoWorkers) (fun _ _ _ h => h)
    (Act.insertWorker false :: writes 0 [.count, .enqueue] ++ stores ++ subscribes ++
      [Act.client 0 (.history (some [lineRow 1]))] ++ writes 1 [.count, .broadcast, .enqueue] ++
      [Act.client 0 .recv])
    (fun s => (s.clients.map fun c => (c.history.length, c.delivered.length)) = [(1, 1)])
    (by decide)
  exact ⟨s, hs, hp, (lines_exactly_once twoWorkers s hs).2⟩

theorem line_twice :
    ¬ ∀ s, (machine twoWorkers).Reachable s → s.lost = 0 → s.ExactlyOnce twoWorkers := by
  intro h
  obtain ⟨s, hs, hp⟩ := (machine twoWorkers).exists_of_run
    (Act.insertWorker false :: subscribes ++ writes 0 [.count, .broadcast, .enqueue] ++ stores ++
      [Act.client 0 (.history (some [lineRow 1])), .client 0 .recv])
    (fun s => s.lost == 0 && !decide (s.ExactlyOnce twoWorkers))
    (by decide)
  simp only [Bool.and_eq_true, beq_iff_eq, Bool.not_eq_true', decide_eq_false_iff_not] at hp
  exact hp.2 (h s hs hp.1)

/-- No line is lost, but one that was sent before the subscription is stored after the table is
read: the client has an older line, and does not get this one. -/
theorem line_missed :
    ∃ s, (machine twoWorkers).Reachable s ∧ s.lost = 0 ∧ s.queue = [] ∧ s.batch = [] ∧
      s.table = [lineRow 1, lineRow 2] ∧
      (s.clients.map fun c => (c.history.map LogEntry.date, c.delivered)) = [([1], [])] := by
  obtain ⟨s, hs, hp⟩ := (machine twoWorkers).exists_of_run
    (Act.insertWorker false :: writes 0 [.count, .enqueue] ++ stores ++ writes 1 [.count] ++
      subscribes ++ [Act.client 0 (.history (some [lineRow 1])), .sender 1 .enqueue] ++ stores)
    (fun s => s.lost == 0 && s.queue == [] && s.batch == [] &&
      s.table == [lineRow 1, lineRow 2] &&
      (s.clients.map fun c => (c.history.map LogEntry.date, c.delivered)) == [([1], [])])
      (by decide)
  simp only [Bool.and_eq_true, beq_iff_eq, and_assoc] at hp
  exact ⟨s, hs, hp⟩

end OpenWorkersRunner.Logs
