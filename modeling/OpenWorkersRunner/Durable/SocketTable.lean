import OpenWorkersRunner.Durable.SocketTask

/-!
# The sockets of Durable Objects and their tasks (`src/durable/sockets.rs`)

All sockets are in `SOCKETS`, a map of maps.  Besides the task of a socket, four functions take it
out of there: `send` with a close, `close_object` for `retire`, `close_namespace` for
`stop_namespace`, and `instance_ended`.  `send` leaves the map of an object empty when it takes the
last one; the others do not, and `forget` removes what it finds empty.
-/

namespace OpenWorkersRunner.Durable.SocketTasks

open Function List Option Parties
open Sockets (Socket)
open WebSocket (Outgoing Incoming maxQueuedBytes)

/-! ## The machine -/

inductive Closing
  | object (key : ObjectKey) (code : UInt16) (reason : String)
  | ofNamespace (namespaceId : String)
  | instanceEnded (key : ObjectKey)
deriving DecidableEq

def Closing.which : Closing → Socket → Bool
  | .object key _ _, x => x.key = key
  | .ofNamespace namespaceId, x => x.key.namespaceId = namespaceId
  | .instanceEnded key, x => x.key = key && !x.hibernatable

def Closing.code : Closing → UInt16
  | .object _ code _ => code
  | .ofNamespace _ => 1001
  | .instanceEnded _ => 1011

def Closing.reason : Closing → String
  | .object _ _ reason => reason
  | .ofNamespace _ => "the Durable Object namespace was deleted"
  | .instanceEnded _ => "the Durable Object stopped"

structure State where
  sockets : List Socket
  present : ObjectKey → Bool
  tasks : List Task
  available : ℕ
  others : ℕ

inductive Act
  | accept (key : ObjectKey) (id : Nat) (tags : List String) (hibernatable : Bool)
      (acceptedBy : Nat)
  | insert (i : ℕ)
  | attach (key : ObjectKey) (id : Nat)
  | send (key : ObjectKey) (id : Nat) (m : Outgoing)
  | close (closing : Closing)
  | task (i : ℕ) (a : TaskAct)
  | forget (i : ℕ)
  | finish (i : ℕ)
  | otherTakes
  | otherGives
deriving DecidableEq

def Task.send (t : Task) (listed : Bool) (m : Outgoing) : Task :=
  { (if listed then t.push (.object, m) else t) with sent := t.sent ++ [m] }

namespace State

def has (s : State) (key : ObjectKey) (id : Nat) : Bool := s.sockets.any (Socket.is key id)

def lists (s : State) (t : Task) : Bool :=
  t.point.accepted && s.has t.socket.key t.socket.id

def insert (s : State) (i : ℕ) (t : Task) (sockets : List Socket) : State :=
  { s with
    sockets := sockets
    present := Function.update s.present t.socket.key true
    tasks := s.tasks.set i { t with point := .waiting [] 0 true } }

def refuse (s : State) (i : ℕ) (t : Task) : State :=
  { s with
    present := Function.update s.present t.socket.key true
    tasks := s.tasks.set i { t with point := .refused, returns := t.returns + 1 }
    available := s.available + 1 }

def attach (s : State) (key : ObjectKey) (id : Nat) : State :=
  let (sockets, handed) := Sockets.attach s.sockets key id
  { s with
    sockets := sockets
    tasks := s.tasks.map fun t => if handed && t.is key id then { t with upgraded := true } else t }

def send (s : State) (key : ObjectKey) (id : Nat) (m : Outgoing) : State :=
  { s with
    sockets := Sockets.send s.sockets key id m.isClose
    tasks := s.tasks.map fun t => if t.is key id then t.send (s.has key id) m else t }

def selects (s : State) (closing : Closing) (t : Task) : Bool :=
  t.point.accepted &&
    s.sockets.any fun x => x.is t.socket.key t.socket.id && closing.which x

def close (s : State) (closing : Closing) : State :=
  let sockets := Sockets.closeWhere s.sockets closing.which
  { s with
    sockets := sockets
    present := fun key => s.present key && sockets.any fun x => x.key = key
    tasks := s.tasks.map fun t =>
      if s.selects closing t then t.push (.runner, .close closing.code closing.reason) else t }

def forget (s : State) (i : ℕ) (t : Task) (point : Point) : State :=
  let sockets := Sockets.forget s.sockets t.socket.key t.socket.id
  { s with
    sockets := sockets
    present := fun key =>
      s.present key && (key ≠ t.socket.key || sockets.any fun x => x.key = key)
    tasks := s.tasks.set i { t with point := point } }

def finish (s : State) (i : ℕ) (t : Task) : State :=
  { s with
    tasks := s.tasks.set i { t with point := .ended, returns := t.returns + 1 }
    available := s.available + 1 }

def step (s : State) : Act → Option State
  | .accept key id tags hibernatable acceptedBy =>
    if 0 < s.available then
      some { s with
        tasks := s.tasks ++ [.start ⟨key, id, true, tags, none, hibernatable, acceptedBy⟩]
        available := s.available - 1 }
    else
      -- "too many WebSockets are open on this runner"
      some s
  | .insert i =>
    s.tasks[i]?.bind fun t =>
      if t.point = .accepting then
        match Sockets.accept s.sockets true t.socket with
        | .ok sockets => some (s.insert i t sockets)
        | .error _ => some (s.refuse i t)
      else none
  | .attach key id => some (s.attach key id)
  | .send key id m => some (s.send key id m)
  | .close closing => some (s.close closing)
  | .task i a =>
    s.tasks[i]?.bind fun t =>
      (t.step (s.lists t) a).map fun t' => { s with tasks := s.tasks.set i t' }
  | .forget i => s.tasks[i]?.bind fun t => t.afterForget.map fun point => s.forget i t point
  | .finish i =>
    s.tasks[i]?.bind fun t => if t.point = .returning then some (s.finish i t) else none
  | .otherTakes =>
    if 0 < s.available then some { s with available := s.available - 1, others := s.others + 1 }
    else none
  | .otherGives =>
    if 0 < s.others then some { s with available := s.available + 1, others := s.others - 1 }
    else none

def Fresh (s : State) : Act → Prop
  | .accept key id _ _ _ => ∀ t ∈ s.tasks, t.socket.is key id → t.point = .refused
  | _ => True

end State

def machine (capacity : ℕ) : Machine State Act where
  init := ⟨[], fun _ => false, [], capacity, 0⟩
  step := State.step

/-! ## What a step does -/

namespace State

inductive Changes (s : State) : State → Prop
  | accepts (socket : Socket) (hfree : 0 < s.available)
      (hfresh : ∀ t ∈ s.tasks, t.socket.is socket.key socket.id → t.point = .refused) :
      Changes s { s with tasks := s.tasks ++ [.start socket], available := s.available - 1 }
  | inserts {i : ℕ} {t : Task} {sockets : List Socket} (hi : s.tasks[i]? = some t)
      (hpoint : t.point = .accepting)
      (haccept : Sockets.accept s.sockets true t.socket = .ok sockets) :
      Changes s (s.insert i t sockets)
  | refuses {i : ℕ} {t : Task} {error : String} (hi : s.tasks[i]? = some t)
      (hpoint : t.point = .accepting)
      (haccept : Sockets.accept s.sockets true t.socket = .error error) : Changes s (s.refuse i t)
  | attaches (key : ObjectKey) (id : Nat) : Changes s (s.attach key id)
  | sends (key : ObjectKey) (id : Nat) (m : Outgoing) : Changes s (s.send key id m)
  | closes (closing : Closing) : Changes s (s.close closing)
  | moves {i : ℕ} {t t' : Task} (hi : s.tasks[i]? = some t) (hmoves : t.Moves t') :
      Changes s { s with tasks := s.tasks.set i t' }
  | forgets {i : ℕ} {t : Task} {point : Point} (hi : s.tasks[i]? = some t)
      (hpoint : t.afterForget = some point) : Changes s (s.forget i t point)
  | finishes {i : ℕ} {t : Task} (hi : s.tasks[i]? = some t) (hpoint : t.point = .returning) :
      Changes s (s.finish i t)
  | others {available others : ℕ} (h : available + others = s.available + s.others) :
      Changes s { s with available := available, others := others }

variable {s r : State} {a : Act}

theorem step_changes (hfr : s.Fresh a) (h : s.step a = some r) : s.Changes r ∨ r = s := by
  cases a with
  | accept key id tags hibernatable acceptedBy =>
    simp only [step] at h
    split at h
    · cases h
      exact .inl (.accepts _ ‹_› hfr)
    · cases h
      exact .inr rfl
  | insert i =>
    obtain ⟨t, hi, h⟩ := bind_eq_some_iff.1 h
    obtain ⟨hp, h⟩ := ite_none_right_eq_some.1 h
    split at h
    · cases h
      exact .inl (.inserts hi hp ‹_›)
    · cases h
      exact .inl (.refuses hi hp ‹_›)
  | attach key id => cases h; exact .inl (.attaches key id)
  | send key id m => cases h; exact .inl (.sends key id m)
  | close closing => cases h; exact .inl (.closes closing)
  | task i a =>
    obtain ⟨t, hi, h⟩ := bind_eq_some_iff.1 h
    obtain ⟨t', ht', rfl⟩ := map_eq_some_iff.1 h
    exact .inl (.moves hi (Task.step_moves ht'))
  | forget i =>
    obtain ⟨t, hi, h⟩ := bind_eq_some_iff.1 h
    obtain ⟨point, hp, rfl⟩ := map_eq_some_iff.1 h
    exact .inl (.forgets hi hp)
  | finish i =>
    obtain ⟨t, hi, h⟩ := bind_eq_some_iff.1 h
    obtain ⟨hp, ⟨⟩⟩ := ite_none_right_eq_some.1 h
    exact .inl (.finishes hi hp)
  | otherTakes =>
    obtain ⟨hf, ⟨⟩⟩ := ite_none_right_eq_some.1 h
    exact .inl (.others (by omega))
  | otherGives =>
    obtain ⟨hh, ⟨⟩⟩ := ite_none_right_eq_some.1 h
    exact .inl (.others (by omega))

end State

variable {x : Socket} {s : State}

theorem mem_of_accept {sockets sockets' : List Socket}
    (h : Sockets.accept sockets true x = .ok sockets') :
    sockets' = sockets.filter (fun y => !y.is x.key x.id) ++ [x] := by
  rw [Sockets.accept, if_neg (by decide)] at h
  split at h
  · cases h
  · cases h
    rfl

theorem exists_of_accept {sockets : List Socket} {error : String}
    (h : Sockets.accept sockets true x = .error error) : ∃ y ∈ sockets, y.key = x.key := by
  rw [Sockets.accept, if_neg (by decide)] at h
  split at h
  next hm =>
    have hp : 0 < (sockets.filter fun y => y.key = x.key).length :=
      Nat.lt_of_lt_of_le (by decide) hm
    obtain ⟨y, hy⟩ := exists_mem_of_length_pos hp
    exact ⟨y, (mem_filter.1 hy).1, of_decide_eq_true (mem_filter.1 hy).2⟩
  · cases h

theorem is_iff {key : ObjectKey} {id : Nat} : x.is key id ↔ x.key = key ∧ x.id = id := by
  rw [Socket.is, Bool.and_eq_true, decide_eq_true_iff, decide_eq_true_iff]

theorem mem_send {key : ObjectKey} {id : Nat} {m : Outgoing} (hx : x ∈ (s.send key id m).sockets) :
    x ∈ s.sockets ∧ (m.isClose → ¬ x.is key id) := by
  simp only [State.send, Sockets.send] at hx
  split at hx
  · obtain ⟨hx, ho⟩ := mem_filter.1 hx
    exact ⟨hx, fun _ => by simpa using ho⟩
  next hm =>
    exact ⟨hx, fun hm' => (hm hm').elim⟩

theorem afterForget_spec {t : Task} {point : Point} (h : t.afterForget = some point) :
    t.point.forgets ∧ t.point.accepted ∧ point.accepted ∧ t.point.holds ∧ point.holds ∧
      point.Asks t.point := by
  rw [Task.afterForget] at h
  split at h <;> cases h <;> rename_i hp <;> rw [hp]
  all_goals
    exact ⟨rfl, rfl, rfl, rfl, rfl, fun _ => id, id, id, fun _ => id⟩

structure Task.Stays (t t' : Task) : Prop where
  socket : t'.socket = t.socket
  point : t'.point = t.point
  returns : t'.returns = t.returns

namespace Task.Stays

variable {t t' : Task}

theorem ite {c : Prop} [Decidable c] (h : t.Stays t') : t.Stays (if c then t' else t) := by
  split
  · exact h
  · exact ⟨rfl, rfl, rfl⟩

theorem push (t : Task) (m : Sent) : t.Stays (t.push m) := ⟨rfl, rfl, rfl⟩

theorem send (t : Task) (listed : Bool) (m : Outgoing) : t.Stays (t.send listed m) := by
  rw [Task.send]
  split <;> exact ⟨rfl, rfl, rfl⟩

end Task.Stays

/-! ## The table -/

/-- What is in the table has a task that is to forget it, and so has an object that has a map. -/
structure Table (s : State) : Prop where
  unique : ∀ x ∈ s.sockets, ∀ y ∈ s.sockets, y.is x.key x.id → y = x
  owner : ∀ x ∈ s.sockets, ∃ t ∈ s.tasks, t.is x.key x.id ∧ t.point.forgets
  present : ∀ x ∈ s.sockets, s.present x.key
  kept : ∀ key, s.present key → ∃ t ∈ s.tasks, t.socket.key = key ∧ t.point.forgets

namespace Table

variable {s r : State}

theorem init (capacity : ℕ) : Table (machine capacity).init :=
  ⟨fun _ hx => (not_mem_nil hx).elim, fun _ hx => (not_mem_nil hx).elim,
    fun _ hx => (not_mem_nil hx).elim, fun _ hk => (Bool.false_ne_true hk).elim⟩

variable {t : Task} {i : ℕ}

theorem key_of_is {key : ObjectKey} {id : Nat} (h : t.is key id) : t.socket.key = key :=
  (is_iff.1 (Bool.and_eq_true_iff.1 h).1).1

theorem mapped (h : Table s) {f : Task → Task} (hts : r.tasks = s.tasks.map f)
    (hf : ∀ t : Task, t.Stays (f t)) {g : Socket → Socket}
    (hg : ∀ x, (g x).key = x.key ∧ (g x).id = x.id)
    (hsk : ∀ x ∈ r.sockets, ∃ y ∈ s.sockets, g y = x)
    (hpr : ∀ x ∈ r.sockets, s.present x.key → r.present x.key)
    (hk : ∀ key, r.present key → s.present key) : Table r := by
  have hm : ∀ p : Task → Prop, (∀ t, p t → p (f t)) → (∃ t ∈ s.tasks, p t) →
      ∃ t ∈ r.tasks, p t := by
    rintro p hp ⟨t, ht, hpt⟩
    exact ⟨f t, hts ▸ mem_map_of_mem ht, hp t hpt⟩
  refine ⟨fun x hx y hy his => ?_, fun x hx => ?_, fun x hx => ?_, fun key hke => ?_⟩
  · obtain ⟨x', hx', rfl⟩ := hsk x hx
    obtain ⟨y', hy', rfl⟩ := hsk y hy
    rw [is_iff, (hg x').1, (hg x').2, (hg y').1, (hg y').2] at his
    rw [h.unique x' hx' y' hy' (is_iff.2 his)]
  · obtain ⟨y, hy, rfl⟩ := hsk x hx
    rw [(hg y).1, (hg y).2]
    refine hm _ (fun t => ?_) (h.owner y hy)
    rw [Task.is, Task.is, (hf t).socket, (hf t).point]
    exact id
  · obtain ⟨y, hy, rfl⟩ := hsk x hx
    exact hpr _ hx ((hg y).1.symm ▸ h.present y hy)
  · refine hm _ (fun t => ?_) (h.kept key (hk key hke))
    rw [(hf t).socket, (hf t).point]
    exact id

theorem moved (h : Table s) {t' : Task} (hi : s.tasks[i]? = some t) (hso : t'.socket = t.socket)
    (hfo : t.point.forgets → t'.point.accepted ∧ t'.point.forgets) {available : ℕ} :
    Table { s with tasks := s.tasks.set i t', available := available } := by
  refine ⟨h.unique, fun x hx => exists_mem_set hi ?_ (h.owner x hx), h.present,
    fun key hk => exists_mem_set hi ?_ (h.kept key hk)⟩
  · rintro ⟨his, hf⟩
    obtain ⟨ha, hfo⟩ := hfo hf
    rw [Task.is, Bool.and_eq_true] at his ⊢
    exact ⟨⟨hso ▸ his.1, ha⟩, hfo⟩
  · rintro ⟨hk, hf⟩
    exact ⟨hso ▸ hk, (hfo hf).2⟩

theorem insert (h : Table s) {i : ℕ} {t : Task} {sockets : List Socket}
    (hi : s.tasks[i]? = some t) (hp : t.point = .accepting)
    (ha : Sockets.accept s.sockets true t.socket = .ok sockets) :
    Table (s.insert i t sockets) := by
  have hsk := mem_of_accept ha
  have hn : { t with point := .waiting [] 0 true } ∈ (s.insert i t sockets).tasks :=
    mem_set (List.getElem?_eq_some_iff.1 hi).1 _
  have hm : ∀ x ∈ sockets, (x ∈ s.sockets ∧ ¬ x.is t.socket.key t.socket.id) ∨ x = t.socket := by
    intro x hx
    rw [hsk, mem_append, mem_filter, mem_singleton] at hx
    simpa using hx
  have hk : ∀ key, (s.insert i t sockets).present key = true ↔
      key = t.socket.key ∨ s.present key = true := by
    intro key
    show update s.present t.socket.key true key = true ↔ _
    by_cases hke : key = t.socket.key
    · rw [hke, update_self]
      simp
    · rw [update_of_ne hke]
      simp [hke]
  refine ⟨fun x hx y hy his => ?_, fun x hx => ?_, fun x hx => (hk _).mpr ?_, fun key hke => ?_⟩
  · rcases hm x hx with ⟨hx, ho⟩ | rfl <;> rcases hm y hy with ⟨hy, ho'⟩ | rfl
    · exact h.unique x hx y hy his
    · exact (ho (is_iff.2 ((is_iff.1 his).imp Eq.symm Eq.symm))).elim
    · exact (ho' his).elim
    · rfl
  · rcases hm x hx with ⟨hx, -⟩ | rfl
    · refine exists_mem_set_of_not hi (fun hpt => ?_) (h.owner x hx)
      rw [hp] at hpt
      exact Bool.false_ne_true hpt.2
    · exact ⟨_, hn, Bool.and_eq_true_iff.2 ⟨is_iff.2 ⟨rfl, rfl⟩, rfl⟩, rfl⟩
  · rcases hm x hx with ⟨hx, -⟩ | rfl
    · exact .inr (h.present x hx)
    · exact .inl rfl
  · rcases (hk key).1 hke with rfl | hke
    · exact ⟨_, hn, rfl, rfl⟩
    · refine exists_mem_set_of_not hi (fun hpt => ?_) (h.kept key hke)
      rw [hp] at hpt
      exact Bool.false_ne_true hpt.2

theorem refuse (h : Table s) {error : String} (hi : s.tasks[i]? = some t)
    (hpt : t.point = .accepting)
    (ha : Sockets.accept s.sockets true t.socket = .error error) : Table (s.refuse i t) := by
  obtain ⟨x, hx, hk⟩ := exists_of_accept ha
  have hp : update s.present t.socket.key true = s.present := by
    rw [← hk, ← h.present x hx]
    exact update_eq_self _ _
  rw [State.refuse, hp]
  refine h.moved hi ?_ fun hf => ?_
  · rfl
  · rw [hpt] at hf
    exact (Bool.false_ne_true hf).elim

theorem attach (h : Table s) (key : ObjectKey) (id : Nat) : Table (s.attach key id) := by
  refine h.mapped (g := fun x => if x.is key id then { x with attach := false } else x) rfl
    (fun t => .ite ⟨rfl, rfl, rfl⟩) (fun x => ?_) (fun x hx => mem_map.1 hx)
    (fun _ _ h => h) fun _ h => h
  split <;> exact ⟨rfl, rfl⟩

theorem send (h : Table s) (key : ObjectKey) (id : Nat) (m : Outgoing) :
    Table (s.send key id m) := by
  exact h.mapped rfl (fun t => .ite (.send t _ m)) (fun x => ⟨rfl, rfl⟩)
    (fun x hx => ⟨x, (mem_send hx).1, rfl⟩) (fun _ _ h => h) fun _ h => h

theorem close (h : Table s) (closing : Closing) : Table (s.close closing) := by
  refine h.mapped rfl (fun t => .ite (.push t _)) (fun x => ⟨rfl, rfl⟩)
    (fun x hx => ⟨x, (mem_filter.1 hx).1, rfl⟩) (fun x hx hp => ?_) fun key hk => ?_
  · exact Bool.and_eq_true_iff.2 ⟨hp, any_eq_true.2 ⟨x, hx, decide_eq_true rfl⟩⟩
  · exact (Bool.and_eq_true_iff.1 hk).1

theorem forget (h : Table s) {point : Point} (hi : s.tasks[i]? = some t) :
    Table (s.forget i t point) := by
  have hm : ∀ x ∈ (s.forget i t point).sockets,
      x ∈ s.sockets ∧ ¬ x.is t.socket.key t.socket.id := by
    intro x hx
    obtain ⟨hx, ho⟩ := mem_filter.1 hx
    exact ⟨hx, by simpa using ho⟩
  have hown : ∀ x ∈ (s.forget i t point).sockets,
      ∃ u ∈ (s.forget i t point).tasks, u.is x.key x.id ∧ u.point.forgets := by
    intro x hx
    obtain ⟨hx, ho⟩ := hm x hx
    refine exists_mem_set_of_not hi (fun hpt => ho ?_) (h.owner x hx)
    have his := is_iff.1 (Bool.and_eq_true_iff.1 hpt.1).1
    exact is_iff.2 (his.imp Eq.symm Eq.symm)
  refine ⟨fun x hx y hy => h.unique x (hm x hx).1 y (hm y hy).1, hown, fun x hx => ?_,
    fun key hk => ?_⟩
  · refine Bool.and_eq_true_iff.2 ⟨h.present x (hm x hx).1, Bool.or_eq_true_iff.2 (.inr ?_)⟩
    exact any_eq_true.2 ⟨x, hx, decide_eq_true rfl⟩
  · obtain ⟨hp, hca⟩ := Bool.and_eq_true_iff.1 hk
    rcases Bool.or_eq_true_iff.1 hca with ho | hso
    · exact exists_mem_set_of_not hi (fun hpt => of_decide_eq_true ho hpt.1.symm)
        (h.kept key hp)
    · -- another socket of the object is left, with its task
      obtain ⟨x, hx, hk⟩ := any_eq_true.1 hso
      obtain ⟨u, hu, his, hf⟩ := hown x hx
      exact ⟨u, hu, (key_of_is his).trans (of_decide_eq_true hk), hf⟩

theorem changes (h : Table s) (hch : s.Changes r) : Table r := by
  cases hch with
  | accepts sock =>
    refine ⟨h.unique, fun x hx => ?_, h.present, fun key hk => ?_⟩
    · obtain ⟨t, ht, hp⟩ := h.owner x hx
      exact ⟨t, mem_append_left _ ht, hp⟩
    · obtain ⟨t, ht, hp⟩ := h.kept key hk
      exact ⟨t, mem_append_left _ ht, hp⟩
  | inserts hi hpt ha => exact h.insert hi hpt ha
  | refuses hi hpt ha => exact h.refuse hi hpt ha
  | attaches key id => exact h.attach key id
  | sends key id m => exact h.send key id m
  | closes closing => exact h.close closing
  | @moves i t t' hi hm =>
    have hsa := hm.same
    refine h.moved hi hsa.socket fun hf => ?_
    rw [hsa.accepted, hsa.forgets]
    exact ⟨Point.accepted_of_forgets hf, hf⟩
  | forgets hi => exact h.forget hi
  | finishes hi hpt =>
    refine h.moved hi ?_ fun hf => ?_
    · rfl
    · rw [hpt] at hf
      exact (Bool.false_ne_true hf).elim
  | others => exact ⟨h.unique, h.owner, h.present, h.kept⟩

end Table

/-! ## The messages -/

/-- Each task has its messages where they belong, and no two calls are for one socket, but for those
that were refused. -/
structure Delivers (s : State) : Prop where
  good : ∀ t ∈ s.tasks, t.Good (s.lists t)
  unused : ∀ t ∈ s.tasks, t.point.accepted = false → t.sent = [] ∧ t.put = []
  distinct : ∀ (i j : ℕ) (t u : Task), s.tasks[i]? = some t → s.tasks[j]? = some u →
    u.socket.is t.socket.key t.socket.id → t.point ≠ .refused → u.point ≠ .refused → i = j

namespace Delivers

variable {s r : State}

variable {i : ℕ} {t : Task}

theorem moved (h : Delivers s) {t' : Task} (hi : s.tasks[i]? = some t)
    (hts : r.tasks = s.tasks.set i t') (hso : t'.socket = t.socket)
    (hre : t.point = .refused → t'.point = .refused) (hgo : t'.Good (r.lists t'))
    (hun : t'.point.accepted = false → t.point.accepted = false ∧ t'.sent = t.sent ∧
      t'.put = t.put) (hl : ∀ j u, j ≠ i → s.tasks[j]? = some u → r.lists u → s.lists u) :
    Delivers r := by
  refine ⟨?_, ?_, ?_⟩ <;> rw [hts]
  · intro u hu
    rcases eq_or_exists_of_mem_set hu with rfl | ⟨j, hj, hu⟩
    · exact hgo
    · exact (h.good u (mem_of_getElem? hu)).mono (hl j u hj hu)
  · refine forall_mem_set h.unused fun ht' => ?_
    obtain ⟨ht, hse, hp⟩ := hun ht'
    rw [hse, hp]
    exact h.unused t (mem_of_getElem? hi) ht
  · intro j k u v hu hv his hu' hv'
    -- what is asked of `t'` was asked of `t`
    have hold : ∀ (j : ℕ) (u : Task), (s.tasks.set i t')[j]? = some u → u.point ≠ .refused →
        ∃ w : Task, s.tasks[j]? = some w ∧ w.socket = u.socket ∧ w.point ≠ .refused := by
      intro j u hu hu'
      rcases getElem?_set_eq_some hu with ⟨rfl, rfl⟩ | ⟨-, hu⟩
      · exact ⟨t, hi, hso.symm, fun ht => hu' (hre ht)⟩
      · exact ⟨u, hu, rfl, hu'⟩
    obtain ⟨u₀, hu₀, hsu, hu₀'⟩ := hold j u hu hu'
    obtain ⟨v₀, hv₀, hsv, hv₀'⟩ := hold k v hv hv'
    exact h.distinct j k u₀ v₀ hu₀ hv₀ (by rw [hsu, hsv]; exact his) hu₀' hv₀'

theorem mapped (h : Delivers s) {f : Task → Task} (hts : r.tasks = s.tasks.map f)
    (hf : ∀ t : Task, t.Stays (f t)) (hun : ∀ t, t.point.accepted = false → f t = t)
    (hgo : ∀ t ∈ s.tasks, (f t).Good (r.lists (f t))) : Delivers r := by
  refine ⟨?_, ?_, ?_⟩ <;> rw [hts]
  · intro u hu
    obtain ⟨t, ht, rfl⟩ := mem_map.1 hu
    exact hgo t ht
  · intro u hu ha
    obtain ⟨t, ht, rfl⟩ := mem_map.1 hu
    rw [(hf t).point] at ha
    rw [hun t ha]
    exact h.unused t ht ha
  · intro j k u v hu hv his hu' hv'
    rw [getElem?_map, map_eq_some_iff] at hu hv
    obtain ⟨u0, hu0, rfl⟩ := hu
    obtain ⟨v0, hv0, rfl⟩ := hv
    rw [(hf u0).socket, (hf v0).socket] at his
    rw [(hf u0).point] at hu'
    rw [(hf v0).point] at hv'
    exact h.distinct j k u0 v0 hu0 hv0 his hu' hv'

theorem lists_iff :
    s.lists t ↔ t.point.accepted ∧ ∃ x ∈ s.sockets, x.is t.socket.key t.socket.id := by
  rw [State.lists, State.has, Bool.and_eq_true, List.any_eq_true]

theorem lists_mono (hsu : ∀ x ∈ r.sockets, x ∈ s.sockets) (t : Task) (h : r.lists t) :
    s.lists t := by
  obtain ⟨ha, x, hx, his⟩ := lists_iff.1 h
  exact lists_iff.2 ⟨ha, x, hsu x hx, his⟩

theorem accept (h : Delivers s) (sock : Socket)
    (hf : ∀ t ∈ s.tasks, t.socket.is sock.key sock.id → t.point = .refused)
    (available : ℕ) :
    Delivers { s with tasks := s.tasks ++ [.start sock], available := available } := by
  refine ⟨fun t ht => ?_, fun t ht hp => ?_, fun j k u v hu hv his hu' hv' => ?_⟩
  · rcases mem_append.1 ht with ht | ht
    · exact h.good t ht
    · rw [mem_singleton.1 ht]
      exact .start sock
  · rcases mem_append.1 ht with ht | ht
    · exact h.unused t ht hp
    · rw [mem_singleton.1 ht]
      exact ⟨rfl, rfl⟩
  · rcases getElem?_concat_eq_some hu with hu | ⟨rfl, rfl⟩ <;>
      rcases getElem?_concat_eq_some hv with hv | ⟨rfl, rfl⟩
    · exact h.distinct j k u v hu hv his hu' hv'
    · refine (hu' (hf u (mem_of_getElem? hu) ?_)).elim
      exact is_iff.2 ((is_iff.1 his).imp Eq.symm Eq.symm)
    · exact (hv' (hf v (mem_of_getElem? hv) his)).elim
    · rfl

theorem insert (h : Delivers s) {i : ℕ} {t : Task} {sockets : List Socket}
    (hi : s.tasks[i]? = some t) (hpt : t.point = .accepting)
    (ha : Sockets.accept s.sockets true t.socket = .ok sockets) :
    Delivers (s.insert i t sockets) := by
  have ht := mem_of_getElem? hi
  obtain ⟨hse, hp⟩ := h.unused t ht (by rw [hpt]; rfl)
  -- nothing was sent on the socket before
  have ho : t.Good true :=
    { h.good t ht with
      listed := fun _ => ⟨by rw [hse, hp]; rfl, by simp [hse]⟩ }
  refine h.moved hi rfl rfl (fun ht => ?_) ?_ nofun fun j u hj hu hl => ?_
  · rw [hpt] at ht
    cases ht
  · refine (ho.goto ?_).mono fun _ => rfl
    rw [hpt]
    exact ⟨fun _ => id, id, id, fun _ => id⟩
  · obtain ⟨hac, x, hx, his⟩ := lists_iff.1 hl
    have hx : x ∈ s.sockets.filter _ ++ [t.socket] := mem_of_accept ha ▸ hx
    rcases mem_append.1 hx with hx | hx
    · exact lists_iff.2 ⟨hac, x, (mem_filter.1 hx).1, his⟩
    · -- the entry is new, so no other task can be that of the socket
      rw [mem_singleton.1 hx] at his
      refine (hj (h.distinct j i u t hu hi his (fun hu' => ?_) fun ht => ?_)).elim
      · rw [hu'] at hac
        cases hac
      · rw [hpt] at ht
        cases ht

theorem ends (h : Delivers s) {point : Point} (hi : s.tasks[i]? = some t)
    (hts : r.tasks = s.tasks.set i { t with point := point, returns := t.returns + 1 })
    (hsk : r.sockets = s.sockets) (ha : point.Asks t.point)
    (hac : point.accepted = t.point.accepted) (hre : t.point ≠ .refused) :
    Delivers r := by
  have hl : ∀ u, r.lists u = s.lists u := by
    intro u
    rw [State.lists, State.has, hsk]
    rfl
  refine h.moved hi hts rfl (fun ht => (hre ht).elim) ?_ (fun ht' => ?_) fun _ u _ _ => ?_
  · refine ((h.good t (mem_of_getElem? hi)).goto ha).mono fun hls => ?_
    rw [hl, State.lists] at hls
    rw [State.lists, ← hac]
    exact hls
  · exact ⟨hac ▸ ht', rfl, rfl⟩
  · rw [hl]
    exact id

theorem attach (h : Delivers s) (key : ObjectKey) (id : Nat) : Delivers (s.attach key id) := by
  have hl : ∀ t, (s.attach key id).lists t → s.lists t := by
    intro t hls
    obtain ⟨ha, x, hx, his⟩ := lists_iff.1 hls
    obtain ⟨y, hy, rfl⟩ := mem_map.1 hx
    refine lists_iff.2 ⟨ha, y, hy, ?_⟩
    split at his <;> exact his
  refine h.mapped rfl (fun t => .ite ⟨rfl, rfl, rfl⟩) (fun t ht => ?_) fun t ht => ?_
  · rw [if_neg]
    rw [Task.is, ht, Bool.and_false, Bool.and_false]
    exact Bool.false_ne_true
  · have hgo := (h.good t ht).mono (hl t)
    split
    · exact { hgo with }
    · exact hgo

theorem good_send {key : ObjectKey} {id : Nat} (hgo : t.Good (s.lists t)) (his : t.is key id)
    (m : Outgoing) :
    (t.send (s.has key id) m).Good ((s.send key id m).lists (t.send (s.has key id) m)) := by
  obtain ⟨hso, ha⟩ := Bool.and_eq_true_iff.1 his
  obtain ⟨rfl, rfl⟩ := is_iff.1 hso
  have hl : s.lists t = s.has t.socket.key t.socket.id := by
    rw [State.lists, ha, Bool.true_and]
  rw [← hl]
  cases hls : s.lists t with
  | true =>
    rw [hls] at hgo
    refine (hgo.send m).mono fun hst => ?_
    obtain ⟨-, x, hx, hsa⟩ := lists_iff.1 hst
    cases hm : m.isClose with
    | true => exact ((mem_send hx).2 hm hsa).elim
    | false => rfl
  | false =>
    rw [hls] at hgo
    refine (hgo.sendLate m).mono fun hst => ?_
    obtain ⟨-, x, hx, hsa⟩ := lists_iff.1 hst
    rw [← hls]
    exact lists_iff.2 ⟨ha, x, (mem_send hx).1, hsa⟩

theorem send (h : Delivers s) (key : ObjectKey) (id : Nat) (m : Outgoing) :
    Delivers (s.send key id m) := by
  refine h.mapped rfl (fun t => .ite (.send t _ m)) (fun t ht => ?_) fun t ht => ?_
  · rw [if_neg]
    rw [Task.is, ht, Bool.and_false]
    exact Bool.false_ne_true
  · have hgo := h.good t ht
    split
    next his =>
      exact good_send hgo his m
    · exact hgo.mono (lists_mono (fun x hx => (mem_send hx).1) t)

theorem close (h : Delivers s) (htb : Table s) (closing : Closing) :
    Delivers (s.close closing) := by
  refine h.mapped rfl (fun t => .ite (.push t _)) (fun t ht => ?_) fun t ht => ?_
  · rw [if_neg]
    rw [State.selects, ht, Bool.false_and]
    exact Bool.false_ne_true
  · have hgo := h.good t ht
    split
    next hse =>
      obtain ⟨ha, han⟩ := Bool.and_eq_true_iff.1 hse
      obtain ⟨x, hx, hw⟩ := any_eq_true.1 han
      obtain ⟨his, hw⟩ := Bool.and_eq_true_iff.1 hw
      have hl : s.lists t = true := lists_iff.2 ⟨ha, x, hx, his⟩
      rw [hl] at hgo
      refine (hgo.pushClose closing.code closing.reason).mono fun hst => ?_
      obtain ⟨-, y, hy, his'⟩ := lists_iff.1 hst
      obtain ⟨hy, ho⟩ := mem_filter.1 hy
      -- the object has one entry for the socket, and that is closed
      have hxy : y = x := by
        obtain ⟨hk, hid⟩ := is_iff.1 his
        exact htb.unique x hx y hy (by rw [hk, hid]; exact his')
      rw [hxy, hw] at ho
      exact ho
    · exact hgo.mono (lists_mono (fun x hx => (mem_filter.1 hx).1) t)

theorem forget (h : Delivers s) {point : Point} (hi : s.tasks[i]? = some t)
    (hp : t.afterForget = some point) : Delivers (s.forget i t point) := by
  obtain ⟨-, hac, hac', -, -, ha⟩ := afterForget_spec hp
  have hsu : ∀ x ∈ (s.forget i t point).sockets, x ∈ s.sockets :=
    fun x hx => (mem_filter.1 hx).1
  refine h.moved hi rfl rfl (fun ht => ?_) ?_ (fun ht' => ?_) fun j u _ _ => lists_mono hsu u
  · rw [ht] at hac
    cases hac
  · refine ((h.good t (mem_of_getElem? hi)).goto ha).mono fun hl => ?_
    obtain ⟨-, x, hx, his⟩ := lists_iff.1 hl
    exact lists_iff.2 ⟨hac, x, hsu x hx, his⟩
  · exact (Bool.false_ne_true (ht'.symm.trans hac')).elim

theorem changes (h : Delivers s) (htb : Table s) (hch : s.Changes r) : Delivers r := by
  cases hch with
  | accepts sock hf hfr => exact h.accept sock hfr _
  | inserts hi hp ha => exact h.insert hi hp ha
  | refuses hi hp =>
    refine h.ends hi rfl rfl ?_ ?_ ?_ <;> rw [hp]
    · exact ⟨fun _ => id, id, id, fun _ => id⟩
    · rfl
    · nofun
  | attaches key id => exact h.attach key id
  | sends key id m => exact h.send key id m
  | closes closing => exact h.close htb closing
  | @moves i t t' hi hm =>
    have hsa := hm.same
    refine h.moved hi rfl hsa.socket (fun ht => ?_) ?_ (fun ht' => ?_) fun _ _ _ _ hl =>
      hl
    · refine Point.eq_refused ?_ ?_
      · rw [hsa.accepted, ht]
        rfl
      · rw [hsa.holds, ht]
        rfl
    · refine ((h.good t (mem_of_getElem? hi)).moves hm).mono fun hl => ?_
      rw [State.lists, hsa.accepted, hsa.socket] at hl
      exact hl
    · exact ⟨hsa.accepted ▸ ht', hsa.sent, hsa.put⟩
  | forgets hi hp => exact h.forget hi hp
  | finishes hi hp =>
    refine h.ends hi rfl rfl ?_ ?_ ?_ <;> rw [hp]
    · exact ⟨fun _ => id, id, id, fun _ => id⟩
    · rfl
    · nofun
  | others => exact ⟨h.good, h.unused, h.distinct⟩

end Delivers

/-! ## The slots -/

/-- A task that has not ended has a slot, and one that has gave it back once. -/
structure Slots (capacity : ℕ) (s : State) : Prop where
  balance : s.available + s.others + s.tasks.countP (fun t => t.point.holds) = capacity
  returns : ∀ t ∈ s.tasks, t.returns = if t.point.holds then 0 else 1

namespace Slots

variable {capacity : ℕ} {s r : State}

theorem mapped (h : Slots capacity s) {f : Task → Task} (hts : r.tasks = s.tasks.map f)
    (hf : ∀ t : Task, t.Stays (f t))
    (ha : r.available = s.available) (ho : r.others = s.others) :
    Slots capacity r := by
  constructor
  · rw [ha, ho, hts, countP_map]
    simp only [comp_def, fun t => (hf t).point]
    exact h.balance
  · rw [hts]
    intro u hu
    obtain ⟨t, ht, rfl⟩ := mem_map.1 hu
    rw [(hf t).point, (hf t).returns]
    exact h.returns t ht

theorem moved (h : Slots capacity s) {i : ℕ} {t t' : Task} (hi : s.tasks[i]? = some t)
    (ht : r.tasks = s.tasks.set i t') (hh : t'.point.holds = t.point.holds)
    (hre : t'.returns = t.returns) (ha : r.available = s.available)
    (ho : r.others = s.others) : Slots capacity r := by
  constructor
  · have hse := total_set (fun t : Task => if t.point.holds then 1 else 0) (b := t') hi
    have hba := h.balance
    rw [countP_eq_total] at hba
    rw [ha, ho, ht, countP_eq_total]
    simp only [hh] at hse
    omega
  · rw [ht]
    refine forall_mem_set h.returns ?_
    rw [hh, hre]
    exact h.returns t (mem_of_getElem? hi)

theorem returned (h : Slots capacity s) {i : ℕ} {t t' : Task} (hi : s.tasks[i]? = some t)
    (ht : r.tasks = s.tasks.set i t') (hh : t.point.holds) (hhl : t'.point.holds = false)
    (hre : t'.returns = t.returns + 1) (ha : r.available = s.available + 1)
    (ho : r.others = s.others) : Slots capacity r := by
  constructor
  · have hse := total_set (fun t : Task => if t.point.holds then 1 else 0) (b := t') hi
    have hba := h.balance
    rw [countP_eq_total] at hba
    rw [ha, ho, ht, countP_eq_total]
    simp only [hh, hhl, if_true, Bool.false_eq_true, if_false] at hse
    omega
  · rw [ht]
    refine forall_mem_set h.returns ?_
    rw [hre, h.returns t (mem_of_getElem? hi), hh, hhl]
    rfl

theorem changes (h : Slots capacity s) (hch : s.Changes r) : Slots capacity r := by
  cases hch with
  | accepts sock hf =>
    constructor
    · have hba := h.balance
      show s.available - 1 + s.others + (s.tasks ++ [Task.start sock]).countP _ = capacity
      rw [countP_append]
      show s.available - 1 + s.others + (s.tasks.countP _ + 1) = capacity
      omega
    · intro t ht
      rcases mem_append.1 ht with ht | ht
      · exact h.returns t ht
      · rw [mem_singleton.1 ht]
        rfl
  | inserts hi hp =>
    refine h.moved hi rfl ?_ rfl rfl rfl
    rw [hp]
    rfl
  | refuses hi hp => exact h.returned hi rfl (by rw [hp]; rfl) rfl rfl rfl rfl
  | attaches key id => exact h.mapped rfl (fun t => .ite ⟨rfl, rfl, rfl⟩) rfl rfl
  | sends key id m => exact h.mapped rfl (fun t => .ite (.send t _ m)) rfl rfl
  | closes closing => exact h.mapped rfl (fun t => .ite (.push t _)) rfl rfl
  | moves hi hm => exact h.moved hi rfl hm.same.holds hm.same.returns rfl rfl
  | forgets hi hp =>
    obtain ⟨-, -, -, hh, hh', -⟩ := afterForget_spec hp
    exact h.moved hi rfl (hh'.trans hh.symm) rfl rfl rfl
  | finishes hi hp => exact h.returned hi rfl (by rw [hp]; rfl) rfl rfl rfl rfl
  | others hsu =>
    refine ⟨?_, h.returns⟩
    rw [hsu]
    exact h.balance

end Slots

/-! ## The sockets -/

structure Inv (capacity : ℕ) (s : State) : Prop where
  table : Table s
  delivers : Delivers s
  slots : Slots capacity s

theorem inv_of_reach {capacity : ℕ} (hs : (machine capacity).Reach State.Fresh s) :
    Inv capacity s := by
  refine hs.invariant (I := Inv capacity) ?_ fun s a r _ h hf hst => ?_
  · refine ⟨.init capacity, ⟨?_, ?_, ?_⟩, ⟨rfl, ?_⟩⟩
    · exact fun _ ht => (not_mem_nil ht).elim
    · exact fun _ ht => (not_mem_nil ht).elim
    · exact fun i _ _ _ hi => (not_mem_nil (mem_of_getElem? hi)).elim
    · exact fun _ ht => (not_mem_nil ht).elim
  · rcases State.step_changes hf hst with hch | rfl
    · exact ⟨h.table.changes hch, h.delivers.changes h.table hch, h.slots.changes hch⟩
    · exact h

/-- **What the sockets of Durable Objects do**, however accepts, responses, messages of the objects,
closes, frames of the clients and timeouts interleave, if no object accepts a socket twice:

* the client of an accepted socket gets a start of what the object sent on it, in order, perhaps
  with one close of the runner at its end, and nothing after a close;
* the object gets a start of what the client sent, in order, perhaps with one `Closed` of the runner
  at its end, and nothing after a `Closed` or an `Error`;
* each call of `accept` that got a slot has one until it is refused or its task has ended, and has
  then given it back once;
* when all tasks have ended, `SOCKETS` has no entry and no map. -/
theorem sockets_delivered {capacity : ℕ} {s : State} (hs : (machine capacity).Reach State.Fresh s) :
    (∀ t ∈ s.tasks, t.point.accepted → Stream t.sent t.forwarded ∧ Heard t.came t.events) ∧
    (s.available + s.others + s.tasks.countP (fun t => t.point.holds) = capacity ∧
      ∀ t ∈ s.tasks, t.returns = if t.point.holds then 0 else 1) ∧
    ((∀ t ∈ s.tasks, t.point.accepted → t.point = .ended) →
      s.sockets = [] ∧ ∀ key, s.present key = false) := by
  have h := inv_of_reach hs
  refine ⟨fun t ht _ => ?_, ⟨h.slots.balance, h.slots.returns⟩, fun hend => ?_⟩
  · exact ⟨(h.delivers.good t ht).forwarded, (h.delivers.good t ht).heard⟩
  · have hnone : ∀ t ∈ s.tasks, t.point.forgets = false := by
      intro t ht
      by_contra hforgets
      rw [Bool.not_eq_false] at hforgets
      have hpt := hend t ht (Point.accepted_of_forgets hforgets)
      rw [hpt] at hforgets
      cases hforgets
    constructor
    · refine eq_nil_iff_forall_not_mem.mpr fun x hx => ?_
      obtain ⟨t, ht, -, hforgets⟩ := h.table.owner x hx
      exact Bool.false_ne_true ((hnone t ht).symm.trans hforgets)
    · intro key
      by_contra hkey
      rw [Bool.not_eq_false] at hkey
      obtain ⟨t, ht, -, hforgets⟩ := h.table.kept key hkey
      exact Bool.false_ne_true ((hnone t ht).symm.trans hforgets)

def State.isFresh (s : State) : Act → Bool
  | .accept key id _ _ _ => s.tasks.all fun t => !t.socket.is key id || t.point = .refused
  | _ => true

theorem fresh_of_isFresh {a : Act} (h : s.isFresh a = true) : s.Fresh a := by
  cases a with
  | accept key id tags hibernatable acceptedBy =>
    intro t ht his
    have := all_eq_true.1 h t ht
    rw [his] at this
    exact of_decide_eq_true this
  | insert | attach | send | close | task | forget | finish | otherTakes | otherGives => trivial

/-- A text of the object waits for the client, a text of the client reaches the object, and then the
instance of the object ends. -/
def instanceRun (key : ObjectKey) (text : Outgoing) : List Act :=
  [Act.accept key 1 [] false 0, .insert 0, .send key 1 text, .task 0 .takeOut, .attach key 1,
    .task 0 (.connect true), .task 0 .flush, .task 0 .flush, .task 0 (.clientSends (.text [104])),
    .task 0 .receive, .task 0 (.deliver (.ok ())), .close (.instanceEnded key), .task 0 .takeOut,
    .forget 0, .finish 0]

theorem sockets_delivered_instance :
    ∃ s t, (machine 1).Reach State.Fresh s ∧ s.tasks = [t] ∧
      t.forwarded = [(.object, .text ⟨[105], by decide⟩),
        (.runner, .close 1011 "the Durable Object stopped")] ∧
      Stream t.sent t.forwarded ∧ Heard t.came t.events ∧ t.events = [.text [104]] ∧
      t.returns = 1 ∧ s.available = 1 ∧ s.sockets = [] ∧ ∀ key, s.present key = false := by
  have hok : ∀ r a, (machine 1).Reach State.Fresh r → r.isFresh a = true → State.Fresh r a :=
    fun _ _ _ => fresh_of_isFresh
  obtain ⟨s, hs, hav, t, ht, htask, hpt, hevents, hret, hforward⟩ :=
      Machine.exists_reach_of_runIf State.isFresh hok
    (instanceRun ⟨"rooms", "lobby"⟩ (.text ⟨[105], by decide⟩))
    (fun s => s.available = 1 ∧ ∃ t ∈ s.tasks, s.tasks = [t] ∧ t.point = .ended ∧
      t.events = [.text [104]] ∧ t.returns = 1 ∧
      t.forwarded = [(.object, .text ⟨[105], by decide⟩),
        (.runner, .close 1011 "the Durable Object stopped")])
    (by decide)
  obtain ⟨hmessage, -, hempty⟩ := sockets_delivered hs
  obtain ⟨hstr, hhears⟩ := hmessage t ht (by rw [hpt]; rfl)
  obtain ⟨hsockets, hpresent⟩ := hempty fun u hu _ => by
    rw [htask] at hu
    rw [mem_singleton.mp hu, hpt]
  exact ⟨s, t, hs, htask, hforward, hstr, hhears, hevents, hret, hav, hsockets, hpresent⟩

end OpenWorkersRunner.Durable.SocketTasks
