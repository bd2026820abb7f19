import OpenWorkersRunner.Ingress.Pipe
import OpenWorkersRunner.Durable.Sockets

/-!
# The task of one socket of a Durable Object (`run` of `src/durable/sockets.rs`)

The task moves the messages of one socket.  Before the client is there it keeps what the object
sends; then it sends that to the client, and from then on takes turns between what the object sends
and what the client sends, until one of them ends the socket.
-/

namespace OpenWorkersRunner.Durable.SocketTasks

open List Option

open Sockets (Socket)
open WebSocket (Outgoing Incoming maxQueuedBytes)

/-! ## Messages -/

inductive Maker
  | object
  | runner
deriving DecidableEq

abbrev Sent := Maker × Outgoing

def Sent.isClose (m : Sent) : Bool := m.2.isClose

def outgoingBytes : Outgoing → ℕ
  | .text payload | .binary payload => payload.data.length
  | .close _ _ => 0

def incomingBytes : Incoming → ℕ
  | .text data | .binary data => data.length % 2 ^ 32
  | .closed _ _ | .error _ => 0

def notReading : String := "The client does not read fast enough"

def notTaking : String := "The object does not take the messages fast enough"

/-! ## The task -/

inductive Point
  | accepting
  | refused
  | waiting (held : List Sent) (bytes : ℕ) (reads : Bool)
  | overfull (forgot : Bool)
  | unattached
  | flushing (rest : List Sent)
  | flushed
  | running
  | crowded (forgot : Bool)
  | received (incoming : Incoming)
  | delivering (incoming : Incoming)
  | lost (reason : String)
  | leaving
  | returning
  | ended
deriving DecidableEq

namespace Point

def accepted : Point → Bool
  | accepting | refused => false
  | _ => true

def forgets : Point → Bool
  | accepting | refused | overfull true | returning | ended => false
  | _ => true

def holds : Point → Bool
  | refused | ended => false
  | _ => true

theorem accepted_of_forgets {p : Point} (h : p.forgets) : p.accepted := by
  cases p <;> first | rfl | exact (Bool.false_ne_true h).elim

theorem eq_refused {p : Point} (ha : p.accepted = false) (hh : p.holds = false) :
    p = refused := by
  cases p <;> first | rfl | exact (Bool.false_ne_true ha.symm).elim |
    exact (Bool.false_ne_true hh.symm).elim

end Point

structure Task where
  socket : Socket
  point : Point
  out : List Sent
  upgraded : Bool
  inbox : List Incoming
  gone : Bool
  unread : ℕ
  lent : List ℕ
  sent : List Outgoing
  put : List Sent
  forwarded : List Sent
  came : List Incoming
  events : List Incoming
  returns : ℕ
deriving DecidableEq

inductive TaskAct
  | connect (ok : Bool)
  | deadline
  | takeOut
  | outClosed
  | flush
  | clientSends (incoming : Incoming)
  | clientGoes
  | receive
  | deliver (result : Except String Unit)
  | closeClient
  | release (bytes : ℕ)
deriving DecidableEq

namespace Task

def start (socket : Socket) : Task :=
  ⟨socket, .accepting, [], false, [], false, maxQueuedBytes, [], [], [], [], [], [], 0⟩

def is (key : ObjectKey) (id : Nat) (t : Task) : Bool := t.socket.is key id && t.point.accepted

def push (t : Task) (m : Sent) : Task := { t with out := t.out ++ [m], put := t.put ++ [m] }

def forward (t : Task) (m : Sent) (point : Point) : Task :=
  { t with forwarded := t.forwarded ++ [m], point := point }

def tell (t : Task) (incoming : Incoming) (result : Except String Unit) : Task :=
  match result with
  | .ok _ => { t with events := t.events ++ [incoming] }
  | .error _ => t

def keep (t : Task) (held : List Sent) (bytes : ℕ) (m : Sent) (rest : List Sent) : Task :=
  let bytes := bytes + outgoingBytes m.2
  { t with
    out := rest
    point := if maxQueuedBytes < bytes then .overfull false else .waiting (held ++ [m]) bytes true }

def receive (t : Task) (incoming : Incoming) (rest : List Incoming) : Task :=
  if incomingBytes incoming ≤ t.unread then
    { t with
      inbox := rest
      unread := t.unread - incomingBytes incoming
      point := if incoming.isLast then .received incoming else .delivering incoming }
  else { t with inbox := rest, point := .crowded false }

def deliver (t : Task) (incoming : Incoming) : Except String Unit → Task
  | .ok _ => { t with
      events := t.events ++ [incoming]
      lent := t.lent ++ [incomingBytes incoming]
      point := if incoming.isLast then .leaving else .running }
  | .error reason => { t with
      unread := t.unread + incomingBytes incoming
      point := .lost (String.ofList (reason.toList.take 120)) }

def step (listed : Bool) (t : Task) : TaskAct → Option Task
  | .connect ok =>
    match t.point with
    | .waiting held _ _ =>
      if ok then if t.upgraded then some { t with point := .flushing held } else none
      else if t.upgraded || !listed then some { t with point := .unattached } else none
    | _ => none
  | .deadline =>
    match t.point with
    | .waiting _ _ _ => some { t with point := .unattached }
    | _ => none
  | .takeOut =>
    match t.point, t.out with
    | .waiting held bytes true, m :: rest => some (t.keep held bytes m rest)
    | .running, m :: rest =>
      some ({ t with out := rest }.forward m (if m.isClose then .leaving else .running))
    | _, _ => none
  | .outClosed =>
    if t.out = [] ∧ listed = false then
      match t.point with
      | .waiting held bytes true => some { t with point := .waiting held bytes false }
      | .running => some { t with point := .leaving }
      | _ => none
    else none
  | .flush =>
    match t.point with
    | .flushing [] => some { t with point := .running }
    | .flushing (m :: rest) => some (t.forward m (if m.isClose then .flushed else .flushing rest))
    | _ => none
  | .clientSends incoming =>
    if t.upgraded ∧ t.gone = false then
      some { t with inbox := t.inbox ++ [incoming], came := t.came ++ [incoming] }
    else none
  | .clientGoes => some { t with gone := true }
  | .receive =>
    match t.point, t.inbox with
    | .running, incoming :: rest => some (t.receive incoming rest)
    | .running, [] => if t.gone then some (t.receive (.closed 1006 "") []) else none
    | _, _ => none
  | .deliver result =>
    match t.point with
    | .overfull true => some ({ t with point := .returning }.tell (.closed 1008 notReading) result)
    | .crowded true =>
      -- the client hears of it first
      some ((t.forward (.runner, .close 1008 notTaking) .leaving).tell (.closed 1008 notTaking)
        result)
    | .delivering incoming => some (t.deliver incoming result)
    | _ => none
  | .closeClient =>
    match t.point with
    | .lost reason => some (t.forward (.runner, .close 1013 reason) .leaving)
    | _ => none
  | .release bytes =>
    if bytes ∈ t.lent then
      some { t with lent := t.lent.erase bytes, unread := t.unread + bytes }
    else none

def afterForget (t : Task) : Option Point :=
  match t.point with
  | .overfull false => some (.overfull true)
  | .unattached | .flushed | .leaving => some .returning
  | .crowded false => some (.crowded true)
  | .received incoming => some (.delivering incoming)
  | _ => none

end Task

/-! ## What a step does -/

namespace Task

inductive Moves (t : Task) : Task → Prop
  | connected {held : List Sent} {bytes : ℕ} {reads : Bool}
      (hpoint : t.point = .waiting held bytes reads) : Moves t { t with point := .flushing held }
  | unattached {held : List Sent} {bytes : ℕ} {reads : Bool}
      (hpoint : t.point = .waiting held bytes reads) : Moves t { t with point := .unattached }
  | keeps {held rest : List Sent} {bytes : ℕ} {m : Sent}
      (hpoint : t.point = .waiting held bytes true) (hout : t.out = m :: rest) :
      Moves t (t.keep held bytes m rest)
  | stopsReading {held : List Sent} {bytes : ℕ} (hpoint : t.point = .waiting held bytes true) :
      Moves t { t with point := .waiting held bytes false }
  | starts (hpoint : t.point = .flushing []) : Moves t { t with point := .running }
  | flushes {m : Sent} {rest : List Sent} (hpoint : t.point = .flushing (m :: rest)) :
      Moves t (t.forward m (if m.isClose then .flushed else .flushing rest))
  | forwards {m : Sent} {rest : List Sent} (hpoint : t.point = .running)
      (hout : t.out = m :: rest) :
      Moves t ({ t with out := rest }.forward m (if m.isClose then .leaving else .running))
  | leaves (hpoint : t.point = .running) : Moves t { t with point := .leaving }
  | clientSends (incoming : Incoming) :
      Moves t { t with inbox := t.inbox ++ [incoming], came := t.came ++ [incoming] }
  | clientGoes : Moves t { t with gone := true }
  | receives {incoming : Incoming} {rest : List Incoming} (hpoint : t.point = .running)
      (hcame : t.inbox = incoming :: rest ∨
        t.inbox = [] ∧ rest = [] ∧ ∃ code reason, incoming = .closed code reason) :
      Moves t (t.receive incoming rest)
  | overfull (hpoint : t.point = .overfull true) (result : Except String Unit) :
      Moves t ({ t with point := .returning }.tell (.closed 1008 notReading) result)
  | crowded (hpoint : t.point = .crowded true) (result : Except String Unit) :
      Moves t ((t.forward (.runner, .close 1008 notTaking) .leaving).tell (.closed 1008 notTaking)
        result)
  | delivers {incoming : Incoming} (hpoint : t.point = .delivering incoming)
      (result : Except String Unit) : Moves t (t.deliver incoming result)
  | closes {reason : String} (hpoint : t.point = .lost reason) :
      Moves t (t.forward (.runner, .close 1013 reason) .leaving)
  | releases (lent : List ℕ) (unread : ℕ) : Moves t { t with lent := lent, unread := unread }

variable {t t' : Task}

theorem step_moves {listed : Bool} {a : TaskAct} (h : t.step listed a = some t') : t.Moves t' := by
  cases a with
  | connect ok =>
    simp only [step] at h
    split at h
    · split at h
      · obtain ⟨-, ⟨⟩⟩ := ite_none_right_eq_some.1 h
        exact .connected ‹_›
      · obtain ⟨-, ⟨⟩⟩ := ite_none_right_eq_some.1 h
        exact .unattached ‹_›
    · cases h
  | deadline =>
    simp only [step] at h
    split at h
    · cases h; exact .unattached ‹_›
    · cases h
  | takeOut =>
    simp only [step] at h
    split at h
    · cases h; exact .keeps ‹_› ‹_›
    · cases h; exact .forwards ‹_› ‹_›
    · cases h
  | outClosed =>
    obtain ⟨-, h⟩ := ite_none_right_eq_some.1 h
    split at h
    · cases h; exact .stopsReading ‹_›
    · cases h; exact .leaves ‹_›
    · cases h
  | flush =>
    simp only [step] at h
    split at h
    · cases h; exact .starts ‹_›
    · cases h; exact .flushes ‹_›
    · cases h
  | clientSends incoming =>
    obtain ⟨-, ⟨⟩⟩ := ite_none_right_eq_some.1 h
    exact .clientSends incoming
  | clientGoes => cases h; exact .clientGoes
  | receive =>
    simp only [step] at h
    split at h
    · cases h; exact .receives ‹_› (.inl ‹_›)
    · obtain ⟨-, ⟨⟩⟩ := ite_none_right_eq_some.1 h
      exact .receives ‹_› (.inr ⟨‹_›, rfl, _, _, rfl⟩)
    · cases h
  | deliver res =>
    simp only [step] at h
    split at h
    · cases h; exact .overfull ‹_› res
    · cases h; exact .crowded ‹_› res
    · cases h; exact .delivers ‹_› res
    · cases h
  | closeClient =>
    simp only [step] at h
    split at h
    · cases h; exact .closes ‹_›
    · cases h
  | release bs =>
    obtain ⟨-, ⟨⟩⟩ := ite_none_right_eq_some.1 h
    exact .releases _ _

/-- Nothing that others see of the task is changed: which socket it is of, what was sent on it,
whether it is to forget it, and its slot. -/
structure Same (t t' : Task) : Prop where
  socket : t'.socket = t.socket
  sent : t'.sent = t.sent
  put : t'.put = t.put
  accepted : t'.point.accepted = t.point.accepted
  forgets : t'.point.forgets = t.point.forgets
  holds : t'.point.holds = t.point.holds
  returns : t'.returns = t.returns

theorem Moves.same (h : t.Moves t') : t.Same t' := by
  cases h with
  | clientSends | clientGoes | releases => exact ⟨rfl, rfl, rfl, rfl, rfl, rfl, rfl⟩
  | connected hp | unattached hp | stopsReading hp | starts hp | leaves hp
  | closes hp =>
    refine ⟨rfl, rfl, rfl, ?_, ?_, ?_, rfl⟩ <;> rw [hp] <;> rfl
  | @keeps held rest bs m hp =>
    refine ⟨rfl, rfl, rfl, ?_, ?_, ?_, rfl⟩ <;> rw [hp] <;> simp only [keep] <;> split <;> rfl
  | @flushes m rest hp | @forwards m rest hp =>
    refine ⟨rfl, rfl, rfl, ?_, ?_, ?_, rfl⟩ <;> rw [hp, forward] <;> dsimp only <;> split <;>
      rfl
  | @receives incoming rest hp =>
    rw [receive]
    split
    · refine ⟨rfl, rfl, rfl, ?_, ?_, ?_, rfl⟩ <;> rw [hp] <;> dsimp only <;> split <;> rfl
    · refine ⟨rfl, rfl, rfl, ?_, ?_, ?_, rfl⟩ <;> rw [hp] <;> rfl
  | overfull hp res | crowded hp res =>
    cases res <;> refine ⟨rfl, rfl, rfl, ?_, ?_, ?_, rfl⟩ <;> rw [hp] <;> rfl
  | @delivers incoming hp res =>
    cases res with
    | ok _ =>
      refine ⟨rfl, rfl, rfl, ?_, ?_, ?_, rfl⟩ <;> rw [hp, deliver] <;> dsimp only <;> split <;>
        rfl
    | error _ => refine ⟨rfl, rfl, rfl, ?_, ?_, ?_, rfl⟩ <;> rw [hp] <;> rfl

end Task

/-! ## What goes to the client, and what comes from it -/

/-- A start of what the object sent, perhaps with one close of the runner, and nothing after a
close. -/
def Stream (sent : List Outgoing) (messages : List Sent) : Prop :=
  ∃ own tail, messages = own.map (Prod.mk .object) ++ tail ∧ own <+: sent ∧
    (tail = [] ∨ ∃ code reason, tail = [(.runner, .close code reason)]) ∧
    ∀ m ∈ messages.dropLast, m.isClose = false

/-- A start of what the client sent, perhaps with one `Closed` of the runner, and nothing after a
`Closed` or an `Error`. -/
def Heard (came events : List Incoming) : Prop :=
  ∃ own tail, events = own ++ tail ∧ own <+: came ∧
    (tail = [] ∨ ∃ code reason, tail = [.closed code reason]) ∧
    ∀ e ∈ events.dropLast, e.isLast = false

theorem dropLast_isPrefix {α : Type} {xs ys : List α} (h : ys <+: xs) :
    ys.dropLast <+: xs.dropLast := by
  rcases eq_nil_or_concat' xs with rfl | ⟨zs, a, rfl⟩
  · rw [prefix_nil.1 h]
  · rcases prefix_concat_iff.1 h with rfl | h
    · exact prefix_rfl
    · rw [dropLast_concat]
      exact ( dropLast_prefix ys).trans h

namespace Stream

variable {sent : List Outgoing} {messages : List Sent}

theorem sends (m : Outgoing) (h : ∀ m ∈ sent, m.isClose = false) :
    Stream (sent ++ [m]) ((sent ++ [m]).map (Prod.mk .object)) := by
  refine ⟨sent ++ [m], [], (append_nil _).symm, prefix_rfl, .inl rfl, fun x hx => ?_⟩
  rw [map_append, map_singleton, dropLast_concat] at hx
  obtain ⟨y, hy, rfl⟩ := mem_map.1 hx
  exact h y hy

theorem mono (h : Stream sent messages) (m : Outgoing) : Stream (sent ++ [m]) messages := by
  obtain ⟨own, tail, heq, ho, ht, hl⟩ := h
  exact ⟨own, tail, heq, ho.trans (prefix_append _ _), ht, hl⟩

theorem of_prefix (h : Stream sent messages) {start : List Sent} (hst : start <+: messages) :
    Stream sent start := by
  obtain ⟨own, tail, heq, ho, ht, hl⟩ := h
  have hbe : ∀ m ∈ start.dropLast, m.isClose = false :=
    fun m hm => hl m ((dropLast_isPrefix hst).subset hm)
  -- the close of the runner is in it, or it is of the object alone
  have hca : start = messages ∨ start <+: own.map (Prod.mk Maker.object) := by
    rcases ht with rfl | ⟨code, reason, rfl⟩
    · rw [append_nil] at heq
      exact .inr (heq ▸ hst)
    · exact heq ▸ prefix_concat_iff.1 (heq ▸ hst)
  rcases hca with rfl | hst
  · exact ⟨own, tail, heq, ho, ht, hl⟩
  · obtain ⟨own', ho', rfl⟩ := prefix_map_iff.1 hst
    exact ⟨own', [], (append_nil _).symm, ho'.trans ho, .inl rfl, hbe⟩

theorem close (h : Stream sent messages) (ho : ∀ m ∈ messages, m.isClose = false)
    (code : UInt16) (reason : String) :
    Stream sent (messages ++ [(.runner, .close code reason)]) := by
  obtain ⟨own, tail, heq, hown, ht, -⟩ := h
  have hn : tail = [] := by
    rcases ht with hn | ⟨code', reason', rfl⟩
    · exact hn
    · have := ho (.runner, .close code' reason') (by rw [heq]; simp)
      cases this
  rw [hn, append_nil] at heq
  refine ⟨own, [(.runner, .close code reason)], by rw [heq], hown, .inr ⟨code, reason, rfl⟩, ?_⟩
  rw [dropLast_concat]
  exact ho

end Stream

namespace Heard

variable {came events : List Incoming}

theorem of_frames (h : events <+: came) (hf : ∀ e ∈ events, e.isLast = false) :
    Heard came events :=
  ⟨events, [], (append_nil _).symm, h, .inl rfl, fun e he => hf e (dropLast_subset _ he)⟩

theorem mono (h : Heard came events) (e : Incoming) : Heard (came ++ [e]) events := by
  obtain ⟨own, tail, heq, ho, ht, hl⟩ := h
  exact ⟨own, tail, heq, ho.trans (prefix_append _ _), ht, hl⟩

theorem next {rest : List Incoming} {e : Incoming} (h : came = events ++ e :: rest)
    (hf : ∀ e ∈ events, e.isLast = false) : Heard came (events ++ [e]) := by
  refine ⟨events ++ [e], [], (append_nil _).symm, ⟨rest, ?_⟩, .inl rfl, ?_⟩
  · rw [h, append_assoc]
    rfl
  · rw [dropLast_concat]
    exact hf

theorem closed (h : events <+: came) (hf : ∀ e ∈ events, e.isLast = false) (code : UInt16)
    (reason : String) : Heard came (events ++ [.closed code reason]) := by
  refine ⟨events, [.closed code reason], rfl, h, .inr ⟨code, reason, rfl⟩, ?_⟩
  rw [dropLast_concat]
  exact hf

end Heard

/-! ## The messages of a task -/

namespace Point

def held : Point → Option (List Sent)
  | waiting held _ _ => some held
  | flushing rest => some rest
  | accepting | refused | running | crowded _ | received _ | delivering _ | lost _ => some []
  | overfull _ | unattached | flushed | leaving | returning | ended => none

def caughtUp : Point → Bool
  | accepting | refused | waiting _ _ _ | flushing _ | running => true
  | _ => false

def talks : Point → Bool
  | accepting | refused | waiting _ _ _ | flushing _ | running | overfull _ | crowded _
  | received _ | delivering _ => true
  | unattached | flushed | lost _ | leaving | returning | ended => false

def inHand : Point → Option Incoming
  | received incoming | delivering incoming => some incoming
  | _ => none

end Point

/-- Where the messages of a task are.  `listed` is whether the socket is in the table. -/
structure Task.Good (listed : Bool) (t : Task) : Prop where
  listed : listed → t.put = t.sent.map (Prod.mk .object) ∧ ∀ m ∈ t.sent, m.isClose = false
  put : Stream t.sent t.put
  held : ∀ held, t.point.held = some held →
    t.put = t.forwarded ++ held ++ t.out ∧ ∀ m ∈ t.forwarded, m.isClose = false
  forwarded : Stream t.sent t.forwarded
  caughtUp : t.point.caughtUp → t.came = t.events ++ t.inbox
  talks : t.point.talks → t.events <+: t.came ∧ ∀ e ∈ t.events, e.isLast = false
  inHand : ∀ e, t.point.inHand = some e →
    (e.isLast = false → t.came = t.events ++ e :: t.inbox) ∧ Heard t.came (t.events ++ [e])
  heard : Heard t.came t.events

structure Point.Asks (p q : Point) : Prop where
  held : ∀ held, p.held = some held → q.held = some held
  caughtUp : p.caughtUp → q.caughtUp
  talks : p.talks → q.talks
  inHand : ∀ e, p.inHand = some e → q.inHand = some e

namespace Task.Good

variable {listed : Bool} {t t' : Task}

theorem start (sock : Socket) : (Task.start sock).Good false := by
  have hst : Stream [] [] := ⟨[], [], rfl, prefix_rfl, .inl rfl, by simp⟩
  have hh : Heard [] [] := .of_frames prefix_rfl (by simp)
  refine ⟨fun h => (Bool.false_ne_true h).elim, hst, fun held h => ?_, hst, fun _ => rfl,
    fun _ => ⟨prefix_rfl, by simp [Task.start]⟩,
    fun e h => (some_ne_none e h.symm).elim, hh⟩
  cases h
  exact ⟨rfl, by simp [Task.start]⟩

theorem mono (h : t.Good listed) {listed' : Bool} (hle : listed' → listed) : t.Good listed' :=
  { h with listed := fun hl => h.listed (hle hl) }

theorem goto (h : t.Good listed) {point : Point} {returns : ℕ} (hp : point.Asks t.point) :
    Good listed { t with point := point, returns := returns } where
  listed := h.listed
  put := h.put
  held held hh := h.held held (hp.held held hh)
  forwarded := h.forwarded
  caughtUp hc := h.caughtUp (hp.caughtUp hc)
  talks ht := h.talks (hp.talks ht)
  inHand e he := h.inHand e (hp.inHand e he)
  heard := h.heard

theorem forward (h : t.Good listed) {m : Sent} {held out : List Sent} {point : Point}
    (hp : t.put = t.forwarded ++ m :: held ++ out)
    (ho : ∀ m ∈ t.forwarded, m.isClose = false)
    (hh : ∀ held', point.held = some held' → held' = held ∧ m.isClose = false)
    (hca : point.caughtUp → t.point.caughtUp) (hta : point.talks → t.point.talks)
    (hin : point.inHand = none) : Good listed ({ t with out := out }.forward m point) := by
  have hp' : t.put = t.forwarded ++ [m] ++ held ++ out := by
    rw [hp, append_assoc _ [m] held]
    rfl
  have hst : t.forwarded ++ [m] <+: t.put := by
    rw [hp', append_assoc]
    exact prefix_append _ _
  refine ⟨h.listed, h.put, fun held' hpt => ?_, h.put.of_prefix hst,
    fun hc => h.caughtUp (hca hc), fun ht => h.talks (hta ht), fun e he => ?_, h.heard⟩
  · obtain ⟨rfl, hm⟩ := hh held' hpt
    refine ⟨hp', fun x hx => ?_⟩
    rcases mem_append.1 hx with hx | hx
    · exact ho x hx
    · rw [mem_singleton.1 hx]
      exact hm
  · exact (some_ne_none e (he.symm.trans hin)).elim

theorem closeClient (h : t.Good listed) (ho : ∀ m ∈ t.forwarded, m.isClose = false)
    (code : UInt16) (reason : String) :
    Good listed (t.forward (.runner, .close code reason) .leaving) where
  listed := h.listed
  put := h.put
  held _ hh := (some_ne_none _ hh.symm).elim
  forwarded := h.forwarded.close ho code reason
  caughtUp hc := (Bool.false_ne_true hc).elim
  talks ht := (Bool.false_ne_true ht).elim
  inHand _ he := (some_ne_none _ he.symm).elim
  heard := h.heard

theorem tell (h : t.Good listed) (hev : t.events <+: t.came)
    (hf : ∀ e ∈ t.events, e.isLast = false) (hca : t.point.caughtUp = false)
    (hta : t.point.talks = false) (hin : t.point.inHand = none) (code : UInt16)
    (reason : String) (res : Except String Unit) :
    Good listed (t.tell (.closed code reason) res) := by
  cases res with
  | error _ => exact h
  | ok _ =>
    exact ⟨h.listed, h.put, h.held, h.forwarded, fun hc => (Bool.false_ne_true (hca ▸ hc)).elim,
      fun ht => (Bool.false_ne_true (hta ▸ ht)).elim,
      fun e he => (some_ne_none e (he.symm.trans hin)).elim,
      .closed hev hf code reason⟩

theorem keep (h : t.Good listed) {held rest : List Sent} {bs : ℕ} {reads : Bool} {m : Sent}
    (hpt : t.point = .waiting held bs reads) (hou : t.out = m :: rest) :
    Good listed (t.keep held bs m rest) := by
  obtain ⟨hp, ho⟩ := h.held held (by rw [hpt]; rfl)
  have hca := h.caughtUp (by rw [hpt]; rfl)
  have ht := h.talks (by rw [hpt]; rfl)
  refine ⟨h.listed, h.put, fun held' hh => ?_, h.forwarded, fun _ => hca, fun _ => ht,
    fun e he => ?_, h.heard⟩
  · simp only [Task.keep] at hh ⊢
    split at hh
    · cases hh
    · cases hh
      refine ⟨?_, ho⟩
      rw [hp, hou, ← append_assoc, append_assoc _ [m] rest]
      rfl
  · simp only [Task.keep] at he
    split at he <;> cases he

theorem receive (h : t.Good listed) (hpt : t.point = .running) {incoming : Incoming}
    {rest : List Incoming}
    (hca : t.inbox = incoming :: rest ∨
      t.inbox = [] ∧ rest = [] ∧ ∃ code reason, incoming = .closed code reason) :
    Good listed (t.receive incoming rest) := by
  obtain ⟨hp, ho⟩ := h.held [] (by rw [hpt]; rfl)
  obtain ⟨hev, hf⟩ := h.talks (by rw [hpt]; rfl)
  have hre := h.caughtUp (by rw [hpt]; rfl)
  have hn : (incoming.isLast = false → t.came = t.events ++ incoming :: rest) ∧
      Heard t.came (t.events ++ [incoming]) := by
    rcases hca with hin | ⟨-, -, code, reason, rfl⟩
    · rw [hin] at hre
      exact ⟨fun _ => hre, .next hre hf⟩
    · exact ⟨nofun, .closed hev hf code reason⟩
  rw [Task.receive]
  split
  · refine ⟨h.listed, h.put, fun held hh => ?_, h.forwarded, fun hc => ?_,
      fun _ => ⟨hev, hf⟩, fun e he => ?_, h.heard⟩
    · dsimp only at hh
      split at hh <;> cases hh <;> exact ⟨hp, ho⟩
    · dsimp only at hc
      split at hc <;> cases hc
    · dsimp only at he
      split at he <;> cases he <;> exact hn
  · refine ⟨h.listed, h.put, fun held hh => ?_, h.forwarded,
      fun hc => (Bool.false_ne_true hc).elim, fun _ => ⟨hev, hf⟩,
      fun e he => (some_ne_none _ he.symm).elim, h.heard⟩
    cases hh
    exact ⟨hp, ho⟩

theorem deliver (h : t.Good listed) {incoming : Incoming}
    (hpt : t.point = .delivering incoming) (res : Except String Unit) :
    Good listed (t.deliver incoming res) := by
  obtain ⟨hp, ho⟩ := h.held [] (by rw [hpt]; rfl)
  obtain ⟨hev, hf⟩ := h.talks (by rw [hpt]; rfl)
  obtain ⟨hn, hhe⟩ := h.inHand incoming (by rw [hpt]; rfl)
  cases res with
  | error reason =>
    refine ⟨h.listed, h.put, fun held hh => ?_, h.forwarded,
      fun hc => (Bool.false_ne_true hc).elim, fun ht => (Bool.false_ne_true ht).elim,
      fun e he => (some_ne_none _ he.symm).elim, h.heard⟩
    cases hh
    exact ⟨hp, ho⟩
  | ok _ =>
    cases hl : incoming.isLast with
    | true =>
      simp only [Task.deliver, hl, if_true]
      exact ⟨h.listed, h.put, fun held hh => (some_ne_none _ hh.symm).elim,
        h.forwarded, fun hc => (Bool.false_ne_true hc).elim,
        fun ht => (Bool.false_ne_true ht).elim,
        fun e he => (some_ne_none _ he.symm).elim, hhe⟩
    | false =>
      have hca : t.came = t.events ++ [incoming] ++ t.inbox := by
        rw [hn hl, append_assoc]
        rfl
      simp only [Task.deliver, hl, Bool.false_eq_true, if_false]
      refine ⟨h.listed, h.put, fun held hh => ?_, h.forwarded, fun _ => hca,
        fun _ => ⟨⟨_, hca.symm⟩, fun e he => ?_⟩,
        fun e he => (some_ne_none _ he.symm).elim, hhe⟩
      · cases hh
        exact ⟨hp, ho⟩
      · rcases mem_append.1 he with he | he
        · exact hf e he
        · rw [mem_singleton.1 he]
          exact hl

theorem clientSends (h : t.Good listed) (incoming : Incoming) :
    Good listed { t with inbox := t.inbox ++ [incoming], came := t.came ++ [incoming] } where
  listed := h.listed
  put := h.put
  held := h.held
  forwarded := h.forwarded
  caughtUp hc := by
    show t.came ++ [incoming] = t.events ++ (t.inbox ++ [incoming])
    rw [h.caughtUp hc, append_assoc]
  talks ht := ⟨(h.talks ht).1.trans (prefix_append _ _), (h.talks ht).2⟩
  inHand e he := by
    obtain ⟨hn, hh⟩ := h.inHand e he
    refine ⟨fun hl => ?_, hh.mono incoming⟩
    show t.came ++ [incoming] = t.events ++ e :: (t.inbox ++ [incoming])
    rw [hn hl, append_assoc]
    rfl
  heard := h.heard.mono incoming

theorem send (h : t.Good true) (m : Outgoing) :
    Good (!m.isClose) { t.push (.object, m) with sent := t.sent ++ [m] } := by
  obtain ⟨hpu, ho⟩ := h.listed rfl
  have hpu' : t.put ++ [(.object, m)] = (t.sent ++ [m]).map (Prod.mk .object) := by
    rw [hpu, map_append]
    rfl
  refine ⟨fun hm => ⟨hpu', fun x hx => ?_⟩, ?_, fun held hh => ?_, h.forwarded.mono m,
    h.caughtUp, h.talks, h.inHand, h.heard⟩
  · rcases mem_append.1 hx with hx | hx
    · exact ho x hx
    · rw [mem_singleton.1 hx]
      exact Bool.not_eq_true' _ ▸ hm
  · show Stream _ (t.put ++ [(.object, m)])
    rw [hpu']
    exact .sends m ho
  · obtain ⟨hp, hf⟩ := h.held held hh
    refine ⟨?_, hf⟩
    show t.put ++ [(Maker.object, m)] = t.forwarded ++ held ++ (t.out ++ [(.object, m)])
    rw [hp, append_assoc]

theorem sendLate (h : t.Good false) (m : Outgoing) :
    Good false { t with sent := t.sent ++ [m] } where
  listed hf := (Bool.false_ne_true hf).elim
  put := h.put.mono m
  held := h.held
  forwarded := h.forwarded.mono m
  caughtUp := h.caughtUp
  talks := h.talks
  inHand := h.inHand
  heard := h.heard

theorem pushClose (h : t.Good true) (code : UInt16) (reason : String) :
    Good false (t.push (.runner, .close code reason)) := by
  obtain ⟨hpu, ho⟩ := h.listed rfl
  have hu : ∀ m ∈ t.put, m.isClose = false := by
    rw [hpu]
    intro m hm
    obtain ⟨x, hx, rfl⟩ := mem_map.1 hm
    exact ho x hx
  refine ⟨fun hf => (Bool.false_ne_true hf).elim, h.put.close hu code reason,
    fun held hh => ?_, h.forwarded, h.caughtUp, h.talks, h.inHand, h.heard⟩
  obtain ⟨hp, hfo⟩ := h.held held hh
  refine ⟨?_, hfo⟩
  show t.put ++ [(Maker.runner, Outgoing.close code reason)] = t.forwarded ++ held ++ (t.out ++ [_])
  rw [hp, append_assoc]

/-- **What a task does by itself keeps its messages where they belong.** -/
theorem moves (h : t.Good listed) (hmo : t.Moves t') : t'.Good listed := by
  cases hmo with
  | connected hpt | stopsReading hpt | starts hpt =>
    exact h.goto (by rw [hpt]; exact ⟨fun _ => id, id, id, fun _ => id⟩)
  | unattached | leaves => exact h.goto ⟨nofun, nofun, nofun, nofun⟩
  | keeps hpt hou => exact h.keep hpt hou
  | @forwards m rest hpt hou =>
    obtain ⟨hp, ho⟩ := h.held [] (by rw [hpt]; rfl)
    rw [hou, append_nil] at hp
    have hp' : t.put = t.forwarded ++ [m] ++ rest := by
      rw [hp, append_assoc]
      rfl
    cases hm : m.isClose with
    | true => exact h.forward hp' ho nofun nofun nofun rfl
    | false =>
      refine h.forward hp' ho (fun held hh => ⟨?_, hm⟩) ?_ ?_ rfl
      · cases hh
        rfl
      all_goals rw [hpt]; exact id
  | @flushes m rest hpt =>
    obtain ⟨hp, ho⟩ := h.held (m :: rest) (by rw [hpt]; rfl)
    cases hm : m.isClose with
    | true => exact h.forward hp ho nofun nofun nofun rfl
    | false =>
      refine h.forward hp ho (fun held hh => ⟨?_, hm⟩) ?_ ?_ rfl
      · cases hh
        rfl
      all_goals rw [hpt]; exact id
  | clientSends incoming => exact h.clientSends incoming
  | clientGoes | releases => exact { h with }
  | receives hpt hca => exact h.receive hpt hca
  | overfull hpt res =>
    obtain ⟨hev, hf⟩ := h.talks (by rw [hpt]; rfl)
    have hgo : Good listed { t with point := .returning } := h.goto ⟨nofun, nofun, nofun, nofun⟩
    exact hgo.tell hev hf rfl rfl rfl _ _ res
  | crowded hpt res =>
    obtain ⟨-, ho⟩ := h.held [] (by rw [hpt]; rfl)
    obtain ⟨hev, hf⟩ := h.talks (by rw [hpt]; rfl)
    exact (h.closeClient ho 1008 notTaking).tell hev hf rfl rfl rfl _ _ res
  | delivers hpt res => exact h.deliver hpt res
  | @closes reason hpt =>
    obtain ⟨-, ho⟩ := h.held [] (by rw [hpt]; rfl)
    exact h.closeClient ho 1013 reason

end Task.Good

end OpenWorkersRunner.Durable.SocketTasks
