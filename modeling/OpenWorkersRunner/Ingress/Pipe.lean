import OpenWorkersRunner.Lib.Machine
import Mathlib.Algebra.GroupWithZero.Nat

/-!
# The bridge of a WebSocket (`pipe` of `src/websocket.rs`)

The runner holds a WebSocket for the worker.  Three tasks move its messages.
-/

namespace OpenWorkersRunner.WebSocket

/-! ## Messages -/

/-- `MAX_QUEUED_BYTES`. -/
def maxQueuedBytes : ℕ := 8 * 2 ^ 20

def fetchAdd (n bytes : ℕ) : ℕ := (n + bytes) % 2 ^ 64

def fetchSub (n bytes : ℕ) : ℕ := (n + (2 ^ 64 - bytes)) % 2 ^ 64

theorem fetchAdd_eq {n bytes : ℕ} (h : n + bytes < 2 ^ 64) : fetchAdd n bytes = n + bytes :=
  Nat.mod_eq_of_lt h

theorem fetchSub_eq {n bytes : ℕ} (hle : bytes ≤ n) (hlt : n < 2 ^ 64) :
    fetchSub n bytes = n - bytes := by
  rw [fetchSub]
  omega

structure Payload where
  data : List UInt8
  fits : data.length < 2 ^ 63
deriving DecidableEq

inductive Outgoing
  | text (payload : Payload)
  | binary (payload : Payload)
  | close (code : UInt16) (reason : String)
deriving DecidableEq

def Outgoing.isClose : Outgoing → Bool
  | .close _ _ => true
  | .text _ | .binary _ => false

inductive Incoming
  | text (data : List UInt8)
  | binary (data : List UInt8)
  | closed (code : UInt16) (reason : String)
  | error (message : String)
deriving DecidableEq

def Incoming.isLast : Incoming → Bool
  | .closed _ _ | .error _ => true
  | .text _ | .binary _ => false

inductive Message
  | text (data : List UInt8)
  | binary (data : List UInt8)
  | close (code : UInt16) (reason : String)
deriving DecidableEq

def Outgoing.convert : Outgoing → Message × ℕ
  | .text payload => (.text payload.data, payload.data.length)
  | .binary payload => (.binary payload.data, payload.data.length)
  | .close code reason => (.close code reason, 0)

theorem Outgoing.convert_lt (m : Outgoing) : m.convert.2 < 2 ^ 63 := by
  cases m with
  | text payload => exact payload.fits
  | binary payload => exact payload.fits
  | close code reason => exact Nat.two_pow_pos 63

inductive Origin
  | worker
  | bridge
deriving DecidableEq

inductive Read
  | text (data : List UInt8)
  | binary (data : List UInt8)
  | close (frame : Option (UInt16 × String))
  | other
  | tooBig
  | failed (error : String)
deriving DecidableEq

/-! ## The tasks -/

inductive Collector
  | waiting
  | counted (m : Message × ℕ)
  | stopping
  | ended
deriving DecidableEq

inductive Writer
  | waiting
  | writing (m : Message × ℕ)
  | written (m : Message × ℕ)
  | closing
  | ended
deriving DecidableEq

inductive Branch
  | slow
  | drain
  | idle
  | next (read : Option Read)
deriving DecidableEq

inductive Reader
  | reading
  | inside (branch : Branch)
  | closing (code : UInt16) (reason : String)
  | ended
deriving DecidableEq

structure State where
  held : Bool
  listens : Bool
  sends : List Outgoing
  collector : Collector
  queued : ℕ
  slow : Bool
  queue : List (Message × ℕ)
  writer : Writer
  failed : Bool
  reader : Reader
  draining : Bool
  put : List (Origin × Outgoing)
  admitted : List (Message × ℕ)
  given : List (Message × ℕ)
  written : List (Message × ℕ)
  events : List Incoming
deriving DecidableEq

inductive Act
  | send (m : Outgoing)
  | dropSender
  | dropReceiver
  | count
  | enqueue
  | collectorEnds
  | write
  | wrote (ok : Bool)
  | uncount
  | writerCloses
  | writerEnds
  | giveUp
  | drain
  | select (due : Bool) (next : Option (Option Read))
  | act (still : Bool)
  | report
deriving DecidableEq

namespace State

def putOn (s : State) (origin : Origin) (m : Outgoing) : State :=
  if s.collector = .ended then s
  else { s with sends := s.sends ++ [m], put := s.put ++ [(origin, m)] }

def tell (s : State) (event : Incoming) : State :=
  if s.listens then { s with events := s.events ++ [event] } else s

def close (s : State) (code : UInt16) (reason : String) : State :=
  { s.putOn .bridge (.close code reason) with reader := .closing code reason }

def endWith (s : State) (event : Incoming) : State := { s.tell event with reader := .ended }

def pass (s : State) (event : Incoming) : State :=
  { s.tell event with reader := if s.listens then .reading else .ended }

def handle (s : State) : Read → State
  | .text data => s.pass (.text data)
  | .binary data => s.pass (.binary data)
  | .close none => s.endWith (.closed 1000 "")
  | .close (some (code, reason)) => s.endWith (.closed code reason)
  | .other => { s with reader := .reading }
  | .tooBig => s.close 1009 "Message too big"
  | .failed error => s.endWith (.error ("WS error: " ++ error))

def select (s : State) (maxIdle due : Bool) (next : Option (Option Read)) : Option Branch :=
  if s.slow then some .slow
  else if maxIdle && s.draining then some .drain
  else if maxIdle && due then some .idle
  else next.map .next

def act (s : State) (still : Bool) : Branch → State
  | .slow => s.endWith (.closed 1008 "The client does not read fast enough")
  | .drain => s.close 1001 "The runner is going away"
  | .idle =>
    -- the writer may have sent a frame meanwhile
    if still then s.close 1001 "Idle for too long" else { s with reader := .reading }
  | .next none => { s with reader := .ended }
  | .next (some read) => s.handle read

def count (s : State) (m : Outgoing) (rest : List Outgoing) : State :=
  let counted := { s with sends := rest, queued := fetchAdd s.queued m.convert.2 }
  if maxQueuedBytes ≤ s.queued then { counted with slow := true, collector := .stopping }
  else { counted with collector := .counted m.convert, admitted := s.admitted ++ [m.convert] }

def enqueue (s : State) (m : Message × ℕ) : State :=
  if s.writer = .ended then { s with collector := .stopping }
  else { s with collector := .waiting, queue := s.queue ++ [m] }

def write (s : State) (m : Message × ℕ) (rest : List (Message × ℕ)) : State :=
  { s with writer := .writing m, queue := rest, given := s.given ++ [m] }

def wrote (s : State) (m : Message × ℕ) (ok : Bool) : State :=
  if ok then { s with writer := .written m, written := s.written ++ [m] }
  else { s with writer := .closing, failed := true }

/-- `fetch_sub`. -/
def uncount (s : State) (m : Message × ℕ) : State :=
  { s with writer := .waiting, queued := fetchSub s.queued m.2 }

end State

def State.collectorDone (s : State) : Bool :=
  s.collector = .stopping ∨
    s.collector = .waiting ∧ s.sends = [] ∧ s.held = false ∧ s.reader = .ended

def Writer.awaits : Writer → Bool
  | .waiting | .writing _ | .closing => true
  | .written _ | .ended => false

def State.step (maxIdle : Bool) (s : State) : Act → Option State
  | .send m => if s.held then some (s.putOn .worker m) else none
  | .dropSender => some { s with held := false }
  | .dropReceiver => some { s with listens := false }
  | .count =>
    match s.collector, s.sends with
    | .waiting, m :: rest => some (s.count m rest)
    | _, _ => none
  | .enqueue =>
    match s.collector with
    | .counted m => some (s.enqueue m)
    | _ => none
  | .collectorEnds => if s.collectorDone then some { s with collector := .ended } else none
  | .write =>
    match s.writer, s.queue with
    | .waiting, m :: rest => some (s.write m rest)
    | _, _ => none
  | .wrote ok =>
    match s.writer with
    | .writing m => some (s.wrote m ok)
    | _ => none
  | .uncount =>
    match s.writer with
    | .written m => some (s.uncount m)
    | _ => none
  | .writerCloses =>
    if s.writer = .waiting ∧ s.queue = [] ∧ s.collector = .ended then
      some { s with writer := .closing }
    else none
  | .writerEnds => if s.writer = .closing then some { s with writer := .ended } else none
  | .giveUp => if s.slow ∧ s.writer.awaits then some { s with writer := .ended } else none
  | .drain => some { s with draining := true }
  | .select due next =>
    if s.reader = .reading then
      (s.select maxIdle due next).map fun branch => { s with reader := .inside branch }
    else none
  | .act still =>
    match s.reader with
    | .inside branch => some (s.act still branch)
    | _ => none
  | .report =>
    match s.reader with
    | .closing code reason => some (s.endWith (.closed code reason))
    | _ => none

def State.fresh : State where
  held := true
  listens := true
  sends := []
  collector := .waiting
  queued := 0
  slow := false
  queue := []
  writer := .waiting
  failed := false
  reader := .reading
  draining := false
  put := []
  admitted := []
  given := []
  written := []
  events := []

def machine (maxIdle : Bool) : Machine State Act where
  init := .fresh
  step := State.step maxIdle

end OpenWorkersRunner.WebSocket
