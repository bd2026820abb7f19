import OpenWorkersRunner.Lib.Machine
import OpenWorkersRunner.Lib.Parties
import OpenWorkersRunner.Services.Egress

/-!
# Bodies and their bytes (`services/fetch.rs`)

`do_fetch` gives a body of bytes to the request and counts it before it sends.  A stream is not
given to it.  The task that pumps the response counts into a copy of the statistics, which nobody
reads.

The HTTP client is not modelled: what upstream got of the body is a part of its answer.
-/

namespace OpenWorkersRunner.Bodies

open Egress Option Parties Text

inductive Body
  | none
  | bytes (bytes : List UInt8)
  | stream (chunks : List (List UInt8))
deriving DecidableEq

def Body.content : Body → List UInt8
  | .none => []
  | .bytes b => b
  | .stream chunks => chunks.flatten

def Body.given : Body → List UInt8
  | .bytes b => b
  | .none | .stream _ => []

inductive HttpMethod
  | get
  | post
  | put
  | delete
  | patch
  | head
  | options
deriving DecidableEq

abbrev Headers := List (Text × Text)

structure HttpRequest where
  method : HttpMethod
  url : Text
  headers : Headers
  body : Body

structure FetchContext where
  workerId : Option Text
  userId : Option Text

/-- The headers of the request that is built. -/
def built (request : HttpRequest) (extraHeaders : Option Headers) (ctx : Option FetchContext) :
    Headers :=
  request.headers ++ extraHeaders.getD [] ++
    ((ctx.bind (·.workerId)).map (ascii "x-fetch-worker", ·)).toList ++
    ((ctx.bind (·.userId)).map (ascii "x-fetch-tenant-id", ·)).toList

/-- How `send` ends, and what upstream got of the body: with an error, or with a response, which
may come before the body is read. -/
structure Answer where
  got : List UInt8
  error : Option String

structure Stats where
  fetchBytesIn : UInt64
  fetchBytesOut : UInt64
deriving DecidableEq

/-- The task of a response: `stats_clone`, what it handed on, and whether it goes on. -/
structure Pump where
  statsClone : Stats
  handed : List UInt8
  running : Bool
deriving DecidableEq

inductive Outcome
  | refused (message : String)
  | failed (got : List UInt8) (message : String)
  | returned (got : List UInt8) (pump : Pump)
deriving DecidableEq

section source

variable (net : Net) (allowPrivate : Bool)

def doFetch (request : HttpRequest) (stats : Stats) (policy : EgressPolicy) (answer : Answer) :
    Stats × Outcome :=
  match admits net allowPrivate request.url (request.method = .options) policy with
  | .error e => (stats, .refused e)
  | .ok _ =>
    let stats :=
      { stats with
        fetchBytesOut := stats.fetchBytesOut + UInt64.ofNat request.body.given.length }
    match answer.error with
    | some e => (stats, .failed answer.got ("Request failed: " ++ e))
    | none => (stats, .returned answer.got ⟨⟨stats.fetchBytesIn, 0⟩, [], true⟩)

/-- A call: the headers and the body it sends, and how it ended. -/
structure Call where
  headers : Headers
  body : Body
  outcome : Outcome
deriving DecidableEq

structure State where
  stats : Stats
  calls : List Call
deriving DecidableEq

inductive Act
  | fetch (request : HttpRequest) (extraHeaders : Option Headers) (ctx : Option FetchContext)
    (policy : EgressPolicy) (answer : Answer)
  | chunk (i : ℕ) (chunk : List UInt8) (listens : Bool)
  | close (i : ℕ)

def Pump.chunk (p : Pump) (chunk : List UInt8) (listens : Bool) : Pump :=
  let statsClone :=
    { p.statsClone with
      fetchBytesIn := p.statsClone.fetchBytesIn + UInt64.ofNat chunk.length }
  ⟨statsClone, if listens then p.handed ++ chunk else p.handed, listens⟩

def Call.pump (c : Call) (f : Pump → Pump) : Option Call :=
  match c.outcome with
  | .returned got p =>
    if p.running then some { c with outcome := .returned got (f p) } else none
  | _ => none

def State.pump (s : State) (i : ℕ) (f : Pump → Pump) : Option State :=
  s.calls[i]?.bind fun c => (c.pump f).map fun c' => { s with calls := s.calls.set i c' }

def machine : Machine State Act where
  init := ⟨⟨0, 0⟩, []⟩
  step s
    | .fetch request extraHeaders ctx policy answer =>
      let (stats, outcome) := doFetch net allowPrivate request s.stats policy answer
      some ⟨stats, s.calls ++ [⟨built request extraHeaders ctx, request.body, outcome⟩]⟩
    | .chunk i chunk listens => s.pump i (·.chunk chunk listens)
    | .close i => s.pump i ({ · with running := false })

end source

/-! ## What is sent and counted -/

/-- What upstream got of the body of a call. -/
def Call.got (c : Call) : List UInt8 :=
  match c.outcome with
  | .refused _ => []
  | .failed got _ | .returned got _ => got

/-- What `do_fetch` gave the client of the body. -/
def Call.given (c : Call) : List UInt8 :=
  match c.outcome with
  | .refused _ => []
  | .failed .. | .returned .. => c.body.given

/-- **What is assumed of the client**: upstream gets nothing but what the client was given; not all
of it if the call fails, if the response comes first, or if a header of the guest (`content-length`)
says less. -/
def Honest (s : State) : Prop :=
  ∀ c ∈ s.calls, c.got <+: c.given

instance (s : State) : Decidable (Honest s) :=
  inferInstanceAs (Decidable (∀ c ∈ s.calls, c.got <+: c.given))

/-- The bytes that upstream got. -/
def Call.sent (c : Call) : ℕ := c.got.length

def Call.unsent (c : Call) : ℕ := c.given.length - c.got.length

structure Accounted (s : State) : Prop where
  out : s.stats.fetchBytesOut = UInt64.ofNat (total (·.given.length) s.calls)
  zero : s.stats.fetchBytesIn = 0

variable {net : Net} {allowPrivate : Bool} {s t : State} {c c' : Call}

theorem doFetch_spec (net : Net) (allowPrivate : Bool) (request : HttpRequest) (headers : Headers)
    (stats : Stats) (policy : EgressPolicy) (answer : Answer) :
    (doFetch net allowPrivate request stats policy answer).1 = { stats with
      fetchBytesOut := stats.fetchBytesOut + UInt64.ofNat (Call.given ⟨headers, request.body,
        (doFetch net allowPrivate request stats policy answer).2⟩).length } := by
  rw [doFetch]
  split
  · simp [Call.given]
  · cases answer.error <;> rfl

theorem given_of_pump {f : Pump → Pump} (h : c.pump f = some c') : c'.given = c.given := by
  obtain ⟨headers, body, out⟩ := c
  cases out with
  | refused | failed => cases h
  | returned got p =>
    obtain ⟨-, h⟩ := ite_none_right_eq_some.1 h
    cases h
    rfl

theorem Accounted.pump {f : Pump → Pump} {i : ℕ} (hs : Accounted s) (h : s.pump i f = some t) :
    Accounted t := by
  obtain ⟨c, hc, h⟩ := bind_eq_some_iff.1 h
  obtain ⟨c', hpu, rfl⟩ := map_eq_some_iff.1 h
  have hse := total_set (·.given.length) (b := c') hc
  rw [given_of_pump hpu] at hse
  exact ⟨hs.out.trans (congrArg _ (Nat.add_right_cancel hse).symm), hs.zero⟩

theorem Accounted.fetch (hs : Accounted s) (net : Net) (allowPrivate : Bool) (headers : Headers)
    (request : HttpRequest) (policy : EgressPolicy) (answer : Answer) :
    Accounted ⟨(doFetch net allowPrivate request s.stats policy answer).1, s.calls ++
      [⟨headers, request.body, (doFetch net allowPrivate request s.stats policy answer).2⟩]⟩ := by
  have hst := doFetch_spec net allowPrivate request headers s.stats policy answer
  constructor
  · rw [hst, total_concat, UInt64.ofNat_add, ← hs.out]
  · rw [hst]
    exact hs.zero

/-- **What a step keeps.** -/
theorem Accounted.step {a : Act} (hs : Accounted s)
    (h : (machine net allowPrivate).step s a = some t) : Accounted t := by
  cases a with
  | fetch request extraHeaders ctx policy answer =>
    cases h
    exact hs.fetch ..
  | chunk i chunk listens => exact hs.pump h
  | close i => exact hs.pump h

/-- A call that returned sent its body exactly if all that was given to the client was sent, and the
body is not a stream with bytes. -/
theorem got_eq_content_iff {got : List UInt8} {p : Pump} (hc : c.got <+: c.given)
    (h : c.outcome = .returned got p) : got = c.body.content ↔
      got = c.body.given ∧ ∀ chunks, c.body = .stream chunks → chunks.flatten = [] := by
  simp only [Call.got, Call.given, h] at hc
  cases hbody : c.body with
  | none | bytes => simp [Body.given, Body.content]
  | stream chunks =>
    rw [hbody] at hc
    obtain rfl := List.prefix_nil.1 hc
    simp [Body.given, Body.content, eq_comm]

/-- **What is forwarded and counted**, over any calls: of a call that returned, upstream got the
body exactly if the client sent what it was given, and the body is not a stream with bytes;
`fetch_bytes_out` has the bytes that were not sent too, and `fetch_bytes_in` is zero. -/
theorem bodies_accounted {net : Net} {allowPrivate : Bool} {s : State}
    (hs : (machine net allowPrivate).Reachable s) (hclient : Honest s) :
    (∀ c ∈ s.calls, ∀ got p, c.outcome = .returned got p → (got = c.body.content ↔
      got = c.body.given ∧ ∀ chunks, c.body = .stream chunks → chunks.flatten = [])) ∧
      s.stats.fetchBytesOut =
        UInt64.ofNat (total Call.sent s.calls) + UInt64.ofNat (total Call.unsent s.calls) ∧
      s.stats.fetchBytesIn = 0 := by
  have hacc : Accounted s :=
    hs.invariant (I := Accounted) ⟨rfl, rfl⟩ fun _ _ _ _ hI _ h => hI.step h
  refine ⟨fun c hc got p h => got_eq_content_iff (hclient c hc) h, ?_, hacc.zero⟩
  have heq : ∀ c ∈ s.calls, c.given.length = c.sent + c.unsent := fun c hc =>
    (Nat.add_sub_cancel' (hclient c hc).length_le).symm
  rw [hacc.out, ← UInt64.ofNat_add, ← total_add]
  exact congrArg _ (Nat.le_antisymm (total_le_total fun c hc => (heq c hc).le)
    (total_le_total fun c hc => (heq c hc).ge))

def HttpRequest.to (method : HttpMethod) (body : Body) : HttpRequest :=
  ⟨method, ascii "https://example.com/", [], body⟩

/-- A stream, bytes of which one is sent before the connection breaks, and bytes that are sent. -/
def calls : List Act :=
  [.fetch (.to .post (.stream [[1], [2]])) none none .unrestricted ⟨[], none⟩, .chunk 0 [7] true,
    .fetch (.to .put (.bytes [1, 2])) none none .unrestricted ⟨[1], some "broken pipe"⟩,
    .fetch (.to .post (.bytes [3])) none none .unrestricted ⟨[3], none⟩, .chunk 2 [8, 9] true]

def exampleNet : Net := oneAddress (.domain (ascii "example.com")) (.v4 ⟨8, 8, 8, 8⟩)

theorem bodies_accounted_calls : ∃ s, (machine exampleNet false).Reachable s ∧ Honest s ∧
    (total Call.sent s.calls = 2 ∧ total Call.unsent s.calls = 1) ∧
      s.stats.fetchBytesOut = 2 + 1 := by
  obtain ⟨s, hs, hhonest, hsent, hunsent⟩ := (machine exampleNet false).exists_of_run calls
    (fun s => Honest s ∧ total Call.sent s.calls = 2 ∧ total Call.unsent s.calls = 1) (by decide)
  refine ⟨s, hs, hhonest, ⟨hsent, hunsent⟩, ?_⟩
  rw [(bodies_accounted hs hhonest).2.1, hsent, hunsent]
  rfl

/-- **A stream is not sent, and what comes in is not counted**: the first call returns, upstream got
nothing of two bytes, and the workers got three; a call that failed has counted two, and sent one.
-/
theorem body_dropped : ∃ s, (machine exampleNet false).Reachable s ∧ Honest s ∧
    s = ⟨⟨0, 3⟩, [⟨[], .stream [[1], [2]], .returned [] ⟨⟨1, 0⟩, [7], true⟩⟩,
      ⟨[], .bytes [1, 2], .failed [1] "Request failed: broken pipe"⟩,
      ⟨[], .bytes [3], .returned [3] ⟨⟨2, 0⟩, [8, 9], true⟩⟩]⟩ := by
  obtain ⟨s, hs, hp⟩ := (machine exampleNet false).exists_of_run calls
    (fun s => Honest s ∧ s = ⟨⟨0, 3⟩, [⟨[], .stream [[1], [2]], .returned [] ⟨⟨1, 0⟩, [7], true⟩⟩,
        ⟨[], .bytes [1, 2], .failed [1] "Request failed: broken pipe"⟩,
        ⟨[], .bytes [3], .returned [3] ⟨⟨2, 0⟩, [8, 9], true⟩⟩]⟩)
    (by decide)
  exact ⟨s, hs, hp⟩

end OpenWorkersRunner.Bodies
