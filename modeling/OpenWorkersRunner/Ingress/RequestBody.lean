import OpenWorkersRunner.Lib.Headers
import OpenWorkersRunner.Lib.Machine

/-!
# Request bodies, buffered and streamed

A request's body comes to the worker in one of two ways (`bin/main.rs`, `request_body.rs`).  The
buffered path reads all of it first, and runs the worker with the bytes, or answers without it.  For
a request with the header `x-request-body-stream` the worker runs at once, and a task, the pump,
sends it the frames through a channel as they come.  The channel closes when the pump ends, and to
the worker that is the end of the body.
-/

namespace OpenWorkersRunner.RequestBody

open List Text Option

abbrev Bytes := List UInt8

/-! ## The client -/

inductive Frame
  | data (bytes : Bytes)
  | trailers
deriving DecidableEq

inductive Ending
  | complete
  | failed (error : String)
deriving DecidableEq

structure Client where
  frames : List Frame
  ending : Option Ending
deriving DecidableEq

def Frame.bytes : Frame → Bytes
  | .data bytes => bytes
  | .trailers => []

def Client.bytes (client : Client) : Bytes := client.frames.flatMap Frame.bytes

/-! ## The limit -/

/-- `parse::<u64>`. -/
def parseU64 (text : Text) : Option Nat :=
  let digits := match text with
    | 0x2b :: digits => digits
    | _ => text
  if digits.isEmpty then none
  else
    digits.foldl
      (fun value digit => value.bind fun value =>
        if 0x30 ≤ digit ∧ digit ≤ 0x39 ∧ value * 10 + (digit.toNat - 0x30) < UInt64.size then
          some (value * 10 + (digit.toNat - 0x30))
        else none)
      (some 0)

def announcesMoreThan (headers : Headers) (limit : Nat) : Bool :=
  ((headers.get (ascii "content-length")).bind parseU64).any (limit < ·)

structure Refusal where
  status : Nat
  reason : String
  message : String
deriving DecidableEq

def tooLarge : Refusal := ⟨413, "body_too_large", "Request body too large"⟩

def badBody : Refusal := ⟨400, "bad_request_body", "Failed to read request body"⟩

/-! ## The buffered path -/

inductive BodyError
  | tooLarge
  | read (error : String)
deriving DecidableEq

/-- The rest of `read`, when there is room for so many bytes and these have been read; `none` if it
waits for ever. -/
def collect (remaining : Nat) (bytes : Bytes) :
    List Frame → Option Ending → Option (Except BodyError Bytes)
  | [], none => none
  | [], some .complete => some (.ok bytes)
  | [], some (.failed error) => some (.error (.read error))
  | .trailers :: frames, ending => collect remaining bytes frames ending
  | .data data :: frames, ending =>
    if remaining < data.length then some (.error .tooLarge)
    else collect (remaining - data.length) (bytes ++ data) frames ending

def read (client : Client) (limit : Nat) : Option (Except BodyError Bytes) :=
  collect limit [] client.frames client.ending

def BodyError.refusal : BodyError → Refusal
  | .tooLarge => RequestBody.tooLarge
  | .read _ => badBody

def bufferedBody (headers : Headers) (client : Client) (maxBody : Nat) :
    Option (Except Refusal Bytes) :=
  if announcesMoreThan headers maxBody then some (.error tooLarge)
  else (read client maxBody).map (·.mapError BodyError.refusal)

/-! ## The streamed path -/

def chunkTimeout : Nat := 5000

def channelCapacity : Nat := 16

def isStreaming (headers : Headers) (upgrade : Bool) : Bool :=
  (headers.get (ascii "x-request-body-stream")).isSome && !upgrade

inductive Stop
  | complete
  | failed
  | timedOut
  | dropped
  | aborted
deriving DecidableEq

inductive PumpStage
  | idle
  | refused (refusal : Refusal)
  | waiting (since : Nat)
  | sending (item : Except String Bytes)
  | stopped (why : Stop)
deriving DecidableEq

inductive StreamEnd
  | complete
  | failed (error : String)
deriving DecidableEq

structure State where
  now : Nat
  coming : List Frame
  arrived : List Frame
  finished : Bool
  pump : PumpStage
  total : Nat
  channel : List (Except String Bytes)
  dropped : Bool
  received : List Bytes
  ended : Option StreamEnd
  answered : Bool
deriving DecidableEq

inductive Act
  | tick (ms : Nat)
  | arrive
  | finish
  | start (upgrade : Bool)
  | take
  | timeout
  | send
  | recv
  | drop
  | answer
  | abort
deriving DecidableEq

section

variable (headers : Headers) (client : Client) (maxBody : Nat)

def State.take (s : State) : Option State :=
  match s.arrived with
  | .trailers :: arrived => some { s with arrived, pump := .waiting s.now }
  | .data bytes :: arrived =>
    let total := s.total + bytes.length
    let item := if maxBody < total then .error "Request body too large" else .ok bytes
    some { s with arrived, total, pump := .sending item }
  | [] =>
    if s.finished then
      match client.ending with
      | some .complete => some { s with pump := .stopped .complete }
      | some (.failed error) => some { s with pump := .sending (.error error) }
      | none => none
    else none

def State.send (s : State) (item : Except String Bytes) : Option State :=
  if s.dropped then some { s with pump := .stopped .dropped }
  else if s.channel.length < channelCapacity then
    let pump := match item with
      | .ok _ => .waiting s.now
      | .error _ => .stopped .failed
    some { s with channel := s.channel ++ [item], pump }
  else none

def State.recv (s : State) : Option State :=
  match s.channel, s.pump with
  | .ok bytes :: channel, _ => some { s with channel, received := s.received ++ [bytes] }
  | .error error :: channel, _ => some { s with channel, ended := some (.failed error) }
  | [], .stopped _ => some { s with ended := some .complete }
  | [], _ => none

def PumpStage.started : PumpStage → Bool
  | .idle | .refused _ => false
  | _ => true

def PumpStage.runs : PumpStage → Bool
  | .waiting _ | .sending _ => true
  | _ => false

def State.step (s : State) : Act → Option State
  | .tick ms => some { s with now := s.now + ms }
  | .arrive =>
    match s.coming with
    | [] => none
    | frame :: coming => some { s with coming, arrived := s.arrived ++ [frame] }
  | .finish =>
    if s.coming = [] ∧ s.finished = false ∧ client.ending.isSome then
      some { s with finished := true }
    else none
  | .start upgrade =>
    match s.pump with
    | .idle =>
      if announcesMoreThan headers maxBody then some { s with pump := .refused tooLarge }
      else if isStreaming headers upgrade then some { s with pump := .waiting s.now }
      else none
    | _ => none
  | .take =>
    match s.pump with
    | .waiting _ => s.take client maxBody
    | _ => none
  | .timeout =>
    match s.pump with
    | .waiting since =>
      if s.arrived = [] ∧ s.finished = false ∧ since + chunkTimeout ≤ s.now then
        some { s with pump := .stopped .timedOut }
      else none
    | _ => none
  | .send =>
    match s.pump with
    | .sending item => s.send item
    | _ => none
  | .recv => if s.dropped = false ∧ s.ended = none then s.recv else none
  | .drop => if s.pump.started then some { s with dropped := true } else none
  | .answer => if s.pump.started then some { s with answered := true } else none
  | .abort =>
    if s.answered ∧ s.pump.runs then some { s with pump := .stopped .aborted } else none

def machine : Machine State Act where
  init := ⟨0, client.frames, [], false, .idle, 0, [], false, [], none, false⟩
  step := State.step headers client maxBody

end

def Act.cutsShort : Act → Bool
  | .timeout | .abort => true
  | _ => false

/-! ## What the buffered path reads -/

theorem collect_eq_ok_iff (remaining : Nat) (read : Bytes) (frames : List Frame)
    (ending : Option Ending) (bs : Bytes) :
    collect remaining read frames ending = some (.ok bs) ↔
      ending = some .complete ∧ bs = read ++ frames.flatMap Frame.bytes ∧
        (frames.flatMap Frame.bytes).length ≤ remaining := by
  induction frames generalizing remaining read with
  | nil =>
    cases ending with
    | none => simp [collect]
    | some ending => cases ending <;> simp [collect, eq_comm]
  | cons frame frames ih =>
    cases frame with
    | trailers => simp [collect, ih, Frame.bytes]
    | data data =>
      rw [collect]
      simp only [flatMap_cons, Frame.bytes, length_append]
      split
      next hl =>
        simp only [some.injEq, reduceCtorEq, false_iff, not_and]
        omega
      next hro =>
        rw [ih, append_assoc]
        refine and_congr_right fun _ => and_congr_right fun _ => ?_
        omega

section

variable {headers : Headers} {client : Client} {maxBody : Nat}

theorem bufferedBody_eq_ok_iff (bytes : Bytes) :
    bufferedBody headers client maxBody = some (.ok bytes) ↔
      announcesMoreThan headers maxBody = false ∧ client.ending = some .complete ∧
        bytes = client.bytes ∧ client.bytes.length ≤ maxBody := by
  unfold bufferedBody
  split
  next ha =>
    simp [ha]
  next ha =>
    have hok : ∀ res : Except BodyError Bytes,
        res.mapError BodyError.refusal = .ok bytes ↔ res = .ok bytes := by
      intro res
      cases res <;> simp [Except.mapError]
    rw [map_eq_some_iff]
    simp only [hok, exists_eq_right, ha, true_and]
    exact collect_eq_ok_iff ..

end

/-! ## The pump follows it -/

def BodyError.message : BodyError → String
  | .tooLarge => "Request body too large"
  | .read error => error

def itemBytes : Except String Bytes → Bytes
  | .ok bytes => bytes
  | .error _ => []

def State.given (s : State) : Bytes := s.received.flatten ++ s.channel.flatMap itemBytes

structure State.Open (s : State) : Prop where
  channel : ∀ item ∈ s.channel, ∃ bytes, item = .ok bytes
  ended : s.ended = none

section

variable (headers : Headers) (client : Client) (maxBody : Nat)

/-- The buffered path, with these bytes read, has before it what the pump has before it. -/
structure State.Ahead (s : State) (bytes : Bytes) : Prop where
  total : s.total ≤ maxBody
  eq : bufferedBody headers client maxBody =
    (collect (maxBody - s.total) bytes (s.arrived ++ s.coming) client.ending).map
      (·.mapError BodyError.refusal)

def Fails (message : String) : Prop :=
  ∃ error : BodyError, error.message = message ∧
    bufferedBody headers client maxBody = some (.error error.refusal)

inductive State.Follows (s : State) : Prop
  | idle (hpump : s.pump = .idle) (hopen : s.Open) (hgiven : s.given = []) (htotal : s.total = 0)
      (hframes : s.arrived ++ s.coming = client.frames)
  | refused (refusal : Refusal) (hpump : s.pump = .refused refusal) (hopen : s.Open)
      (heq : bufferedBody headers client maxBody = some (.error refusal))
  | waiting (since : Nat) (hpump : s.pump = .waiting since) (hopen : s.Open)
      (hahead : s.Ahead headers client maxBody s.given)
  | sending (bytes : Bytes) (hpump : s.pump = .sending (.ok bytes)) (hopen : s.Open)
      (hahead : s.Ahead headers client maxBody (s.given ++ bytes))
  | failing (message : String) (hpump : s.pump = .sending (.error message)) (hopen : s.Open)
      (hfails : Fails headers client maxBody message)
  | complete (hpump : s.pump = .stopped .complete)
      (hchannel : ∀ item ∈ s.channel, ∃ bytes, item = .ok bytes)
      (hended : s.ended = none ∨ s.ended = some .complete ∧ s.channel = [])
      (heq : bufferedBody headers client maxBody = some (.ok s.given))
  | failed (message : String) (hpump : s.pump = .stopped .failed)
      (hfails : Fails headers client maxBody message)
      (hended : s.ended = some (.failed message) ∨
        s.ended = none ∧ ∃ channel : List (Except String Bytes),
          (∀ item ∈ channel, ∃ bytes, item = .ok bytes) ∧ s.channel = channel ++ [.error message])
  | dropped (hpump : s.pump = .stopped .dropped) (hdropped : s.dropped = true)
      (hended : s.ended = none)

end

namespace State.Follows

variable {headers : Headers} {client : Client} {maxBody : Nat} {s t : State}

variable (h : s.Follows headers client maxBody)

include h

theorem congr (hpu : t.pump = s.pump)
    (hfr : t.arrived ++ t.coming = s.arrived ++ s.coming) (hto : t.total = s.total)
    (hdr : s.dropped = true → t.dropped = true) (hen : t.ended = s.ended)
    (hch : s.channel = t.channel ∧ s.received = t.received ∨
      ∃ bytes, s.channel = .ok bytes :: t.channel ∧ t.received = s.received ++ [bytes]) :
    t.Follows headers client maxBody := by
  have hgi : t.given = s.given := by
    obtain ⟨hsa, hre⟩ | ⟨bytes, hco, hre⟩ := hch
    · rw [given, given, hre, hsa]
    · simp [given, hco, hre, itemBytes]
  have hsu : t.channel <:+ s.channel := by
    obtain ⟨hsa, -⟩ | ⟨bytes, hco, -⟩ := hch
    · exact hsa ▸ suffix_rfl
    · exact hco ▸ suffix_cons ..
  have hok (hs : ∀ item ∈ s.channel, ∃ bytes, item = .ok bytes) :
      ∀ item ∈ t.channel, ∃ bytes, item = .ok bytes := fun item hite =>
    hs item (hsu.subset hite)
  have ho' (hs : s.Open) : t.Open := ⟨hok hs.channel, hen.trans hs.ended⟩
  have hah {bytes : Bytes} (hs : s.Ahead headers client maxBody bytes) :
      t.Ahead headers client maxBody bytes :=
    ⟨hto ▸ hs.total, by rw [hto, hfr]; exact hs.eq⟩
  cases h with
  | idle hp ho hg ht hf =>
    exact .idle (hpu.trans hp) (ho' ho) (hgi.trans hg) (hto.trans ht)
      (hfr.trans hf)
  | refused refusal hp ho heq => exact .refused refusal (hpu.trans hp) (ho' ho) heq
  | waiting since hp ho ha =>
    exact .waiting since (hpu.trans hp) (ho' ho) (hgi ▸ hah ha)
  | sending bytes hp ho ha =>
    exact .sending bytes (hpu.trans hp) (ho' ho) (hgi ▸ hah ha)
  | failing msg hp ho hfl =>
    exact .failing msg (hpu.trans hp) (ho' ho) hfl
  | complete hp hc he heq =>
    refine .complete (hpu.trans hp) (hok hc) ?_ (hgi ▸ heq)
    rw [hen]
    exact he.imp_right fun hcom => ⟨hcom.1, by simpa [hcom.2] using hsu⟩
  | failed msg hp hfl he =>
    refine .failed msg (hpu.trans hp) hfl ?_
    rw [hen]
    refine he.imp_right fun hn => ⟨hn.1, ?_⟩
    obtain ⟨-, before, hbe, heq⟩ := hn
    obtain ⟨hsa, -⟩ | ⟨bytes, hco, -⟩ := hch
    · exact ⟨before, hbe, hsa ▸ heq⟩
    · -- the error is the last item, so it is not the one that goes
      cases before with
      | nil => simp [hco] at heq
      | cons item before =>
        rw [hco, cons_append, cons.injEq] at heq
        exact ⟨before, fun item hite => hbe item (mem_cons_of_mem _ hite), heq.2⟩
  | dropped hp hd he => exact .dropped (hpu.trans hp) (hdr hd) (hen.trans he)

theorem start (hp : s.pump = .idle) :
    State.Follows headers client maxBody
      { s with
        pump := if announcesMoreThan headers maxBody then .refused tooLarge
          else .waiting s.now } := by
  cases h with
  | idle _ ho hgi ht hf =>
    split
    next ha =>
      exact .refused tooLarge rfl ⟨ho.channel, ho.ended⟩ (if_pos ha)
    next ha =>
      refine .waiting s.now rfl ⟨ho.channel, ho.ended⟩ ⟨by simp [ht], ?_⟩
      dsimp only
      rw [ht, hf]
      refine (if_neg ha).trans ?_
      rw [read]
      congr 2
      exact hgi.symm
  | _ => simp_all

theorem take {since : Nat} (hpu : s.pump = .waiting since)
    (hco : s.finished = true → s.coming = []) (hst : s.take client maxBody = some t) :
    t.Follows headers client maxBody := by
  cases h with
  | waiting since' hp ho hah =>
    obtain ⟨ht, heq⟩ := hah
    unfold State.take at hst
    split at hst
    · -- trailers
      rename_i arrived ha
      cases hst
      refine .waiting s.now rfl ⟨ho.channel, ho.ended⟩ ⟨ht, ?_⟩
      rw [heq, ha]
      rfl
    next bs arrived ha =>
      rw [ha, cons_append, collect] at heq
      dsimp only at hst
      split at hst
      next hl =>
        cases hst
        refine .failing _ rfl ⟨ho.channel, ho.ended⟩ ⟨.tooLarge, rfl, ?_⟩
        rw [heq, if_pos (by omega)]
        rfl
      next hro =>
        cases hst
        refine .sending bs rfl ⟨ho.channel, ho.ended⟩ ⟨by dsimp only; omega, ?_⟩
        rw [heq, if_neg (by omega), Nat.sub_sub]
        rfl
    · -- the end of the body
      rename_i ha
      split at hst
      next hf =>
        rw [ha, hco hf, append_nil] at heq
        split at hst
        next hen =>
          cases hst
          refine .complete rfl ho.channel (.inl ho.ended) ?_
          rw [heq, hen]
          rfl
        next error hen =>
          cases hst
          refine .failing error rfl ⟨ho.channel, ho.ended⟩ ⟨.read error, rfl, ?_⟩
          rw [heq, hen]
          rfl
        · cases hst
      · cases hst
  | _ => simp_all

theorem send {item : Except String Bytes}
    (hpu : s.pump = .sending item) (hst : s.send item = some t) :
    t.Follows headers client maxBody := by
  unfold State.send at hst
  split at hst
  next hd =>
    cases hst
    cases h with
    | sending bytes hp ho ha => exact .dropped rfl hd ho.ended
    | failing msg hp ho hf => exact .dropped rfl hd ho.ended
    | _ => simp_all
  · split at hst
    · cases hst
      cases h with
      | sending bytes hp ho ha =>
        cases hpu.symm.trans hp
        have hgi : State.given { s with channel := s.channel ++ [.ok bytes] } =
            s.given ++ bytes := by
          simp [given, itemBytes]
        refine .waiting s.now rfl ⟨fun item hite => ?_, ho.ended⟩ ⟨ha.total, ?_⟩
        · obtain hite | hite := mem_append.1 hite
          · exact ho.channel item hite
          · exact ⟨bytes, mem_singleton.1 hite⟩
        · exact hgi ▸ ha.eq
      | failing msg hp ho hf =>
        cases hpu.symm.trans hp
        exact .failed msg rfl hf (.inr ⟨ho.ended, s.channel, ho.channel, rfl⟩)
      | _ => simp_all
    · cases hst

theorem recv (hdr : s.dropped = false)
    (hen : s.ended = none) (hst : s.recv = some t) : t.Follows headers client maxBody := by
  unfold State.recv at hst
  split at hst
  next hch =>
    cases hst
    exact h.congr rfl rfl rfl id rfl (.inr ⟨_, hch, rfl⟩)
  · -- an error is sent as the last item, by a pump that failed
    rename_i error channel hch
    cases hst
    have hn : ¬ ∀ item ∈ s.channel, ∃ bytes, item = Except.ok bytes := fun hok => by
      obtain ⟨bytes, hbs⟩ := hok (.error error) (by rw [hch]; exact mem_cons_self)
      cases hbs
    cases h with
    | idle _ ho | refused _ _ ho | waiting _ _ ho | sending _ _ ho
    | failing _ _ ho => exact absurd ho.channel hn
    | complete hp hc => exact absurd hc hn
    | failed msg hp hf he =>
      obtain he | ⟨-, before, hbe, heq⟩ := he
      · rw [hen] at he
        cases he
      · cases before with
        | nil =>
          rw [hch, nil_append, cons.injEq, Except.error.injEq] at heq
          obtain ⟨rfl, rfl⟩ := heq
          exact .failed _ hp hf (.inl rfl)
        | cons item before =>
          obtain ⟨bytes, rfl⟩ := hbe item mem_cons_self
          simp [hch] at heq
    | dropped hp hd he =>
      rw [hdr] at hd
      cases hd
  next hch hpu =>
    cases hst
    cases h with
    | complete hp hc he heq => exact .complete hp hc (.inr ⟨rfl, hch⟩) heq
    | failed msg hp hf he =>
      obtain he | ⟨-, before, -, heq⟩ := he
      · rw [hen] at he
        cases he
      · simp [hch] at heq
    | dropped hp hd he =>
      rw [hdr] at hd
      cases hd
    | _ => simp_all
  · cases hst

theorem of_refused {refusal : Refusal} (hpu : s.pump = .refused refusal) :
    bufferedBody headers client maxBody = some (.error refusal) := by
  cases h with
  | refused refusal' hp ho heq =>
    cases hpu.symm.trans hp
    exact heq
  | _ => simp_all

theorem of_complete (hen : s.ended = some .complete) :
    bufferedBody headers client maxBody = some (.ok s.received.flatten) := by
  cases h with
  | idle _ ho | refused _ _ ho | waiting _ _ ho | sending _ _ ho | failing _ _ ho =>
    rw [ho.ended] at hen
    cases hen
  | complete hp hc he heq =>
    obtain he | ⟨-, hch⟩ := he
    · rw [he] at hen
      cases hen
    · rw [heq, given, hch, flatMap_nil, append_nil]
  | failed msg hp hf he =>
    obtain he | ⟨he, -⟩ := he <;> rw [he] at hen <;> cases hen
  | dropped hp hd he =>
    rw [he] at hen
    cases hen

theorem of_failed {message : String}
    (hen : s.ended = some (.failed message)) : Fails headers client maxBody message := by
  cases h with
  | idle _ ho | refused _ _ ho | waiting _ _ ho | sending _ _ ho | failing _ _ ho =>
    rw [ho.ended] at hen
    cases hen
  | complete hp hc he heq =>
    obtain he | ⟨he, -⟩ := he <;> rw [he] at hen <;> cases hen
  | failed message' hp hf he =>
    obtain he | ⟨he, -⟩ := he <;> rw [he] at hen <;> cases hen
    exact hf
  | dropped hp hd he =>
    rw [he] at hen
    cases hen

end State.Follows

section

variable {client : Client} {maxBody : Nat} {s t : State} {item : Except String Bytes}

/-! What the pump and the worker do leaves alone what comes from the client. -/

theorem State.coming_take (h : s.take client maxBody = some t) :
    t.finished = s.finished ∧ t.coming = s.coming := by
  grind [State.take]

theorem State.coming_send (h : s.send item = some t) :
    t.finished = s.finished ∧ t.coming = s.coming := by
  cases item <;> grind [State.send]

theorem State.coming_recv (h : s.recv = some t) :
    t.finished = s.finished ∧ t.coming = s.coming := by
  grind [State.recv]

end

structure State.Sound (headers : Headers) (client : Client) (maxBody : Nat) (s : State) : Prop where
  follows : s.Follows headers client maxBody
  finished : s.finished = true → s.coming = []

section

variable {headers : Headers} {client : Client} {maxBody : Nat} {s t : State}

theorem State.Sound.step (h : s.Sound headers client maxBody) {a : Act} (ha : a.cutsShort = false)
    (hst : s.step headers client maxBody a = some t) : t.Sound headers client maxBody := by
  cases a with
  | tick ms =>
    cases hst
    exact ⟨h.follows.congr rfl rfl rfl id rfl (.inl ⟨rfl, rfl⟩), h.finished⟩
  | arrive =>
    dsimp only [State.step] at hst
    split at hst
    · cases hst
    next frame coming hco =>
      cases hst
      refine ⟨h.follows.congr rfl ?_ rfl id rfl (.inl ⟨rfl, rfl⟩), fun hf => ?_⟩
      · rw [hco, append_assoc]
        rfl
      · rw [h.finished hf] at hco
        cases hco
  | finish =>
    dsimp only [State.step] at hst
    split at hst
    next hgr =>
      cases hst
      exact ⟨h.follows.congr rfl rfl rfl id rfl (.inl ⟨rfl, rfl⟩), fun _ => hgr.1⟩
    · cases hst
  | start upgrade =>
    dsimp only [State.step] at hst
    split at hst
    next hp =>
      have hstr := h.follows.start hp
      split at hst
      next han =>
        rw [if_pos han] at hstr
        cases hst
        exact ⟨hstr, h.finished⟩
      next han =>
        rw [if_neg han] at hstr
        split at hst
        · cases hst
          exact ⟨hstr, h.finished⟩
        · cases hst
    · cases hst
  | take =>
    dsimp only [State.step] at hst
    split at hst
    next hp =>
      obtain ⟨hf, hco⟩ := State.coming_take hst
      exact ⟨h.follows.take hp h.finished hst, hf ▸ hco ▸ h.finished⟩
    · cases hst
  | timeout => cases ha
  | send =>
    dsimp only [State.step] at hst
    split at hst
    next hp =>
      obtain ⟨hf, hco⟩ := State.coming_send hst
      exact ⟨h.follows.send hp hst, hf ▸ hco ▸ h.finished⟩
    · cases hst
  | recv =>
    dsimp only [State.step] at hst
    split at hst
    next hgr =>
      obtain ⟨hf, hco⟩ := State.coming_recv hst
      exact ⟨h.follows.recv hgr.1 hgr.2 hst, hf ▸ hco ▸ h.finished⟩
    · cases hst
  | drop =>
    dsimp only [State.step] at hst
    split at hst
    · cases hst
      exact ⟨h.follows.congr rfl rfl rfl (fun _ => rfl) rfl (.inl ⟨rfl, rfl⟩), h.finished⟩
    · cases hst
  | answer =>
    dsimp only [State.step] at hst
    split at hst
    · cases hst
      exact ⟨h.follows.congr rfl rfl rfl id rfl (.inl ⟨rfl, rfl⟩), h.finished⟩
    · cases hst
  | abort => cases ha

end

/-! ## The stream comes to its end -/

def Act.moves : Act → Bool
  | .arrive | .finish | .take | .send | .recv => true
  | _ => false

def PumpStage.work : PumpStage → Nat
  | .waiting _ => 3
  | .sending (.ok _) => 5
  | .sending (.error _) => 2
  | _ => 0

def State.work (s : State) : Nat :=
  4 * s.coming.length + 3 * s.arrived.length + (if s.finished then 0 else 1) + s.pump.work +
    s.channel.length + if s.ended.isSome then 0 else 1

section

variable {headers : Headers} {client : Client} {maxBody : Nat} {s : State}

theorem PumpStage.work_sending (item : Except String Bytes) :
    (PumpStage.sending item).work ≤ 5 := by
  cases item <;> simp [PumpStage.work]

theorem State.exists_take (hen : client.ending.isSome = true) {since : Nat}
    (hp : s.pump = .waiting since) (ht : s.arrived ≠ [] ∨ s.finished = true) :
    ∃ t, s.take client maxBody = some t ∧ t.work < s.work ∧ t.pump.started = true ∧
      t.dropped = s.dropped := by
  unfold State.take
  split
  next arrived ha =>
    refine ⟨_, rfl, ?_, rfl, rfl⟩
    simp only [State.work, hp, PumpStage.work, ha, length_cons]
    omega
  next bs arrived ha =>
    refine ⟨_, rfl, ?_, rfl, rfl⟩
    have hse := PumpStage.work_sending
      (if maxBody < s.total + bs.length then .error "Request body too large" else .ok bs)
    have hw : s.pump.work = 3 := by rw [hp, PumpStage.work]
    simp only [State.work, hw, ha, length_cons]
    omega
  next ha =>
    rw [if_pos (ht.resolve_left (absurd ha))]
    split
    · refine ⟨_, rfl, ?_, rfl, rfl⟩
      simp only [State.work, hp, PumpStage.work]
      omega
    · refine ⟨_, rfl, ?_, rfl, rfl⟩
      simp only [State.work, hp, PumpStage.work]
      omega
    next hn =>
      rw [hn] at hen
      cases hen

theorem State.exists_send (hd : s.dropped = false) {item : Except String Bytes}
    (hp : s.pump = .sending item) (hro : s.channel.length < channelCapacity) :
    ∃ t, s.send item = some t ∧ t.work < s.work ∧ t.pump.started = true ∧ t.dropped = false := by
  unfold State.send
  rw [if_neg (Bool.eq_false_iff.1 hd), if_pos hro]
  cases item with
  | ok bs =>
    refine ⟨_, rfl, ?_, rfl, hd⟩
    simp only [State.work, hp, PumpStage.work, length_append, length_singleton]
    omega
  | error error =>
    refine ⟨_, rfl, ?_, rfl, hd⟩
    simp only [State.work, hp, PumpStage.work, length_append, length_singleton]
    omega

theorem State.exists_recv (hen : s.ended = none)
    (ht : s.channel ≠ [] ∨ ∃ why, s.pump = .stopped why) :
    ∃ t, s.recv = some t ∧ t.work < s.work ∧ t.pump = s.pump ∧ t.dropped = s.dropped := by
  unfold State.recv
  split
  next hch =>
    refine ⟨_, rfl, ?_, rfl, rfl⟩
    simp only [State.work, hch, length_cons]
    omega
  next hch =>
    refine ⟨_, rfl, ?_, rfl, rfl⟩
    simp only [State.work, hch, hen, length_cons, isSome_some, if_true]
    omega
  next hch hp =>
    refine ⟨_, rfl, ?_, rfl, rfl⟩
    simp [State.work, hen]
  next hch hn =>
    obtain hne | ⟨why, hp⟩ := ht
    · exact absurd hch hne
    · exact absurd hp (hn why)

theorem State.exists_moves (hend : client.ending.isSome = true)
    (hst : s.pump.started = true) (hdr : s.dropped = false) (hen : s.ended = none) :
    ∃ a t, a.moves = true ∧ s.step headers client maxBody a = some t ∧ t.work < s.work ∧
      t.pump.started = true ∧ t.dropped = false := by
  have hre : s.channel ≠ [] ∨ (∃ why, s.pump = .stopped why) →
      ∃ a t, a.moves = true ∧ s.step headers client maxBody a = some t ∧ t.work < s.work ∧
        t.pump.started = true ∧ t.dropped = false := fun hth => by
    obtain ⟨t, ht, hw, hp, hd⟩ := State.exists_recv hen hth
    exact ⟨.recv, t, rfl, (if_pos ⟨hdr, hen⟩).trans ht, hw, hp ▸ hst, hd.trans hdr⟩
  cases hp : s.pump with
  | idle | refused =>
    rw [hp] at hst
    cases hst
  | waiting since =>
    by_cases hth : s.arrived ≠ [] ∨ s.finished = true
    · obtain ⟨t, ht, hw, hstr, hd⟩ := State.exists_take hend hp hth
      exact ⟨.take, t, rfl, by simp only [State.step, hp]; exact ht, hw, hstr, hd.trans hdr⟩
    · have hf : s.finished = false := Bool.eq_false_iff.2 fun h => hth (.inr h)
      cases hco : s.coming with
      | nil =>
        refine ⟨.finish, { s with finished := true }, rfl, if_pos ⟨hco, hf, hend⟩, ?_, hst, hdr⟩
        simp only [State.work, hf, if_true, Bool.false_eq_true, if_false]
        omega
      | cons frame coming =>
        refine ⟨.arrive, { s with coming, arrived := s.arrived ++ [frame] }, rfl,
          by simp only [State.step, hco], ?_, hst, hdr⟩
        simp only [State.work, hco, length_cons, length_append, length_nil]
        omega
  | sending item =>
    by_cases hro : s.channel.length < channelCapacity
    · obtain ⟨t, ht, hw, hstr, hd⟩ := State.exists_send hdr hp hro
      exact ⟨.send, t, rfl, by simp only [State.step, hp, ht], hw, hstr, hd⟩
    · refine hre (.inl fun hch => hro ?_)
      rw [hch]
      decide
  | stopped why => exact hre (.inr ⟨why, hp⟩)

/-- A worker that reads comes to the end of the stream, by the steps of the client, the pump and its
own. -/
theorem State.exists_run (hending : client.ending.isSome = true) (hst : s.pump.started = true)
    (hd : s.dropped = false) :
    ∃ as t, (∀ a ∈ as, Act.moves a = true) ∧ (machine headers client maxBody).run s as = some t ∧
      t.ended.isSome = true := by
  induction hw : s.work using Nat.strong_induction_on generalizing s with
  | _ n ih =>
    cases hen : s.ended with
    | some e => exact ⟨[], s, fun a ha => (by cases ha), rfl, by rw [hen]; rfl⟩
    | none =>
      obtain ⟨a, t, ha, hstep, hlt, hst', hd'⟩ :=
        State.exists_moves hending hst hd hen
      obtain ⟨as, u, has, hru, hend⟩ := ih t.work (hw ▸ hlt) hst' hd' rfl
      refine ⟨a :: as, u, forall_mem_cons.2 ⟨ha, has⟩, ?_, hend⟩
      rw [Machine.run_cons]
      exact bind_eq_some_iff.2 ⟨t, hstep, hru⟩

end

/-- **Streamed and buffered bodies agree**, unless the pump is cut short: by its timeout, or by the
abort that follows the worker's answer. -/
theorem bodies_agree (headers : Headers) (client : Client) (maxBody : Nat) (s : State)
    (h : (machine headers client maxBody).Reach (fun _ a => a.cutsShort = false) s) :
    (∀ refusal, s.pump = .refused refusal →
      bufferedBody headers client maxBody = some (.error refusal)) ∧
    (s.ended = some .complete → client.ending = some .complete ∧
      s.received.flatten = client.bytes ∧ client.bytes.length ≤ maxBody ∧
      bufferedBody headers client maxBody = some (.ok s.received.flatten)) ∧
    (∀ message, s.ended = some (.failed message) → Fails headers client maxBody message) ∧
    (client.ending.isSome = true → s.pump.started = true → s.dropped = false →
      ∃ as t, (∀ a ∈ as, Act.moves a = true) ∧ (machine headers client maxBody).run s as = some t ∧
        t.ended.isSome = true) := by
  have hs : s.Sound headers client maxBody := by
    refine h.invariant ⟨.idle rfl ⟨fun _ h => (by cases h), rfl⟩ rfl rfl rfl, nofun⟩ ?_
    intro s a t _ hs ha hstep
    exact hs.step ha hstep
  refine ⟨fun refusal => hs.follows.of_refused, fun hended => ?_,
    fun message => hs.follows.of_failed, State.exists_run⟩
  have heq := hs.follows.of_complete hended
  obtain ⟨-, hend, hbs, hlen⟩ := (bufferedBody_eq_ok_iff _).1 heq
  exact ⟨hend, hbs, hlen, heq⟩

/-! ### A body in two parts -/

def streamed : Headers := .ofLines [(ascii "x-request-body-stream", ascii "1")]

def twoParts : Client := ⟨[.data (ascii "up"), .data (ascii "load")], some .complete⟩

def firstPart : List Act := [.start false, .arrive, .take, .send, .recv]

theorem bodies_agree_two_parts :
    ∃ s, (machine streamed twoParts 6).Reach (fun _ a => a.cutsShort = false) s ∧
      s.ended = some .complete ∧ s.received.flatten = ascii "upload" ∧
      bufferedBody streamed twoParts 6 = some (.ok s.received.flatten) := by
  obtain ⟨s, hs, hp⟩ := Machine.exists_reach_of_runIf (M := machine streamed twoParts 6)
    (fun _ a => a.cutsShort == false) (fun _ _ _ h => beq_iff_eq.1 h)
    (firstPart ++ [Act.tick 4999, .arrive, .take, .send, .finish, .take, .recv, .recv, .answer])
    (fun s => s.ended = some .complete) (by decide)
  obtain ⟨-, hcomp, -⟩ := bodies_agree streamed twoParts 6 s hs
  have hend := hp
  obtain ⟨-, hbs, -, heq⟩ := hcomp hend
  exact ⟨s, hs, hend, hbs.trans (by decide), heq⟩

theorem body_cut_by_timeout :
    ¬ ∀ (headers : Headers) (client : Client) (maxBody : Nat) (s : State),
      (machine headers client maxBody).Reachable s → s.ended = some .complete →
        s.received.flatten = client.bytes := by
  intro h
  obtain ⟨s, hs, hend, hne⟩ := (machine streamed twoParts 6).exists_of_run
    (firstPart ++ [Act.tick 5000, .timeout, .recv, .arrive])
    (fun s => s.ended = some .complete ∧ s.received.flatten ≠ twoParts.bytes) (by decide)
  exact hne (h streamed twoParts 6 s hs hend)

theorem body_cut_by_answer :
    ∃ s, (machine streamed twoParts 6).Reachable s ∧ s.ended = some .complete ∧
      s.received = [ascii "up"] ∧ s.arrived = [.data (ascii "load")] := by
  obtain ⟨s, hs, hp⟩ := (machine streamed twoParts 6).exists_of_run
    (firstPart ++ [Act.answer, .arrive, .abort, .recv])
    (fun s => s.ended = some .complete ∧ s.received = [ascii "up"] ∧
      s.arrived = [.data (ascii "load")]) (by decide)
  exact ⟨s, hs, hp⟩

end OpenWorkersRunner.RequestBody
