import OpenWorkersRunner.D1.ServiceStep
import OpenWorkersRunner.D1.Sqlite

/-!
# D1: what an interrupt stops

When the deadline of a call passes, or its caller is dropped, `run` raises one interrupt and the job
goes on until it ends.  SQLite stops the statement that runs at that moment; an interrupt that comes
when none runs has no effect on the statements that begin later.
-/

namespace OpenWorkersRunner.D1

open Option

open Sqlite (Ask Conn NoWork StopsWork Statement SqliteError)

structure Execution where
  call : Call
  handle : Handle
  rest : Conn (Sqlite.Done × Option Nat)
  raised : Bool
  late : List Statement

inductive ExecutionAct
  | caller (a : RunAct)
  | start
  | commit (a : JobAct)
  | answer (q : Ask) (answer : q.Answer)
  | finish (panicked : Bool)
  | other (j number : Nat)

def isInterrupt (err : SqliteError) : Bool := err.code.any fun code => code % 256 == 9

def Handle.running (x : Handle) : Option Bool := x.database.bind Connection.statement

namespace Execution

/-- A job that has just been given to the blocking threads, on a connection where nothing runs. -/
def spawned (i : Nat) (key : Key) (h : Nat) (x : Handle) (number : Nat)
    (program : Conn (Sqlite.Done × Option Nat)) : Execution where
  call := ⟨key, h, .running number false .active, none⟩
  handle := { x with guard := some i, database := some ⟨number, none, none⟩ }
  rest := program
  raised := false
  late := []

def put (s : Execution) (r : Call × Handle) : Execution := { s with call := r.1, handle := r.2 }

def allows (s : Execution) : (q : Ask) → q.Answer → Bool
  | .execute _ _, .ok _ => s.handle.running == some false
  | .execute _ _, .error err => s.handle.running == some false || isInterrupt err
  | _, _ => true

def endsQuestion (s : Execution) : Ask → Option (Call × Handle)
  -- the program says what the job does with the answer, a failed one included
  | .execute _ _ => s.call.runJob s.handle (.endStatement true)
  | _ => some (s.call, s.handle)

def step (i : Nat) (s : Execution) : ExecutionAct → Option Execution
  | .caller .learn => (s.call.run i s.handle .learn).map s.put
  | .caller .deadline => (s.call.run i s.handle .deadline).map { s with raised := true }.put
  | .caller .cancel => (s.call.run i s.handle .cancel).map { s with raised := true }.put
  | .caller _ => none
  | .start =>
    match s.rest with
    | .ask (.execute _ statement) _ =>
      (s.call.runJob s.handle .beginStatement).map
        { s with late := if s.raised then s.late ++ [statement] else s.late }.put
    | _ => none
  | .commit .hook => (s.call.runJob s.handle .hook).map s.put
  | .commit .visible => (s.call.runJob s.handle .visible).map s.put
  | .commit .rollback => (s.call.runJob s.handle .rollback).map s.put
  | .commit _ => none
  | .answer q answer =>
    match s.rest with
    | .ask q' next =>
      if h : q = q' then
        if s.allows q answer then (s.endsQuestion q).map { s with rest := next (h ▸ answer) }.put
        else none
      else none
    | .done _ => none
  | .finish panicked =>
    match panicked, s.rest with
    | false, .ask _ _ => none
    | _, _ => (s.call.runJob s.handle (.finish panicked)).map s.put
  | .other j number => some { s with handle := s.handle.interrupt j number }

inductive Step (i : Nat) (s : Execution) : ExecutionAct → Execution → Prop
  | learned {r : Call × Handle} (h : s.call.run i s.handle .learn = some r) :
      Step i s (.caller .learn) (s.put r)
  | interrupted {a : RunAct} {r : Call × Handle} (ha : a = .deadline ∨ a = .cancel)
      (h : s.call.run i s.handle a = some r) :
      Step i s (.caller a) ({ s with raised := true }.put r)
  | started {shape : Sqlite.Shape} {statement : Statement}
      {next : (Ask.execute shape statement).Answer → Conn (Sqlite.Done × Option Nat)}
      {r : Call × Handle} (hrest : s.rest = .ask (.execute shape statement) next)
      (h : s.call.runJob s.handle .beginStatement = some r) :
      Step i s .start ({ s with late := if s.raised then s.late ++ [statement] else s.late }.put r)
  | committed {a : JobAct} {r : Call × Handle} (ha : a = .hook ∨ a = .visible ∨ a = .rollback)
      (h : s.call.runJob s.handle a = some r) : Step i s (.commit a) (s.put r)
  | answered {q : Ask} {answer : q.Answer} {next : q.Answer → Conn (Sqlite.Done × Option Nat)}
      {r : Call × Handle} (hrest : s.rest = .ask q next) (hallows : s.allows q answer = true)
      (h : s.endsQuestion q = some r) :
      Step i s (.answer q answer) ({ s with rest := next answer }.put r)
  | finished {panicked : Bool} {r : Call × Handle}
      (h : s.call.runJob s.handle (.finish panicked) = some r) :
      Step i s (.finish panicked) (s.put r)
  | other (j number : Nat) :
      Step i s (.other j number) { s with handle := s.handle.interrupt j number }

theorem step_of_eq {i : Nat} {s t : Execution} {a : ExecutionAct} (h : s.step i a = some t) :
    s.Step i a t := by
  unfold step at h
  split at h
  · obtain ⟨r, hr, rfl⟩ := map_eq_some_iff.1 h
    exact .learned hr
  · obtain ⟨r, hr, rfl⟩ := map_eq_some_iff.1 h
    exact .interrupted (.inl rfl) hr
  · obtain ⟨r, hr, rfl⟩ := map_eq_some_iff.1 h
    exact .interrupted (.inr rfl) hr
  · cases h
  · split at h
    · obtain ⟨r, hr, rfl⟩ := map_eq_some_iff.1 h
      exact .started ‹_› hr
    · cases h
  · obtain ⟨r, hr, rfl⟩ := map_eq_some_iff.1 h
    exact .committed (.inl rfl) hr
  · obtain ⟨r, hr, rfl⟩ := map_eq_some_iff.1 h
    exact .committed (.inr (.inl rfl)) hr
  · obtain ⟨r, hr, rfl⟩ := map_eq_some_iff.1 h
    exact .committed (.inr (.inr rfl)) hr
  · cases h
  · split at h
    · split at h
      next hq =>
        subst hq
        split at h
        · obtain ⟨r, hr, rfl⟩ := map_eq_some_iff.1 h
          exact .answered ‹_› ‹_› hr
        · cases h
      · cases h
    · cases h
  · split at h
    · cases h
    · obtain ⟨r, hr, rfl⟩ := map_eq_some_iff.1 h
      exact .finished hr
  · cases h
    exact .other _ _

/-- **An execution does to its call and its handle what the service lets a call do**, and besides
that only another call interrupts its connection. -/
theorem Step.refines (cfg : Config) {i : Nat} {s t : Execution} {a : ExecutionAct}
    (h : s.Step i a t) :
    (∃ b, s.call.step cfg i s.handle b = some (t.call, t.handle)) ∨ t.call = s.call ∧
        (t.handle = s.handle ∨ ∃ j num, t.handle = s.handle.interrupt j num) := by
  cases h with
  | learned h => exact .inl ⟨.run .learn, h⟩
  | interrupted ha h => exact .inl ⟨.run _, h⟩
  | started hre h => exact .inl ⟨.job .beginStatement, h⟩
  | committed ha h => exact .inl ⟨.job _, h⟩
  | @answered q ans next r hre hal h =>
    cases q with
    | execute shape stmt => exact .inl ⟨.job (.endStatement true), h⟩
    | _ =>
      cases h
      exact .inr ⟨rfl, .inl rfl⟩
  | finished h => exact .inl ⟨.job (.finish _), h⟩
  | other j num => exact .inr ⟨rfl, .inr ⟨j, num, rfl⟩⟩

end Execution

def executionMachine (i : Nat) (key : Key) (h : Nat) (x : Handle) (number : Nat)
    (program : Conn (Sqlite.Done × Option Nat)) : Machine Execution ExecutionAct where
  init := .spawned i key h x number program
  step := Execution.step i

/-- What the service lets one call do to its handle, and the interrupts of other calls. -/
def callMachine (config : Config) (i : Nat) (e : Execution) :
    Machine (Call × Handle) (CallAct ⊕ Nat × Nat) where
  init := (e.call, e.handle)
  step p
    | .inl a => p.1.step config i p.2 a
    | .inr (j, number) => some (p.1, p.2.interrupt j number)

/-- **The execution of a job refines the call of the service**, whatever SQLite answers. -/
theorem execution_refines {i : Nat} {e s : Execution}
    (hs : (Machine.mk e (Execution.step i)).Reachable s) (config : Config) :
    (callMachine config i e).Reachable (s.call, s.handle) := by
  refine hs.project (N := callMachine config i e) (fun s => (s.call, s.handle)) rfl
    fun s a t _ hst => ?_
  rcases (Execution.step_of_eq hst).refines config with ⟨b, hb⟩ | ⟨hc, hh | ⟨j, num, hh⟩⟩
  · exact .inr ⟨.inl b, trivial, hb⟩
  · exact .inl (by rw [hc, hh])
  · exact .inr ⟨.inr (j, num), trivial, by rw [hc, hh]; rfl⟩

/-! ## The connection of an execution -/

namespace Handle

theorem number_interrupt (x : Handle) (i num : Nat) :
    (x.interrupt i num).database.map Connection.number = x.database.map Connection.number := by
  cases hd : x.database with
  | none => simp [interrupt, hd]
  | some d =>
    simp only [interrupt, hd, map_some]
    split <;> rfl

theorem running_interrupt {x : Handle} (h : x.running = some true) (i num : Nat) :
    (x.interrupt i num).running = some true := by
  cases hd : x.database with
  | none => simp [running, hd] at h
  | some d =>
    rw [running, hd, bind_some] at h
    simp only [running, interrupt, hd, map_some, bind_some]
    split
    · rw [h]; rfl
    · exact h

theorem running_interrupt_self {x : Handle} {num : Nat} {reached : Bool}
    (hn : x.database.map Connection.number = some num) (h : x.running = some reached)
    (i : Nat) : (x.interrupt i num).running = some true := by
  obtain ⟨d, hd, rfl⟩ := map_eq_some_iff.1 hn
  rw [running, hd, bind_some] at h
  simp [running, interrupt, hd, h]

end Handle

/-- A call whose job was given to the blocking threads, and whose interrupts are for the connection
of its handle. -/
def Call.Own (c : Call) (x : Handle) : Prop :=
  match c.stage with
  | .running number _ _ => x.database.map Connection.number = some number
  | .cancelled _ | .returned => True
  | _ => False

variable {c c' : Call} {x x' : Handle}

theorem Call.Own.congr (h : c.Own x)
    (hn : x'.database.map Connection.number = x.database.map Connection.number)
    (hst : c'.stage = c.stage ∨ ∃ job, c'.stage = c.stage.withJob job) : c'.Own x' := by
  unfold Own at h ⊢
  rcases hst with hst | ⟨job, hst⟩
  · rw [hst, hn]
    exact h
  · rw [hst, hn]
    cases hc : c.stage <;> simp_all [Stage.withJob]

theorem Call.Own.run {i : Nat} {a : RunAct} (h : c.Own x) (ha : a = .deadline ∨ a = .cancel)
    (hru : c.run i x a = some (c', x')) :
    c'.Own x' ∧ ∃ number, x.database.map Connection.number = some number ∧
      x' = x.interrupt i number := by
  have hst : c.Step ⟨0, 0, 0, false⟩ i x (.run a) c' x' := Call.run_eq hru
  unfold Own at h ⊢
  rcases ha with rfl | rfl
  · cases hst with
    | @deadline number job hc =>
      rw [hc] at h
      exact ⟨(Handle.number_interrupt x i number).trans h, number, h, rfl⟩
  · cases hst with
    | @cancelRunning number late job hc =>
      rw [hc] at h
      exact ⟨trivial, number, h, rfl⟩
    | cancelQueued hc => simp [hc] at h
    | cancelOpening hc => simp [hc] at h

theorem Call.Own.runJob {a : JobAct} (h : c.Own x) (hrun : c.runJob x a = some (c', x')) :
    c'.Own x' := by
  have hst : c.Step ⟨0, 0, 0, false⟩ 0 x (.job a) c' x' := Call.runJob_eq hrun
  cases hst with
  | beginStatement hc hd => exact h.congr (by rw [hd]; rfl) (.inl rfl)
  | hook hc hd => exact h.congr (by rw [hd]; rfl) (.inl rfl)
  | visible hc hd => exact h.congr (by rw [hd]; rfl) (.inl rfl)
  | rollback hc hd => exact h.congr (by rw [hd]; rfl) (.inl rfl)
  | endStatement ok hc hd => exact h.congr (by rw [hd]; rfl) (.inr ⟨_, rfl⟩)
  | finish panicked hc hru hd => exact h.congr rfl (.inr ⟨_, rfl⟩)

namespace Execution

/-! ## Interrupts that land -/

/-- A statement of the job runs, and its error is not ignored; `reached` tells what the connection
has of an interrupt. -/
def Exposed (s : Execution) (reached : Option Bool → Prop) : Prop :=
  ∃ shape statement next, s.rest = .ask (.execute shape statement) next ∧
    statement.role ≠ .measure ∧ reached s.handle.running

/-- Where an interrupt is raised, it stops the statement that runs, and so the job; or there is no
work left. -/
def Lands (s : Execution) : ExecutionAct → Prop
  | .caller .deadline | .caller .cancel =>
    NoWork s.rest ∨ s.Exposed fun running => running ≠ none
  | _ => True

structure Bound (s : Execution) : Prop where
  stops : StopsWork s.rest
  own : s.call.Own s.handle
  caught : s.raised = true → NoWork s.rest ∨ s.Exposed fun running => running = some true
  late : ∀ statement ∈ s.late, statement.role ≠ .work

theorem bound_spawned (i : Nat) (key : Key) (h : Nat) (x : Handle) (num : Nat)
    {prog : Conn (Sqlite.Done × Option Nat)} (hp : StopsWork prog) :
    (spawned i key h x num prog).Bound where
  stops := hp
  own := rfl
  caught := nofun
  late := nofun

variable {c : Call} {s : Execution} {x : Handle}

theorem Bound.put (hs : s.Bound) (ho : c.Own x)
    (hru : s.handle.running = some true → x.running = some true) : (s.put (c, x)).Bound where
  stops := hs.stops
  own := ho
  caught := by
    intro hra
    refine (hs.caught hra).imp_right ?_
    rintro ⟨shape, stmt, next, hre, hro, hread⟩
    exact ⟨shape, stmt, next, hre, hro, hru hread⟩
  late := hs.late

theorem Bound.interrupt {i : Nat} {a : RunAct} (hs : s.Bound) (ha : a = .deadline ∨ a = .cancel)
    (hl : NoWork s.rest ∨ s.Exposed fun running => running ≠ none)
    (h : s.call.run i s.handle a = some (c, x)) : ({ s with raised := true }.put (c, x)).Bound := by
  obtain ⟨ho, num, hn, rfl⟩ := hs.own.run ha h
  refine ⟨hs.stops, ho, fun _ => hl.imp_right ?_, hs.late⟩
  rintro ⟨shape, stmt, next, hre, hro, hru⟩
  obtain ⟨reached, hread⟩ := ne_none_iff_exists'.1 hru
  exact ⟨shape, stmt, next, hre, hro, Handle.running_interrupt_self hn hread i⟩

theorem Bound.start {shape : Sqlite.Shape} {stmt : Statement}
    {next : (Ask.execute shape stmt).Answer → Conn (Sqlite.Done × Option Nat)} (hs : s.Bound)
    (hres : s.rest = .ask (.execute shape stmt) next)
    (h : s.call.runJob s.handle .beginStatement = some (c, x)) :
    ({ s with late := if s.raised then s.late ++ [stmt] else s.late }.put (c, x)).Bound := by
  have hstep : s.call.Step ⟨0, 0, 0, false⟩ 0 s.handle (.job .beginStatement) c x :=
    Call.runJob_eq h
  have hid : s.handle.running = none := by
    cases hstep with
    | beginStatement hc hd hid => rw [Handle.running, hd, bind_some, hid]
  -- nothing runs, so an interrupt that landed has left no work
  have hn (hra : s.raised = true) : NoWork s.rest := by
    refine (hs.caught hra).resolve_right ?_
    rintro ⟨_, _, _, _, _, hre⟩
    rw [hid] at hre
    cases hre
  refine ⟨hs.stops, hs.own.runJob h, fun hra => .inl (hn hra), ?_⟩
  show ∀ st ∈ if s.raised then s.late ++ [stmt] else s.late, st.role ≠ .work
  split
  case isFalse => exact hs.late
  case isTrue hra =>
    have hw := hn hra
    rw [hres] at hw
    intro st hst
    rcases List.mem_append.1 hst with hst | hst
    · exact hs.late st hst
    · rw [List.mem_singleton.1 hst]
      simpa [Ask.isWork] using hw.1

theorem Bound.answer {q : Ask} {ans : q.Answer}
    {next : q.Answer → Conn (Sqlite.Done × Option Nat)} (hs : s.Bound)
    (hre : s.rest = .ask q next) (ha : s.allows q ans = true) (ho : c.Own x) :
    ({ s with rest := next ans }.put (c, x)).Bound := by
  have hst := hs.stops
  rw [hre] at hst
  refine ⟨(hst ans).2, ho, fun hra => .inl ?_, hs.late⟩
  rcases hs.caught hra with hn | ⟨shape, stmt, next', hre', hro, hread⟩
  · rw [hre] at hn
    exact hn.2 ans
  · rw [hre] at hre'
    cases hre'
    refine (hst ans).1 ?_
    cases ans with
    | ok res => simp [allows, hread] at ha
    | error err => exact hro

theorem Bound.step {i : Nat} {t : Execution} {a : ExecutionAct} (hs : s.Bound) (hl : s.Lands a)
    (h : s.Step i a t) : t.Bound := by
  cases h with
  | @learned r h =>
    obtain ⟨c, x⟩ := r
    have hst : s.call.Step ⟨0, 0, 0, false⟩ i s.handle (.run .learn) c x := Call.run_eq h
    cases hst with
    | learn hc => exact hs.put trivial id
  | @interrupted a r ha h =>
    obtain ⟨c, x⟩ := r
    refine hs.interrupt ha ?_ h
    rcases ha with rfl | rfl
    · exact hl
    · exact hl
  | started hre h => exact hs.start hre h
  | @committed a r ha h =>
    obtain ⟨c, x⟩ := r
    refine hs.put (hs.own.runJob h) fun hru => ?_
    have hst : s.call.Step ⟨0, 0, 0, false⟩ i s.handle (.job a) c x := Call.runJob_eq h
    rcases ha with rfl | rfl | rfl
    all_goals
      cases hst
      simp_all [Handle.running]
  | @answered q ans next r hre hal h =>
    obtain ⟨c, x⟩ := r
    refine hs.answer hre hal ?_
    cases q with
    | execute shape stmt => exact hs.own.runJob h
    | _ =>
      cases h
      exact hs.own
  | @finished panicked r h =>
    obtain ⟨c, x⟩ := r
    refine hs.put (hs.own.runJob h) fun hru => ?_
    have hst : s.call.Step ⟨0, 0, 0, false⟩ i s.handle (.job (.finish panicked)) c x :=
      Call.runJob_eq h
    cases hst
    exact hru
  | other j num =>
    exact hs.put (hs.own.congr (Handle.number_interrupt _ _ _) (.inl rfl)) fun hru =>
      Handle.running_interrupt hru j num

def landsNow (s : Execution) : ExecutionAct → Bool
  | .caller .deadline | .caller .cancel =>
    match s.rest with
    | .ask (.execute _ statement) _ => statement.role != .measure && s.handle.running.isSome
    | _ => false
  | _ => true

theorem lands_of_landsNow {a : ExecutionAct} (h : s.landsNow a = true) : s.Lands a := by
  have hex (h : (match s.rest with
      | .ask (.execute _ stmt) _ => stmt.role != .measure && s.handle.running.isSome
      | _ => false) = true) : NoWork s.rest ∨ s.Exposed fun running => running ≠ none := by
    split at h
    next shape stmt next hre =>
      rw [Bool.and_eq_true, bne_iff_ne] at h
      exact .inr ⟨shape, stmt, next, hre, h.1, isSome_iff_ne_none.1 h.2⟩
    · cases h
  unfold landsNow at h
  split at h
  · exact hex h
  · exact hex h
  · unfold Lands
    split <;> first | contradiction | trivial

end Execution

/-- **A deadline binds if its interrupt lands**: whatever the job is, once the deadline has passed
or the caller was dropped the job begins no statement that does work. -/
theorem deadlines_bind (d : Sqlite.Database) (job : Sqlite.Job) (measure : Bool) (i : Nat)
    (key : Key) (h : Nat) (x : Handle) (number : Nat) {s : Execution}
    (hs : (executionMachine i key h x number (d.job job measure)).Reach Execution.Lands s) :
    ∀ statement ∈ s.late, statement.role ≠ .work := by
  suffices hbound : s.Bound from hbound.late
  refine hs.invariant (Execution.bound_spawned i key h x number (d.stopsWork_job job measure)) ?_
  intro s a t _ hs hlanded h
  exact hs.step hlanded (Execution.step_of_eq h)

def twoUpdates : Machine Execution ExecutionAct :=
  executionMachine 0 (.database 1) 0 (.new (.database 1) 0) 0
    (Sqlite.Database.job ⟨4096, 1000, none, none⟩
      (.op (.batch [⟨"UPDATE a SET x = 1", []⟩, ⟨"UPDATE b SET x = 1", []⟩])) false)

def firstUpdate : List ExecutionAct :=
  [.answer (.setGuest false) (), .start,
    .answer (.execute .nothing ⟨.control, "BEGIN IMMEDIATE", []⟩) (.ok ()),
    .answer (.setGuest true) (),
    .answer (.prepare "UPDATE a SET x = 1") (.ok ⟨"UPDATE a SET x = 1", [], false, [], none⟩),
    .start]

theorem deadlines_bind_twoUpdates : ∃ s, twoUpdates.Reach Execution.Lands s ∧
    s.late = [⟨.control, "ROLLBACK", []⟩] ∧ ∀ statement ∈ s.late, statement.role ≠ .work := by
  obtain ⟨s, hs, hp⟩ := Machine.exists_reach_of_runIf (M := twoUpdates) Execution.landsNow
    (fun _ _ _ => Execution.lands_of_landsNow)
    (firstUpdate ++ [ExecutionAct.caller .deadline,
      .answer (.execute .rows ⟨.work, "UPDATE a SET x = 1", []⟩)
        (.error ⟨some 9, none, "interrupted", "interrupted"⟩),
      .answer .isAutocommit false, .answer (.setGuest false) (), .start])
    (fun s => s.late = [⟨.control, "ROLLBACK", []⟩]) (by decide)
  exact ⟨s, hs, hp, deadlines_bind _ _ _ _ _ _ _ _ hs⟩

theorem deadline_missed : ¬ ∀ (d : Sqlite.Database) (job : Sqlite.Job) (measure : Bool) (i : Nat)
    (key : Key) (h : Nat) (x : Handle) (number : Nat) (s : Execution),
    (executionMachine i key h x number (d.job job measure)).Reachable s →
      ∀ statement ∈ s.late, statement.role ≠ .work := by
  intro h
  obtain ⟨s, hs, hp⟩ := twoUpdates.exists_of_run
    (firstUpdate ++
      [ExecutionAct.answer (.execute .rows ⟨.work, "UPDATE a SET x = 1", []⟩) (.ok []),
      .caller .deadline, .answer (.setGuest false) (), .start,
      .answer (.execute .int ⟨.measure, "PRAGMA page_count", []⟩) (.ok none),
      .answer (.setGuest true) (),
      .answer (.prepare "UPDATE b SET x = 1") (.ok ⟨"UPDATE b SET x = 1", [], false, [], none⟩),
      .start])
    (fun s => ⟨.work, "UPDATE b SET x = 1", []⟩ ∈ s.late) (by decide)
  exact h _ _ _ _ _ _ _ _ s hs _ hp rfl

end OpenWorkersRunner.D1
