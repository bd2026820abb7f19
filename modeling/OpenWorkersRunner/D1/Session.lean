import OpenWorkersRunner.D1.Sqlite
import OpenWorkersRunner.Lib.Machine
import OpenWorkersRunner.Lib.Wp

/-!
# D1: what jobs leave of a connection

A job of `D1.Sqlite` is a program that asks SQLite.  This file says how SQLite answers, as far as
transactions and the guest restrictions go, and what follows for one job after another on a
connection.
-/

namespace OpenWorkersRunner.D1.Sqlite

open List Option World

/-! ## How SQLite reads a text -/

inductive AuthAction
  | attach
  | detach
  | transaction
  | savepoint
  | pragma (name : String)
  | function (name : String)
  | other
deriving DecidableEq

def guestPragmas : List String :=
  ["defer_foreign_keys", "foreign_key_check", "foreign_key_list", "index_info", "index_list",
    "index_xinfo", "quick_check", "table_info", "table_list", "table_xinfo"]

def authorizeGuest : AuthAction → Bool
  | .attach | .detach | .transaction | .savepoint => false
  | .pragma name => guestPragmas.contains name.toLower
  | .function name => name.toLower != "load_extension"
  | .other => true

inductive Kind
  | opens
  | commits
  | rollsBack
  | savepoint
  | plain
deriving DecidableEq

/-- The content of a database: the rows of the ledger, by name and checksum, and everything else. -/
structure Content (δ : Type) where
  data : δ
  ledger : Option (List (String × String))
deriving DecidableEq

/-- What SQLite makes of texts and statements.  `hooked` is that there is a trigger on the ledger of
the migrations, and `recorded` what an `INSERT` into it does then: a guest may write such a trigger,
which can skip the row with `RAISE(IGNORE)` or do more. -/
structure Engine (δ : Type) where
  statements : String → List String
  kind : String → Kind
  actions : String → List AuthAction
  effect : String → List SqlPrimitive → Content δ → Content δ
  hooked : δ → Bool
  recorded : String → String → Content δ → Content δ
  statements_le : ∀ sql, (statements sql).length ≤ sql.utf8ByteSize
  asked : ∀ sql, kind sql ≠ .plain →
    AuthAction.transaction ∈ actions sql ∨ AuthAction.savepoint ∈ actions sql
  kind_immediate : kind "BEGIN IMMEDIATE" = .opens
  kind_deferred : kind "BEGIN DEFERRED" = .opens
  kind_commit : kind "COMMIT" = .commits
  kind_rollback : kind "ROLLBACK" = .rollsBack
  kind_plain : ∀ word ∈ ["CREATE", "SELECT", "INSERT", "DELETE", "PRAGMA"], ∀ rest,
    kind (word ++ " " ++ rest) = .plain

/-! ## The ledger of the migrations -/

inductive LedgerOp
  | create
  | find (name : String)
  | insert (name checksum : String)
deriving DecidableEq

def Statement.ledgerOp (st : Statement) : Option LedgerOp :=
  if st.sql = Database.migrationsTable then some .create
  else
    match st.params with
    | [.string name] => if st.sql = Database.selectChecksum then some (.find name) else none
    | [.string name, .string checksum] =>
      if st.sql = Database.insertMigration then some (.insert name checksum) else none
    | _ => none

def ledgerTexts : List String :=
  [Database.migrationsTable, Database.selectChecksum, Database.insertMigration]

theorem Statement.ledgerOp_eq_none {st : Statement} (h : st.sql ∉ ledgerTexts) :
    st.ledgerOp = none := by
  simp only [ledgerTexts, List.mem_cons, List.not_mem_nil, or_false, not_or] at h
  rw [ledgerOp, if_neg h.1]
  split
  · exact if_neg h.2.1
  · exact if_neg h.2.2
  · rfl

def Shape.text? : (shape : Shape) → shape.Result → Option (Option String)
  | .text, result => some result
  | _, _ => none

namespace Content

variable {δ : Type}

def checksum (c : Content δ) (name : String) : Option String := (c.ledger.getD []).lookup name

def withLedger (c : Content δ) : Content δ := { c with ledger := some (c.ledger.getD []) }

def record (c : Content δ) (name checksum : String) : Content δ :=
  { c with ledger := some (c.ledger.getD [] ++ [(name, checksum)]) }

/-- The content after a statement that succeeds, and reads this text if it reads one; `none` if it
cannot succeed so. -/
def succeed (e : Engine δ) (c : Content δ) (st : Statement) (read : Option (Option String)) :
    Option (Content δ) :=
  match st.ledgerOp with
  | some .create => some c.withLedger
  | some (.find name) =>
    if c.ledger.isSome && read.all (· == c.checksum name) then some c else none
  | some (.insert name checksum) =>
    -- the name is `UNIQUE`
    if e.hooked c.data then some (e.recorded name checksum c)
    else if c.ledger.isSome && (c.checksum name).isNone then some (c.record name checksum) else none
  | none => some (e.effect st.sql st.params c)

end Content

/-! ## Connections -/

structure Link (δ : Type) where
  guest : Bool
  committed : Content δ
  working : Option (Content δ)
deriving DecidableEq

inductive Aftermath (δ : Type)
  | undone
  | partly (content : Content δ)
  | rolledBack
deriving DecidableEq

namespace Link

variable {δ : Type} (e : Engine δ)

def fresh (c : Content δ) : Link δ := ⟨true, c, none⟩

def autocommit (l : Link δ) : Bool := l.working.isNone

def content (l : Link δ) : Content δ := l.working.getD l.committed

def write (l : Link δ) (c : Content δ) : Link δ :=
  match l.working with
  | none => { l with committed := c }
  | some _ => { l with working := some c }

def admits (l : Link δ) (sql : String) : Bool := !l.guest || (e.actions sql).all authorizeGuest

def succeed (l : Link δ) (st : Statement) (read : Option (Option String)) (after : Aftermath δ) :
    Option (Link δ) :=
  match e.kind st.sql with
  | .opens => if l.working.isNone then some { l with working := some l.committed } else none
  | .commits => l.working.map fun c => { l with committed := c, working := none }
  | .rollsBack => l.working.map fun _ => { l with working := none }
  | .savepoint =>
    match after with
    | .undone => some l
    | .partly c => some { l with working := some c }
    | .rolledBack => some { l with working := none }
  | .plain => (l.content.succeed e st read).map l.write

def fail (l : Link δ) (st : Statement) (after : Aftermath δ) : Link δ :=
  match e.kind st.sql, after with
  | .opens, _ => l
  | _, .rolledBack => { l with working := none }
  | .plain, .partly c => l.write c
  | _, _ => l

def answerAutocommit (l : Link δ) (autocommit : Bool) : Option (Link δ) :=
  if autocommit = l.autocommit then some l else none

/-- **How SQLite answers**: the connection after an answer, or `none` if there is no such answer. -/
def answer (l : Link δ) : (q : Ask) → q.Answer → Aftermath δ → Option (Link δ)
  | .setGuest on, _, _ => some { l with guest := on }
  | .isAutocommit, autocommit, _ => l.answerAutocommit autocommit
  | .prepare _, .ok stmt, _ => if l.admits e stmt.sql then some l else none
  | .prepare _, .error _, _ => some l
  | .next sql index, .ok found, _ =>
    if found.map Prepared.sql = (e.statements sql)[index]? ∧
        found.all (fun stmt => l.admits e stmt.sql) = true then some l
    else none
  | .next _ _, .error _, _ => some l
  | .execute shape st, .ok result, after =>
    if l.admits e st.sql then l.succeed e st (shape.text? result) after else none
  | .execute _ st, .error _, after => some (l.fail e st after)

end Link

/-! ## Sessions -/

def Ask.failed : (q : Ask) → q.Answer → Bool
  | .prepare _, .error _ => true
  | .next _ _, .error _ => true
  | .execute _ _, .error _ => true
  | _, _ => false

structure Finished (δ : Type) where
  database : Database
  job : Job
  result : Done × Option Nat
  failed : Bool
  before : Link δ
  after : Link δ

structure Running (δ : Type) where
  database : Database
  job : Job
  failed : Bool
  before : Link δ
  rest : Conn (Done × Option Nat)

structure Session (δ : Type) where
  link : Link δ
  current : Option (Running δ)
  finished : List (Finished δ)

inductive SessionAct (δ : Type)
  | start (d : Database) (job : Job) (measure : Bool)
  | answer (q : Ask) (answer : q.Answer) (after : Aftermath δ)
  | finish
  | reopen

namespace Session

variable {δ : Type} (e : Engine δ)

def step (s : Session δ) : SessionAct δ → Option (Session δ)
  | .start d job measure =>
    match s.current with
    | none => some { s with current := some ⟨d, job, false, s.link, d.job job measure⟩ }
    | some _ => none
  | .answer q answer after =>
    match s.current with
    | some ⟨d, job, failed, before, .ask q' next⟩ =>
      if h : q = q' then
        (s.link.answer e q answer after).map fun link =>
          { s with
            link := link
            current := some ⟨d, job, failed || q.failed answer, before, next (h ▸ answer)⟩ }
      else none
    | _ => none
  | .finish =>
    match s.current with
    | some ⟨d, job, failed, before, .done result⟩ =>
      some
        { s with
          current := none
          finished := s.finished ++ [⟨d, job, result, failed, before, s.link⟩] }
    | _ => none
  | .reopen =>
    match s.current with
    | none => some { s with link := .fresh s.link.committed }
    | some _ => none

inductive Step (s : Session δ) : SessionAct δ → Session δ → Prop
  | start (d : Database) (job : Job) (measure : Bool) (hcurrent : s.current = none) :
      Step s (.start d job measure)
        { s with current := some ⟨d, job, false, s.link, d.job job measure⟩ }
  | answer {q : Ask} {answer : q.Answer} {after : Aftermath δ} {d : Database} {job : Job}
      {failed : Bool} {before link : Link δ} {next : q.Answer → Conn (Done × Option Nat)}
      (hcurrent : s.current = some ⟨d, job, failed, before, .ask q next⟩)
      (h : s.link.answer e q answer after = some link) :
      Step s (.answer q answer after)
        { s with
          link := link
          current := some ⟨d, job, failed || q.failed answer, before, next answer⟩ }
  | finish {d : Database} {job : Job} {failed : Bool} {before : Link δ}
      {result : Done × Option Nat}
      (hcurrent : s.current = some ⟨d, job, failed, before, .done result⟩) :
      Step s .finish
        { s with
          current := none
          finished := s.finished ++ [⟨d, job, result, failed, before, s.link⟩] }
  | reopen (hcurrent : s.current = none) :
      Step s .reopen { s with link := .fresh s.link.committed }

variable {e} in
theorem step_of_eq {s t : Session δ} {a : SessionAct δ} (h : s.step e a = some t) :
    s.Step e a t := by
  cases a with
  | start d job measure =>
    dsimp only [step] at h
    split at h
    · cases h
      exact .start d job measure ‹_›
    · cases h
  | answer q answer after =>
    dsimp only [step] at h
    split at h
    · split at h
      next hq =>
        subst hq
        obtain ⟨link, hl, rfl⟩ := map_eq_some_iff.1 h
        exact .answer ‹_› hl
      · cases h
    · cases h
  | finish =>
    dsimp only [step] at h
    split at h
    · cases h
      exact .finish ‹_›
    · cases h
  | reopen =>
    dsimp only [step] at h
    split at h
    · cases h
      exact .reopen ‹_›
    · cases h

end Session

def sessionMachine {δ : Type} (e : Engine δ) (c : Content δ) :
    Machine (Session δ) (SessionAct δ) where
  init := ⟨.fresh c, none, []⟩
  step := Session.step e

/-! ## What a job may rely on -/

def Ask.prepares : Ask → Bool
  | .prepare _ | .next _ _ => true
  | _ => false

namespace Link

variable {δ : Type} (e : Engine δ)

def rollsBack (l : Link δ) : (q : Ask) → q.Answer → Aftermath δ → Bool
  | .execute _ st, .error _, after =>
    e.kind st.sql != .rollsBack || l.autocommit ||
      match after with
      | .rolledBack => true
      | _ => false
  | _, _, _ => true

/-- Who answers a job.  With `careful`, statements are prepared under the restrictions; with `idle`,
transactions that are rolled back are over; with `smooth`, nothing fails. -/
def world (careful idle smooth : Bool) : World (Link δ) Ask Ask.Answer where
  safe l q := careful = true → q.prepares = true → l.guest = true
  step l q answer l' := ∃ after, l.answer e q answer after = some l' ∧
    (idle = true → l.rollsBack e q answer after = true) ∧
    (smooth = true → q.failed answer = false)

def At (guest : Bool) (P : Content δ → Option (Content δ) → Prop) (l : Link δ) : Prop :=
  l.guest = guest ∧ P l.committed l.working

def Idle (idle : Bool) : Content δ → Option (Content δ) → Prop := fun _ w => idle = true → w = none

variable {e} {careful idle smooth : Bool}

@[simp] theorem write_guest (l : Link δ) (c : Content δ) : (l.write c).guest = l.guest := by
  rw [write]
  split <;> rfl

variable {l : Link δ} {guest quiet : Bool} {st : Statement}
  {P R : Content δ → Option (Content δ) → Prop} {α : Type} {body : ExceptT D1Error Conn α}

theorem write_of_none (h : l.working = none) (c : Content δ) :
    l.write c = { l with committed := c } := by rw [write, h]

theorem write_of_some {w : Content δ} (h : l.working = some w) (c : Content δ) :
    l.write c = { l with working := some c } := by rw [write, h]

theorem plain_of_admits {sql : String} (hgs : l.guest = true) (h : l.admits e sql = true) :
    e.kind sql = .plain := by
  by_contra hk
  rw [admits, hgs, Bool.not_true, Bool.false_or, List.all_eq_true] at h
  rcases e.asked sql hk with hm | hm
  · cases h _ hm
  · cases h _ hm

/-! ### Statements -/

section Statements

variable {l : Link δ} {st : Statement}

theorem succeed_of_plain (h : e.kind st.sql = .plain) (read : Option (Option String))
    (after : Aftermath δ) :
    l.succeed e st read after = (l.content.succeed e st read).map l.write := by
  simp only [succeed, h]

theorem succeed_of_opens (h : e.kind st.sql = .opens) (read : Option (Option String))
    (after : Aftermath δ) : l.succeed e st read after =
      if l.working.isNone then some { l with working := some l.committed } else none := by
  simp only [succeed, h]

theorem succeed_of_commits (h : e.kind st.sql = .commits) (read : Option (Option String))
    (after : Aftermath δ) :
    l.succeed e st read after =
      l.working.map fun c => { l with committed := c, working := none } := by
  simp only [succeed, h]

theorem succeed_of_rollsBack (h : e.kind st.sql = .rollsBack) (read : Option (Option String))
    (after : Aftermath δ) :
    l.succeed e st read after = l.working.map fun _ => { l with working := none } := by
  simp only [succeed, h]

theorem fail_of_opens (h : e.kind st.sql = .opens) (after : Aftermath δ) :
    l.fail e st after = l := by
  simp only [fail, h]

/-- A statement that fails leaves the connection as it was, or rolls back, or, if it is not about
transactions, leaves part of its work. -/
theorem fail_cases (l : Link δ) (st : Statement) (after : Aftermath δ) :
    l.fail e st after = l ∨ l.fail e st after = { l with working := none } ∨
      e.kind st.sql = .plain ∧ ∃ c, l.fail e st after = l.write c := by
  unfold fail
  split
  · exact .inl rfl
  · exact .inr (.inl rfl)
  · exact .inr (.inr ⟨‹_›, _, rfl⟩)
  · exact .inl rfl

/-- **A statement runs**: what it does when it succeeds, and when it fails. -/
theorem spec_execute {shape : Shape} {P F : Link δ → Prop} {R : shape.Result → Link δ → Prop}
    (hok : ∀ l, P l → ∀ res after l', l.succeed e st (shape.text? res) after = some l' → R res l')
    (her : ∀ l, P l → ∀ after,
      (idle = true → e.kind st.sql = .rollsBack → l.working = none ∨ after = .rolledBack) →
      smooth = false → F (l.fail e st after)) :
    (world e careful idle smooth).Spec P (execute shape st) R F := by
  refine Triple.ask (fun _ _ _ => nofun) fun l hl ans l' => ?_
  rintro ⟨after, ha, hen, hsm⟩
  cases ans with
  | ok res =>
    rw [Link.answer] at ha
    split at ha
    · exact hok l hl res after l' ha
    · cases ha
  | error err =>
    cases ha
    refine her l hl after (fun hid hk => ?_)
      (Bool.eq_false_iff.2 fun h => absurd (hsm h) nofun)
    have hro := hen hid
    simp only [rollsBack, hk, bne_self_eq_false, Bool.false_or, Bool.or_eq_true,
      autocommit, isNone_iff_eq_none] at hro
    refine hro.imp_right fun h => ?_
    split at h
    · rfl
    · cases h

end Statements

theorem at_write (hl : At guest (Idle quiet) l) (c : Content δ) :
    At guest (Idle quiet) (l.write c) := by
  refine ⟨(l.write_guest c).trans hl.1, fun hid => ?_⟩
  have hn := hl.2 hid
  rw [write_of_none hn]
  exact hn

/-- The program leaves the restrictions as they are and, with `quiet`, opens no transaction. -/
def Keeps {ε α : Type} (e : Engine δ) (careful idle smooth guest quiet : Bool)
    (p : ExceptT ε Conn α) : Prop :=
  (world e careful idle smooth).Spec (At guest (Idle quiet)) p (fun _ => At guest (Idle quiet))
    (At guest (Idle quiet))

theorem keeps_plain (hp : e.kind st.sql = .plain) (shape : Shape) :
    Keeps e careful idle smooth guest quiet (execute shape st) := by
  refine spec_execute (fun l hl res after l' h => ?_) fun l hl after _ _ => ?_
  · rw [succeed_of_plain hp] at h
    obtain ⟨c, -, rfl⟩ := map_eq_some_iff.1 h
    exact at_write hl c
  · rcases l.fail_cases (e := e) st after with h | h | ⟨-, c, h⟩
    · rw [h]
      exact hl
    · rw [h]
      exact ⟨hl.1, fun _ => rfl⟩
    · rw [h]
      exact at_write hl c

theorem spec_opens (ho : e.kind st.sql = .opens) (shape : Shape) :
    (world e careful idle smooth).Spec (At guest (Idle idle)) (execute shape st)
      (fun _ => At guest (Idle false)) (At guest (Idle idle)) := by
  refine spec_execute (fun l hl res after l' h => ?_) fun l hl after _ _ => ?_
  · rw [succeed_of_opens ho] at h
    split at h
    · cases h
      exact ⟨hl.1, nofun⟩
    · cases h
  · rw [fail_of_opens ho]
    exact hl

theorem spec_commits (hco : e.kind st.sql = .commits) (shape : Shape) :
    (world e careful idle smooth).Spec (At guest (Idle false)) (execute shape st)
      (fun _ => At guest (Idle idle)) (At guest (Idle false)) := by
  refine spec_execute (fun l hl res after l' h => ?_) fun l hl after _ _ => ?_
  · rw [succeed_of_commits hco] at h
    obtain ⟨c, -, rfl⟩ := map_eq_some_iff.1 h
    exact ⟨hl.1, fun _ => rfl⟩
  · refine ⟨?_, nofun⟩
    rcases l.fail_cases (e := e) st after with h | h | ⟨hp, -⟩
    · rw [h, hl.1]
    · rw [h]
      exact hl.1
    · rw [hco] at hp
      cases hp

theorem spec_rollsBack (hro : e.kind st.sql = .rollsBack) (shape : Shape) :
    (world e careful idle smooth).Spec (At guest (Idle false)) (execute shape st)
      (fun _ => At guest (Idle idle)) (At guest (Idle idle)) := by
  refine spec_execute (fun l hl res after l' h => ?_) fun l hl after hen _ => ?_
  · rw [succeed_of_rollsBack hro] at h
    obtain ⟨c, -, rfl⟩ := map_eq_some_iff.1 h
    exact ⟨hl.1, fun _ => rfl⟩
  · have ho : l.fail e st .rolledBack = { l with working := none } := by simp only [fail, hro]
    rcases l.fail_cases (e := e) st after with h | h | ⟨hp, -⟩
    · refine ⟨by rw [h, hl.1], fun hid => ?_⟩
      rcases hen hid hro with hn | rfl
      · rw [h, hn]
      · rw [ho]
    · rw [h]
      exact ⟨hl.1, fun _ => rfl⟩
    · rw [hro] at hp
      cases hp

/-! ### Other questions -/

theorem spec_prepare (sql : String) :
    (world e careful idle smooth).Spec (At true (Idle quiet)) (prepare sql)
      (fun stmt l => At true (Idle quiet) l ∧ e.kind stmt.sql = .plain) (At true (Idle quiet)) := by
  refine Triple.ask (fun l hl _ _ => hl.1) fun l hl ans l' => ?_
  rintro ⟨after, ha, -⟩
  cases ans with
  | ok stmt =>
    rw [Link.answer] at ha
    split at ha
    · cases ha
      exact ⟨hl, plain_of_admits hl.1 ‹_›⟩
    · cases ha
  | error err =>
    cases ha
    exact hl

theorem spec_nextStatement (sql : String) (idx : Nat) :
    (world e careful idle smooth).Spec (At true P) (nextStatement sql idx)
      (fun found l => At true P l ∧ found.map Prepared.sql = (e.statements sql)[idx]? ∧
        ∀ stmt, found = some stmt → e.kind stmt.sql = .plain) (At true P) := by
  refine Triple.ask (fun l hl _ _ => hl.1) fun l hl ans l' => ?_
  rintro ⟨after, ha, -⟩
  cases ans with
  | ok found =>
    rw [Link.answer] at ha
    split at ha
    next hco =>
      cases ha
      refine ⟨hl, hco.1, ?_⟩
      rintro stmt rfl
      exact plain_of_admits hl.1 hco.2
    · cases ha
  | error err =>
    cases ha
    exact hl

theorem triple_setGuest (on : Bool) :
    (world e careful idle smooth).Triple (At (!on) P) (setGuest on) fun _ => At on P := by
  refine Triple.ask (fun _ _ _ => nofun) fun l hl ans l' => ?_
  rintro ⟨after, ha, -⟩
  cases ha
  exact ⟨rfl, hl.2⟩

theorem triple_unrestricted {p : Conn α} {R : α → Content δ → Option (Content δ) → Prop}
    (hp : (world e careful idle smooth).Triple (At false P) p fun a => At false (R a)) :
    (world e careful idle smooth).Triple (At true P) (unrestricted p) fun a => At true (R a) := by
  refine (triple_setGuest false).bind fun _ => hp.bind fun a => (triple_setGuest true).bind ?_
  exact fun _ _ hl => hl

/-! ### Transactions -/

theorem triple_unlessAutocommit {p : Conn Unit} (hgo : ∀ c, P c none → R c none)
    (hp : (world e careful idle smooth).Triple (At guest P) p fun _ => At guest R) :
    (world e careful idle smooth).Triple (At guest P) (do
      match ← isAutocommit with
      | true => pure ()
      | false => p) fun _ => At guest R := by
  have hask : (world e careful idle smooth).Triple (At guest P) isAutocommit
      fun autocommit l => At guest P l ∧ (autocommit = true → l.working = none) := by
    refine Triple.ask (fun _ _ _ => nofun) fun l hl autocommit l' => ?_
    rintro ⟨after, ha, -⟩
    change l.answerAutocommit autocommit = some l' at ha
    unfold answerAutocommit at ha
    split at ha
    next heq =>
      cases ha
      refine ⟨hl, fun ht => ?_⟩
      rw [ht, Link.autocommit] at heq
      exact isNone_iff_eq_none.1 heq.symm
    · cases ha
  refine hask.bind fun autocommit => ?_
  cases autocommit with
  | true =>
    rintro l ⟨⟨hgs, hl⟩, hn⟩
    rw [hn rfl] at hl
    exact ⟨hgs, by rw [hn rfl]; exact hgo _ hl⟩
  | false => exact fun l hl => hp l hl.1

theorem triple_dropTransaction :
    (world e careful idle smooth).Triple (At false (Idle false)) dropTransaction
      fun _ => At false (Idle idle) := by
  refine triple_unlessAutocommit (fun _ _ _ => rfl) ?_
  refine Triple.bind (spec_rollsBack e.kind_rollback .nothing) fun r => ?_
  cases r with
  | ok _ => exact fun _ hl => hl
  | error _ => exact fun _ hl => hl

theorem spec_trusted {role : Role} {sql : String} {F : Content δ → Option (Content δ) → Prop}
    (h : (world e careful idle smooth).Spec (At false P) (execute .nothing ⟨role, sql, []⟩)
      (fun _ => At false R) (At false F)) :
    (world e careful idle smooth).Spec (At true P) (trusted role sql) (fun _ => At true R)
      (At true F) := by
  have ht := triple_unrestricted
    (R := fun r => match r with
      | .ok _ => R
      | .error _ => F)
    (Triple.mono (h.adapt sqlError) (fun _ hl => hl) fun r l hl => by cases r <;> exact hl)
  exact ht.mono (fun _ hl => hl) fun r l hl => by cases r <;> exact hl

theorem triple_rollback (hgo : ∀ c, P c none → R c none)
    (h : (world e careful idle smooth).Spec (At false P)
      (execute .nothing ⟨.control, "ROLLBACK", []⟩) (fun _ => At false R) (At false R)) :
    (world e careful idle smooth).Triple (At true P) rollback fun _ => At true R := by
  refine triple_unlessAutocommit hgo ?_
  refine Triple.bind (spec_trusted h) fun r => ?_
  cases r with
  | ok _ => exact fun _ hl => hl
  | error _ => exact fun _ hl => hl

/-- **A transaction of the runner**, whoever answers. -/
theorem spec_transaction {σ : Type} {W : World σ Ask Ask.Answer} {P B F F' : σ → Prop}
    {R R' : α → σ → Prop} (hbe : W.Spec P (trusted .control "BEGIN IMMEDIATE") (fun _ => B) F')
    (hbo : W.Spec B body R F)
    (hco : ∀ a, W.Spec (R a) (trusted .control "COMMIT") (fun _ => R' a) F)
    (hu : W.Triple F rollback fun _ => F') : W.Spec P (Database.inTransaction body) R' F' := by
  refine Spec.bind hbe fun _ => ?_
  refine Spec.bind (hbo.handled hu) fun res => ?_
  refine Spec.bind ((hco res).handled hu) fun _ => ?_
  exact Spec.value res fun _ hl => hl

theorem spec_inTransaction {B F F' : Content δ → Option (Content δ) → Prop}
    {R R' : α → Content δ → Option (Content δ) → Prop}
    (hbe : (world e careful idle smooth).Spec (At false P)
      (execute .nothing ⟨.control, "BEGIN IMMEDIATE", []⟩) (fun _ => At false B) (At false F'))
    (hbo : (world e careful idle smooth).Spec (At true B) body (fun a => At true (R a))
      (At true F)) (hco : ∀ a, (world e careful idle smooth).Spec (At false (R a))
      (execute .nothing ⟨.control, "COMMIT", []⟩) (fun _ => At false (R' a)) (At false F))
    (hgo : ∀ c, F c none → F' c none) (hro : (world e careful idle smooth).Spec (At false F)
      (execute .nothing ⟨.control, "ROLLBACK", []⟩) (fun _ => At false F') (At false F')) :
    (world e careful idle smooth).Spec (At true P) (Database.inTransaction body)
      (fun a => At true (R' a)) (At true F') :=
  spec_transaction (spec_trusted hbe) hbo (fun a => spec_trusted (hco a))
    (triple_rollback hgo hro)

theorem keeps_inTransaction (hbo : Keeps e careful idle smooth true false body) :
    Keeps e careful idle smooth true idle (Database.inTransaction body) :=
  spec_inTransaction (spec_opens e.kind_immediate .nothing) hbo
    (fun _ => spec_commits e.kind_commit .nothing) (fun _ _ _ => rfl)
    (spec_rollsBack e.kind_rollback .nothing)

/-! ### Programs -/

section Rules

variable {ε ε' α β : Type} {guest quiet : Bool}

variable {p : ExceptT ε Conn α}

theorem Keeps.bind {f : α → ExceptT ε Conn β} (hp : Keeps e careful idle smooth guest quiet p)
    (hf : ∀ a, Keeps e careful idle smooth guest quiet (f a)) :
    Keeps e careful idle smooth guest quiet (p >>= f) := Spec.bind hp hf

theorem Keeps.adapt (hp : Keeps e careful idle smooth guest quiet p) (f : ε → ε') :
    Keeps e careful idle smooth guest quiet (p.adapt f) := Spec.adapt hp f

theorem Keeps.map (hp : Keeps e careful idle smooth guest quiet p) (f : α → β) :
    Keeps e careful idle smooth guest quiet (f <$> p) := Spec.map hp f fun _ _ hl => hl

theorem keeps_pure (a : α) : Keeps (ε := ε) e careful idle smooth guest quiet (pure a) :=
  fun _ hl => hl

theorem keeps_throw (err : ε) :
    Keeps e careful idle smooth guest quiet (throw err : ExceptT ε Conn α) := fun _ hl => hl

theorem spec_check {P F : Link δ → Prop} (hf : ∀ l, P l → F l) (r : Except ε Unit) :
    (world e careful idle smooth).Spec P (check r) (fun _ => P) F := by
  cases r with
  | ok _ => exact fun _ hl => hl
  | error _ => exact hf

theorem keeps_check (r : Except ε Unit) : Keeps e careful idle smooth guest quiet (check r) :=
  spec_check (fun _ hl => hl) r

theorem triple_of_keeps (hp : Keeps e careful idle smooth false quiet p) :
    (world e careful idle smooth).Triple (At true (Idle quiet)) (unrestricted p.run)
      fun _ => At true (Idle quiet) :=
  triple_unrestricted (Spec.triple hp)

end Rules

/-! ### The statements of the runner -/

def runnerTexts : List String := objectTexts ++ ledgerTexts

/-- The statements of the runner are not about transactions: each begins with one of five words. -/
theorem kind_text {text : String} (h : text ∈ runnerTexts) : e.kind text = .plain := by
  have hwords : ∀ text ∈ runnerTexts, ∃ word ∈ ["CREATE", "SELECT", "INSERT", "DELETE", "PRAGMA"],
      (word ++ " ").toList <+: text.toList := by decide +kernel
  obtain ⟨word, hword, rest, hrest⟩ := hwords text h
  have heq : text = word ++ " " ++ String.ofList rest := by
    rw [← String.toList_inj, ← hrest]
    simp
  rw [heq]
  exact e.kind_plain word hword _

theorem kind_listStatement (start startAfter stop pre : Option String) (reverse : Bool)
    (lim : Option Nat) :
    e.kind (listStatement start startAfter stop pre reverse lim).sql = .plain := by
  have hword (a b c : String) :
      "SELECT key, value FROM kv WHERE 1" ++ a ++ b ++ c =
        "SELECT" ++ " " ++ ("key, value FROM kv WHERE 1" ++ a ++ b ++ c) := by
    simp only [← String.append_assoc]
    rfl
  rw [listStatement, hword]
  exact e.kind_plain "SELECT" (by simp) _

/-! ### Jobs -/

section Jobs

variable {quiet : Bool}

theorem triple_pages (pragma : String) :
    (world e careful idle smooth).Triple (At false (Idle quiet)) (pages pragma)
      fun _ => At false (Idle quiet) := by
  have hk : e.kind ("PRAGMA " ++ pragma) = .plain := e.kind_plain "PRAGMA" (by simp) pragma
  refine Triple.bind (Spec.triple (keeps_plain hk .int)) fun r => ?_
  match r with
  | .ok (some _) | .ok none | .error _ => exact fun _ hl => hl

variable (d : Database)

theorem triple_size : (world e careful idle smooth).Triple (At true (Idle quiet)) d.size
    fun _ => At true (Idle quiet) :=
  (triple_unrestricted (triple_pages _)).bind fun _ _ hl => hl

theorem triple_usedBytes : (world e careful idle smooth).Triple (At true (Idle quiet)) d.usedBytes
    fun _ => At true (Idle quiet) := by
  refine (triple_unrestricted ?_).bind fun _ _ hl => hl
  exact (triple_pages _).bind fun _ => (triple_pages _).bind fun _ _ hl => hl

theorem keeps_query (statement : D1Statement) (rows : D1Rows) :
    Keeps e careful idle smooth true quiet (d.query statement rows) := by
  refine Spec.bind ((spec_prepare statement.sql).adapt sqlError) fun stmt => ?_
  refine Triple.assume fun hp => ?_
  refine (keeps_check _).bind fun _ => (keeps_check _).bind fun _ => ?_
  refine ((keeps_plain hp _).adapt _).bind fun found => (keeps_check _).bind fun _ => ?_
  exact Spec.bind (Spec.lift (triple_size d)) fun _ => keeps_pure _

theorem keeps_queries (idx : Nat) (stmts : List D1Statement) :
    Keeps e careful idle smooth true quiet (d.queries idx stmts) := by
  induction stmts generalizing idx with
  | nil => exact keeps_pure _
  | cons stmt rest ih =>
    exact ((keeps_query d stmt .all).adapt _).bind fun _ =>
      (ih (idx + 1)).bind fun _ => keeps_pure _

theorem keeps_scriptFrom (sql : String) (bs count : Nat) :
    Keeps e careful idle smooth true quiet (d.scriptFrom sql bs count) := by
  induction bs generalizing count with
  | zero => exact keeps_pure _
  | succ bs ih =>
    refine Spec.bind ((spec_nextStatement sql count).adapt _) fun found => ?_
    refine Triple.assume fun ⟨_, hp⟩ => ?_
    cases found with
    | none => exact keeps_pure _
    | some stmt =>
      refine (keeps_check _).bind fun _ => (keeps_check _).bind fun _ => ?_
      exact ((keeps_plain (hp stmt rfl) _).adapt _).bind fun _ => ih (count + 1)

theorem keeps_migrateInTransaction (mig : Migration) :
    Keeps e careful idle smooth true quiet (d.migrateInTransaction mig) := by
  refine Spec.bind (spec_trusted (keeps_plain
    (kind_text (by simp [runnerTexts, ledgerTexts])) .nothing)) fun _ => ?_
  refine ((keeps_plain (kind_text (by simp [runnerTexts, ledgerTexts])) _).adapt _).bind
    fun applied => ?_
  cases applied with
  | some sum =>
    simp only
    split
    · exact keeps_pure _
    · exact keeps_throw _
  | none =>
    refine Keeps.bind (keeps_scriptFrom d mig.sql _ 0) fun _ => ?_
    exact ((keeps_plain (kind_text (by simp [runnerTexts, ledgerTexts])) _).adapt _).bind
      fun _ => keeps_pure _

theorem keeps_getValues (keys : List String) :
    Keeps e careful idle smooth false quiet (getValues keys) := by
  induction keys with
  | nil => exact keeps_pure _
  | cons key keys ih =>
    have hk : e.kind selectValue = .plain := kind_text (by simp [runnerTexts, objectTexts])
    exact ((keeps_plain hk _).adapt _).bind fun _ => ih.bind fun _ => keeps_pure _

theorem keeps_deleteEntries (deleteAll : Bool) :
    Keeps e careful idle smooth false quiet (deleteEntries deleteAll) := by
  cases deleteAll with
  | true =>
    have hk : e.kind deleteAllEntries = .plain := kind_text (by simp [runnerTexts, objectTexts])
    exact ((keeps_plain hk _).adapt _).bind fun _ => keeps_pure _
  | false => exact keeps_pure _

theorem keeps_deleteKeys (keys : List String) :
    Keeps e careful idle smooth false quiet (deleteKeys keys) := by
  induction keys with
  | nil => exact keeps_pure _
  | cons key keys ih =>
    have hk : e.kind deleteEntry = .plain := kind_text (by simp [runnerTexts, objectTexts])
    exact ((keeps_plain hk _).adapt _).bind fun _ => ih.bind fun _ => keeps_pure _

theorem keeps_putEntries (puts : List (String × List UInt8)) :
    Keeps e careful idle smooth false quiet (putEntries puts) := by
  induction puts with
  | nil => exact keeps_pure _
  | cons entry puts ih =>
    exact ((keeps_plain (kind_text (by simp [runnerTexts, objectTexts])) _).adapt _).bind
      fun _ => ih

theorem keeps_writeEntries (puts : List (String × List UInt8)) (deletes : List String)
    (deleteAll : Bool) :
    Keeps e careful idle smooth false idle (Database.writeEntries puts deletes deleteAll) := by
  refine Spec.bind ((spec_opens e.kind_deferred .nothing).adapt _) fun _ => ?_
  refine Spec.handled ?_ triple_dropTransaction
  refine Spec.bind (keeps_deleteEntries deleteAll) fun _ => ?_
  refine Spec.bind (keeps_deleteKeys deletes) fun deleted => ?_
  refine Spec.bind (keeps_putEntries puts) fun _ => ?_
  refine Spec.bind ((spec_commits e.kind_commit .nothing).adapt _) fun _ => ?_
  exact Spec.value deleted fun _ hl => hl

theorem keeps_prepare (sql : String) : Keeps e false idle smooth false quiet (prepare sql) := by
  refine Triple.ask (fun _ _ => nofun) fun l hl ans l' => ?_
  rintro ⟨after, ha, -⟩
  cases ans with
  | ok stmt =>
    rw [Link.answer] at ha
    split at ha
    · cases ha
      exact hl
    · cases ha
  | error err =>
    cases ha
    exact hl

theorem keeps_alarmTable : Keeps e careful idle smooth false quiet
    (executeText .changes ⟨.work, alarmTable, []⟩) :=
  (keeps_plain (kind_text (by simp [runnerTexts, objectTexts])) _).adapt _

theorem keeps_alarm : Keeps e careful idle smooth false quiet alarm :=
  (keeps_plain (kind_text (by simp [runnerTexts, objectTexts])) _).adapt _

theorem keeps_objectOp (op : ObjectStorageOp) :
    Keeps e false idle smooth false idle (d.objectOp op) := by
  have ht : e.kind table = .plain := kind_text (by simp [runnerTexts, objectTexts])
  refine ((keeps_plain ht _).adapt _).bind fun _ => keeps_alarmTable.bind fun _ => ?_
  cases op with
  | getAlarm => exact keeps_alarm.map _
  | setAlarm at_ =>
    refine (keeps_check _).bind fun _ => Keeps.bind (Keeps.adapt (keeps_plain ?_ _) _) fun _ =>
      keeps_pure _
    cases at_ <;> exact kind_text (by simp [runnerTexts, objectTexts])
  | get keys =>
    exact (keeps_check _).bind fun _ => ((keeps_prepare _).adapt _).bind fun _ =>
      (keeps_getValues keys).map _
  | list start startAfter stop pre reverse lim =>
    refine ((keeps_prepare _).adapt _).bind fun _ => ?_
    refine ((keeps_plain (kind_listStatement ..) _).adapt _).bind fun found => ?_
    exact (keeps_check _).bind fun _ => keeps_pure _
  | write puts deletes deleteAll =>
    exact (keeps_check _).bind fun _ => (keeps_check _).bind fun _ => (keeps_check _).bind fun _ =>
      (keeps_check _).bind fun _ => (keeps_writeEntries puts deletes deleteAll).map _

theorem triple_answered {p : ExceptT String Conn ObjectStorageResult}
    (hp : Keeps e careful idle smooth false quiet p) :
    (world e careful idle smooth).Triple (At true (Idle quiet)) (Database.answered p)
      fun _ => At true (Idle quiet) := by
  refine (triple_of_keeps hp).bind fun r => ?_
  cases r with
  | ok _ => exact fun _ hl => hl
  | error _ => exact fun _ hl => hl

end Jobs

end Link

def Job.isD1 : Job → Bool
  | .op _ | .migrate _ => true
  | .object _ | .clearAlarm _ => false

namespace Link

variable {δ : Type} {e : Engine δ} {idle smooth : Bool} (d : Database)

/-- **A job leaves the connection as it found it.** -/
theorem triple_run (job : Job) :
    (world e job.isD1 idle smooth).Triple (At true (Idle idle)) (d.run job)
      fun _ => At true (Idle idle) := by
  cases job with
  | op op =>
    cases op with
    | query stmt rows =>
      refine (Spec.triple (keeps_query d stmt rows)).bind fun r => ?_
      cases r <;> exact fun _ hl => hl
    | batch stmts =>
      refine Triple.bind ?_ fun _ _ hl => hl
      refine (Spec.triple
        (keeps_inTransaction (keeps_queries d 0 stmts))).bind fun r => ?_
      cases r <;> exact fun _ hl => hl
    | exec sql =>
      refine Triple.bind ?_ fun _ _ hl => hl
      refine (Spec.triple (keeps_scriptFrom d sql _ 0)).bind fun r => ?_
      cases r <;> exact fun _ hl => hl
  | migrate mig =>
    refine Triple.bind ?_ fun _ _ hl => hl
    refine (Spec.triple ((keeps_check _).bind fun _ =>
      keeps_inTransaction (keeps_migrateInTransaction d mig))).bind fun r => ?_
    cases r <;> exact fun _ hl => hl
  | object op => exact (triple_answered (keeps_objectOp d op)).bind fun _ _ hl => hl
  | clearAlarm at_ =>
    have hd : e.kind deleteAlarmAt = .plain := kind_text (by simp [runnerTexts, objectTexts])
    refine Triple.bind (triple_answered ?_) fun _ _ hl => hl
    exact (keeps_check _).bind fun _ => keeps_alarmTable.bind fun _ =>
      ((keeps_plain hd _).adapt _).bind fun _ => keeps_alarm.map _

theorem triple_job (job : Job) (measure : Bool) :
    (world e job.isD1 idle smooth).Triple (At true (Idle idle)) (d.job job measure)
      fun _ => At true (Idle idle) := by
  refine (triple_run d job).bind fun res => ?_
  cases measure with
  | true => exact (triple_usedBytes d).bind fun _ _ hl => hl
  | false => exact fun _ hl => hl

end Link

/-! ## Sessions leave the connection clean -/

namespace Session

variable {δ : Type} (e : Engine δ)

/-- If the action is an answer, then not a `ROLLBACK` that fails and leaves a transaction open. -/
def rollsBack (s : Session δ) : SessionAct δ → Bool
  | .answer q answer after => s.link.rollsBack e q answer after
  | _ => true

/-- A job that runs will leave the connection clean, and those that ended found it and left it
so. -/
structure Clean (idle : Bool) (s : Session δ) : Prop where
  rest : s.current = none → s.link.At true (Link.Idle idle)
  running : ∀ r, s.current = some r → r.before.At true (Link.Idle idle) ∧
    r.rest.Meets (Link.world e r.job.isD1 idle false)
      (fun _ => Link.At true (Link.Idle idle)) s.link
  finished : ∀ f ∈ s.finished, f.before.At true (Link.Idle idle) ∧ f.after.At true (Link.Idle idle)

variable {e} {idle : Bool} {s t : Session δ} {a : SessionAct δ}

theorem clean_init (c : Content δ) : (⟨.fresh c, none, []⟩ : Session δ).Clean e idle :=
  ⟨fun _ => ⟨rfl, fun _ => rfl⟩, fun _ h => (by cases h), fun _ h => (by cases h)⟩

theorem Clean.step (h : s.Clean e idle) (ha : idle = true → s.rollsBack e a = true)
    (hst : s.step e a = some t) : t.Clean e idle := by
  obtain ⟨d, job, measure, hcu⟩ | ⟨hcu, han⟩ | hcu | hcu := step_of_eq hst
  · have hl := h.rest hcu
    refine ⟨nofun, fun r hr => ?_, h.finished⟩
    cases hr
    exact ⟨hl, Link.triple_job d job measure _ hl⟩
  · obtain ⟨hbe, hre⟩ := h.running _ hcu
    refine ⟨nofun, fun r hr => ?_, h.finished⟩
    cases hr
    exact ⟨hbe, hre.2 _ _ ⟨_, han, ha, fun h => absurd h Bool.false_ne_true⟩⟩
  · obtain ⟨hbe, haf⟩ := h.running _ hcu
    refine ⟨fun _ => haf, fun _ hr => (by cases hr), fun f hf => ?_⟩
    obtain hf | hf := mem_append.1 hf
    · exact h.finished f hf
    · cases mem_singleton.1 hf
      exact ⟨hbe, haf⟩
  · exact ⟨fun _ => ⟨rfl, fun _ => rfl⟩, fun r hr => absurd (hcu.symm.trans hr) nofun, h.finished⟩

theorem clean_of_reach {c : Content δ}
    (hs : (sessionMachine e c).Reach (fun s a => idle = true → s.rollsBack e a = true) s) :
    s.Clean e idle := by
  refine hs.invariant (clean_init c) fun _ _ _ _ h ha hst => h.step ha hst

theorem Clean.restricted (h : s.Clean e idle) {r : Running δ} {q : Ask}
    {next : q.Answer → Conn (Done × Option Nat)} (hcu : s.current = some r)
    (hre : r.rest = .ask q next) (hd1 : r.job.isD1 = true) (hq : q.prepares = true) :
    s.link.guest = true := by
  have hm := (h.running r hcu).2
  rw [hre] at hm
  exact hm.1 hd1 hq

end Session

/-- **The restrictions are on whenever a job begins or has ended, and whenever a statement of a
guest or of a migration is prepared**, whatever fails. -/
theorem restrictions_on {δ : Type} {e : Engine δ} {c : Content δ} {s : Session δ}
    (hs : (sessionMachine e c).Reachable s) :
    (∀ f ∈ s.finished, f.before.guest = true ∧ f.after.guest = true) ∧
      (∀ r, s.current = some r → r.before.guest = true) ∧
      ∀ r q next, s.current = some r → r.rest = .ask q next → r.job.isD1 = true →
        q.prepares = true → s.link.guest = true := by
  have h : s.Clean e false :=
    Session.clean_of_reach (hs.mono fun _ _ _ hid => absurd hid (by decide))
  exact ⟨fun f hf => ⟨(h.finished f hf).1.1, (h.finished f hf).2.1⟩,
    fun r hr => (h.running r hr).1.1, fun r q next hcu hre hd1 hq => h.restricted hcu hre hd1 hq⟩

/-- **Jobs leave the connection clean**, if no `ROLLBACK` fails and leaves its transaction open:
whatever else fails, a job begins and ends with the restrictions on and no transaction open. -/
theorem jobs_leave_clean {δ : Type} (e : Engine δ) (c : Content δ) (s : Session δ)
    (hs : (sessionMachine e c).Reach (fun s a => s.rollsBack e a = true) s) :
    (s.current = none → s.link.guest = true ∧ s.link.autocommit = true) ∧
    (∀ f ∈ s.finished, f.after.guest = true ∧ f.after.autocommit = true) ∧
    (∀ r, s.current = some r → r.before.guest = true ∧ r.before.autocommit = true) ∧
    ∀ r q next, s.current = some r → r.rest = .ask q next → r.job.isD1 = true →
      q.prepares = true → s.link.guest = true := by
  have h : s.Clean e true := Session.clean_of_reach (hs.mono fun _ _ ha _ => ha)
  have hcl {l : Link δ} (hl : l.At true (Link.Idle true)) :
      l.guest = true ∧ l.autocommit = true := ⟨hl.1, by simp [Link.autocommit, hl.2 rfl]⟩
  exact ⟨fun hcur => hcl (h.rest hcur), fun f hf => hcl (h.finished f hf).2,
    fun r hr => hcl (h.running r hr).1,
    fun r q next hcur hrest hd1 hq => h.restricted hcur hrest hd1 hq⟩

/-! ### Two runs -/

def plainKind (sql : String) : Kind :=
  if sql = "BEGIN IMMEDIATE" ∨ sql = "BEGIN DEFERRED" then .opens
  else if sql = "COMMIT" then .commits
  else if sql = "ROLLBACK" then .rollsBack
  else .plain

def plainEngine : Engine (List String) where
  statements sql := if sql = "" then [] else [sql]
  kind := plainKind
  actions sql := if plainKind sql = .plain then [.other] else [.transaction]
  effect sql _ c := { c with data := c.data ++ [sql] }
  hooked _ := false
  recorded _ _ c := c
  statements_le sql := by
    split
    · exact Nat.zero_le _
    · rename_i h
      exact Nat.one_le_iff_ne_zero.2 fun h0 => h (String.utf8ByteSize_eq_zero_iff.1 h0)
  asked sql h := by simp [h]
  kind_immediate := rfl
  kind_deferred := rfl
  kind_commit := rfl
  kind_rollback := rfl
  kind_plain word hword rest := by
    -- the texts differ in their first or second letter
    have hne : ∀ sql ∈ ["BEGIN IMMEDIATE", "BEGIN DEFERRED", "COMMIT", "ROLLBACK"],
        word ++ " " ++ rest ≠ sql := by
      intro sql hsql heq
      have hlist := congrArg String.toList heq
      simp only [mem_cons, not_mem_nil, or_false] at hword hsql
      rcases hword with rfl | rfl | rfl | rfl | rfl <;> rcases hsql with rfl | rfl | rfl | rfl <;>
        simp at hlist
    simp only [forall_mem_cons] at hne
    simp [plainKind, hne]

def failingBatch : List (SessionAct (List String)) :=
  [.start ⟨4096, 1000, none, none⟩ (.op (.batch [⟨"SELECT", []⟩])) false,
    .answer (.setGuest false) () .undone,
    .answer (.execute .nothing ⟨.control, "BEGIN IMMEDIATE", []⟩) (.ok ()) .undone,
    .answer (.setGuest true) () .undone,
    .answer (.prepare "SELECT") (.error ⟨some 1, some "incomplete input", "SQL logic error", ""⟩)
      .undone,
    .answer .isAutocommit false .undone,
    .answer (.setGuest false) () .undone]

def endsBatch (answer : Except SqliteError Unit) : List (SessionAct (List String)) :=
  [.answer (.execute .nothing ⟨.control, "ROLLBACK", []⟩) answer .undone,
    .answer (.setGuest true) () .undone,
    .finish]

theorem jobs_leave_clean_batch :
    ∃ s, (sessionMachine plainEngine ⟨[], none⟩).Reach (fun s a => s.rollsBack plainEngine a = true)
      s ∧ s.finished.length = 1 ∧ s.link.autocommit = true := by
  obtain ⟨s, hs, hp⟩ := Machine.exists_reach_of_runIf
    (M := sessionMachine plainEngine ⟨[], none⟩) (Session.rollsBack plainEngine)
    (fun _ _ _ h => h) (failingBatch ++ endsBatch (.ok ()))
    (fun s => s.current.isNone && s.finished.length == 1) (by decide +kernel)
  rw [Bool.and_eq_true, isNone_iff_eq_none, beq_iff_eq] at hp
  exact ⟨s, hs, hp.2, ((jobs_leave_clean plainEngine _ s hs).1 hp.1).2⟩

theorem restrictions_on_batch :
    ∃ s, (sessionMachine plainEngine ⟨[], none⟩).Reachable s ∧ s.finished.length = 1 ∧
      ∀ f ∈ s.finished, f.before.guest = true ∧ f.after.guest = true := by
  obtain ⟨s, hs, h⟩ := (sessionMachine plainEngine ⟨[], none⟩).exists_of_run
    (failingBatch ++ endsBatch (.ok ())) (·.finished.length = 1) (by decide +kernel)
  exact ⟨s, hs, h, (restrictions_on hs).1⟩

theorem transaction_left_open :
    ¬ ∀ (e : Engine (List String)) (c : Content (List String)) (s : Session (List String)),
      (sessionMachine e c).Reachable s → s.current = none → s.link.autocommit = true := by
  intro h
  obtain ⟨s, hs, hp⟩ := (sessionMachine plainEngine ⟨[], none⟩).exists_of_run
    (failingBatch ++ endsBatch (.error ⟨some 9, some "interrupted", "interrupted", ""⟩))
    (fun s => s.current.isNone && !s.link.autocommit) (by decide +kernel)
  rw [Bool.and_eq_true, isNone_iff_eq_none, Bool.not_eq_true'] at hp
  exact absurd (h _ _ s hs hp.1) (by rw [hp.2]; decide)

end OpenWorkersRunner.D1.Sqlite
