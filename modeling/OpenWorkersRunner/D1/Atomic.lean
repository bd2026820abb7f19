import OpenWorkersRunner.D1.Migrations

/-!
# D1: all or nothing

A query of a guest is one statement and a batch is several in one transaction.  This file is about
what they leave behind when they fail, and what a batch has done when it succeeds.
-/

namespace OpenWorkersRunner.D1.Sqlite

open Option World

def Engine.first {δ : Type} (e : Engine δ) (sql : String) : String := (e.statements sql).headD ""

def Content.after {δ : Type} (e : Engine δ) (c : Content δ) (statement : D1Statement) :
    Option (Content δ) :=
  c.succeed e ⟨.work, e.first statement.sql, statement.params⟩ none

namespace Link

variable {δ : Type} (e : Engine δ)

/-- What more is known of an answer: a text is prepared as its first statement, and measuring
changes nothing.  Where measuring fails, SQLite may end the transaction, as it does when it cannot
read the file or has no memory; with `steady` it does not. -/
def Sound (steady : Bool) (l : Link δ) : (q : Ask) → q.Answer → Link δ → Prop
  | .prepare sql, .ok stmt, _ => stmt.sql = e.first sql
  | .execute _ st, .ok _, l' => st.role = .measure → l' = l
  | .execute _ st, .error _, l' =>
    st.role = .measure → l' = l ∨ steady = false ∧ l' = { l with working := none }
  | _, _, _ => True

/-- SQLite.  With `idle`, a transaction that is rolled back is over; with `steady`, a transaction in
which the size of the file is measured goes on. -/
def sqlite (idle steady : Bool) : World (Link δ) Ask Ask.Answer where
  safe _ _ := True
  step l q answer l' := ∃ after, l.answer e q answer after = some l' ∧
    (idle = true → l.rollsBack e q answer after = true) ∧ l.Sound e steady q answer l'

variable {e} {idle steady : Bool}

theorem triple_of_world {α : Type} {p : Conn α} {P : Link δ → Prop} {R : α → Link δ → Prop}
    (h : (world e false idle false).Triple P p R) : (sqlite e idle steady).Triple P p R := by
  refine fun l hl => (h l hl).of_le (fun _ _ _ => trivial) ?_
  rintro l q ans l' ⟨after, ha, hro, -⟩
  exact ⟨after, ha, hro, nofun⟩

/-! ## A query in a transaction -/

theorem spec_prepare_first {P : Content δ → Option (Content δ) → Prop} (sql : String) :
    (sqlite e idle steady).Spec (At true P) (prepare sql)
      (fun stmt l => At true P l ∧ e.kind stmt.sql = .plain ∧ stmt.sql = e.first sql)
      (At true P) := by
  refine Triple.ask (fun _ _ => trivial) fun l hl ans l' => ?_
  rintro ⟨after, ha, -, hsn⟩
  cases ans with
  | ok stmt =>
    obtain ⟨had, ⟨⟩⟩ := ite_none_right_eq_some.1 ha
    exact ⟨hl, plain_of_admits hl.1 had, hsn⟩
  | error err =>
    cases ha
    exact hl

theorem triple_size_keeps (d : Database) {P : Content δ → Option (Content δ) → Prop}
    (hgo : steady = false → ∀ c w, P c w → P c none) :
    (sqlite e idle steady).Triple (At true P) d.size fun _ => At true P := by
  have hp : (sqlite e idle steady).Triple (At false P) (pages "page_count")
      fun _ => At false P := by
    have ha : (sqlite e idle steady).Triple (At false P)
        (execute .int ⟨.measure, "PRAGMA " ++ "page_count", []⟩).run fun _ => At false P := by
      refine Triple.ask (fun _ _ => trivial) fun l hl ans l' => ?_
      rintro ⟨after, -, -, hsn⟩
      cases ans with
      | ok count =>
        rw [hsn rfl]
        exact hl
      | error err =>
        obtain rfl | ⟨hst, rfl⟩ := hsn rfl
        · exact hl
        · exact ⟨hl.1, hgo hst _ _ hl.2⟩
    refine ha.bind fun r => ?_
    match r with
    | .ok (some _) | .ok none | .error _ => exact fun _ hl => hl
  have hse (on : Bool) : (sqlite e idle steady).Triple (At (!on) P) (setGuest on)
      fun _ => At on P := triple_of_world (triple_setGuest on)
  have hm : (sqlite e idle steady).Triple (At true P) (unrestricted (pages "page_count"))
      fun _ => At true P :=
    (hse false).bind fun _ => hp.bind fun _ => (hse true).bind fun _ _ hl => hl
  exact hm.bind fun _ _ hl => hl

/-- The transaction holds `c`, or is gone, for what a failing measure may do. -/
def Within (steady : Bool) (c₀ c : Content δ) : Content δ → Option (Content δ) → Prop :=
  fun k w => k = c₀ ∧ (w = some c ∨ steady = false ∧ w = none)

/-- **A query in a transaction** does to it what its statement does, and leaves the file alone. -/
theorem spec_query_inside (d : Database) (c0 c : Content δ) (statement : D1Statement)
    (rows : D1Rows) :
    (sqlite e idle steady).Spec (At true (Inside c0 c)) (d.query statement rows)
      (fun _ l => ∃ c', At true (Within steady c0 c') l ∧ c.after e statement = some c')
      (At true (Based c0 True)) := by
  have hf : ∀ l, At true (Inside c0 c) l → At true (Based c0 True) l :=
    fun l hl => ⟨hl.1, hl.2.1, trivial⟩
  have hch : ∀ (r : Except D1Error Unit) {P : Link δ → Prop},
      (∀ l, P l → At true (Based c0 True) l) →
      (sqlite e idle steady).Spec P (check r) (fun _ => P) (At true (Based c0 True)) := by
    intro r P hP
    cases r with
    | ok _ => exact fun _ hl => hl
    | error _ => exact hP
  refine Spec.bind (((spec_prepare_first statement.sql).adapt _).mono (fun _ hl => hl)
    (fun _ _ hl => hl) hf) fun stmt => ?_
  refine Triple.assume fun ⟨hp, hfs⟩ => ?_
  refine Spec.bind (hch _ hf) fun _ => Spec.bind (hch _ hf) fun _ => ?_
  have hex : (sqlite e idle steady).Spec (At true (Inside c0 c))
      (executeD1 .rows ⟨.work, stmt.sql, statement.params⟩)
      (fun _ l => ∃ c', At true (Inside c0 c') l ∧ c.after e statement = some c')
      (At true (Based c0 True)) := by
    refine Spec.adapt (Spec.mono (triple_of_world
      (spec_inside hp fun _ => trivial)) (fun _ hl => hl) ?_ fun _ hl => hl) _
    rintro res l ⟨c', hl, hc'⟩
    rw [hfs] at hc'
    exact ⟨c', hl, hc'⟩
  have ha : ∀ l, (∃ c', At true (Inside c0 c') l ∧ c.after e statement = some c') →
      At true (Based c0 True) l := by
    rintro l ⟨c', hl, -⟩
    exact ⟨hl.1, hl.2.1, trivial⟩
  refine Spec.bind hex fun found => Spec.bind (hch _ ha) fun _ => ?_
  rintro l ⟨c', hl, hc'⟩
  have hsi : (sqlite e idle steady).Triple (At true (Within steady c0 c')) d.size
      fun _ => At true (Within steady c0 c') :=
    triple_size_keeps d fun hst k w h => ⟨h.1, .inr ⟨hst, rfl⟩⟩
  refine Spec.bind (Spec.lift hsi) (fun size => ?_) l ⟨hl.1, hl.2.1, .inl hl.2.2⟩
  exact Spec.value _ fun _ hl => ⟨c', hl, hc'⟩

/-! ## The transaction of a batch -/

end Link

inductive Queried {σ : Type} (W : World σ Ask Ask.Answer) (d : Database) :
    σ → List D1Statement → List D1StatementResult → σ → Prop
  | nil (l : σ) : Queried W d l [] [] l
  | cons {l l₁ l' : σ} {statement : D1Statement} {result : D1StatementResult}
      {rest : List D1Statement} {results : List D1StatementResult}
      (hquery : W.Runs (d.query statement .all).run l (.ok result) l₁)
      (hrest : Queried W d l₁ rest results l') :
      Queried W d l (statement :: rest) (result :: results) l'

section Queries

variable {σ : Type} {W : World σ Ask Ask.Answer} {d : Database}

variable {l l' : σ} {statements : List D1Statement}

theorem Queried.length_eq {res : List D1StatementResult}
    (h : Queried W d l statements res l') : res.length = statements.length := by
  induction h with
  | nil l => rfl
  | cons hq hre ih => rw [List.length_cons, List.length_cons, ih]

end Queries

/-! ## What a batch asks -/

def Ask.commits : Ask → Bool
  | .execute _ st => st.role = .control && st.sql = "COMMIT"
  | _ => false

/-- So many statements were prepared, and there was no `COMMIT`. -/
def Logs (n : ℕ) (asked : List Ask) : Prop :=
  asked.countP Ask.prepares = n ∧ asked.any Ask.commits = false

def Ask.Other (q : Ask) : Prop := q.prepares = false ∧ q.commits = false

section Asked

variable {σ : Type} {W : World σ Ask Ask.Answer} {d : Database} {n : ℕ} {asked : List Ask}

theorem Logs.append {q : Ask} (hq : q.Other) (h : Logs n asked) : Logs n (asked ++ [q]) := by
  simp [Logs, List.countP_append, h.1, h.2, hq.1, hq.2]

theorem Logs.prepare (h : Logs n asked) (sql : String) :
    Logs (n + 1) (asked ++ [.prepare sql]) := by
  simp [Logs, List.countP_append, h.1, h.2, Ask.prepares, Ask.commits]

theorem only_size : d.size.Only Ask.Other fun _ => True := by
  refine ⟨⟨rfl, rfl⟩, fun _ => ⟨⟨rfl, rfl⟩, fun r => ?_⟩⟩
  match r with
  | .ok (some _) | .ok none | .error _ => exact ⟨⟨rfl, rfl⟩, fun _ => trivial⟩

/-- **A query prepares one statement.** -/
theorem logs_query (statement : D1Statement) (rows : D1Rows) :
    W.logged.Spec (fun s => Logs n s.2) (d.query statement rows) (fun _ s => Logs (n + 1) s.2)
      fun s => Logs (n + 1) s.2 := by
  have hch (r : Except D1Error Unit) :
      W.logged.Keeps (fun s => Logs (n + 1) s.2) (check r) := by
    cases r <;> exact fun _ hs => hs
  have hpr : W.logged.Spec (fun s => Logs n s.2) (prepare statement.sql)
      (fun _ s => Logs (n + 1) s.2) fun s => Logs (n + 1) s.2 := by
    refine Triple.ask (fun _ _ => trivial) fun s hs ans t hst => ?_
    have ht : Logs (n + 1) t.2 := hst.2 ▸ Logs.prepare hs _
    cases ans <;> exact ht
  have hex (st : Statement) (hw : st.role = .work) :
      W.logged.Keeps (fun s => Logs (n + 1) s.2) (execute .rows st) := by
    refine Triple.ask (fun _ _ => trivial) fun s hs ans t hst => ?_
    have ht : Logs (n + 1) t.2 :=
      hst.2 ▸ Logs.append ⟨rfl, by simp [Ask.commits, hw]⟩ hs
    cases ans <;> exact ht
  refine Spec.bind (hpr.adapt _) fun stmt => Spec.bind (hch _) fun _ => ?_
  refine Spec.bind (hch _) fun _ => Spec.bind ((hex _ rfl).adapt _) fun found => ?_
  have hsi : W.logged.Triple (fun s => Logs (n + 1) s.2) d.size fun _ s => Logs (n + 1) s.2 :=
    triple_logged (fun _ _ => Logs.append) only_size
  exact Spec.bind (hch _) fun _ => Spec.bind (Spec.lift hsi) fun _ =>
    Keeps.value _

theorem Queried.logs {s t : σ × List Ask} {statements : List D1Statement}
    {results : List D1StatementResult} (h : Queried W.logged d s statements results t)
    (hs : Logs n s.2) : Logs (n + statements.length) t.2 := by
  induction h generalizing n with
  | nil s => exact hs
  | cons hq hre ih =>
    have hn := ih ((logs_query _ _).of_runs hs hq)
    rwa [Nat.add_assoc, Nat.add_comm 1] at hn

end Asked

/-! ## Batches -/

section Batches

variable {δ : Type} {e : Engine δ} {idle steady : Bool} {d : Database}

variable {l' : Link δ} {statements : List D1Statement} {c : Content δ}

theorem Queried.inside {l : Link δ} {res : List D1StatementResult}
    (h : Queried (Link.sqlite e idle steady) d l statements res l')
    (hst : steady = true ∨ statements = []) {c0 : Content δ}
    (hl : l.At true (Link.Inside c0 c)) :
    ∃ c', l'.At true (Link.Inside c0 c') ∧ statements.foldlM (Content.after e) c = some c' := by
  induction h generalizing c with
  | nil l => exact ⟨c, hl, rfl⟩
  | cons hq hre ih =>
    have hs : steady = true := hst.resolve_right (List.cons_ne_nil _ _)
    obtain ⟨c1, hl1, hc1⟩ := (Link.spec_query_inside d c0 c _ _).of_runs hl hq
    have hin := hl1.2.2.resolve_right fun h => by simp [hs] at h
    obtain ⟨c', hl', hc'⟩ := ih (.inl hs) ⟨hl1.1, hl1.2.1, hin⟩
    refine ⟨c', hl', ?_⟩
    rw [List.foldlM_cons, hc1]
    exact hc'

end Batches

/-! ## How a query ends -/

/-- The checks of a query before its statement runs. -/
def Database.Passes (d : Database) (stmt : Prepared) (params : List SqlPrimitive) : Prop :=
  bind stmt params = .ok () ∧ (stmt.readonly = true ∨ d.paused = none)

def D1Rows.keep (rows : D1Rows) (found : List (List SqlPrimitive)) : List (List SqlPrimitive) :=
  if rows = .first then found.take 1 else found

section Runs

variable {σ ε α : Type} {W : World σ Ask Ask.Answer} {d : Database} {statement : D1Statement}
  {rows : D1Rows} {stmt : Prepared} {l l₁ l' : σ}

theorem runs_check_ok {r : Except ε Unit} {k : Unit → ExceptT ε Conn α} {x : Except ε α}
    (h : r = .ok ()) : W.Runs (check r >>= k).run l x l' ↔ W.Runs (k ()).run l x l' := by
  subst h
  rfl

theorem runs_check_error {r : Except ε Unit} {k : Unit → ExceptT ε Conn α} {x : Except ε α}
    {err : ε} (h : r = .error err) :
    W.Runs (check r >>= k).run l x l' ↔ x = .error err ∧ l' = l := by
  subst h
  exact runs_done

theorem writes_eq_ok_iff :
    (if stmt.readonly then .ok () else d.checkWrites) = .ok () ↔
      stmt.readonly = true ∨ d.paused = none := by
  unfold Database.checkWrites
  cases stmt.readonly <;> cases d.paused <;> simp

theorem refuse_eq (case : Bool) (err : ε) :
    refuse case err = .ok () ∧ case = false ∨ refuse case err = .error err ∧ case = true := by
  cases case
  · exact .inl ⟨rfl, rfl⟩
  · exact .inr ⟨rfl, rfl⟩

/-- **A query whose checks pass** goes on with its statement. -/
theorem runs_query (hp : W.step l (.prepare statement.sql) (.ok stmt) l₁)
    (hpass : d.Passes stmt statement.params) {x : Except D1Error D1StatementResult}
    (h : W.Runs (do
      let found ← executeD1 .rows ⟨.work, stmt.sql, statement.params⟩
      check (refuse (d.resultBytes < rowsSize (rows.keep found))
        ⟨.overloaded, "result larger than " ++ toString d.resultBytes ++ " bytes", none⟩)
      let sizeAfter ← d.size
      pure ⟨stmt.columns, rows.keep found, !stmt.readonly, sizeAfter⟩ :
        ExceptT D1Error Conn D1StatementResult).run l₁ x l') :
    W.Runs (d.query statement rows).run l x l' := by
  refine runs_bind_except.2 (.inl ⟨stmt, l₁, ?_, ?_⟩)
  · exact runs_adapt.2 ⟨.ok stmt, runs_call.2 hp, rfl⟩
  · exact (runs_check_ok hpass.1).2 ((runs_check_ok (writes_eq_ok_iff.2 hpass.2)).2 h)

theorem runs_executeD1 {shape : Shape} {st : Statement} {x : Except SqliteError shape.Result}
    (h : W.step l (.execute shape st) x l') :
    W.Runs (executeD1 shape st).run l (x.mapError sqlError) l' :=
  runs_adapt.2 ⟨x, runs_call.2 h, rfl⟩

/-- **How a query fails**: its text is not prepared, or a check fails, or its statement does, or
what the statement found is too large. -/
theorem query_error_iff :
    (∃ err, W.Runs (d.query statement rows).run l (.error err) l') ↔
      (∃ err, W.step l (.prepare statement.sql) (.error err) l') ∨
      ∃ stmt l₁, W.step l (.prepare statement.sql) (.ok stmt) l₁ ∧
        (¬ d.Passes stmt statement.params ∧ l' = l₁ ∨ d.Passes stmt statement.params ∧
            ((∃ err, W.step l₁ (.execute .rows ⟨.work, stmt.sql, statement.params⟩) (.error err)
              l') ∨
            ∃ found, W.step l₁ (.execute .rows ⟨.work, stmt.sql, statement.params⟩) (.ok found)
              l' ∧ d.resultBytes < rowsSize (rows.keep found))) := by
  refine ⟨?_, ?_⟩
  · rintro ⟨err, h⟩
    obtain ⟨stmt, l₁, hp, h⟩ | ⟨err', ⟨⟩, hp⟩ := runs_bind_except.1 h
    swap
    · obtain ⟨x, hp, hx⟩ := runs_adapt.1 hp
      cases x with
      | ok _ => cases hx
      | error own => exact .inl ⟨own, runs_call.1 hp⟩
    obtain ⟨x, hp, hx⟩ := runs_adapt.1 hp
    cases x with
    | error _ => cases hx
    | ok stmt' =>
      cases hx
      refine .inr ⟨stmt, l₁, runs_call.1 hp, ?_⟩
      cases hb : bind stmt statement.params with
      | error own =>
        refine .inl ⟨fun hpass => ?_, ((runs_check_error hb).1 h).2⟩
        rw [hpass.1] at hb
        cases hb
      | ok u =>
        replace h := (runs_check_ok hb).1 h
        by_cases hw : stmt.readonly = true ∨ d.paused = none
        swap
        · cases hc : (if stmt.readonly then .ok () else d.checkWrites) with
          | ok u => exact absurd (writes_eq_ok_iff.1 hc) hw
          | error own =>
            exact .inl ⟨fun hpass => hw hpass.2, ((runs_check_error hc).1 h).2⟩
        refine .inr ⟨⟨hb, hw⟩, ?_⟩
        replace h := (runs_check_ok (writes_eq_ok_iff.2 hw)).1 h
        obtain ⟨found, l₂, hex, h⟩ | ⟨err', ⟨⟩, hex⟩ := runs_bind_except.1 h
        swap
        · obtain ⟨x, hex, hx⟩ := runs_adapt.1 hex
          cases x with
          | ok _ => cases hx
          | error own => exact .inl ⟨own, runs_call.1 hex⟩
        obtain ⟨x, hex, hx⟩ := runs_adapt.1 hex
        cases x with
        | error _ => cases hx
        | ok found' =>
          cases hx
          obtain ⟨hc, -⟩ | ⟨hc, hlt⟩ := refuse_eq (d.resultBytes < rowsSize (rows.keep found))
            (⟨.overloaded, "result larger than " ++ toString d.resultBytes ++ " bytes", none⟩ :
              D1Error)
          · -- nothing fails after the result is taken
            obtain ⟨size, l₃, -, h⟩ | ⟨err', ⟨⟩, hm⟩ :=
              runs_bind_except.1 ((runs_check_ok hc).1 h)
            · obtain ⟨⟨⟩, -⟩ := runs_done.1 h
            · obtain ⟨size, l₃, -, h⟩ := runs_bind.1 hm
              obtain ⟨⟨⟩, -⟩ := runs_done.1 h
          · obtain ⟨-, rfl⟩ := (runs_check_error hc).1 h
            exact .inr ⟨found, runs_call.1 hex, of_decide_eq_true hlt⟩
  · rintro (⟨err, hp⟩ | ⟨stmt, l₁, hp, ⟨hpass, rfl⟩ | ⟨hpass, ⟨err, hex⟩ | ⟨found, hex, hlt⟩⟩⟩)
    · exact ⟨_, runs_bind_except.2 (.inr ⟨_, rfl, runs_adapt.2
        ⟨.error err, runs_call.2 hp, rfl⟩⟩)⟩
    · have hok : W.Runs ((prepare statement.sql).adapt sqlError).run l (.ok stmt) l' :=
        runs_adapt.2 ⟨.ok stmt, runs_call.2 hp, rfl⟩
      cases hb : bind stmt statement.params with
      | error own =>
        exact ⟨own, runs_bind_except.2 (.inl ⟨stmt, l', hok, (runs_check_error hb).2 ⟨rfl, rfl⟩⟩)⟩
      | ok u =>
        cases hc : (if stmt.readonly then .ok () else d.checkWrites) with
        | ok u => exact absurd ⟨hb, writes_eq_ok_iff.1 hc⟩ hpass
        | error own =>
          exact ⟨own, runs_bind_except.2 (.inl ⟨stmt, l', hok,
            (runs_check_ok hb).2 ((runs_check_error hc).2 ⟨rfl, rfl⟩)⟩)⟩
    · exact ⟨_, runs_query hp hpass (runs_bind_except.2
        (.inr ⟨sqlError err, rfl, runs_executeD1 hex⟩))⟩
    · exact ⟨_, runs_query hp hpass (runs_bind_except.2 (.inl ⟨found, l', runs_executeD1 hex,
        (runs_check_error (if_pos (decide_eq_true hlt))).2 ⟨rfl, rfl⟩⟩))⟩

end Runs

/-! ## A transaction that is gone -/

namespace Link

variable {idle : Bool}

end Link

/-- How SQLite reads the statements of a guest: how a text is prepared, which rows a statement
returns, and what it may leave behind when it fails, as with `INSERT OR FAIL` and `RAISE(FAIL)`. -/
structure Reading {δ : Type} (e : Engine δ) where
  prepared : String → Prepared
  rows : Content δ → Statement → List (List SqlPrimitive)
  partly : Content δ → Statement → Content δ → Prop
  first : ∀ sql, (prepared sql).sql = e.first sql

namespace Link

variable {δ : Type} {e : Engine δ} (s : Reading e)

def Guided (l : Link δ) : (q : Ask) → q.Answer → Aftermath δ → Prop
  | .prepare sql, .ok stmt, _ => stmt = s.prepared sql
  | .execute .rows st, .ok found, _ => found = s.rows l.content st
  | .execute _ st, .error _, .partly c => s.partly l.content st c
  | _, _, _ => True

/-- SQLite, as it reads statements so. -/
def guided : World (Link δ) Ask Ask.Answer where
  safe _ _ := True
  step l q answer l' := ∃ after, l.answer e q answer after = some l' ∧ l.Guided s q answer after

variable {s} {c : Content δ} {l' : Link δ} {st : Statement}

theorem guided_prepare_ok {sql : String} {stmt : Prepared} :
    (guided s).step (.fresh c) (.prepare sql) (.ok stmt) l' ↔
      stmt = s.prepared sql ∧ (fresh c).admits e stmt.sql = true ∧ l' = .fresh c := by
  refine ⟨?_, ?_⟩
  · rintro ⟨after, ha, hg⟩
    obtain ⟨had, ⟨⟩⟩ := ite_none_right_eq_some.1 ha
    exact ⟨hg, had, rfl⟩
  · rintro ⟨rfl, had, rfl⟩
    exact ⟨.undone, if_pos had, rfl⟩

theorem guided_execute_ok {found : List (List SqlPrimitive)}
    (had : (fresh c).admits e st.sql = true) :
    (guided s).step (.fresh c) (.execute .rows st) (.ok found) l' ↔
      found = s.rows c st ∧ ∃ c', c.succeed e st none = some c' ∧ l' = .fresh c' := by
  have hsu (after : Aftermath δ) : (fresh c).answer e (.execute .rows st) (.ok found) after =
      (c.succeed e st none).map fresh :=
    (if_pos had).trans (succeed_of_plain (plain_of_admits rfl had) _ _)
  refine ⟨?_, ?_⟩
  · rintro ⟨after, ha, hg⟩
    obtain ⟨c', hc', rfl⟩ := map_eq_some_iff.1 ((hsu after).symm.trans ha)
    exact ⟨hg, c', hc', rfl⟩
  · rintro ⟨rfl, c', hc', rfl⟩
    exact ⟨.undone, (hsu _).trans (map_eq_some_iff.2 ⟨c', hc', rfl⟩), rfl⟩

theorem guided_execute_error (had : (fresh c).admits e st.sql = true) :
    (∃ err, (guided s).step (.fresh c) (.execute .rows st) (.error err) l') ↔
      l' = .fresh c ∨ ∃ c', s.partly c st c' ∧ l' = .fresh c' := by
  have hp := plain_of_admits rfl had
  refine ⟨?_, ?_⟩
  · rintro ⟨err, after, ha, hg⟩
    obtain rfl := some.inj ha
    simp only [fail, hp]
    cases after with
    | undone => exact .inl rfl
    | rolledBack => exact .inl rfl
    | partly c' => exact .inr ⟨c', hg, rfl⟩
  · rintro (rfl | ⟨c', hc', rfl⟩)
    · refine ⟨⟨none, none, "", ""⟩, .undone, congrArg some ?_, trivial⟩
      simp only [fail, hp]
    · refine ⟨⟨none, none, "", ""⟩, .partly c', congrArg some ?_, hc'⟩
      simp only [fail, hp]
      rfl

end Link

/-- **A query that fails has changed nothing** exactly if its statement does not run, as it is
refused or its parameters are wrong or writes are paused, or it leaves nothing when it fails and its
rows are within the limit or it changes nothing. -/
theorem query_fails_clean {δ : Type} (e : Engine δ) (s : Reading e) (d : Database)
    (statement : D1Statement) (rows : D1Rows) (c : Content δ) :
    (∀ err l', (Link.guided s).Runs (d.query statement rows).run (.fresh c) (.error err) l' →
      l'.committed = c ∧ l'.working = none) ↔
    ((Link.fresh c).admits e (s.prepared statement.sql).sql = true →
      d.Passes (s.prepared statement.sql) statement.params →
      (∀ c', s.partly c ⟨.work, (s.prepared statement.sql).sql, statement.params⟩ c' → c' = c) ∧
      (rowsSize (rows.keep
          (s.rows c ⟨.work, (s.prepared statement.sql).sql, statement.params⟩)) ≤ d.resultBytes ∨
        ∀ c', c.after e statement = some c' → c' = c)) := by
  have hafter : c.after e statement =
      c.succeed e ⟨.work, (s.prepared statement.sql).sql, statement.params⟩ none := by
    rw [Content.after, s.first]
  rw [hafter]
  refine ⟨fun h had hpass => ⟨fun c' hc' => ?_, ?_⟩, fun h err l' hrun => ?_⟩
  · obtain ⟨err, hex⟩ := (Link.guided_execute_error had).2 (.inr ⟨c', hc', rfl⟩)
    obtain ⟨err, hrun⟩ := query_error_iff.2 (.inr ⟨_, _,
      Link.guided_prepare_ok.2 ⟨rfl, had, rfl⟩, .inr ⟨hpass, .inl ⟨err, hex⟩⟩⟩)
    exact (h err _ hrun).1
  · refine or_iff_not_imp_left.2 fun hlt c' hc' => ?_
    obtain ⟨err, hrun⟩ := query_error_iff.2 (.inr ⟨_, _,
      Link.guided_prepare_ok.2 ⟨rfl, had, rfl⟩, .inr ⟨hpass, .inr ⟨_,
        (Link.guided_execute_ok had).2 ⟨rfl, c', hc', rfl⟩, Nat.lt_of_not_le hlt⟩⟩⟩)
    exact (h err _ hrun).1
  · obtain ⟨err, after, ha, -⟩ | ⟨stmt, l₁, hp, hrest⟩ := query_error_iff.1 ⟨err, hrun⟩
    · obtain rfl := some.inj ha
      exact ⟨rfl, rfl⟩
    · obtain ⟨rfl, had, rfl⟩ := Link.guided_prepare_ok.1 hp
      obtain ⟨-, rfl⟩ | ⟨hpass, hex | ⟨found, hex, hlt⟩⟩ := hrest
      · exact ⟨rfl, rfl⟩
      · obtain rfl | ⟨c', hc', rfl⟩ := (Link.guided_execute_error had).1 hex
        · exact ⟨rfl, rfl⟩
        · exact ⟨(h had hpass).1 c' hc', rfl⟩
      · obtain ⟨rfl, c', hc', rfl⟩ := (Link.guided_execute_ok had).1 hex
        exact ⟨(h had hpass).2.resolve_left (Nat.not_le_of_lt hlt) c' hc', rfl⟩

/-- Every statement returns one row of nineteen bytes. -/
def returningReading : Reading plainEngine where
  prepared sql := ⟨plainEngine.first sql, [], false, ["a"], none⟩
  rows _ _ := [[.string "more than ten bytes"]]
  partly _ _ _ := False
  first _ := rfl

theorem query_fails_late :
    ¬ ∀ (e : Engine (List String)) (s : Reading e) (d : Database) (statement : D1Statement)
      (rows : D1Rows) (c : Content (List String)) (l' : Link (List String)) (err : D1Error),
      (Link.guided s).Runs (d.query statement rows).run (.fresh c) (.error err) l' →
      l'.committed = c := by
  intro h
  have had : (Link.fresh ⟨[], none⟩).admits plainEngine "INSERT RETURNING" = true := by
    decide +kernel
  have hc' : (⟨[], none⟩ : Content (List String)).succeed plainEngine
      ⟨.work, "INSERT RETURNING", []⟩ none = some ⟨["INSERT RETURNING"], none⟩ := by
    decide +kernel
  obtain ⟨err, hrun⟩ : ∃ err, (Link.guided returningReading).Runs
      ((⟨4096, 10, none, none⟩ : Database).query ⟨"INSERT RETURNING", []⟩ .all).run
      (.fresh ⟨[], none⟩) (.error err) (.fresh ⟨["INSERT RETURNING"], none⟩) :=
    query_error_iff.2 (.inr ⟨_, _, Link.guided_prepare_ok.2 ⟨rfl, had, rfl⟩,
      .inr ⟨⟨rfl, .inr rfl⟩, .inr ⟨_, (Link.guided_execute_ok had).2 ⟨rfl, _, hc', rfl⟩,
        by decide +kernel⟩⟩⟩)
  cases congrArg Content.data (h _ _ _ _ _ _ _ _ hrun)

end OpenWorkersRunner.D1.Sqlite
