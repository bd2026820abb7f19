import OpenWorkersRunner.Lib.Machine
import OpenWorkersRunner.Lib.Parties
import OpenWorkersRunner.Lib.Table

/-!
# Crons: claims

Each second the scheduler of each runner claims the crons that are due (`scheduler.rs`).  It reads
them in one statement and claims them one by one in others, each with a transaction that moves
`next_run` on if it is still what was read, and records the event.  Between these statements the
other runners and the API write the same rows.
-/

namespace OpenWorkersRunner.Scheduler

open List Option Parties

/-! ## Tables -/

structure Cron where
  workerId : String
  value : String
  nextRun : Option Int
  lastRun : Option Int
  deleted : Bool
deriving DecidableEq

structure DueCron where
  id : String
  workerId : String
  value : String
  nextRun : Int
deriving DecidableEq

structure Event where
  id : String
  cronId : String
  workerId : String
  scheduledAt : Int
deriving DecidableEq

structure ScheduledData where
  id : String
  cron : String
  scheduledTime : Nat
  workerId : String
deriving DecidableEq

def DueCron.event (cron : DueCron) (id : String) : Event :=
  ⟨id, cron.id, cron.workerId, cron.nextRun⟩

def DueCron.data (cron : DueCron) (eventId : String) : ScheduledData :=
  ⟨eventId, cron.value, (cron.nextRun / 1000).toNat, cron.workerId⟩

def cronsPerTick : Nat := 100

/-! ## Ticks -/

/-- Where a call of `claim_due` is: the statement it waits for, the crons after this one, and what
it has claimed. -/
inductive Stage
  | selecting
  | looping (todo : List DueCron) (due : List ScheduledData)
  | nulling (cron : DueCron) (todo : List DueCron) (due : List ScheduledData)
  | beginning (cron : DueCron) (next : Int) (todo : List DueCron) (due : List ScheduledData)
  | claiming (cron : DueCron) (next : Int) (todo : List DueCron) (due : List ScheduledData)
  | inserting (cron : DueCron) (next : Int) (todo : List DueCron) (due : List ScheduledData)
  | committing (cron : DueCron) (next : Int) (eventId : String) (todo : List DueCron)
      (due : List ScheduledData)
  | returned (due : Option (List ScheduledData))
deriving DecidableEq

/-- A call of `claim_due`. -/
structure Tick where
  now : Int
  stage : Stage
  selected : List DueCron
  skipped : List DueCron
  failed : Bool
deriving DecidableEq

def Tick.dispatched (t : Tick) : List ScheduledData :=
  match t.stage with
  | .returned (some due) => due
  | _ => []

def Tick.goto (t : Tick) (stage : Stage) : Tick := { t with stage }

def Tick.fail (t : Tick) : Tick := { t with stage := .returned none, failed := true }

def Stage.holds : Stage → Option DueCron
  | .inserting cron _ _ _ => some cron
  | .committing cron _ _ _ _ => some cron
  | _ => none

structure Claim where
  tick : Nat
  now : Int
  cron : DueCron
  next : Int
deriving DecidableEq

/-! ## Steps -/

structure State where
  crons : AList fun _ : String => Cron
  events : List Event
  ticks : List Tick
  claims : List Claim

inductive Act
  | insertCron (id : String) (cron : Cron)
  | edit (id : String) (value : String) (nextRun : Option Int)
  | delete (id : String)
  | tick (now : Int)
  | select (i : Nat) (rows : List DueCron)
  | selectFails (i : Nat)
  | next (i : Nat)
  | null (i : Nat) (outcome : Sent)
  | begin_ (i : Nat) (ok : Bool)
  | claim (i : Nat) (ok : Bool)
  | insert (i : Nat) (eventId : String) (ok : Bool)
  | commit (i : Nat) (outcome : Sent)

namespace State

def locked (s : State) (id : String) : Bool :=
  s.ticks.any fun t => t.stage.holds.any (·.id == id)

def due (s : State) (now : Int) : List DueCron :=
  s.crons.entries.filterMap fun ⟨id, cron⟩ =>
    match cron.nextRun with
    | some nextRun =>
      if nextRun ≤ now ∧ cron.deleted = false then some ⟨id, cron.workerId, cron.value, nextRun⟩
      else none
    | none => none

def unmoved (s : State) (cron : DueCron) : Bool :=
  (s.crons.lookup cron.id).any fun row => row.nextRun = some cron.nextRun && !row.deleted

/-- `UPDATE crons SET next_run = NULL WHERE id = $1 AND next_run = $2`. -/
def stopCron (s : State) (cron : DueCron) : State :=
  match s.crons.lookup cron.id with
  | some row =>
    if row.nextRun = some cron.nextRun then
      { s with crons := s.crons.insert cron.id { row with nextRun := none } }
    else s
  | none => s

def claimCron (s : State) (i : Nat) (now : Int) (cron : DueCron) (next : Int) (eventId : String) :
    State :=
  { s with
    crons :=
      match s.crons.lookup cron.id with
      | some row =>
        s.crons.insert cron.id { row with nextRun := some next, lastRun := some cron.nextRun }
      | none => s.crons
    events := s.events ++ [cron.event eventId]
    claims := s.claims ++ [⟨i, now, cron, next⟩] }

def set (s : State) (i : Nat) (t : Tick) : State := { s with ticks := s.ticks.set i t }

variable (nextRun : String → Int → Option Int)

def takeNext (t : Tick) : List DueCron → List ScheduledData → Tick
  | [], due => t.goto (.returned (some due))
  | cron :: todo, due =>
    match nextRun cron.value t.now with
    | none => t.goto (.nulling cron todo due)
    | some next => t.goto (.beginning cron next todo due)

def act (s : State) (i : Nat) (t : Tick) : Act → Option State
  | .select _ rows =>
    match t.stage with
    | .selecting =>
      if rows.Perm (s.due t.now) ∧ rows.Pairwise (fun c d => c.nextRun ≤ d.nextRun) then
        let crons := rows.take cronsPerTick
        some (s.set i { t with stage := .looping crons [], selected := crons })
      else none
    | _ => none
  | .selectFails _ =>
    match t.stage with
    | .selecting => some (s.set i t.fail)
    | _ => none
  | .next _ =>
    match t.stage with
    | .looping todo due => some (s.set i (takeNext nextRun t todo due))
    | _ => none
  | .null _ outcome =>
    match t.stage with
    | .nulling cron todo due =>
      match outcome with
      | .done =>
        if s.locked cron.id then none
        else some ((s.stopCron cron).set i (t.goto (.looping todo due)))
      | .failed => some (s.set i t.fail)
      | .unacknowledged =>
        if s.locked cron.id then none else some ((s.stopCron cron).set i t.fail)
    | _ => none
  | .begin_ _ ok =>
    match t.stage with
    | .beginning cron next todo due =>
      some (s.set i (if ok then t.goto (.claiming cron next todo due) else t.fail))
    | _ => none
  | .claim _ ok =>
    match t.stage with
    | .claiming cron next todo due =>
      match ok with
      | false => some (s.set i t.fail)
      | true =>
        if s.locked cron.id then none
        else if s.unmoved cron then some (s.set i (t.goto (.inserting cron next todo due)))
        else
          some (s.set i { t with stage := .looping todo due, skipped := t.skipped ++ [cron] })
    | _ => none
  | .insert _ eventId ok =>
    match t.stage with
    | .inserting cron next todo due =>
      some (s.set i (if ok then t.goto (.committing cron next eventId todo due) else t.fail))
    | _ => none
  | .commit _ outcome =>
    match t.stage with
    | .committing cron next eventId todo due =>
      match outcome with
      | .done =>
        let t' := t.goto (.looping todo (due ++ [cron.data eventId]))
        some ((s.claimCron i t.now cron next eventId).set i t')
      | .failed => some (s.set i t.fail)
      | .unacknowledged => some ((s.claimCron i t.now cron next eventId).set i t.fail)
    | _ => none
  | _ => none

end State

def Act.tick? : Act → Option Nat
  | .select i _ | .selectFails i | .next i | .null i _ | .begin_ i _ | .claim i _ | .insert i _ _
  | .commit i _ => some i
  | _ => none

namespace State

variable (nextRun : String → Int → Option Int)

def step (s : State) : Act → Option State
  | .insertCron id cron =>
    if (s.crons.lookup id).isSome ∨ cron.lastRun ≠ none then none
    else some { s with crons := s.crons.insert id cron }
  | .edit id value nextRun =>
    match s.crons.lookup id with
    | some row =>
      if s.locked id then none
      else some { s with crons := s.crons.insert id { row with value, nextRun } }
    | none => none
  | .delete id =>
    match s.crons.lookup id with
    | some row =>
      if s.locked id then none
      else some { s with crons := s.crons.insert id { row with deleted := true } }
    | none => none
  | .tick now => some { s with ticks := s.ticks ++ [⟨now, .selecting, [], [], false⟩] }
  | a => do
    let i ← a.tick?
    let t ← s.ticks[i]?
    s.act nextRun i t a

end State

def machine (nextRun : String → Int → Option Int) : Machine State Act where
  init := ⟨∅, [], [], []⟩
  step := State.step nextRun

def State.forward (s : State) : Act → Bool
  | .edit id _ (some next) =>
    (s.crons.lookup id).all fun row =>
      match row.nextRun with
      | some old => old ≤ next
      | none => row.lastRun.all (· < next)
  | _ => true

/-! ## What a step can do -/

namespace State

variable (nextRun : String → Int → Option Int)

inductive Step (s : State) : Act → State → Prop
  | insertCron {id : String} {cron : Cron} (hnew : s.crons.lookup id = none)
      (hlast : cron.lastRun = none) :
      Step s (.insertCron id cron) { s with crons := s.crons.insert id cron }
  | edit {id value : String} {next : Option Int} {row : Cron} (hrow : s.crons.lookup id = some row)
      (hfree : s.locked id = false) :
      Step s (.edit id value next)
        { s with crons := s.crons.insert id { row with value, nextRun := next } }
  | delete {id : String} {row : Cron} (hrow : s.crons.lookup id = some row)
      (hfree : s.locked id = false) :
      Step s (.delete id) { s with crons := s.crons.insert id { row with deleted := true } }
  | tick (now : Int) :
      Step s (.tick now) { s with ticks := s.ticks ++ [⟨now, .selecting, [], [], false⟩] }
  | select {i : Nat} {t : Tick} {rows : List DueCron} (ht : s.ticks[i]? = some t)
      (hstage : t.stage = .selecting) (hrows : rows.Perm (s.due t.now)) :
      Step s (.select i rows)
        (s.set i
          { t with
            stage := .looping (rows.take cronsPerTick) []
            selected := rows.take cronsPerTick })
  | fail {a : Act} {i : Nat} {t : Tick} (ht : s.ticks[i]? = some t) : Step s a (s.set i t.fail)
  | next {i : Nat} {t : Tick} {todo : List DueCron} {due : List ScheduledData}
      (ht : s.ticks[i]? = some t) (hstage : t.stage = .looping todo due) :
      Step s (.next i) (s.set i (takeNext nextRun t todo due))
  | null {i : Nat} {t t' : Tick} {cron : DueCron} {todo : List DueCron} {due : List ScheduledData}
      {outcome : Sent} (ht : s.ticks[i]? = some t) (hstage : t.stage = .nulling cron todo due)
      (hfree : s.locked cron.id = false) (ht' : t' = t.goto (.looping todo due) ∨ t' = t.fail) :
      Step s (.null i outcome) ((s.stopCron cron).set i t')
  | begin_ {i : Nat} {t : Tick} {cron : DueCron} {next : Int} {todo : List DueCron}
      {due : List ScheduledData} (ht : s.ticks[i]? = some t)
      (hstage : t.stage = .beginning cron next todo due) :
      Step s (.begin_ i true) (s.set i (t.goto (.claiming cron next todo due)))
  | claim {i : Nat} {t : Tick} {cron : DueCron} {next : Int} {todo : List DueCron}
      {due : List ScheduledData} (ht : s.ticks[i]? = some t)
      (hstage : t.stage = .claiming cron next todo due) (hfree : s.locked cron.id = false)
      (hrow : s.unmoved cron = true) :
      Step s (.claim i true) (s.set i (t.goto (.inserting cron next todo due)))
  | skip {i : Nat} {t : Tick} {cron : DueCron} {next : Int} {todo : List DueCron}
      {due : List ScheduledData} (ht : s.ticks[i]? = some t)
      (hstage : t.stage = .claiming cron next todo due) (hrow : s.unmoved cron = false) :
      Step s (.claim i true)
        (s.set i { t with stage := .looping todo due, skipped := t.skipped ++ [cron] })
  | insert {i : Nat} {t : Tick} {cron : DueCron} {next : Int} {eventId : String}
      {todo : List DueCron} {due : List ScheduledData} (ht : s.ticks[i]? = some t)
      (hstage : t.stage = .inserting cron next todo due) :
      Step s (.insert i eventId true) (s.set i (t.goto (.committing cron next eventId todo due)))
  | commit {i : Nat} {t t' : Tick} {cron : DueCron} {next : Int} {eventId : String}
      {todo : List DueCron} {due : List ScheduledData} {outcome : Sent}
      (ht : s.ticks[i]? = some t) (hstage : t.stage = .committing cron next eventId todo due)
      (ht' : t' = t.goto (.looping todo (due ++ [cron.data eventId])) ∨ t' = t.fail) :
      Step s (.commit i outcome) ((s.claimCron i t.now cron next eventId).set i t')

variable {nextRun} {s s' : State} {a : Act}

theorem step_of_act {i : Nat} {t : Tick} (ht : s.ticks[i]? = some t) (ha : a.tick? = some i)
    (h : s.act nextRun i t a = some s') : s.Step nextRun a s' := by
  cases a with
  | insertCron | edit | delete | tick => cases ha
  | select j rows =>
    cases ha
    dsimp only [act] at h
    split at h
    next hst =>
      split at h
      next hco =>
        cases h
        exact .select ht hst hco.1
      · cases h
    · cases h
  | selectFails j =>
    cases ha
    dsimp only [act] at h
    split at h
    · cases h
      exact .fail ht
    · cases h
  | next j =>
    cases ha
    dsimp only [act] at h
    split at h
    next hst =>
      cases h
      exact .next ht hst
    · cases h
  | null j out =>
    cases ha
    dsimp only [act] at h
    split at h
    next hst =>
      cases out with
      | done =>
        dsimp only at h
        split at h
        · cases h
        next hf =>
          cases h
          exact .null ht hst (Bool.eq_false_iff.2 hf) (.inl rfl)
      | failed =>
        cases h
        exact .fail ht
      | unacknowledged =>
        dsimp only at h
        split at h
        · cases h
        next hf =>
          cases h
          exact .null ht hst (Bool.eq_false_iff.2 hf) (.inr rfl)
    · cases h
  | begin_ j ok =>
    cases ha
    dsimp only [act] at h
    split at h
    next hst =>
      cases h
      cases ok with
      | true => exact .begin_ ht hst
      | false => exact .fail ht
    · cases h
  | claim j ok =>
    cases ha
    dsimp only [act] at h
    split at h
    next hst =>
      cases ok with
      | false =>
        cases h
        exact .fail ht
      | true =>
        dsimp only at h
        split at h
        · cases h
        next hf =>
          split at h
          · cases h
            exact .claim ht hst (Bool.eq_false_iff.2 hf) ‹_›
          next hro =>
            cases h
            exact .skip ht hst (Bool.eq_false_iff.2 hro)
    · cases h
  | insert j eventId ok =>
    cases ha
    dsimp only [act] at h
    split at h
    next hst =>
      cases h
      cases ok with
      | true => exact .insert ht hst
      | false => exact .fail ht
    · cases h
  | commit j out =>
    cases ha
    dsimp only [act] at h
    split at h
    next hst =>
      cases out with
      | done =>
        cases h
        exact .commit ht hst (.inl rfl)
      | failed =>
        cases h
        exact .fail ht
      | unacknowledged =>
        cases h
        exact .commit ht hst (.inr rfl)
    · cases h

theorem step_of_eq (h : s.step nextRun a = some s') : s.Step nextRun a s' := by
  have ha (h : (do
      let i ← a.tick?
      let t ← s.ticks[i]?
      s.act nextRun i t a) = some s') : s.Step nextRun a s' := by
    obtain ⟨i, hi, h⟩ := bind_eq_some_iff.1 h
    obtain ⟨t, ht, h⟩ := bind_eq_some_iff.1 h
    exact step_of_act ht hi h
  cases a with
  | insertCron id cron =>
    dsimp only [step] at h
    split at h
    · cases h
    next hco =>
      cases h
      rw [not_or, Bool.not_eq_true, isSome_eq_false_iff, isNone_iff_eq_none, not_not] at hco
      exact .insertCron hco.1 hco.2
  | edit id value next | delete id =>
    dsimp only [step] at h
    split at h
    next hro =>
      split at h
      · cases h
      next hf =>
        cases h
        constructor
        · exact hro
        · exact Bool.eq_false_iff.2 hf
    · cases h
  | tick now =>
    cases h
    exact .tick now
  | _ => exact ha h

end State

/-! ## Claims are made once -/

def Stage.crons : Stage → List DueCron
  | .looping todo _ => todo
  | .nulling cron todo _ => cron :: todo
  | .beginning cron _ todo _ => cron :: todo
  | .claiming cron _ todo _ => cron :: todo
  | .inserting cron _ todo _ => cron :: todo
  | .committing cron _ _ todo _ => cron :: todo
  | _ => []

def Stage.next : Stage → Option Int
  | .beginning _ next _ _ => some next
  | .claiming _ next _ _ => some next
  | .inserting _ next _ _ => some next
  | .committing _ next _ _ _ => some next
  | _ => none

structure Tick.Sound (t : Tick) : Prop where
  due : ∀ cron ∈ t.stage.crons, cron.nextRun ≤ t.now
  later : ∀ next, t.stage.next = some next → t.now < next

theorem Tick.sound_fail (t : Tick) : t.fail.Sound := ⟨nofun, nofun⟩

theorem Tick.Sound.mono {t t' : Tick} (h : t.Sound) (hno : t'.now = t.now)
    (hcr : ∀ cron ∈ t'.stage.crons, cron ∈ t.stage.crons)
    (hnext : ∀ next, t'.stage.next = some next → t.stage.next = some next) : t'.Sound := by
  refine ⟨fun cron hcron => ?_, fun next hn => ?_⟩
  · rw [hno]
    exact h.due cron (hcr cron hcron)
  · rw [hno]
    exact h.later next (hnext next hn)

namespace State

/-- **The invariant.**  Rows that are locked are as they were read; `next_run` is ahead of
`last_run`, and `last_run` is the last claim. -/
structure Sound (s : State) : Prop where
  ticks : ∀ t ∈ s.ticks, t.Sound
  held : ∀ t ∈ s.ticks, ∀ cron, t.stage.holds = some cron → s.unmoved cron = true
  alone : ∀ (i j : Nat) (t t' : Tick) (c c' : DueCron), s.ticks[i]? = some t →
    s.ticks[j]? = some t' → t.stage.holds = some c → t'.stage.holds = some c' → c.id = c'.id → i = j
  ahead : ∀ id row, s.crons.lookup id = some row → ∀ n l, row.nextRun = some n →
    row.lastRun = some l → l < n
  claimed : ∀ c ∈ s.claims, ∃ row l, s.crons.lookup c.cron.id = some row ∧ row.lastRun = some l ∧
    c.cron.nextRun ≤ l
  increasing : s.claims.Pairwise fun c c' => c.cron.id = c'.cron.id →
    c.cron.nextRun < c'.cron.nextRun
  later : ∀ c ∈ s.claims, c.cron.nextRun ≤ c.now ∧ c.now < c.next
  events : s.events.map (fun e => (e.cronId, e.scheduledAt)) =
    s.claims.map fun c => (c.cron.id, c.cron.nextRun)

theorem locked_eq_false {s : State} {id : String} :
    s.locked id = false ↔ ∀ t ∈ s.ticks, ∀ cron, t.stage.holds = some cron → cron.id ≠ id := by
  simp only [locked, List.any_eq_false, Option.any_eq_true, beq_iff_eq, not_exists, not_and]

theorem unmoved_iff {s : State} {cron : DueCron} : s.unmoved cron = true ↔
    ∃ row, s.crons.lookup cron.id = some row ∧ row.nextRun = some cron.nextRun ∧
      row.deleted = false := by
  simp [unmoved, Option.any_eq_true]

namespace Sound

variable {s : State} {i : Nat} {t t' : Tick}

theorem set (hs : s.Sound) (ht' : t'.Sound)
    (hh : ∀ cron, t'.stage.holds = some cron → s.unmoved cron = true ∧
      ∀ j t, j ≠ i → s.ticks[j]? = some t → ∀ c, t.stage.holds = some c → c.id ≠ cron.id) :
    (s.set i t').Sound := by
  refine ⟨forall_mem_set hs.ticks ht', ?_, ?_, hs.ahead, hs.claimed, hs.increasing,
    hs.later, hs.events⟩
  · exact forall_mem_set hs.held fun cron hcr => (hh cron hcr).1
  · intro j k u u' c c' hu hu' hc hc' hid
    obtain ⟨rfl, rfl⟩ | ⟨hj, hold⟩ := getElem?_set_eq_some hu
    · obtain ⟨rfl, rfl⟩ | ⟨hk, hold'⟩ := getElem?_set_eq_some hu'
      · rfl
      · exact absurd hid.symm ((hh c hc).2 k u' hk hold' c' hc')
    · obtain ⟨rfl, rfl⟩ | ⟨-, hold'⟩ := getElem?_set_eq_some hu'
      · exact absurd hid ((hh c' hc').2 j u hj hold c hc)
      · exact hs.alone j k u u' c c' hold hold' hc hc' hid

theorem set_of_none (hs : s.Sound) (ht' : t'.Sound) (hh : t'.stage.holds = none) :
    (s.set i t').Sound :=
  hs.set ht' fun _ h => nomatch hh.symm.trans h

variable {cron : DueCron} {id : String} {row : Cron} {next : Int}

theorem unmoved_insert (hid : cron.id ≠ id) :
    unmoved { s with crons := s.crons.insert id row } cron = s.unmoved cron := by
  rw [unmoved, unmoved, AList.lookup_insert_ne hid]

theorem write (hs : s.Sound) {row' : Cron} (hro : s.crons.lookup id = some row)
    (hf : s.locked id = false) (hla : row'.lastRun = row.lastRun)
    (ha : ∀ n l, row'.nextRun = some n → row'.lastRun = some l → l < n) :
    Sound { s with crons := s.crons.insert id row' } := by
  refine ⟨hs.ticks, fun t ht cron hcr => ?_, hs.alone, fun id' r hr => ?_, fun c hc => ?_,
    hs.increasing, hs.later, hs.events⟩
  · rw [unmoved_insert (locked_eq_false.1 hf t ht cron hcr)]
    exact hs.held t ht cron hcr
  · by_cases hid : id' = id
    · subst hid
      rw [AList.lookup_insert] at hr
      cases hr
      exact ha
    · rw [AList.lookup_insert_ne hid] at hr
      exact hs.ahead id' r hr
  · obtain ⟨r, l, hr, hl, hle⟩ := hs.claimed c hc
    by_cases hid : c.cron.id = id
    · rw [hid] at hr ⊢
      cases hro.symm.trans hr
      exact ⟨row', l, AList.lookup_insert _, hla.trans hl, hle⟩
    · exact ⟨r, l, (AList.lookup_insert_ne hid).trans hr, hl, hle⟩

theorem insertCron (hs : s.Sound) {cron : Cron} (hn : s.crons.lookup id = none)
    (hla : cron.lastRun = none) : Sound { s with crons := s.crons.insert id cron } := by
  have hne {id' : String} {row : Cron} (h : s.crons.lookup id' = some row) : id' ≠ id := by
    rintro rfl
    cases hn.symm.trans h
  refine ⟨hs.ticks, fun t ht due hd => ?_, hs.alone, fun id' r hr => ?_, fun c hc => ?_,
    hs.increasing, hs.later, hs.events⟩
  · have hh := hs.held t ht due hd
    obtain ⟨row, hro, -⟩ := unmoved_iff.1 hh
    rw [unmoved_insert (hne hro)]
    exact hh
  · by_cases hid : id' = id
    · subst hid
      rw [AList.lookup_insert] at hr
      cases hr
      intro n l _ hl
      cases hla.symm.trans hl
    · rw [AList.lookup_insert_ne hid] at hr
      exact hs.ahead id' r hr
  · obtain ⟨r, l, hr, hl, hle⟩ := hs.claimed c hc
    exact ⟨r, l, (AList.lookup_insert_ne (hne hr)).trans hr, hl, hle⟩

theorem stopCron (hs : s.Sound) (hf : s.locked cron.id = false) : (s.stopCron cron).Sound := by
  unfold State.stopCron
  split
  next row hro =>
    split
    · exact hs.write hro hf rfl nofun
    · exact hs
  · exact hs

/-- **A claim**: the value it takes is ahead of all that were claimed, and the one it leaves is
ahead of that. -/
theorem claimCron (hs : s.Sound) {now : Int} {eventId : String} (hf : s.locked cron.id = false)
    (hro : s.unmoved cron = true) (hd : cron.nextRun ≤ now) (hla : now < next) :
    (s.claimCron i now cron next eventId).Sound := by
  obtain ⟨row, hlk, hnext, -⟩ := unmoved_iff.1 hro
  have hbe : ∀ c ∈ s.claims, c.cron.id = cron.id → c.cron.nextRun < cron.nextRun := by
    intro c hc hid
    obtain ⟨r, l, hr, hl, hle⟩ := hs.claimed c hc
    rw [hid] at hr
    cases hlk.symm.trans hr
    exact Int.lt_of_le_of_lt hle (hs.ahead cron.id row hlk _ _ hnext hl)
  rw [State.claimCron, hlk]
  refine ⟨hs.ticks, fun t ht c hc => ?_, hs.alone, fun id r hr => ?_, fun c hc => ?_, ?_, ?_, ?_⟩
  · exact (unmoved_insert (s := s) (locked_eq_false.1 hf t ht c hc)).trans (hs.held t ht c hc)
  · by_cases hid : id = cron.id
    · subst hid
      rw [AList.lookup_insert] at hr
      cases hr
      intro n l hn hl
      cases hn
      cases hl
      exact Int.lt_of_le_of_lt hd hla
    · rw [AList.lookup_insert_ne hid] at hr
      exact hs.ahead id r hr
  · obtain hc | hc := mem_append.1 hc
    · by_cases hid : c.cron.id = cron.id
      · rw [hid]
        exact ⟨_, cron.nextRun, AList.lookup_insert _, rfl, Int.le_of_lt (hbe c hc hid)⟩
      · obtain ⟨r, l, hr, hl, hle⟩ := hs.claimed c hc
        exact ⟨r, l, (AList.lookup_insert_ne hid).trans hr, hl, hle⟩
    · cases mem_singleton.1 hc
      exact ⟨_, cron.nextRun, AList.lookup_insert _, rfl, Int.le_refl _⟩
  · refine pairwise_append.2
      ⟨hs.increasing, pairwise_singleton _ _, fun c hc c' hc' => ?_⟩
    cases mem_singleton.1 hc'
    exact hbe c hc
  · intro c hc
    obtain hc | hc := mem_append.1 hc
    · exact hs.later c hc
    · cases mem_singleton.1 hc
      exact ⟨hd, hla⟩
  · simp only [map_append, hs.events]
    rfl

theorem commit (hs : s.Sound) {eventId : String} {todo : List DueCron} {due : List ScheduledData}
    (ht : s.ticks[i]? = some t) (hst : t.stage = .committing cron next eventId todo due)
    (ht' : t'.Sound) (hh : t'.stage.holds = none) :
    ((s.claimCron i t.now cron next eventId).set i t').Sound := by
  have hm := mem_of_getElem? ht
  have hsn := hs.ticks t hm
  have hro := hs.held t hm cron (by rw [hst]; rfl)
  change ((s.set i t').claimCron i t.now cron next eventId).Sound
  refine (hs.set_of_none ht' hh).claimCron (locked_eq_false.2 fun u hu c hc hid => ?_) hro
    (hsn.due cron (by rw [hst]; exact mem_cons_self))
    (hsn.later next (by rw [hst]; rfl))
  obtain rfl | ⟨j, hj, hu⟩ := eq_or_exists_of_mem_set hu
  · cases hh.symm.trans hc
  · exact hj (hs.alone j i u t c cron hu ht hc (by rw [hst]; rfl) hid)

theorem tick (hs : s.Sound) (now : Int) :
    Sound { s with ticks := s.ticks ++ [⟨now, .selecting, [], [], false⟩] } := by
  refine ⟨fun t ht => ?_, fun t ht cron hcr => ?_, ?_, hs.ahead, hs.claimed, hs.increasing,
    hs.later, hs.events⟩
  · obtain ht | ht := mem_append.1 ht
    · exact hs.ticks t ht
    · cases mem_singleton.1 ht
      exact ⟨nofun, nofun⟩
  · obtain ht | ht := mem_append.1 ht
    · exact hs.held t ht cron hcr
    · cases mem_singleton.1 ht
      cases hcr
  · intro j k u u' c c' hu hu' hc hc' hid
    obtain hu | ⟨-, rfl⟩ := getElem?_concat_eq_some hu
    · obtain hu' | ⟨-, rfl⟩ := getElem?_concat_eq_some hu'
      · exact hs.alone j k u u' c c' hu hu' hc hc' hid
      · cases hc'
    · cases hc

theorem due_of_mem {now : Int} (h : cron ∈ s.due now) : cron.nextRun ≤ now := by
  obtain ⟨⟨id, row⟩, -, hso⟩ := mem_filterMap.1 h
  dsimp only at hso
  split at hso
  · split at hso
    next hco =>
      cases hso
      exact hco.1
    · cases hso
  · cases hso

variable {nextRun : String → Int → Option Int}

theorem takeNext (hnext : ∀ pat now next, nextRun pat now = some next → now < next)
    (ht : t.Sound) {todo : List DueCron} {due : List ScheduledData}
    (hst : t.stage = .looping todo due) :
    (State.takeNext nextRun t todo due).Sound ∧
      (State.takeNext nextRun t todo due).stage.holds = none := by
  have hd := ht.due
  rw [hst] at hd
  cases todo with
  | nil => exact ⟨⟨nofun, nofun⟩, rfl⟩
  | cons cron todo =>
    rw [State.takeNext]
    split
    · exact ⟨⟨hd, nofun⟩, rfl⟩
    next next hso =>
      refine ⟨⟨hd, fun n hn => ?_⟩, rfl⟩
      cases hn
      exact hnext _ _ _ hso

theorem ahead_of_forward (hs : s.Sound) {val : String} {l : Int}
    (hro : s.crons.lookup id = some row) (ha : s.forward (.edit id val (some next)) = true)
    (hl : row.lastRun = some l) : l < next := by
  rw [forward, hro, all_some] at ha
  split at ha
  next old hold =>
    exact Int.lt_of_lt_of_le (hs.ahead id row hro old l hold hl) (of_decide_eq_true ha)
  · rw [hl, all_some] at ha
    exact of_decide_eq_true ha

theorem step (hnext : ∀ pat now next, nextRun pat now = some next → now < next)
    (hs : s.Sound) {a : Act} {s' : State} (ha : s.forward a = true)
    (h : s.step nextRun a = some s') : s'.Sound := by
  cases step_of_eq h with
  | insertCron hnew hla => exact hs.insertCron hnew hla
  | edit hrow hf =>
    refine hs.write hrow hf rfl fun n l hn hl => ?_
    subst hn
    exact hs.ahead_of_forward hrow ha hl
  | delete hrow hf => exact hs.write hrow hf rfl fun n l => hs.ahead _ _ hrow n l
  | tick now => exact hs.tick now
  | select ht hst hro =>
    refine hs.set_of_none ⟨fun cron hcr => ?_, nofun⟩ rfl
    exact due_of_mem (hro.mem_iff.1 (mem_of_mem_take hcr))
  | fail ht => exact hs.set_of_none (Tick.sound_fail _) rfl
  | next ht hst =>
    obtain ⟨hsn, hh⟩ := takeNext hnext (hs.ticks _ (mem_of_getElem? ht)) hst
    exact hs.set_of_none hsn hh
  | null ht hst hf ht' =>
    have hsn := hs.ticks _ (mem_of_getElem? ht)
    obtain rfl | rfl := ht'
    · refine (hs.stopCron hf).set_of_none (hsn.mono rfl (fun cron hcr => ?_) nofun) rfl
      rw [hst]
      exact mem_cons_of_mem _ hcr
    · exact (hs.stopCron hf).set_of_none (Tick.sound_fail _) rfl
  | begin_ ht hst =>
    have hsn := hs.ticks _ (mem_of_getElem? ht)
    refine hs.set_of_none (hsn.mono rfl ?_ ?_) rfl <;> rw [hst] <;> exact fun _ h => h
  | claim ht hst hf hrow =>
    have hsn := hs.ticks _ (mem_of_getElem? ht)
    refine hs.set (hsn.mono rfl ?_ ?_) fun cron hcr => ?_
    · rw [hst]
      exact fun _ h => h
    · rw [hst]
      exact fun _ h => h
    · cases hcr
      exact ⟨hrow, fun j u _ hu c hc => locked_eq_false.1 hf u (mem_of_getElem? hu) c hc⟩
  | skip ht hst hrow =>
    have hsn := hs.ticks _ (mem_of_getElem? ht)
    refine hs.set_of_none (hsn.mono rfl (fun cron hcr => ?_) nofun) rfl
    rw [hst]
    exact mem_cons_of_mem _ hcr
  | insert ht hst =>
    have hm := mem_of_getElem? ht
    refine hs.set ((hs.ticks _ hm).mono rfl ?_ ?_) fun cron hcr => ?_
    · rw [hst]
      exact fun _ h => h
    · rw [hst]
      exact fun _ h => h
    · cases hcr
      refine ⟨hs.held _ hm _ (by rw [hst]; rfl), fun j u hj hu c hc hid => ?_⟩
      exact hj (hs.alone _ _ _ _ _ _ hu ht hc (by rw [hst]; rfl) hid)
  | commit ht hst ht' =>
    have hsn := hs.ticks _ (mem_of_getElem? ht)
    obtain rfl | rfl := ht'
    · refine hs.commit ht hst (hsn.mono rfl (fun cron hcr => ?_) nofun) rfl
      rw [hst]
      exact mem_cons_of_mem _ hcr
    · exact hs.commit ht hst (Tick.sound_fail _) rfl

theorem claim_of_step (hs : s.Sound) {a : Act} {s' : State} (h : s.step nextRun a = some s') :
    ∀ c ∈ s'.claims, c ∈ s.claims ∨ ∃ row row', s.crons.lookup c.cron.id = some row ∧
      row.deleted = false ∧ row.nextRun = some c.cron.nextRun ∧
      s'.crons.lookup c.cron.id = some row' ∧ row'.nextRun = some c.next := by
  intro c hc
  cases step_of_eq h with
  | commit ht hst ht' =>
    have hro := hs.held _ (mem_of_getElem? ht) _ (by rw [hst]; rfl)
    obtain ⟨row, hl, hn, hd⟩ := unmoved_iff.1 hro
    simp only [State.set, State.claimCron, hl] at hc ⊢
    refine (mem_append.1 hc).imp_right fun hc => ?_
    cases mem_singleton.1 hc
    exact ⟨row, _, hl, hd, hn, AList.lookup_insert _, rfl⟩
  | null ht hst hf ht' =>
    refine .inl ?_
    simp only [State.set, State.stopCron] at hc
    split at hc
    · split at hc <;> exact hc
    · exact hc
  | _ => exact .inl hc

end Sound

end State

/-- **Claims are made at most once.**  For every interleaving of ticks with any clocks, and of API
writes that move `next_run` forward: no run of a cron is claimed twice; the events are those of the
claims, one each; a claim is made when the run is due and moves `next_run` past that time, so a cron
that is late runs once; and a claim is of a cron that is not deleted and still has that run. -/
theorem crons_claimed_once (nextRun : String → Int → Option Int)
    (hnext : ∀ pattern now next, nextRun pattern now = some next → now < next) (s : State)
    (hs : (machine nextRun).Reach (fun s a => s.forward a = true) s) :
    (s.claims.map fun c => (c.cron.id, c.cron.nextRun)).Nodup ∧
    s.events.map (fun e => (e.cronId, e.scheduledAt)) =
      s.claims.map (fun c => (c.cron.id, c.cron.nextRun)) ∧
    (∀ c ∈ s.claims, c.cron.nextRun ≤ c.now ∧ c.now < c.next) ∧
    ∀ a s', (machine nextRun).step s a = some s' → ∀ c ∈ s'.claims, c ∈ s.claims ∨
      ∃ row row', s.crons.lookup c.cron.id = some row ∧ row.deleted = false ∧
        row.nextRun = some c.cron.nextRun ∧ s'.crons.lookup c.cron.id = some row' ∧
        row'.nextRun = some c.next := by
  have h0 : State.Sound ⟨∅, [], [], []⟩ := by constructor <;> simp
  have h : s.Sound := hs.invariant h0 fun _ _ _ _ h ha hstep => h.step hnext ha hstep
  refine ⟨?_, h.events, h.later, fun a s' hstep => h.claim_of_step hstep⟩
  refine pairwise_map.2 (h.increasing.imp fun hlt heq => ?_)
  obtain ⟨hid, hval⟩ := Prod.mk.inj heq
  exact Int.lt_irrefl _ (hval ▸ hlt hid)

def twoClaims : List Act :=
  let cron : DueCron := ⟨"c", "w", "* * * * *", 0⟩
  [.insertCron "c" ⟨"w", "* * * * *", some 0, none, false⟩,
    .tick 100, .tick 130, .select 0 [cron], .select 1 [cron],
    .next 0, .next 1, .begin_ 0 true, .begin_ 1 true,
    .claim 0 true, .insert 0 "e" true, .commit 0 .done, .claim 1 true,
    .next 0, .next 1]

theorem crons_claimed_once_two :
    ∃ s, (machine fun _ now => some (now + 60)).Reach (fun s a => s.forward a = true) s ∧
      s.claims = [⟨0, 100, ⟨"c", "w", "* * * * *", 0⟩, 160⟩] ∧ s.ticks.length = 2 ∧
      (s.claims.map fun c => (c.cron.id, c.cron.nextRun)).Nodup := by
  obtain ⟨s, hs, hp⟩ := Machine.exists_reach_of_runIf (M := machine fun _ now => some (now + 60))
    State.forward (fun _ _ _ h => h) twoClaims
    (fun s => s.claims = [⟨0, 100, ⟨"c", "w", "* * * * *", 0⟩, 160⟩] ∧ s.ticks.length = 2)
    (by decide +kernel)
  refine ⟨s, hs, hp.1, hp.2, (crons_claimed_once _ (fun _ now next h => ?_) s hs).1⟩
  cases h
  exact Int.lt_add_of_pos_right now (by decide)

end OpenWorkersRunner.Scheduler
