import OpenWorkersRunner.Store.Tables

/-!
# The store: whose bindings a worker gets, and what a failed query does to them

`getWorkerMeta` looks up each environment value of a worker on its own.  Two things depend on every
one of these lookups.

Both read `getWorkerMeta` through `fetchBinding_cases`: the lookup of a binding asks at most one
question, and an error is no binding.
-/

namespace OpenWorkersRunner.Store

open List Option

/-! ## The lookup of a binding -/

def Query.isLookup : Query → Bool
  | .storageConfig _ | .d1Database _ _ | .durableObjectNamespace _ _ | .kvConfig _
  | .databaseConfig _ | .workerBinding _ => true
  | _ => false

def Query.gives : (q : Query) → q.Row → Bool
  | .d1Database _ _, row => Option.isSome row
  | .durableObjectNamespace _ _, row => (Option.bind row NamespaceRow.config).isSome
  | _, _ => true

/-- **The lookup of a binding asks at most one question**, and gives nothing on an error. -/
theorem fetchBinding_cases (userId : String) (row : BindingRow) :
    (∃ b, fetchBinding userId row = .done b) ∨ ∃ (q : Query) (f : q.Answer → Option Binding),
        fetchBinding userId row = .ask q (fun answer => .done (f answer)) ∧ q.isLookup = true ∧
          (∀ err, f (.error err) = none) ∧ ∀ r, (f (.ok r)).isSome = q.gives r := by
  unfold fetchBinding
  split
  · exact .inl ⟨_, rfl⟩
  split
  · exact .inl ⟨_, rfl⟩
  · exact .inl ⟨_, rfl⟩
  all_goals refine .inr ⟨_, _, rfl, rfl, fun _ => rfl, fun r => ?_⟩
  case h_7 => cases r <;> rfl
  case h_8 =>
    cases r with
    | none => rfl
    | some row => simp [Except.map, fetched, Query.gives]
  all_goals rfl

/-! ## Reads -/

theorem fetched_fetchOne {α : Type} (row : Option α) : fetched (fetchOne row) = row := by
  cases row <;> rfl

theorem fetchOne_eq_ok {α : Type} {row : Option α} {a : α} :
    fetchOne row = .ok a ↔ row = some a := by
  cases row <;> simp [fetchOne]

namespace Tables

section Answers

variable (resolver : Resolver) (tables : Tables) (id : String)

theorem fetched_storageConfig : fetched (tables.answer resolver (.storageConfig id)) =
    (tables.storageConfigs.lookup id).map fun c => (⟨c.row, id⟩ : StorageConfig) :=
  fetched_fetchOne _

theorem fetched_kvConfig : fetched (tables.answer resolver (.kvConfig id)) =
    (tables.kvConfigs.lookup id).map fun c => (⟨id, c.row⟩ : KvConfig) :=
  fetched_fetchOne _

theorem fetched_databaseConfig : fetched (tables.answer resolver (.databaseConfig id)) =
    (tables.databaseConfigs.lookup id).map fun c => (⟨c.row, id⟩ : DatabaseConfig) :=
  fetched_fetchOne _

theorem d1Database_found {userId found : String}
    (h : (fetched (tables.answer resolver (.d1Database id userId))).join = some found) :
    (tables.d1Databases.lookup found).map Owned.userId = some userId := by
  simp only [answer, fetched, join_some, bind_eq_some_iff] at h
  obtain ⟨d, hd, hf⟩ := h
  split at hf
  case isTrue ho =>
    cases hf
    simp [hd, ho.1]
  case isFalse => cases hf

theorem NamespaceRow.config_eq_some {row : NamespaceRow} {ns : NamespaceConfig}
    (h : row.config = some ns) : ns.id = row.id := by
  unfold NamespaceRow.config at h
  split at h <;> cases h
  rfl

theorem durableObjectNamespace_found {userId : String} {ns : NamespaceConfig}
    (h : (fetched ((tables.answer resolver (.durableObjectNamespace id (some userId))).map
      fun row => row.bind NamespaceRow.config)).join = some ns) :
    (tables.durableObjectNamespaces.lookup ns.id).map Owned.userId = some userId := by
  simp only [answer, Except.map, fetched, join_some, bind_eq_some_iff] at h
  obtain ⟨row, ⟨n, hn, hro⟩, hco⟩ := h
  split at hro
  case isTrue ho =>
    obtain ⟨wid, -, rfl⟩ := map_eq_some_iff.1 hro
    rw [NamespaceRow.config_eq_some hco]
    simpa [hn] using ho.1
  case isFalse => cases hro

end Answers

variable (resolver : Resolver) (tables : Tables)

def reply (failures : Nat → Option SqlxError) (n : Nat) (q : Query) : q.Answer :=
  match failures n with
  | some err => .error err
  | none => tables.answer resolver q

def read (failures : Nat → Option SqlxError) (identifier : WorkerIdentifier) : Option WorkerMeta :=
  (getWorkerMeta identifier).eval (tables.reply resolver failures) 0

def workerMeta (identifier : WorkerIdentifier) : Option WorkerMeta :=
  (getWorkerMeta identifier).eval (fun _ => tables.answer resolver) 0

def binding (userId : String) (row : BindingRow) : Option Binding :=
  (fetchBinding userId row).eval (fun _ => tables.answer resolver) 0

def gathered (userId : String) (rows : List BindingRow) (g : Gathered) : Gathered :=
  (readRows userId rows g).eval (fun _ => tables.answer resolver) 0

variable {resolver tables}

theorem gathered_cons (userId : String) (row : BindingRow) (rows : List BindingRow) (g : Gathered) :
    tables.gathered resolver userId (row :: rows) g =
      tables.gathered resolver userId rows (g.push row (tables.binding resolver userId row)) := by
  rw [gathered, readRows, Prog.eval_bind, Prog.eval_const]
  rfl

theorem gathered_bindings (userId : String) (rows : List BindingRow) (g : Gathered) :
    (tables.gathered resolver userId rows g).bindings =
      g.bindings ++ rows.filterMap (tables.binding resolver userId) := by
  induction rows generalizing g with
  | nil => simp [gathered, readRows]
  | cons row rows ih =>
    rw [gathered_cons, ih]
    cases hb : tables.binding resolver userId row with
    | none => simp [hb]
    | some b => simp [hb]

theorem workerMeta_of_ok {ident : WorkerIdentifier} {basic : BasicWorker}
    (h : tables.answer resolver (.worker ident) = .ok basic) :
    tables.workerMeta resolver ident = some (basic.toMeta
      (tables.gathered resolver basic.userId (tables.bindingRows basic.id) .empty)) := by
  simp only [workerMeta, getWorkerMeta, query, Prog.call_bind, Prog.eval_ask, h, Prog.eval_bind]
  rw [Prog.pure_eq_done, Prog.eval_done, Prog.eval_const]
  rfl

end Tables

/-! ## Ownership -/

namespace Tables

variable (resolver : Resolver) (tables : Tables)

def Owns (userId : String) : Binding → Prop
  | .assets _ config | .storage _ config =>
    (tables.storageConfigs.lookup config.id).map Owned.userId = some userId
  | .kv _ config => (tables.kvConfigs.lookup config.id).map Owned.userId = some userId
  | .database _ config => (tables.databaseConfigs.lookup config.id).map Owned.userId = some userId
  | .d1 _ databaseId => (tables.d1Databases.lookup databaseId).map Owned.userId = some userId
  | .durableObject _ ns =>
    (tables.durableObjectNamespaces.lookup ns.id).map Owned.userId = some userId
  | .var _ _ | .secret _ _ | .worker _ _ => True

def configOwner (bindingType : BindingType) (id : String) : Option String :=
  match bindingType with
  | .assets | .storage => (tables.storageConfigs.lookup id).map Owned.userId
  | .kv => (tables.kvConfigs.lookup id).map Owned.userId
  | .database => (tables.databaseConfigs.lookup id).map Owned.userId
  | _ => none

def Truthful (q : Query) (answer : q.Answer) : Prop :=
  (∃ err, answer = .error err) ∨ answer = tables.answer resolver q

variable {resolver tables}

theorem reply_truthful (failures : Nat → Option SqlxError) (n : Nat) (q : Query) :
    tables.Truthful resolver q (tables.reply resolver failures n q) := by
  unfold reply Truthful
  cases failures n with
  | none => exact .inr rfl
  | some err => exact .inl ⟨err, rfl⟩

/-- What the lookup of a row finds belongs to the owner of the worker, if that is so of the config
its value names. -/
theorem fetchBinding_owned {userId : String} {row : BindingRow}
    (h : ∀ val owner, row.value = some val →
      tables.configOwner row.bindingType val = some owner → owner = userId) :
    (fetchBinding userId row).Ends (tables.Truthful resolver)
      fun b => ∀ b', b = some b' → tables.Owns userId b' := by
  unfold fetchBinding
  split
  · exact nofun
  rename_i val hv
  split <;> rename_i ht <;> rw [ht] at h
  · rintro _ ⟨⟩
    trivial
  · rintro _ ⟨⟩
    trivial
  all_goals
    rintro _ (⟨err, rfl⟩ | rfl)
    · rintro _ ⟨⟩
    intro b hb
  case h_7 =>
    obtain ⟨db, hf, rfl⟩ := map_eq_some_iff.1 hb
    exact d1Database_found resolver tables val hf
  case h_8 =>
    obtain ⟨ns, hf, rfl⟩ := map_eq_some_iff.1 hb
    exact durableObjectNamespace_found resolver tables val hf
  case h_9 =>
    obtain ⟨cfg, -, rfl⟩ := map_eq_some_iff.1 hb
    trivial
  case' h_3 => rw [fetched_storageConfig] at hb
  case' h_4 => rw [fetched_storageConfig] at hb
  case' h_5 => rw [fetched_kvConfig] at hb
  case' h_6 => rw [fetched_databaseConfig] at hb
  all_goals
    obtain ⟨cfg, hf, rfl⟩ := map_eq_some_iff.1 hb
    obtain ⟨c, hc, rfl⟩ := map_eq_some_iff.1 hf
    have ho := h val c.userId hv (by simp [configOwner, hc])
    simp [Owns, hc, ho]

theorem readRows_owned {userId : String} {rows : List BindingRow} {g : Gathered}
    (h : ∀ row ∈ rows, ∀ val owner, row.value = some val →
      tables.configOwner row.bindingType val = some owner → owner = userId)
    (hg : ∀ b ∈ g.bindings, tables.Owns userId b) :
    (readRows userId rows g).Ends (tables.Truthful resolver)
      fun g => ∀ b ∈ g.bindings, tables.Owns userId b := by
  induction rows generalizing g with
  | nil => exact hg
  | cons row rows ih =>
    rw [readRows, Prog.ends_bind]
    refine (fetchBinding_owned (h row mem_cons_self)).mono fun binding hbi => ?_
    refine ih (fun row hro => h row (mem_cons_of_mem _ hro)) ?_
    intro b hb
    rcases mem_append.1 hb with hb | hb
    · exact hg b hb
    · exact hbi b (mem_toList.1 hb)

theorem binding_of_configOwner (userId : String) {val owner : String} {row : BindingRow}
    (hv : row.value = some val)
    (ho : tables.configOwner row.bindingType val = some owner) :
    ∃ b, tables.binding resolver userId row = some b ∧ (tables.Owns userId b → owner = userId) := by
  unfold binding fetchBinding
  cases ht : row.bindingType <;> rw [ht] at ho <;>
    simp only [configOwner, map_eq_some_iff, reduceCtorEq] at ho
  all_goals
    obtain ⟨c, hc, rfl⟩ := ho
    simp only [hv]
  case assets =>
    have hf := (fetched_storageConfig resolver tables val).trans (congrArg _ hc)
    exact ⟨.assets row.key ⟨c.row, val⟩, congrArg (Option.map (Binding.assets row.key)) hf,
      by simp [Owns, hc]⟩
  case storage =>
    have hf := (fetched_storageConfig resolver tables val).trans (congrArg _ hc)
    exact ⟨.storage row.key ⟨c.row, val⟩, congrArg (Option.map (Binding.storage row.key)) hf,
      by simp [Owns, hc]⟩
  case kv =>
    have hf := (fetched_kvConfig resolver tables val).trans (congrArg _ hc)
    exact ⟨.kv row.key ⟨val, c.row⟩, congrArg (Option.map (Binding.kv row.key)) hf,
      by simp [Owns, hc]⟩
  case database =>
    have hf := (fetched_databaseConfig resolver tables val).trans (congrArg _ hc)
    exact ⟨.database row.key ⟨c.row, val⟩,
      congrArg (Option.map (Binding.database row.key)) hf, by simp [Owns, hc]⟩

theorem getWorkerMeta_owned {ident : WorkerIdentifier}
    (h : ∀ basic, tables.answer resolver (.worker ident) = .ok basic →
      ∀ row ∈ tables.bindingRows basic.id, ∀ val owner, row.value = some val →
        tables.configOwner row.bindingType val = some owner → owner = basic.userId) :
    (getWorkerMeta ident).Ends (tables.Truthful resolver)
      fun r => ∀ m, r = some m → ∀ b ∈ m.bindings, tables.Owns m.userId b := by
  intro ans ha
  cases ans with
  | error err => exact nofun
  | ok basic =>
    have hba : tables.answer resolver (.worker ident) = .ok basic := by
      rcases ha with ⟨err, her⟩ | ha
      · cases her
      · exact ha.symm
    intro rows hro
    have hm : ∀ row ∈ (fetched rows).getD [], row ∈ tables.bindingRows basic.id := by
      rcases hro with ⟨err, rfl⟩ | rfl
      · exact nofun
      · exact fun row hrow => hrow
    show (readRows basic.userId ((fetched rows).getD []) .empty >>= fun g =>
      pure (some (basic.toMeta g))).Ends _ _
    rw [Prog.ends_bind]
    have hem : ∀ b ∈ Gathered.empty.bindings, tables.Owns basic.userId b := by
      simp [Gathered.empty]
    refine (readRows_owned (fun row hrow => h basic hba row (hm row hrow)) hem).mono ?_
    rintro g hg _ ⟨⟩
    exact hg

end Tables

/-- **A worker gets bindings of its owner's resources only exactly if no environment value of it
names a storage, KV or database config of another account**, whatever queries fail. -/
theorem bindings_owned_iff (resolver : Resolver) (tables : Tables) (identifier : WorkerIdentifier) :
    (∀ failures m, tables.read resolver failures identifier = some m →
      ∀ b ∈ m.bindings, tables.Owns m.userId b) ↔
    ∀ basic, tables.answer resolver (.worker identifier) = .ok basic →
      ∀ row ∈ tables.bindingRows basic.id, ∀ value owner, row.value = some value →
        tables.configOwner row.bindingType value = some owner → owner = basic.userId := by
  constructor
  · intro h basic hbas row hrow value owner hval hown
    -- without failures the binding of the row is among those of the worker
    have howner := h (fun _ => none) _ (Tables.workerMeta_of_ok hbas)
    obtain ⟨b, hb, hown⟩ := Tables.binding_of_configOwner basic.userId hval hown
    refine hown (howner b ?_)
    rw [BasicWorker.toMeta, Tables.gathered_bindings]
    exact mem_append_right _ (mem_filterMap.2 ⟨row, hrow, hb⟩)
  · intro h failures m hm
    exact (Tables.getWorkerMeta_owned h).eval (fun x _ => Tables.reply_truthful _ _ _) m hm

/-- A worker of one account, with an environment value that holds the id of a storage config of
another. -/
def foreignStorage : Tables where
  workers := .singleton "w" ⟨none, "alice", 1, none, some "e"⟩
  workerDeployments := .singleton ("w", 1) ⟨.javascript, []⟩
  projects := ∅
  environmentValues := [⟨"e", "alice", ⟨"BUCKET", some "s", .storage, none⟩⟩]
  storageConfigs :=
    .singleton "s" ⟨"bob", ⟨"private", none, "key", "secret", "https://r2", none, none⟩⟩
  kvConfigs := ∅
  databaseConfigs := ∅
  d1Databases := ∅
  durableObjectNamespaces := ∅

theorem storage_of_another_account : ¬ ∀ (resolver : Resolver) (tables : Tables)
    (identifier : WorkerIdentifier) (failures : Nat → Option SqlxError) (m : WorkerMeta),
    tables.read resolver failures identifier = some m →
      ∀ b ∈ m.bindings, tables.Owns m.userId b := by
  intro h
  have hown := h (fun _ _ _ _ _ => .error .rowNotFound) foreignStorage (.id "w") (fun _ => none)
    ⟨"w", none, "alice", .javascript, 1, ∅,
      [.storage "BUCKET" ⟨⟨"private", none, "key", "secret", "https://r2", none, none⟩, "s"⟩], none⟩
    rfl _ mem_cons_self
  have howner : some "bob" = some "alice" := hown
  exact absurd howner (by decide)

/-! ## Failures -/

namespace Tables

variable (resolver : Resolver) (tables : Tables)

/-- A query whose failure changes nothing: it would find nothing.  The query of the worker may fail,
since the read then gives no worker. -/
def Harmless : Query → Prop
  | .worker _ => True
  | .bindings workerId => ∀ m, tables.workerMeta resolver (.id workerId) = some m →
      m.env = ∅ ∧ m.bindings = []
  | q => ∀ row, tables.answer resolver q = .ok row → q.gives row = false

def Harmlessly (q : Query) (answer : q.Answer) : Prop :=
  answer = tables.answer resolver q ∨ (∃ err, answer = .error err) ∧ tables.Harmless resolver q

def Exact (id : String) (m : WorkerMeta) : Prop :=
  m.id = id ∧ ∃ e, tables.workerMeta resolver (.id id) = some e ∧ m.env = e.env ∧
    m.bindings = e.bindings

variable {resolver tables}

theorem harmless_lookup {q : Query} (hq : q.isLookup = true) :
    tables.Harmless resolver q ↔
      ∀ row, tables.answer resolver q = .ok row → q.gives row = false := by
  cases q <;> first | rfl | cases hq

theorem fetchBinding_exact (userId : String) (row : BindingRow) :
    (fetchBinding userId row).Ends (tables.Harmlessly resolver)
      (· = tables.binding resolver userId row) := by
  unfold binding
  rcases fetchBinding_cases userId row with ⟨b, hb⟩ | ⟨q, f, hb, hq, her, hok⟩
  · rw [hb]
    rfl
  · rw [hb]
    rintro _ (rfl | ⟨⟨err, rfl⟩, hh⟩)
    · rfl
    · rw [harmless_lookup hq] at hh
      show f (.error err) = f (tables.answer resolver q)
      cases ha : tables.answer resolver q with
      | error err' => rw [her, her]
      | ok r =>
        have hn := hok r
        rw [hh r ha, isSome_eq_false_iff, isNone_iff_eq_none] at hn
        rw [her, hn]

theorem readRows_exact (userId : String) (rows : List BindingRow) (g : Gathered) :
    (readRows userId rows g).Ends (tables.Harmlessly resolver)
      (· = tables.gathered resolver userId rows g) := by
  induction rows generalizing g with
  | nil => rfl
  | cons row rows ih =>
    rw [readRows, Prog.ends_bind, gathered_cons]
    refine (fetchBinding_exact userId row).mono ?_
    rintro _ rfl
    exact ih _

theorem of_reply_ok {failures : Nat → Option SqlxError} {n : Nat} {q : Query} {row : q.Row}
    (h : tables.reply resolver failures n q = .ok row) :
    failures n = none ∧ tables.answer resolver q = .ok row := by
  unfold reply at h
  split at h
  · cases h
  · exact ⟨‹_›, h⟩

theorem basicWorker_id {id : String} {basic : BasicWorker}
    (h : tables.answer resolver (.worker (.id id)) = .ok basic) : basic.id = id := by
  obtain ⟨row, -, hba⟩ := bind_eq_some_iff.1 (fetchOne_eq_ok.1 h)
  obtain ⟨deployment, -, rfl⟩ := map_eq_some_iff.1 hba
  rfl

theorem getWorkerMeta_exact (id : String) :
    (getWorkerMeta (.id id)).Ends (tables.Harmlessly resolver)
      fun r => ∀ m, r = some m → tables.Exact resolver id m := by
  intro ans ha
  cases ans with
  | error err => exact nofun
  | ok basic =>
    have hba : tables.answer resolver (.worker (.id id)) = .ok basic := by
      rcases ha with ha | ⟨⟨err, her⟩, -⟩
      · exact ha.symm
      · cases her
    have hid := basicWorker_id hba
    intro rows hro
    show (readRows basic.userId ((fetched rows).getD []) .empty >>= fun g =>
      pure (some (basic.toMeta g))).Ends _ _
    rw [Prog.ends_bind]
    refine (readRows_exact basic.userId _ _).mono ?_
    rintro _ rfl _ ⟨⟩
    refine ⟨hid, _, workerMeta_of_ok hba, ?_⟩
    rcases hro with rfl | ⟨⟨err, rfl⟩, hh⟩
    · exact ⟨rfl, rfl⟩
    · rw [hid] at hh
      obtain ⟨hen, hbi⟩ := hh _ (workerMeta_of_ok hba)
      exact ⟨hen.symm, hbi.symm⟩

/-- With failures a row gives its binding or none; if it gives as many as without, no failure
mattered. -/
theorem fetchBinding_failing (failures : Nat → Option SqlxError) (userId : String)
    (row : BindingRow) (n : Nat) :
    let found := (fetchBinding userId row).eval (tables.reply resolver failures) n
    found.toList.length ≤ (tables.binding resolver userId row).toList.length ∧
      (found.toList.length = (tables.binding resolver userId row).toList.length →
        ∀ x ∈ (fetchBinding userId row).asked (tables.reply resolver failures) n,
          (failures x.1).isSome = true → tables.Harmless resolver x.2) := by
  unfold binding
  rcases fetchBinding_cases userId row with ⟨b, hb⟩ | ⟨q, f, hb, hq, her, hok⟩
  · simp [hb]
  · simp only [hb, Prog.eval_ask, Prog.eval_done, Prog.asked_ask, Prog.asked_done,
      mem_singleton, forall_eq, harmless_lookup hq, reply]
    cases failures n with
    | none => simp
    | some err =>
      simp only [her, toList_none, length_nil, Nat.zero_le, true_and]
      intro hn _ r hr
      have hl : (f (.ok r)).toList.length = 0 := by rw [← hr]; exact hn.symm
      rw [← hok r]
      cases hf : f (.ok r) with
      | none => rfl
      | some b => simp [hf] at hl

theorem readRows_failing (failures : Nat → Option SqlxError) (userId : String)
    (rows : List BindingRow) (g : Gathered) (n : Nat) :
    let found := ((readRows userId rows g).eval (tables.reply resolver failures) n).bindings
    let all := g.bindings ++ rows.filterMap (tables.binding resolver userId)
    found.length ≤ all.length ∧ (found.length = all.length →
        ∀ x ∈ (readRows userId rows g).asked (tables.reply resolver failures) n,
          (failures x.1).isSome = true → tables.Harmless resolver x.2) := by
  induction rows generalizing g n with
  | nil => simp [readRows]
  | cons row rows ih =>
    obtain ⟨hle, heq⟩ : _ ∧ _ := @fetchBinding_failing resolver tables failures userId row n
    have ha : ((row :: rows).filterMap (tables.binding resolver userId)).length =
        (tables.binding resolver userId row).toList.length +
          (rows.filterMap (tables.binding resolver userId)).length := by
      cases h : tables.binding resolver userId row with
      | none => simp [h]
      | some b => simp [h, Nat.add_comm]
    simp only [readRows, Prog.eval_bind, Prog.asked_bind, length_append, ha]
    obtain ⟨ihle, iheq⟩ := ih
      (g.push row ((fetchBinding userId row).eval (tables.reply resolver failures) n))
      (n + ((fetchBinding userId row).asked (tables.reply resolver failures) n).length)
    simp only [length_append, Gathered.push_bindings] at ihle iheq
    refine ⟨by omega, fun hl x hx => ?_⟩
    rcases mem_append.1 hx with hx | hx
    · exact heq (by omega) x hx
    · exact iheq (by omega) x hx

end Tables

/-- **A read gives a worker its variables and bindings exactly if the queries that failed would have
found nothing.** -/
theorem read_exact_iff (resolver : Resolver) (tables : Tables) (failures : Nat → Option SqlxError)
    (id : String) :
    (∀ m, tables.read resolver failures (.id id) = some m → tables.Exact resolver id m) ↔
      ∀ x ∈ (getWorkerMeta (.id id)).asked (tables.reply resolver failures) 0,
        (failures x.1).isSome = true → tables.Harmless resolver x.2 := by
  constructor
  · intro h x hx hf
    unfold Tables.read at h
    simp only [getWorkerMeta, query, Prog.call_bind, Prog.asked_ask, Prog.eval_ask] at h hx
    rcases mem_cons.1 hx with rfl | hx
    · trivial
    cases hw : tables.reply resolver failures 0 (.worker (.id id)) with
    | error err => simp [hw] at hx
    | ok basic =>
      obtain ⟨-, hba⟩ := Tables.of_reply_ok hw
      have hid := Tables.basicWorker_id hba
      simp only [hw, Prog.asked_ask, Prog.eval_ask, Prog.asked_bind, Prog.eval_bind,
        Prog.pure_eq_done, Prog.eval_done, Prog.asked_done, append_nil, forall_eq',
        some.injEq] at h hx
      obtain ⟨-, e, he, hen, hbi⟩ := h
      rw [Tables.workerMeta_of_ok hba, some_inj] at he
      subst he
      simp only [BasicWorker.toMeta] at hen hbi
      cases hro : tables.reply resolver failures (0 + 1) (.bindings basic.id) with
      | error err =>
        -- no row was read, so there was none that gives anything
        rw [hro] at hen hbi hx
        rcases mem_cons.1 hx with rfl | hx
        · intro m hm
          rw [hid, Tables.workerMeta_of_ok hba, some_inj] at hm
          subst hm
          exact ⟨hen.symm, hbi.symm⟩
        · cases hx
      | ok rows =>
        -- the rows give as many bindings as they would without failures
        obtain ⟨hn, ha⟩ := Tables.of_reply_ok hro
        obtain rfl : tables.bindingRows basic.id = rows := Except.ok.inj ha
        rw [hro] at hbi hx
        rcases mem_cons.1 hx with rfl | hx
        · simp [hn] at hf
        · refine (Tables.readRows_failing failures basic.userId _ .empty _).2 ?_ x hx hf
          rw [Tables.gathered_bindings] at hbi
          exact congrArg length hbi
  · intro h
    refine (Tables.getWorkerMeta_exact id).eval fun x hx => ?_
    have hh := h x hx
    unfold Tables.reply
    cases hf : failures x.1 with
    | none => exact .inl rfl
    | some err => exact .inr ⟨⟨err, rfl⟩, hh (by rw [hf]; rfl)⟩

end OpenWorkersRunner.Store
