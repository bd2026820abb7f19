import OpenWorkersRunner.D1.Entries

/-!
# D1: the list of an object

A list of the storage of an object is one statement, put together from the bounds that are there,
and a limit on the bytes of what it finds.  `D1.Select` says what SQLite makes of the statement and
`D1.Entries` what the operation makes of the answer; this file puts the two together.
-/

namespace OpenWorkersRunner.D1.Sqlite

/-- **What a run of a list answers**, from any file of an object: what its statement selects. -/
theorem list_of_runs {ρ : Type} {e : Engine (Data ρ)} {readonly : String → Bool}
    {idle smooth : Bool} {d : Database} {start startAfter stop pre : Option String}
    {reverse : Bool} {lim : Option ℕ} {t : Tables} {l l' : Link (Data ρ)} {r : Done}
    (ho : l.working = none) (ht : l.committed.data.tables = some t)
    (h : (Link.storage e readonly idle smooth).Runs
      (d.run (.object (.list start startAfter stop pre reverse lim))) l r l') :
    let found := selected start startAfter stop pre reverse lim (t.entries.getD .empty)
    r = .object (.entries found) ∧ Link.entriesSize found ≤ d.resultBytes ∨
      r = .object (.error "the list is too large; list with a limit") ∧
        d.resultBytes < Link.entriesSize found ∨
      smooth = false ∧ ∃ msg, r = .object (.error msg) := by
  obtain ⟨res, l0, hob, hd⟩ := World.runs_bind.1 h
  obtain ⟨rfl, rfl⟩ := World.runs_done.1 hd
  obtain ⟨x, l1, rfl, rfl, hop⟩ := Link.runs_object hob
  have hl : Link.At false (Link.Alone (l.committed.withTables t)) { l with guest := false } :=
    ⟨rfl, (Content.withTables_self ht).symm, ho⟩
  obtain ⟨hsm, ⟨msg, rfl⟩, -⟩ | ⟨l2, hl2, hlist⟩ := Link.created_cases hl hop
  · exact .inr (.inr ⟨hsm, msg, rfl⟩)
  obtain ⟨-, ⟨rfl, hsi⟩ | ⟨rfl, hsi⟩ | ⟨hsm, msg, rfl⟩⟩ := Link.list_cases hl2 hlist
  · exact .inl ⟨rfl, hsi⟩
  · exact .inr (.inl ⟨rfl, hsi⟩)
  · exact .inr (.inr ⟨hsm, msg, rfl⟩)

/-- The operation answers as it should, on every table with fewer rows than a limit can say and in
every run.  `all` is what is in the range with the prefix, in order; the answer is that up to the
limit, or an error when it is too large, or the error of a statement that failed. -/
def ListExact (start startAfter stop keyPrefix : Option String) (reverse : Bool)
    (limit : Option ℕ) : Prop :=
  ∀ (ρ : Type) (e : Engine (Data ρ)) (readonly : String → Bool) (idle smooth : Bool)
    (d : Database) (t : Tables) (l l' : Link (Data ρ)) (r : Done), l.working = none →
    l.committed.data.tables = some t → (t.entries.getD .empty).rows.length < 2 ^ 63 →
    (Link.storage e readonly idle smooth).Runs
      (d.run (.object (.list start startAfter stop keyPrefix reverse limit))) l r l' →
    ∃ all : List Entry, (∀ key value, (key, value) ∈ all ↔
        t.storage.entries key = some value ∧ InRange start startAfter stop keyPrefix key) ∧
      (all.Pairwise fun a b => if reverse then utf8 b.1 < utf8 a.1 else utf8 a.1 < utf8 b.1) ∧
      let found := limit.elim all all.take
      (r = .object (.entries found) ∧ Link.entriesSize found ≤ d.resultBytes ∨
        r = .object (.error "the list is too large; list with a limit") ∧
          d.resultBytes < Link.entriesSize found ∨
        smooth = false ∧ ∃ message, r = .object (.error message))

section Exact

variable {start startAfter stop keyPrefix : Option String} {reverse : Bool} {limit : Option ℕ}

theorem listExact_of_selected (h : ∀ entries : Entries, entries.rows.length < 2 ^ 63 →
      selected start startAfter stop keyPrefix reverse limit entries =
        listed start startAfter stop keyPrefix reverse limit entries) :
    ListExact start startAfter stop keyPrefix reverse limit := by
  intro ρ e readonly idle smooth d t l l' r ho ht hro hru
  refine ⟨inOrder start startAfter stop keyPrefix reverse (t.entries.getD .empty),
    fun key value => mem_inOrder .., pairwise_inOrder .., ?_⟩
  have hcase := list_of_runs ho ht hru
  rw [h _ hro] at hcase
  exact hcase

/-- A run of a list in which nothing fails. -/
theorem runs_list {entries : Entries} {found : List Entry}
    (hf : selected start startAfter stop keyPrefix reverse limit entries = found)
    (hsi : ¬ openDatabase.resultBytes < Link.entriesSize found) :
    OpRuns true true openDatabase (.list start startAfter stop keyPrefix reverse limit)
      (objectFile ⟨some entries, some none⟩) none (.ok (.entries found))
      (objectFile ⟨some entries, some none⟩) none := by
  let statement := listStatement start startAfter stop keyPrefix reverse limit
  have hsql : statement.sql ≠ "" := by
    intro h
    have hre := read_listStatement start startAfter stop keyPrefix reverse limit
    have hem : Select.read "".toList = none := read_ofList (by decide)
    rw [h, hem] at hre
    cases hre
  have hru : (TableOp.list (listSelect start startAfter stop keyPrefix reverse limit)
      statement.params).run ⟨some entries, some none⟩ =
        some (⟨some entries, some none⟩, .entries found) := by
    rw [TableOp.run, Option.bind_some, eval_listSelect, hf]
    rfl
  have hk : (tableEngine (ρ := Unit)).kind statement.sql = .plain := Link.kind_listStatement ..
  have hrd : Shape.entries.Reads found (.entries found) := rfl
  have hch : refuse (openDatabase.resultBytes < Link.entriesSize found)
      "the list is too large; list with a limit" = .ok () :=
    if_neg fun h => hsi (of_decide_eq_true h)
  let l : Link (Data Unit) := ⟨false, objectFile ⟨some entries, some none⟩, none⟩
  have hp : (Link.storage tableEngine (fun _ => false) true true).Runs
      ((prepare statement.sql).adapt SqliteError.text).run l (.ok _) l :=
    .ask (Link.step_prepare rfl hsql) (.done _ _)
  have hse : (Link.storage tableEngine (fun _ => false) true true).Runs
      (executeText .entries statement).run l (.ok found) l :=
    .ask (Link.step_table rfl rfl hk (ledgerOp_listStatement ..) (tableOp_listStatement ..) rfl
      hru hrd) (.done _ _)
  refine Link.runs_created rfl rfl (World.runs_bind_except.2 (.inl ⟨_, l, hp, ?_⟩))
  refine World.runs_bind_except.2 (.inl ⟨found, l, hse, ?_⟩)
  exact World.runs_bind_except.2 (.inl ⟨(), l, World.runs_done.2 ⟨hch.symm, rfl⟩, .done _ _⟩)

/-- **When a list is exact**: exactly if the prefix has no U+0000, or there is nothing to list, as
the limit is 0 or no key is in the range with the prefix. -/
theorem object_list_exact :
    ListExact start startAfter stop keyPrefix reverse limit ↔
      (∀ value ∈ keyPrefix, nul ∉ value.toList) ∨ limit = some 0 ∨
        ∀ key, ¬ InRange start startAfter stop keyPrefix key := by
  by_cases hnul : ∀ value ∈ keyPrefix, nul ∉ value.toList
  · exact iff_of_true (listExact_of_selected fun _ hrows => selected_eq_listed reverse hnul hrows)
      (.inl hnul)
  push Not at hnul
  obtain ⟨value, hvalue, hnul⟩ := hnul
  constructor
  · intro h
    by_contra hnone
    push Not at hnone
    obtain ⟨-, hlimit, key, hkey⟩ := hnone
    -- a table with one entry, which is in the range
    let entries : Entries := Keyed.empty.insert (key, [1])
    have hempty : selected start startAfter stop keyPrefix reverse limit entries = [] :=
      selected_of_nul reverse hvalue hnul entries
    have hrun := Link.runs_of_objectOp (l := .fresh _) (runs_list hempty (by decide))
    obtain ⟨all, hall, -, hres⟩ := h Unit _ _ _ _ _ ⟨some entries, some none⟩ _ _ _ rfl rfl
      (show 1 < 2 ^ 63 by decide) hrun
    have hmem : (key, [1]) ∈ all := (hall key [1]).mpr ⟨Entries.get_eq_some_iff.mpr
      (List.mem_singleton.mpr rfl), hkey⟩
    obtain ⟨hfound, -⟩ | ⟨hlarge, -⟩ | ⟨hsmooth, -⟩ := hres
    · obtain rfl : all = [] := by
        cases limit with
        | none => simpa [Link.resultOf] using hfound
        | some n =>
          have hn : n ≠ 0 := fun h => hlimit (congrArg some h)
          simpa [Link.resultOf, hn] using hfound
      cases hmem
    · cases hlarge
    · cases hsmooth
  · rintro (hgood | hlimit | hkey)
    · exact absurd hnul (hgood value hvalue)
    · refine listExact_of_selected fun entries _ => ?_
      rw [selected_of_nul reverse hvalue hnul, listed, hlimit]
      rfl
    · refine listExact_of_selected fun entries _ => ?_
      have hin : inOrder start startAfter stop keyPrefix reverse entries = [] := by
        simp [inOrder, hkey]
      rw [selected_of_nul reverse hvalue hnul, listed, hin]
      cases limit <;> simp

end Exact

def nulKey : String := String.ofList ['a', nul, 'b']

def nulPrefix : String := String.ofList ['a', nul]

theorem object_list_misses :
    ¬ ∀ (e : Engine (Data Unit)) (readonly : String → Bool) (idle smooth : Bool) (d : Database)
      (start startAfter stop keyPrefix : Option String) (reverse : Bool) (limit : Option ℕ)
      (t : Tables) (l l' : Link (Data Unit)) (found : List Entry), l.working = none →
      l.committed.data.tables = some t → (t.entries.getD .empty).rows.length < 2 ^ 63 →
      (Link.storage e readonly idle smooth).Runs
        (d.run (.object (.list start startAfter stop keyPrefix reverse limit))) l
        (.object (.entries found)) l' → limit = none →
      ∀ key value, t.storage.entries key = some value →
        InRange start startAfter stop keyPrefix key → (key, value) ∈ found := by
  intro h
  have hfound : selected none none none (some nulPrefix) false none
      (Keyed.empty.insert (nulKey, [1])) = [] := by decide
  have hrun := Link.runs_of_objectOp (l := .fresh _) (runs_list hfound (by decide))
  have hmem := h _ _ _ _ _ _ _ _ _ _ _ _ _ _ _ rfl rfl (by decide) hrun rfl nulKey [1]
    (by decide) (by decide)
  cases hmem

end OpenWorkersRunner.D1.Sqlite
