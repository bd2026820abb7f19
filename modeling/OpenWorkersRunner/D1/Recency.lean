import OpenWorkersRunner.D1.ArchiveRows

/-!
# The latest snapshot

A snapshot is numbered by the clock of the runner that saves it, and the latest one is the one with
the largest number.  So `fetch_latest` gives the snapshot that was saved last as long as each save
reads a clock that is past the numbers in the index (`latest_is_last_saved`); a clock that was set
back makes a save that returned `Ok` invisible, and `drop_old` may even remove it
(`save_is_not_latest`).
-/

namespace OpenWorkersRunner.Archive

open List Parties

variable {config : Config} {db : String}

/-! ## Saves in sequence -/

namespace Call

def databaseId : Call → String
  | .save u _ => u.databaseId
  | .forgetAll databaseId _ => databaseId

def recorded : Call → Bool
  | .save _ .list | .save _ (.removing _) | .save _ (.returned (.ok _)) => true
  | _ => false

end Call

def Access.lost : Access → Bool
  | .put (.lost _) | .record (.lost _) | .forget (.lost _) | .delete (.lost _) => true
  | _ => false

def State.IsLast (s : State) (db : String) (i : Nat) : Prop :=
  ∀ (j : Nat) (call : Call), s.calls[j]? = some call → call.databaseId = db → j ≤ i

/-- The calls on the database are saves, one after the other, and a step that fails has no
effect.  A save that makes no step any more, because its runner was stopped, may be followed by
others. -/
def InSequence (db : String) (s : State) : Act → Prop
  | .forgetAll databaseId => databaseId ≠ db
  | .access i a => ∀ call, s.calls[i]? = some call → call.databaseId = db →
    s.IsLast db i ∧ a.lost = false
  | _ => True

def ClockAhead (db : String) (s : State) : Act → Prop
  | .save u => u.databaseId = db → ∀ row ∈ s.rowsOf db, row.seq < u.seq
  | _ => True

variable {u : Upload} {r : Remote} {s : State}

theorem Call.databaseId_eq {call : Call} (h : call.upload = some u) :
    call.databaseId = u.databaseId := by
  cases call with
  | save => cases h; rfl
  | forgetAll => cases h

theorem Call.early_of_recorded {call : Call} (h : call.recorded = true) : call.early = false := by
  unfold Call.recorded at h
  split at h
  · rfl
  · rfl
  · rfl
  · cases h

theorem recorded_ofLoop (u : Upload) (snap : Snapshot) (next : Option Removal) :
    (Call.save u (.ofLoop snap next)).recorded = true := by cases next <;> rfl

theorem recorded_afterLoop (u : Upload) (snap : Snapshot) (next : Except String (Option Removal)) :
    (Call.save u (.afterLoop snap next)).recorded = true := by
  cases next with
  | ok next => exact recorded_ofLoop u snap next
  | error e => rfl

/-! ## The newest snapshot -/

def Snapshot.IsNamed (x : Snapshot) : Prop := x.key = objectName x.databaseId x.epoch x.seq

theorem Upload.isNamed_snapshot (u : Upload) : (u.snapshot config).IsNamed := rfl

theorem Snapshot.IsNamed.key_ne {x : Snapshot} (hx : x.IsNamed)
    (h : x.databaseId ≠ u.databaseId ∨ x.seq ≠ u.seq) : x.key ≠ u.key := by
  intro hk
  obtain ⟨hdb, -, hse⟩ := objectName_inj (hx.symm.trans hk)
  exact h.elim (absurd hdb) (absurd hse)

def Newest (config : Config) (r : Remote) (u : Upload) : Prop :=
  (∃ older, (r.rowsOf u.databaseId).Perm (u.snapshot config :: older) ∧
    ∀ row ∈ older, row.seq < u.seq) ∧
  r.store u.key = some u.bytes

theorem Newest.listing {listing : List Snapshot} (h : Newest config r u)
    (hl : r.IsListing u.databaseId listing) :
    ∃ rest, listing = u.snapshot config :: rest ∧ ∀ row ∈ rest, row.seq < u.seq := by
  obtain ⟨⟨older, hp, holder⟩, -⟩ := h
  have hp' := hl.perm.trans hp
  cases listing with
  | nil => simpa using hp'.length_eq
  | cons first rest =>
    have hf : first = u.snapshot config := by
      by_contra hne
      have hlt := holder first (mem_of_ne_of_mem hne (hp'.subset mem_cons_self))
      have hm : u.snapshot config ∈ rest :=
        mem_of_ne_of_mem (Ne.symm hne) (hp'.symm.subset mem_cons_self)
      have hle : u.seq ≤ first.seq := rel_of_pairwise_cons hl.sorted hm
      omega
    subst hf
    exact ⟨rest, rfl, fun row hro => holder row ((perm_cons _).mp hp' |>.subset hro)⟩

theorem Newest.fetchLatest {listing : List Snapshot} (h : Newest config r u)
    (hl : r.IsListing u.databaseId listing) :
    r.fetchLatest config listing = .ok (some u.bytes) := by
  obtain ⟨rest, rfl, -⟩ := h.listing hl
  have hst : r.store (u.snapshot config).key = some u.bytes := h.2
  simp only [Remote.fetchLatest, hst]
  exact if_pos rfl

/-! ## What an access does to a database -/

structure SameFor (db : String) (r r' : Remote) : Prop where
  rows : r'.rowsOf db = r.rowsOf db
  store : ∀ u : Upload, u.databaseId = db → r'.store u.key = r.store u.key

theorem SameFor.newest {r' : Remote} (h : SameFor db r r') (hdb : u.databaseId = db)
    (hn : Newest config r u) : Newest config r' u := by
  obtain ⟨⟨older, hp, holder⟩, hst⟩ := hn
  refine ⟨⟨older, ?_, holder⟩, (h.store u hdb).trans hst⟩
  rwa [hdb, h.rows, ← hdb]

theorem SameFor.rfl : SameFor db r r := ⟨Eq.refl _, fun _ _ => Eq.refl _⟩

theorem SameFor.put (h : u.databaseId ≠ db) (bs : Bytes) : SameFor db r (r.put u.key bs) := by
  refine ⟨Eq.refl _, fun u' hu' => r.store_put_of_ne ?_ bs⟩
  exact fun hk => h ((objectName_inj hk).1.symm.trans hu')

theorem SameFor.record (h : u.databaseId ≠ db) :
    SameFor db r { r with rows := r.rows ++ [u.snapshot config] } := by
  refine ⟨?_, fun _ _ => Eq.refl _⟩
  simp [Remote.rowsOf, Upload.snapshot, h]

theorem SameFor.forget {old : Snapshot} (h : old.databaseId ≠ db) (seq : Int) :
    SameFor db r (r.forget old.databaseId seq) := by
  refine ⟨?_, fun _ _ => Eq.refl _⟩
  rw [Remote.rowsOf, Remote.forget, filter_filter, Remote.rowsOf]
  refine filter_congr fun row _ => ?_
  by_cases hro : row.databaseId = db
  · simp [hro, Ne.symm h]
  · simp [hro]

theorem SameFor.delete {old : Snapshot} (hold : old.IsNamed) (h : old.databaseId ≠ db) :
    SameFor db r (r.delete old.key) :=
  ⟨Eq.refl _, fun _ hu => r.store_delete_of_ne (hold.key_ne (.inl (hu ▸ h))).symm⟩

namespace Removal.Step

variable {r r' : Remote} {loop : Removal} {a : Access} {next : Except String (Option Removal)}

theorem subset (h : loop.Step r a next r') {loop' : Removal}
    (hn : Removal.after next = some loop') :
    ∀ x ∈ loop'.snapshots, x ∈ loop.snapshots := by
  cases h with
  | forgot => cases hn; exact fun x hx => hx
  | deleted =>
    intro x hx
    rw [Removal.snapshots_start hn] at hx
    exact mem_cons_of_mem _ hx
  | forgetLost | deleteLost | failed => cases hn

theorem rows_subset (h : loop.Step r a next r') : ∀ row ∈ r'.rows, row ∈ r.rows := by
  cases h with
  | forgot | forgetLost => exact fun row hro => ((Remote.mem_rows_forget _).mp hro).1
  | deleted | deleteLost | failed => exact fun row hro => hro

theorem sameFor (h : loop.Step r a next r')
    (hl : ∀ old ∈ loop.snapshots, old.IsNamed ∧ old.databaseId ≠ db) :
    SameFor db r r' := by
  cases h with
  | forgot | forgetLost => exact .forget (hl _ mem_cons_self).2 _
  | deleted | deleteLost =>
    exact .delete (hl _ mem_cons_self).1 (hl _ mem_cons_self).2
  | failed => exact .rfl

theorem newest {u : Upload} (h : loop.Step r a next r')
    (hl : ∀ old ∈ loop.snapshots, old.IsNamed ∧ old.seq < u.seq)
    (hn : Newest config r u) : Newest config r' u := by
  obtain ⟨⟨older, hp, holder⟩, hst⟩ := hn
  have hf : ∀ old ∈ loop.snapshots, Newest config (r.forget old.databaseId old.seq) u := by
    intro old hold
    refine ⟨⟨older.filter fun row => ¬ (row.databaseId = old.databaseId ∧ row.seq = old.seq),
      ?_, fun row hro => holder row (mem_of_mem_filter hro)⟩, hst⟩
    have hse : ¬ ((u.snapshot config).databaseId = old.databaseId ∧
        (u.snapshot config).seq = old.seq) := fun h => Int.ne_of_lt (hl old hold).2 h.2.symm
    have := hp.filter fun row => ¬ (row.databaseId = old.databaseId ∧ row.seq = old.seq)
    rw [filter_cons, if_pos (decide_eq_true hse)] at this
    rw [Remote.rowsOf, Remote.forget, filter_filter]
    rw [Remote.rowsOf, filter_filter] at this
    simpa only [Bool.and_comm] using this
  have hd : ∀ old ∈ loop.snapshots, Newest config (r.delete old.key) u := by
    intro old hold
    refine ⟨⟨older, hp, holder⟩, ?_⟩
    have hk := (hl old hold).1.key_ne (.inr (Int.ne_of_lt (hl old hold).2))
    rw [Remote.store_delete_of_ne _ hk.symm]
    exact hst
  cases h with
  | forgot | forgetLost => exact hf _ mem_cons_self
  | deleted | deleteLost => exact hd _ mem_cons_self
  | failed => exact ⟨⟨older, hp, holder⟩, hst⟩

end Removal.Step

/-! ## The invariant -/

structure Recent (config : Config) (db : String) (s : State) : Prop where
  named : ∀ row ∈ s.rows, row.IsNamed
  loops : ∀ call ∈ s.calls, ∀ loop, call.loop = some loop →
    ∀ old ∈ loop.snapshots, old.IsNamed ∧ old.databaseId = call.databaseId
  saves : ∀ call ∈ s.calls, call.databaseId = db → call.upload.isSome = true
  ahead : ∀ (i : Nat) (u : Upload) (stage : SaveStage), s.calls[i]? = some (.save u stage) →
    u.databaseId = db → s.IsLast db i → stage.early = true → ∀ row ∈ s.rowsOf db, row.seq < u.seq
  stored : ∀ (i : Nat) (u : Upload) (stage : SaveStage), s.calls[i]? = some (.save u stage) →
    u.databaseId = db → s.IsLast db i → (Call.save u stage).stored = true →
    s.store u.key = some u.bytes
  older : ∀ (i : Nat) (u : Upload) (stage : SaveStage), s.calls[i]? = some (.save u stage) →
    u.databaseId = db → s.IsLast db i → ∀ loop, (Call.save u stage).loop = some loop →
    ∀ old ∈ loop.snapshots, old.seq < u.seq
  newest : ∀ (i : Nat) (call : Call) (u : Upload), s.calls[i]? = some call →
    call.upload = some u → u.databaseId = db → call.recorded = true →
    (∀ (j : Nat) (b : Call), s.calls[j]? = some b → b.databaseId = db → b.recorded = true →
      j ≤ i) → Newest config s.toRemote u
  empty : (∀ call ∈ s.calls, call.databaseId = db → call.recorded = false) → s.rowsOf db = []

namespace Recent

variable {s : State}

variable {i : Nat} {r : Remote} {stage stage' : SaveStage} {u : Upload}

theorem move_other {call call' : Call} (hs : Recent config db s) (hi : s.calls[i]? = some call)
    (hdb : call.databaseId ≠ db) (hdb' : call'.databaseId = call.databaseId)
    (hsa : SameFor db s.toRemote r) (hn : ∀ row ∈ r.rows, row.IsNamed)
    (hlo : ∀ loop, call'.loop = some loop → ∀ old ∈ loop.snapshots,
      old.IsNamed ∧ old.databaseId = call.databaseId) :
    Recent config db { toRemote := r, calls := s.calls.set i call' } := by
  have hne : call'.databaseId ≠ db := hdb' ▸ hdb
  -- a call on the database is one of those before
  have hba : ∀ (j : Nat) (b : Call), (s.calls.set i call')[j]? = some b → b.databaseId = db →
      s.calls[j]? = some b := by
    intro j b hj hb
    rcases getElem?_set_eq_some hj with ⟨-, rfl⟩ | ⟨-, hj⟩
    · exact absurd hb hne
    · exact hj
  have hm : ∀ b ∈ s.calls.set i call', b.databaseId = db → b ∈ s.calls := by
    intro b hb hbd
    obtain ⟨j, hj⟩ := mem_iff_getElem?.mp hb
    exact mem_of_getElem? (hba j b hj hbd)
  have hf : ∀ (j : Nat) (b : Call), s.calls[j]? = some b → b.databaseId = db →
      (s.calls.set i call')[j]? = some b := by
    intro j b hj hb
    have hij : j ≠ i := by
      rintro rfl
      exact hdb (Option.mem_unique hi hj ▸ hb)
    rw [getElem?_set_ne (Ne.symm hij), hj]
  have hlast : ∀ {j : Nat}, State.IsLast ⟨r, s.calls.set i call'⟩ db j → s.IsLast db j :=
    fun hla k b hk hb => hla k b (hf k b hk hb) hb
  constructor
  · exact hn
  · intro b hb loop hl
    rcases eq_or_exists_of_mem_set hb with rfl | ⟨j, -, hj⟩
    · rw [hdb']
      exact hlo loop hl
    · exact hs.loops b (mem_of_getElem? hj) loop hl
  · exact fun b hb hbd => hs.saves b (hm b hb hbd) hbd
  · intro j u stage hj hud hla
    rw [hsa.rows]
    exact hs.ahead j u stage (hba j _ hj hud) hud (hlast hla)
  · intro j u stage hj hud hla
    rw [hsa.store u hud]
    exact hs.stored j u stage (hba j _ hj hud) hud (hlast hla)
  · exact fun j u stage hj hud hla =>
      hs.older j u stage (hba j _ hj hud) hud (hlast hla)
  · intro j b u hj hu hud hre hla
    refine hsa.newest hud (hs.newest j b u (hba j b hj (Call.databaseId_eq hu ▸ hud)) hu hud
      hre fun k c hk hc => hla k c (hf k c hk hc) hc)
  · intro h
    rw [hsa.rows]
    refine hs.empty fun b hb hbd => h b ?_ hbd
    obtain ⟨j, hj⟩ := mem_iff_getElem?.mp hb
    exact mem_of_getElem? (hf j b hj hbd)

section Own

variable (hs : Recent config db s) (hi : s.calls[i]? = some (.save u stage))
  (hdb : u.databaseId = db) (hlastO : s.IsLast db i)

include hs hi hdb hlastO

theorem move_own (hre : (Call.save u stage).recorded = true → (Call.save u stage').recorded = true)
    (hna : ∀ row ∈ r.rows, row.IsNamed)
    (hea : stage'.early = true → stage.early = true ∧ r.rowsOf db = s.rowsOf db)
    (hst : (Call.save u stage').stored = true → r.store u.key = some u.bytes)
    (hlo : ∀ loop, (Call.save u stage').loop = some loop → ∀ old ∈ loop.snapshots,
      old.IsNamed ∧ old.databaseId = db ∧ old.seq < u.seq)
    (hnew : (Call.save u stage').recorded = true → Newest config r u)
    (hke : (Call.save u stage').recorded = false → r.rowsOf db = s.rowsOf db ∧
      ∀ u', u'.databaseId = db → Newest config s.toRemote u' → Newest config r u') :
    Recent config db { toRemote := r, calls := s.calls.set i (.save u stage') } := by
  have hse : (s.calls.set i (.save u stage'))[i]? = some (.save u stage') :=
    getElem?_set_of_some hi
  have hf : ∀ (j : Nat) (b : Call), j ≠ i → s.calls[j]? = some b →
      (s.calls.set i (.save u stage'))[j]? = some b := by
    intro j b hij hj
    rw [getElem?_set_ne (Ne.symm hij), hj]
  -- the call that moved stays the last one
  have ho : ∀ (j : Nat) (u' : Upload) (stage'' : SaveStage),
      (s.calls.set i (.save u stage'))[j]? = some (.save u' stage'') → u'.databaseId = db →
      State.IsLast ⟨r, s.calls.set i (.save u stage')⟩ db j → u' = u ∧ stage'' = stage' := by
    intro j u' stage'' hj hud hla
    rcases getElem?_set_eq_some hj with ⟨-, heq⟩ | ⟨hij, hj⟩
    · cases heq
      exact ⟨rfl, rfl⟩
    · exact absurd (Nat.le_antisymm (hlastO j _ hj hud) (hla i _ hse hdb)) hij
  have hbef : (Call.save u stage').recorded = false → (Call.save u stage).recorded = false := by
    intro h
    by_contra h'
    rw [hre (by simpa using h')] at h
    cases h
  constructor
  · exact hna
  · intro b hb loop hl
    rcases eq_or_exists_of_mem_set hb with rfl | ⟨j, -, hj⟩
    · exact fun old hold => ⟨(hlo loop hl old hold).1, (hlo loop hl old hold).2.1.trans hdb.symm⟩
    · exact hs.loops b (mem_of_getElem? hj) loop hl
  · intro b hb hbd
    rcases eq_or_exists_of_mem_set hb with rfl | ⟨j, -, hj⟩
    · rfl
    · exact hs.saves b (mem_of_getElem? hj) hbd
  · intro j u' stage'' hj hud hla hbe
    obtain ⟨rfl, rfl⟩ := ho j u' stage'' hj hud hla
    obtain ⟨hea', hro⟩ := hea hbe
    show ∀ row ∈ r.rowsOf db, row.seq < u'.seq
    rw [hro]
    exact hs.ahead i u' stage hi hud hlastO hea'
  · intro j u' stage'' hj hud hla hbs
    obtain ⟨rfl, rfl⟩ := ho j u' stage'' hj hud hla
    exact hst hbs
  · intro j u' stage'' hj hud hla loop hl old hold
    obtain ⟨rfl, rfl⟩ := ho j u' stage'' hj hud hla
    exact (hlo loop hl old hold).2.2
  · intro j b u' hj hu' hud hbr hla
    rcases getElem?_set_eq_some hj with ⟨rfl, rfl⟩ | ⟨hij, hj⟩
    · cases hu'
      exact hnew hbr
    · have hbd : b.databaseId = db := Call.databaseId_eq hu' ▸ hud
      -- `j` is the last one that is recorded, so the call that moved is not
      have hn : (Call.save u stage').recorded = false := by
        by_contra h
        have h1 := hla i _ hse hdb (by simpa using h)
        have h2 := hlastO j b hj hbd
        omega
      refine (hke hn).2 u' hud (hs.newest j b u' hj hu' hud hbr fun k c hk hc hcr => ?_)
      by_cases hki : k = i
      · subst hki
        rw [Option.mem_unique hk hi, hbef hn] at hcr
        cases hcr
      · exact hla k c (hf k c hki hk) hc hcr
  · intro h
    have hn := h _ (mem_of_getElem? hse) hdb
    refine (hke hn).1.trans (hs.empty fun b hb hbd => ?_)
    obtain ⟨j, hj⟩ := mem_iff_getElem?.mp hb
    by_cases hij : j = i
    · subst hij
      rw [Option.mem_unique hj hi]
      exact hbef hn
    · exact h b (mem_of_getElem? (hf j b hij hj)) hbd

theorem move_recorded (hre : (Call.save u stage').recorded = true)
    (hn : ∀ row ∈ r.rows, row.IsNamed)
    (hlo : ∀ loop, (Call.save u stage').loop = some loop → ∀ old ∈ loop.snapshots,
      old.IsNamed ∧ old.databaseId = db ∧ old.seq < u.seq) (hnew : Newest config r u) :
    Recent config db { toRemote := r, calls := s.calls.set i (.save u stage') } := by
  have hl : stage'.early = false := Call.early_of_recorded hre
  refine hs.move_own hi hdb hlastO (fun _ => hre) hn ?_ ?_ hlo (fun _ => hnew) ?_
  · intro h
    rw [hl] at h
    cases h
  · intro h
    have := Call.early_of_stored h
    rw [Call.early, hl] at this
    cases this
  · intro h
    rw [hre] at h
    cases h

theorem newest_own (hre : (Call.save u stage).recorded = true) : Newest config s.toRemote u :=
  hs.newest i _ u hi rfl hdb hre fun j b hj hb _ => hlastO j b hj hb

end Own

theorem concat {call : Call} (hs : Recent config db s) (hlo : call.loop = none)
    (hst : call.stored = false) (hre : call.recorded = false)
    (hsa : call.databaseId = db → call.upload.isSome = true)
    (ha : ∀ u, call.upload = some u → u.databaseId = db → ∀ row ∈ s.rowsOf db, row.seq < u.seq) :
    Recent config db { s with calls := s.calls ++ [call] } := by
  have hf : ∀ (j : Nat) (b : Call), s.calls[j]? = some b → (s.calls ++ [call])[j]? = some b :=
    fun j b hj => getElem?_concat_of_some hj
  have hm : ∀ b ∈ s.calls ++ [call], b ∈ s.calls ∨ b = call := by simp
  have hlast : ∀ {j : Nat}, State.IsLast ⟨s.toRemote, s.calls ++ [call]⟩ db j → s.IsLast db j :=
    fun hla k b hk hb => hla k b (hf k b hk) hb
  constructor
  · exact hs.named
  · intro b hb loop hl
    rcases hm b hb with hb | rfl
    · exact hs.loops b hb loop hl
    · rw [hlo] at hl
      cases hl
  · intro b hb
    rcases hm b hb with hb | rfl
    · exact hs.saves b hb
    · exact hsa
  · intro j u stage hj hud hla hea
    rcases getElem?_concat_eq_some hj with hj' | ⟨-, rfl⟩
    · exact hs.ahead j u stage hj' hud (hlast hla) hea
    · exact ha u rfl hud
  · intro j u stage hj hud hla h
    rcases getElem?_concat_eq_some hj with hj' | ⟨-, rfl⟩
    · exact hs.stored j u stage hj' hud (hlast hla) h
    · rw [hst] at h
      cases h
  · intro j u stage hj hud hla loop hl
    rcases getElem?_concat_eq_some hj with hj' | ⟨-, rfl⟩
    · exact hs.older j u stage hj' hud (hlast hla) loop hl
    · rw [hlo] at hl
      cases hl
  · intro i b u hi hu hud hb hla
    rcases getElem?_concat_eq_some hi with hi' | ⟨-, rfl⟩
    · exact hs.newest i b u hi' hu hud hb fun j c hj => hla j c (hf j c hj)
    · rw [hre] at hb
      cases hb
  · exact fun h => hs.empty fun b hb => h b (mem_append_left _ hb)

theorem isNamed_concat (hs : Recent config db s) (u : Upload) :
    ∀ row ∈ s.rows ++ [u.snapshot config], row.IsNamed := by
  intro row hro
  rcases mem_append.mp hro with hro | hro
  · exact hs.named row hro
  · exact mem_singleton.mp hro ▸ u.isNamed_snapshot

/-- A step of the loop of a call on another database. -/
theorem loop_other {call call' : Call} {loop : Removal} {a : Access}
    {next : Except String (Option Removal)} (hs : Recent config db s)
    (hi : s.calls[i]? = some call) (hdb : call.databaseId ≠ db)
    (hdb' : call'.databaseId = call.databaseId) (hca : call.loop = some loop)
    (hn : call'.loop = Removal.after next) (h : loop.Step s.toRemote a next r) :
    Recent config db { toRemote := r, calls := s.calls.set i call' } := by
  have hlo := hs.loops _ (mem_of_getElem? hi) loop hca
  refine hs.move_other hi hdb hdb' ?_ (fun row hro => hs.named row (h.rows_subset row hro)) ?_
  · exact h.sameFor fun old hold => ⟨(hlo old hold).1, (hlo old hold).2.symm ▸ hdb⟩
  · intro loop' hl old hold
    exact hlo old (h.subset (hn ▸ hl) old hold)

theorem step_other {a : Access} (hs : Recent config db s) (hi : s.calls[i]? = some (.save u stage))
    (hdb : u.databaseId ≠ db) (h : u.Step config s.toRemote stage a stage' r) :
    Recent config db { toRemote := r, calls := s.calls.set i (.save u stage') } := by
  cases h with
  | put | putLost => exact hs.move_other hi hdb rfl (.put hdb _) hs.named nofun
  | measured | failed | notListed => exact hs.move_other hi hdb rfl .rfl hs.named nofun
  | recorded | recordLost =>
    exact hs.move_other hi hdb rfl (.record hdb) (hs.isNamed_concat u) nofun
  | @listed listing hls =>
    refine hs.move_other hi hdb rfl .rfl hs.named fun loop hl old hold => ?_
    rw [loop_save_ofLoop] at hl
    rw [Removal.snapshots_start hl] at hold
    have hro := mem_filter.mp (hls.perm.subset (mem_of_mem_drop hold))
    exact ⟨hs.named old hro.1, of_decide_eq_true hro.2⟩
  | loop h => exact hs.loop_other hi hdb rfl rfl (loop_save_afterLoop ..) h

theorem step_own {a : Access} (hk : 0 < config.keep) (hs : Recent config db s)
    (hi : s.calls[i]? = some (.save u stage)) (hdb : u.databaseId = db) (hla : s.IsLast db i)
    (hlost : a.lost = false) (h : u.Step config s.toRemote stage a stage' r) :
    Recent config db { toRemote := r, calls := s.calls.set i (.save u stage') } := by
  have hm := mem_of_getElem? hi
  cases h with
  | putLost | recordLost => cases hlost
  | put =>
    refine hs.move_own hi hdb hla nofun hs.named (fun _ => ⟨rfl, rfl⟩) (by simp) nofun nofun ?_
    refine fun _ => ⟨rfl, fun u' hu' ⟨⟨older, hp, holder⟩, hst⟩ => ⟨⟨older, hp, holder⟩, ?_⟩⟩
    -- the number of the save is past that of the newest snapshot
    have hrow : u'.snapshot config ∈ s.rowsOf db := hu' ▸ hp.symm.subset mem_cons_self
    have hlt : u'.seq < u.seq := hs.ahead i u _ hi hdb hla rfl _ hrow
    have hke : u'.key ≠ u.key := fun hke => Int.ne_of_lt hlt (objectName_inj hke).2.2
    rw [Remote.store_put_of_ne _ hke]
    exact hst
  | measured =>
    exact hs.move_own hi hdb hla nofun hs.named (fun _ => ⟨rfl, rfl⟩)
      (fun _ => hs.stored i u _ hi hdb hla rfl) nofun nofun fun _ => ⟨rfl, fun _ _ h => h⟩
  | @failed stage hea =>
    refine hs.move_own hi hdb hla (fun h => ?_) hs.named nofun nofun
      nofun nofun fun _ => ⟨rfl, fun _ _ h => h⟩
    have hlatest : stage.early = false := Call.early_of_recorded h
    rw [hea] at hlatest
    cases hlatest
  | recorded =>
    refine hs.move_recorded hi hdb hla rfl (hs.isNamed_concat u) nofun
      ⟨⟨s.rowsOf db, ?_, ?_⟩, ?_⟩
    · have hro : { s.toRemote with rows := s.rows ++ [u.snapshot config] }.rowsOf u.databaseId =
          s.rowsOf db ++ [u.snapshot config] := by
        simp [Remote.rowsOf, Upload.snapshot, hdb]
      rw [hro]
      exact perm_append_comm
    · exact hs.ahead i u _ hi hdb hla rfl
    · exact hs.stored i u _ hi hdb hla rfl
  | @listed listing hls =>
    have hnew := hs.newest_own hi hdb hla rfl
    obtain ⟨rest, rfl, hre⟩ := hnew.listing hls
    refine hs.move_recorded hi hdb hla (recorded_ofLoop ..) hs.named (fun loop hl old hold => ?_)
      hnew
    rw [loop_save_ofLoop] at hl
    rw [Removal.snapshots_start hl] at hold
    -- at least one is kept, and the first is the newest
    have hm' : old ∈ rest := by
      obtain ⟨n, hn⟩ : ∃ n, config.keep = n + 1 := ⟨config.keep - 1, by omega⟩
      rw [hn, drop_succ_cons] at hold
      exact mem_of_mem_drop hold
    have hrow := mem_filter.mp (hls.perm.subset (mem_cons_of_mem _ hm'))
    exact ⟨hs.named old hrow.1, (of_decide_eq_true hrow.2).trans hdb, hre old hm'⟩
  | notListed =>
    exact hs.move_recorded hi hdb hla rfl hs.named nofun (hs.newest_own hi hdb hla rfl)
  | @loop loop a next r h =>
    have hlo := hs.loops _ hm loop rfl
    have holder := hs.older i u _ hi hdb hla loop rfl
    refine hs.move_recorded hi hdb hla (recorded_afterLoop ..)
      (fun row hrow => hs.named row (h.rows_subset row hrow)) (fun loop' hl old hold => ?_)
      (h.newest (fun old hold => ⟨(hlo old hold).1, holder old hold⟩)
        (hs.newest_own hi hdb hla rfl))
    rw [loop_save_afterLoop] at hl
    have hold' := h.subset hl old hold
    exact ⟨(hlo old hold').1, (hlo old hold').2.trans hdb, holder old hold'⟩

theorem step {t : State} {a : Act} (hk : 0 < config.keep) (hs : Recent config db s)
    (hse : InSequence db s a) (hcl : ClockAhead db s a) (h : State.Step config s a t) :
    Recent config db t := by
  cases h with
  | start =>
    exact ⟨hs.named, hs.loops, hs.saves, hs.ahead, hs.stored, hs.older, hs.newest, hs.empty⟩
  | @save u =>
    refine hs.concat rfl rfl rfl (fun _ => rfl) fun u' hu' => ?_
    obtain rfl := Option.some.inj hu'
    exact hcl
  | forgetAll databaseId =>
    exact hs.concat rfl rfl rfl (absurd · hse) nofun
  | @ofSave i a u stage stage' r hi h =>
    by_cases hdb : u.databaseId = db
    · obtain ⟨hla, hlo⟩ := hse _ hi hdb
      exact hs.step_own hk hi hdb hla hlo h
    · exact hs.step_other hi hdb h
  | @ofForget i a databaseId stage stage' r hi h =>
    have hm := mem_of_getElem? hi
    have hdb : databaseId ≠ db := fun hdb => by cases hs.saves _ hm hdb
    cases h with
    | @listed listing hls =>
      refine hs.move_other hi hdb rfl .rfl hs.named fun loop hl old hold => ?_
      rw [loop_forgetAll_ofLoop] at hl
      rw [Removal.snapshots_start hl] at hold
      have hro := mem_filter.mp (hls.perm.subset hold)
      exact ⟨hs.named old hro.1, of_decide_eq_true hro.2⟩
    | notListed => exact hs.move_other hi hdb rfl .rfl hs.named nofun
    | loop h => exact hs.loop_other hi hdb rfl rfl (loop_forgetAll_afterLoop ..) h

end Recent

theorem recent_of_reach (hk : 0 < config.keep)
    (hs : (machine config).Reach (fun s a => InSequence db s a ∧ ClockAhead db s a) s) :
    Recent config db s := by
  refine hs.invariant ?_ fun _ _ _ _ hs hok h => hs.step hk hok.1 hok.2 (State.step_eq h)
  constructor <;> simp [machine, State.empty, Remote.rowsOf]

/-! ## What `fetch_latest` gives -/

/-- `fetch_latest` gives what the last save that returned `Ok` saved: what the save `i` saved, if
no later one has added its row without an error; or nothing, if there is no such save. -/
def LatestIsLastSaved (config : Config) (db : String) (s : State) : Prop :=
  ∀ listing, s.IsListing db listing → (∀ (i : Nat) (u : Upload) (x : Snapshot),
      s.calls[i]? = some (.save u (.returned (.ok x))) → u.databaseId = db →
      (∀ (j : Nat) (call : Call), s.calls[j]? = some call → call.databaseId = db →
        call.recorded = true → j ≤ i) →
      s.fetchLatest config listing = .ok (some u.bytes)) ∧
    ((∀ call ∈ s.calls, call.databaseId = db → call.recorded = false) →
      s.fetchLatest config listing = .ok none)

/-- **The latest snapshot is the one saved last, where each save reads a clock that is past the
rows of its database.** -/
theorem latest_is_last_saved {s : State} (hkeep : 0 < config.keep)
    (hs : (machine config).Reach (fun s a => InSequence db s a ∧ ClockAhead db s a) s) :
    LatestIsLastSaved config db s := by
  have hrec := recent_of_reach hkeep hs
  refine fun listing hlisted => ⟨fun i u x hi hdb hlast => ?_, fun h => ?_⟩
  · exact (hrec.newest i _ u hi rfl hdb rfl hlast).fetchLatest (hdb.symm ▸ hlisted)
  · have hnil := hlisted.perm
    rw [hrec.empty h, perm_nil] at hnil
    rw [hnil, Remote.fetchLatest]

def oneByOne (s : State) : Act → Bool
  | .forgetAll _ => false
  | .access i a => i + 1 = s.calls.length && !a.lost
  | _ => true

def pastRows (s : State) : Act → Bool
  | .save u => s.rows.all fun row => row.seq < u.seq
  | _ => true

theorem inSequence_of_oneByOne {a : Act} (h : oneByOne s a = true) : InSequence db s a := by
  cases a with
  | access i a =>
    obtain ⟨hle, hl⟩ := (Bool.and_eq_true _ _).mp h
    refine fun call _ _ => ⟨fun j b hj _ => ?_, by simpa using hl⟩
    have hlt := (List.getElem?_eq_some_iff.mp hj).1
    exact Nat.lt_succ_iff.mp (hlt.trans_eq (of_decide_eq_true hle).symm)
  | forgetAll => cases h
  | start | save => trivial

theorem clockAhead_of_pastRows {a : Act} (h : pastRows s a = true) : ClockAhead db s a := by
  cases a with
  | save u =>
    intro _ row hro
    exact of_decide_eq_true (all_eq_true.mp h row (mem_filter.mp hro).1)
  | start | forgetAll | access => trivial

def savedBy (i : Nat) : List Act :=
  [.access i (.put .done), .access i (.size none), .access i (.record .done)]

def savedTwice : List Act :=
  [Act.start 1, .save ⟨"a", [7], 1, 5⟩] ++ savedBy 0 ++
    [Act.access 0 (.list (.ok [Upload.snapshot oneKept ⟨"a", [7], 1, 5⟩])),
      .save ⟨"a", [8], 1, 6⟩] ++ savedBy 1 ++
    [Act.access 1 (.list (.ok [Upload.snapshot oneKept ⟨"a", [8], 1, 6⟩,
        Upload.snapshot oneKept ⟨"a", [7], 1, 5⟩])),
      .access 1 (.forget .done), .access 1 (.delete .done)]

theorem latest_is_last_saved_twice :
    ∃ s, (machine oneKept).Reach (fun s a => InSequence "a" s a ∧ ClockAhead "a" s a) s ∧
      s.calls.map Call.recorded = [true, true] ∧ LatestIsLastSaved oneKept "a" s := by
  have hok : ∀ (s : State) (a : Act), (oneByOne s a && pastRows s a) = true →
      InSequence "a" s a ∧ ClockAhead "a" s a := by
    intro s a h
    obtain ⟨hseq, hclock⟩ := (Bool.and_eq_true _ _).mp h
    exact ⟨inSequence_of_oneByOne hseq, clockAhead_of_pastRows hclock⟩
  obtain ⟨s, hs, hp⟩ := Machine.exists_reach_of_runIf (M := machine oneKept)
    (fun s a => oneByOne s a && pastRows s a) (fun s a _ => hok s a)
    savedTwice (fun s => s.calls.map Call.recorded = [true, true]) (by decide)
  exact ⟨s, hs, hp, latest_is_last_saved (by decide) hs⟩

/-- The next runner has a clock that is behind: its snapshot is the older one, and is removed by
the save that recorded it. -/
def clockSetBack : List Act :=
  [Act.start 1, .save ⟨"a", [7], 1, 5⟩] ++ savedBy 0 ++
    [Act.access 0 (.list (.ok [Upload.snapshot oneKept ⟨"a", [7], 1, 5⟩])),
      .start 2, .save ⟨"a", [8], 2, 3⟩] ++ savedBy 1 ++
    [Act.access 1 (.list (.ok [Upload.snapshot oneKept ⟨"a", [7], 1, 5⟩,
        Upload.snapshot oneKept ⟨"a", [8], 2, 3⟩])),
      .access 1 (.forget .done), .access 1 (.delete .done)]

/-- **A save that returned `Ok` is not the latest snapshot, and is gone.** -/
theorem save_is_not_latest :
    ∃ s, (machine oneKept).Reach (InSequence "a") s ∧ s.calls[1]? = some (.save ⟨"a", [8], 2, 3⟩
        (.returned (.ok (Upload.snapshot oneKept ⟨"a", [8], 2, 3⟩)))) ∧
      s.rows = [Upload.snapshot oneKept ⟨"a", [7], 1, 5⟩] ∧
      s.fetchLatest oneKept s.rows = .ok (some [7]) ∧ ¬ LatestIsLastSaved oneKept "a" s := by
  obtain ⟨s, hs, hcall, hlen, hrows, hfetch, hlisted⟩ :=
      Machine.exists_reach_of_runIf (M := machine oneKept) oneByOne
    (fun _ _ _ h => inSequence_of_oneByOne h) clockSetBack
    (fun s => s.calls[1]? = some (.save ⟨"a", [8], 2, 3⟩
        (.returned (.ok (Upload.snapshot oneKept ⟨"a", [8], 2, 3⟩)))) ∧ s.calls.length = 2 ∧
      s.rows = [Upload.snapshot oneKept ⟨"a", [7], 1, 5⟩] ∧
      s.fetchLatest oneKept s.rows = .ok (some [7]) ∧ s.IsListing "a" s.rows) (by decide)
  refine ⟨s, hs, hcall, hrows, hfetch, fun h => ?_⟩
  have hlatest := (h s.rows hlisted).1 1 _ _ hcall rfl fun j call hj _ _ => by
    have := (List.getElem?_eq_some_iff.mp hj).1
    omega
  rw [hfetch] at hlatest
  exact absurd hlatest (by decide)

end OpenWorkersRunner.Archive
