import OpenWorkersRunner.D1.FilesStep

/-!
# D1: calls beside `reset_to_snapshot`

`reset_to_snapshot` refuses while a call uses the database, removes the entry, releases the lock of
the table, and only then moves the files.  A call that comes in between finds no entry, makes a new
handle, finds the file where it was and opens it; then the file is moved under it.  The call commits
and says so, and so do the calls after it on the same connection, to a file that nobody opens again
(`commit_moved_aside`).
-/

namespace OpenWorkersRunner.D1.Files

open Function List Option

variable {config : Config}

def Outcome.isReset (id : BitVec 128) (o : Outcome) : Prop :=
  o.work = .reset id ∧ o.answer = .reset (.ok ())

theorem Answer.ne_ok {ans : Answer} (h : ans.failed = true) : ans ≠ .reset (.ok ()) := by
  rintro rfl
  cases h

namespace State

variable {s t : State} {id : BitVec 128}

/-! ## Files that are newer than the resets -/

/-- Every reset of the database that has returned `Ok` had returned before the database file `f` was
made, from a snapshot as new as any there was at that time; and `f` was not moved aside. -/
structure Renewed (id : BitVec 128) (s : State) (f : Nat) : Prop where
  made : f < s.made
  kept : (id, f) ∉ s.aside
  reset : ∀ o ∈ s.outcomes, o.isReset id → o.made ≤ f ∧ o.snapshots (.database id) ≤ s.source f

def Opening.Current (id : BitVec 128) (s : State) : Opening → Prop
  | .restoring snapshot => ∀ o ∈ s.outcomes, o.isReset id → o.snapshots (.database id) ≤ snapshot
  | .written => ∀ f, s.file (.database id) .restoreScratch = some f → s.Renewed id f
  | .restored | .opening => s.file (.database id) .sqlite ≠ none ∨
      ∀ o ∈ s.outcomes, o.isReset id → o.snapshots (.database id) = 0
  | .preparing f | .opened f => s.Renewed id f
  | _ => True

/-- Every file that a call on the database has or can come to is newer than the resets. -/
structure Current (config : Config) (id : BitVec 128) (s : State) : Prop where
  outcome : ∀ o ∈ s.outcomes, o.isReset id → config.archive = true ∧ o.made ≤ s.made ∧
    o.snapshots (.database id) ≤ s.snapshots (.database id)
  aside : ∀ f, (id, f) ∈ s.aside → f < s.made
  file : ∀ f, s.file (.database id) .sqlite = some f → s.Renewed id f
  opening : ∀ i o c, s.openings i = some o → s.service.calls i = some c → c.key = .database id →
    Opening.Current id s o
  connection : ∀ h x, s.service.databases.lookup (.database id) = some h → s.service.Live h x →
    ∃ f, s.connections h = some f ∧ s.Renewed id f
  wrote : ∀ i c, s.service.calls i = some c → c.key = .database id → c.holds = true →
    ∀ f ∈ s.wrote i, (id, f) ∉ s.aside
  moving : ∀ u, s.upkeep = some u → u.work = .reset id → config.archive = true ∧
    u.todo <:+ suffixes ∧ (.sqlite ∉ u.todo → s.file (.database id) .sqlite = none)

/-! ## What steps keep -/

theorem snapshots_le_after (s : State) (a : D1.Act) (key : Key) :
    s.snapshots key ≤ s.snapshotsAfter a key := by
  rw [snapshotsAfter]
  cases s.recordedKey a with
  | none => exact Nat.le_refl _
  | some k =>
    change s.snapshots key ≤ update s.snapshots k (s.snapshots k + 1) key
    by_cases hk : key = k
    · subst hk
      rw [update_self]
      exact Nat.le_succ _
    · rw [update_of_ne hk]

structure Keeps (id : BitVec 128) (s t : State) : Prop where
  made : s.made ≤ t.made
  aside : ∀ f, (id, f) ∈ t.aside → (id, f) ∈ s.aside
  outcomes : ∀ o ∈ t.outcomes, o.isReset id → o ∈ s.outcomes
  source : ∀ f, f < s.made → t.source f = s.source f
  snapshots : s.snapshots (.database id) ≤ t.snapshots (.database id)

theorem Keeps.of_eq (hm : t.made = s.made) (ha : t.aside = s.aside)
    (hou : t.outcomes = s.outcomes) (hsr : t.source = s.source)
    (hsn : t.snapshots = s.snapshots) : Keeps id s t := by
  refine ⟨Nat.le_of_eq hm.symm, ?_, ?_, ?_, ?_⟩
  · rw [ha]
    exact fun _ h => h
  · rw [hou]
    exact fun _ ho _ => ho
  · rw [hsr]
    exact fun _ _ => rfl
  · rw [hsn]

theorem Keeps.make (s : State) (name : Name) (snaps i : Nat) (o : Opening) :
    Keeps id s ((s.make name snaps).goto i o) := by
  refine ⟨Nat.le_succ _, fun _ h => h, fun _ ho _ => ho, fun f hf => ?_, Nat.le_refl _⟩
  exact update_of_ne (Nat.ne_of_lt hf) _ _

variable {i f : Nat}

theorem OpenStep.keeps {c : Call} {o : Opening} {a : OpenAct} (h : s.OpenStep config i c o a t) :
    Keeps id s t := by
  cases h with
  | write | connectNew => exact .make ..
  | _ => exact .of_eq rfl rfl rfl rfl rfl

theorem Keeps.answer (s : State) {work : Work} {taken : List Name} {ans : Answer}
    (h : work = .reset id → ans ≠ .reset (.ok ())) : Keeps id s (s.answer work taken ans) := by
  refine ⟨Nat.le_refl _, fun _ h => h, fun o ho hrs => ?_, fun _ _ => rfl, Nat.le_refl _⟩
  rcases mem_append.1 ho with ho | ho
  · exact ho
  · rw [mem_singleton] at ho
    subst ho
    exact absurd hrs.2 (h hrs.1)

theorem Renewed.keeps (h : s.Renewed id f) (hk : Keeps id s t) : t.Renewed id f := by
  refine ⟨Nat.lt_of_lt_of_le h.made hk.made, fun hf => h.kept (hk.aside f hf), fun o ho hrs => ?_⟩
  rw [hk.source f h.made]
  exact h.reset o (hk.outcomes o ho hrs) hrs

theorem Opening.Current.keeps {o : Opening} (h : Opening.Current id s o) (hk : Keeps id s t)
    (hfi : t.file (.database id) .sqlite = s.file (.database id) .sqlite)
    (hsc : ∀ f, t.file (.database id) .restoreScratch = some f →
      s.file (.database id) .restoreScratch = some f) : Opening.Current id t o := by
  cases o with
  | restoring snap => exact fun o ho hrs => h o (hk.outcomes o ho hrs) hrs
  | written => exact fun f hf => (h f (hsc f hf)).keeps hk
  | restored | opening =>
    rw [Opening.Current, hfi]
    exact Or.imp_right (fun h o ho hrs => h o (hk.outcomes o ho hrs) hrs) h
  | preparing f | opened f => exact Renewed.keeps h hk
  | _ => trivial

namespace Current

theorem outcome_keeps (hs : s.Current config id) (hk : Keeps id s t) :
    ∀ o ∈ t.outcomes, o.isReset id → config.archive = true ∧ o.made ≤ t.made ∧
      o.snapshots (.database id) ≤ t.snapshots (.database id) := by
  intro o ho hrs
  obtain ⟨ha, hm, hsn⟩ := hs.outcome o (hk.outcomes o ho hrs) hrs
  exact ⟨ha, Nat.le_trans hm hk.made, Nat.le_trans hsn hk.snapshots⟩

theorem aside_keeps (hs : s.Current config id) (hk : Keeps id s t) :
    ∀ f, (id, f) ∈ t.aside → f < t.made :=
  fun f hf => Nat.lt_of_lt_of_le (hs.aside f (hk.aside f hf)) hk.made

theorem frame (hs : s.Current config id) (hk : Keeps id s t)
    (hfi : t.file (.database id) .sqlite = s.file (.database id) .sqlite)
    (hsc : ∀ f, t.file (.database id) .restoreScratch = some f →
      s.file (.database id) .restoreScratch = some f)
    (hop : ∀ i o c, t.openings i = some o → t.service.calls i = some c →
      c.key = .database id → o = .directory ∨
        ∃ d, s.openings i = some o ∧ s.service.calls i = some d ∧ d.key = .database id)
    (hco : ∀ h x, t.service.databases.lookup (.database id) = some h →
      t.service.Live h x → t.connections h = s.connections h ∧
        s.service.databases.lookup (.database id) = some h ∧ ∃ y, s.service.Live h y)
    (hw : ∀ i c, t.service.calls i = some c → c.key = .database id → c.holds = true →
      ∀ f ∈ t.wrote i, (id, f) ∉ s.aside)
    (hm : ∀ u, t.upkeep = some u → u.work = .reset id → config.archive = true ∧
      u.todo <:+ suffixes ∧ (.sqlite ∉ u.todo → t.file (.database id) .sqlite = none)) :
    t.Current config id := by
  refine ⟨hs.outcome_keeps hk, hs.aside_keeps hk, fun f hf => ?_, fun i o c ho hc hke => ?_,
    fun h x hen hx => ?_, fun i c hc hke hh f hf hme => ?_, hm⟩
  · exact (hs.file f (hfi ▸ hf)).keeps hk
  · rcases hop i o c ho hc hke with rfl | ⟨d, ho, hd, hdk⟩
    · trivial
    · exact (hs.opening i o d ho hd hdk).keeps hk hfi hsc
  · obtain ⟨heq, hen, y, hy⟩ := hco h x hen hx
    obtain ⟨f, hf, hre⟩ := hs.connection h y hen hy
    exact ⟨f, heq.trans hf, hre.keeps hk⟩
  · exact hw i c hc hke hh f hf (hk.aside f hme)

theorem quiet (hs : s.Current config id) (hk : Keeps id s t)
    (hf : t.file (.database id) .sqlite = s.file (.database id) .sqlite)
    (hsc : ∀ f, t.file (.database id) .restoreScratch = some f →
      s.file (.database id) .restoreScratch = some f) (hsv : t.service = s.service)
    (hco : t.connections = s.connections) (hw : t.wrote = s.wrote)
    (hop : ∀ i o c, t.openings i = some o → s.service.calls i = some c →
      c.key = .database id → s.openings i = some o)
    (hm : ∀ u, t.upkeep = some u → u.work = .reset id →
      ∃ v, s.upkeep = some v ∧ v.work = .reset id ∧ v.todo = u.todo) : t.Current config id := by
  refine hs.frame hk hf hsc (fun i o c ho hc hke => .inr ⟨c, ?_, hsv ▸ hc, hke⟩)
    (fun h x hen hx => ⟨by rw [hco], hsv ▸ hen, x, hsv ▸ hx⟩)
    (fun i c hc hke hh => ?_) fun u hu hwo => ?_
  · exact hop i o c ho (hsv ▸ hc) hke
  · rw [hw]
    exact hs.wrote i c (hsv ▸ hc) hke hh
  · obtain ⟨v, hv, hvw, ht⟩ := hm u hu hwo
    rw [← ht, hf]
    exact hs.moving v hv hvw

variable {c : Call} {i : Nat} {r : D1.State} {u : Upkeep}

theorem renewed_make (hs : s.Current config id) (name : Name) {snaps : Nat}
    (h : ∀ o ∈ s.outcomes, o.isReset id → o.snapshots (.database id) ≤ snaps) (i : Nat)
    (o : Opening) : ((s.make name snaps).goto i o).Renewed id s.made := by
  refine ⟨Nat.lt_succ_self _, fun hm => Nat.lt_irrefl _ (hs.aside _ hm), fun o ho hrs => ?_⟩
  refine ⟨(hs.outcome o ho hrs).2.1, ?_⟩
  rw [show ((s.make name snaps).goto i _).source s.made = snaps from
    update_self ..]
  exact h o ho hrs

theorem learn (hs : s.Current config id) {a : RunAct}
    (heq : s.service.step config (.call i (.run a)) = some t.service) (hfs : t.files = s.files)
    (hk : Keeps id s t) (hw : t.wrote = s.wrote) (hup : t.upkeep = s.upkeep)
    (ho : t.openings = update s.openings i none)
    (hco : ∀ h x, s.service.databases.lookup (.database id) = some h →
      t.service.Live h x → ∃ f, t.connections h = some f ∧ s.Renewed id f) :
    t.Current config id := by
  obtain ⟨c, c', x, x', hc, hx, hst, hpu⟩ := D1.State.step_call heq
  have hfi : ∀ suffix, t.file (.database id) suffix = s.file (.database id) suffix := by
    intro suffix
    rw [State.file, hfs, State.file]
  refine ⟨hs.outcome_keeps hk, hs.aside_keeps hk, fun f hf => ?_, fun j p d hp hd hke => ?_,
    fun h x hen hx => ?_, fun j d hd hke hh f hf hm => ?_, fun u hu hwo => ?_⟩
  · exact (hs.file f (hfi _ ▸ hf)).keeps hk
  · have hij : j ≠ i := by
      rintro rfl
      rw [ho, update_self] at hp
      cases hp
    rw [ho, update_of_ne hij] at hp
    rw [hpu] at hd
    have hold := hs.opening j p d hp ((update_of_ne hij _ _).symm.trans hd) hke
    exact hold.keeps hk (hfi _) fun f hf => hfi _ ▸ hf
  · rw [hpu] at hen
    obtain ⟨f, hf, hre⟩ := hco h x hen hx
    exact ⟨f, hf, hre.keeps hk⟩
  · rw [hw] at hf
    rw [hpu] at hd
    rcases update_some_eq_some hd with ⟨rfl, rfl⟩ | ⟨-, hd⟩
    · exact hs.wrote j c hc (hst.keys.1.symm.trans hke) (hst.holds hh) f hf
        (hk.aside f hm)
    · exact hs.wrote j d hd hke hh f hf (hk.aside f hm)
  · rw [hup] at hu
    rw [hfi]
    exact hs.moving u hu hwo

theorem step_other (hs : s.Current config id) {a : UpkeepAct}
    (hco : u.work.covers (.database id) = false) (h : s.UpkeepStep u a t) :
    t.Current config id := by
  have hw : u.work ≠ .reset id := by
    intro hw
    rw [Work.covers_database (.inl hw)] at hco
    cases hco
  cases h with
  | found | missing =>
    refine hs.quiet (.of_eq rfl rfl rfl rfl rfl) rfl (fun _ hf => hf) rfl rfl rfl
      (fun _ _ _ ho _ _ => ho) fun u' hu' hw' => ?_
    cases hu'
    exact absurd hw' hw
  | @next id' suf todo aside hw' ht ha =>
    have hne : id ≠ id' := by
      rintro rfl
      rw [Work.covers_database hw'] at hco
      cases hco
    have hfi : ∀ x, (s.files.erase ⟨.database id', suf⟩).lookup ⟨.database id, x⟩ =
        s.file (.database id) x := fun x => AList.lookup_erase_ne (by simp [hne])
    refine hs.quiet ⟨Nat.le_refl _, fun f hf => ?_, fun _ ho _ => ho, fun _ _ => rfl, Nat.le_refl _⟩
      (hfi _) (fun f hf => (hfi _).symm.trans hf) rfl rfl rfl (fun _ _ _ ho _ _ => ho)
      fun u' hu' hw' => ?_
    · rcases ha with rfl | ⟨-, g, -, rfl⟩
      · exact hf
      · simpa [hne] using hf
    · cases hu'
      exact absurd hw' hw
  | @entry ns oid suf hw' =>
    have hfi : ∀ x, (s.files.erase ⟨.object ns oid, suf⟩).lookup
        ⟨.database id, x⟩ = s.file (.database id) x := fun x => AList.lookup_erase_ne (by simp)
    refine hs.quiet (.of_eq rfl rfl rfl rfl rfl) (hfi _) (fun f hf => (hfi _).symm.trans hf) rfl
      rfl rfl (fun _ _ _ ho _ _ => ho) fun u' hu' hw' => ?_
    cases hu'
    exact absurd hw' hw
  | fails | done =>
    exact hs.quiet (.answer _ fun h => absurd h hw) rfl (fun _ hf => hf) rfl rfl rfl
      (fun _ _ _ ho _ _ => ho) nofun
  | emptied =>
    have hk : Keeps id s (s.answer u.work u.taken (.removed true)) :=
      .answer s fun h => absurd h hw
    exact hs.quiet ⟨hk.made, hk.aside, hk.outcomes, hk.source, hk.snapshots⟩ rfl (fun _ hf => hf)
      rfl rfl rfl (fun _ _ _ ho _ _ => ho) nofun

theorem crash (hs : s.Current config id) : s.crash.Current config id := by
  refine ⟨nofun, hs.aside, fun f hf => ?_, fun i o c ho => ?_, fun h x hen => ?_,
    fun i c hc => ?_, fun u hu => ?_⟩
  · rw [State.file, State.crash, AList.lookup_retain_eq_some] at hf
    have hold := hs.file f hf.1
    exact ⟨hold.made, hold.kept, nofun⟩
  · cases ho
  · cases hen
  · cases hc
  · cases hu

variable (hr : (D1.machine config).Reachable s.service) (hs : s.Current config id)

include hr hs

theorem own (he : s.Exclusive (.database id))
    (hk : Keeps id s t) {o o' : Opening} (ho : s.openings i = some o)
    (hc : s.service.calls i = some c) (hke : c.key = .database id)
    (hsv : t.service = s.service) (hco : t.connections = s.connections)
    (hw : t.wrote = s.wrote) (hup : t.upkeep = s.upkeep)
    (hop : t.openings = update s.openings i (some o'))
    (hfi : ∀ f, t.file (.database id) .sqlite = some f → t.Renewed id f)
    (ho' : Opening.Current id t o') : t.Current config id := by
  refine ⟨hs.outcome_keeps hk, hs.aside_keeps hk, hfi, ?_, fun h x hen hx => ?_,
    fun j d hd hdk hh f hf hm => ?_, fun u hu hwo => ?_⟩
  · rw [hsv, hop]
    intro j p d hp hd hdk
    rcases update_some_eq_some hp with ⟨rfl, rfl⟩ | ⟨hij, hp⟩
    · exact ho'
    · exact absurd (he.opening_unique hr hp hd hdk ho hc hke) hij
  · rw [hsv] at hen hx
    obtain ⟨f, hf, hre⟩ := hs.connection h x hen hx
    exact ⟨f, hco ▸ hf, hre.keeps hk⟩
  · rw [hsv] at hd
    rw [hw] at hf
    exact hs.wrote j d hd hdk hh f hf (hk.aside f hm)
  · rw [hup] at hu
    have hcovers : u.work.covers (.database id) = true := Work.covers_database (.inl hwo)
    exact absurd hke (he.not_opening hr hu hcovers ho hc)

theorem goto (he : s.Exclusive (.database id)) {o o' : Opening} (ho : s.openings i = some o)
    (hc : s.service.calls i = some c) (hke : c.key = .database id)
    (directories : BitVec 128 → Bool) (ho' : Opening.Current id s o') :
    Current config id ({ s with directories := directories }.goto i o') := by
  have hk : Keeps id s ({ s with directories := directories }.goto i o') :=
    .of_eq rfl rfl rfl rfl rfl
  exact hs.own hr he hk ho hc hke rfl rfl rfl rfl rfl (fun f hf => (hs.file f hf).keeps hk)
    (ho'.keeps hk rfl fun _ hf => hf)

theorem learnFailed {failure : OpenFailure}
    (heq : s.service.step config (.call i (.run (.notOpened failure))) = some r) :
    Current config id
      { s with service := r, openings := update s.openings i none } := by
  refine hs.learn heq rfl (.of_eq rfl rfl rfl rfl rfl) rfl rfl rfl fun h x hen hx => ?_
  obtain ⟨y, hy, -, -⟩ := (D1.State.step_of_eq heq).live_before (D1.State.wired_of_reach hr)
    (D1.State.placed_of_reach hr) (by simp) hx
  exact hs.connection h y hen hy

theorem step_opening (he : s.Exclusive (.database id)) {i : Nat} {o : Opening} {c : Call}
    {a : OpenAct} (hc : s.service.calls i = some c) (ho : s.openings i = some o)
    (h : s.OpenStep config i c o a t) : t.Current config id := by
  have hw := D1.State.wired_of_reach hr
  have hk : Keeps id s t := h.keeps
  by_cases hke : c.key = .database id
  · have hbe := hs.opening i o c ho hc hke
    cases h with
    | createDirectory | missing | fails => exact hs.goto hr he ho hc hke _ trivial
    | existing h =>
      refine hs.goto hr he ho hc hke _ (h.symm.imp (hke ▸ ·) fun ha o ho hrs => ?_)
      rw [(hs.outcome o ho hrs).1] at ha
      cases ha
    | noSnapshot h =>
      refine hs.goto hr he ho hc hke _ (.inr fun o ho hrs => ?_)
      have := (hs.outcome o ho hrs).2.2
      rw [hke] at h
      omega
    | fetched h =>
      refine hs.goto hr he ho hc hke _ fun o ho hrs => ?_
      rw [hke]
      exact (hs.outcome o ho hrs).2.2
    | write hdi =>
      refine hs.own hr he hk ho hc hke rfl rfl rfl rfl rfl (fun f hf => ?_) fun f hf => ?_
      · refine (hs.file f ?_).keeps hk
        exact (AList.lookup_insert_ne (by simp)).symm.trans hf
      · rw [hke] at hf
        obtain rfl : s.made = f := some.inj ((AList.lookup_insert _).symm.trans hf)
        exact hs.renewed_make _ hbe i _
    | @renamed f hf =>
      rw [hke] at hf hk ⊢
      refine hs.own hr he hk ho hc hke rfl rfl rfl rfl rfl (fun g hg => ?_) (.inl ?_)
      · obtain rfl : f = g := some.inj ((AList.lookup_insert _).symm.trans hg)
        exact (hbe f hf).keeps hk
      · exact ne_of_eq_of_ne (AList.lookup_insert _) (by simp)
    | corrupt =>
      refine hs.own hr he hk ho hc hke rfl rfl rfl rfl rfl (fun f hf => ?_) trivial
      refine (hs.file f ?_).keeps hk
      exact (AList.lookup_erase_ne (by simp)).symm.trans hf
    | spawn => exact hs.goto hr he ho hc hke _ hbe
    | connect hf => exact hs.goto hr he ho hc hke _ (hs.file _ (hke ▸ hf))
    | connectNew hn hdi =>
      rw [hke] at hn hk ⊢
      have hre := hs.renewed_make ⟨.database id, .sqlite⟩ (fun o ho hrs =>
        Nat.le_of_eq (hbe.resolve_left (absurd hn) o ho hrs)) i (.preparing s.made)
      refine hs.own hr he hk ho hc hke rfl rfl rfl rfl rfl (fun f hf => ?_) hre
      obtain rfl : s.made = f := some.inj ((AList.lookup_insert _).symm.trans hf)
      exact hre
    | prepared => exact hs.goto hr he ho hc hke _ hbe
    | @learnOpened f r heq =>
      refine hs.learn heq rfl hk rfl rfl rfl fun h x hen hx => ?_
      obtain ⟨hm, -⟩ := he.opening hr ho hc hke
      obtain rfl : c.handle = h := mem_unique hm hen
      exact ⟨f, update_self .., hbe⟩
    | learnFailed heq => exact hs.learnFailed hr heq
  · have hfi := h.file_other hke
    have hne : ∀ {j d}, s.service.calls j = some d → d.key = .database id → j ≠ i := by
      rintro j d hd hdk rfl
      obtain rfl : c = d := mem_unique hc hd
      exact hke hdk
    cases h with
    | @learnOpened f r heq =>
      refine hs.learn heq rfl hk rfl rfl rfl fun h x hen hx => ?_
      -- the handle of an entry is of its key, so it is not the one of the call
      have hot : h ≠ c.handle := by
        rintro rfl
        obtain ⟨y, hy, hyk⟩ := hw.entry hen
        obtain ⟨-, z, hz, hzk⟩ := hw.call hc
        obtain rfl : y = z := mem_unique hy hz
        exact hke (hzk.symm.trans hyk)
      rcases D1.State.live_opened hw heq hx with hold | ⟨d, hd, rfl, -⟩
      · obtain ⟨g, hg, hre⟩ := hs.connection h x hen hold
        exact ⟨g, (update_of_ne hot _ _).trans hg, hre⟩
      · obtain rfl : c = d := mem_unique hc hd
        exact absurd rfl hot
    | learnFailed heq => exact hs.learnFailed hr heq
    | _ =>
      exact hs.quiet hk (hfi _) (fun f hf => (hfi _).symm.trans hf) rfl rfl rfl
        (fun j o d ho hd hdk => (update_of_ne (hne hd hdk) _ _).symm.trans ho)
        fun u hu hwo => ⟨u, hu, hwo, rfl⟩

theorem wroteAfter {a : D1.Act} (heq : s.service.step config a = some r) (hc : r.calls i = some c)
    (hk : c.key = .database id) (hh : c.holds = true) {f : Nat} (hf : f ∈ s.wroteAfter a i) :
    (id, f) ∉ s.aside := by
  have hbe := (D1.State.step_of_eq heq).call_before hc
  unfold State.wroteAfter at hf
  split at hf
  · rcases hbe with ⟨d, hd, hdk, -, hdh⟩ | ⟨-, rfl, -⟩
    · have hne := Nat.ne_of_lt ((D1.State.wired_of_reach hr).call hd).1
      rw [update_of_ne hne] at hf
      exact hs.wrote i d hd (hdk.trans hk) (hdh hh) f hf
    · rw [update_self] at hf
      cases hf
  next j =>
    obtain ⟨d, hd, hdk, hdha, hdh⟩ := hbe.resolve_right (by simp)
    have hold := hs.wrote i d hd (hdk.trans hk) (hdh hh)
    by_cases hij : i = j
    · subst hij
      rw [update_self, mem_append, hd] at hf
      rcases hf with hf | hf
      · exact hold f hf
      · obtain ⟨e, e', x, x', he, hx, h, -⟩ := D1.State.step_call heq
        obtain rfl : d = e := mem_unique hd he
        have hl := D1.State.live_of_holds hr hd hx (hdh hh) (by cases h; simp [*])
        have hen := D1.State.placed_of_reach hr i d hd (hdh hh)
        rw [hdk, hk] at hen
        obtain ⟨g, hg, hre⟩ := hs.connection _ x hen hl
        rw [bind_some, hg, toList_some, mem_singleton] at hf
        rw [hf]
        exact hre.kept
    · rw [update_of_ne hij] at hf
      exact hold f hf
  next hsu _ =>
    obtain ⟨d, hd, hdk, -, hdh⟩ :=
      hbe.resolve_right fun ⟨_, _, victim, now, ha⟩ => hsu _ victim now ha
    exact hs.wrote i d hd (hdk.trans hk) (hdh hh) f hf

theorem service (he : s.Exclusive (.database id)) {a : D1.Act} (ha : s.allows a = true)
    (heq : s.service.step config a = some r) : (s.after a r).Current config id := by
  have hw := D1.State.wired_of_reach hr
  have hst := D1.State.step_of_eq heq
  have hk : Keeps id s (s.after a r) := by
    exact ⟨Nat.le_refl _, fun _ h => h, fun _ ho _ => ho, fun _ _ => rfl, s.snapshots_le_after a _⟩
  refine hs.frame hk rfl (fun _ hf => hf) (fun i o c ho hc hke => ?_) (fun h x hen hx => ?_)
    (fun i c hc hke hh f hf => hs.wroteAfter hr heq hc hke hh hf) hs.moving
  · refine (he.opening_before hw heq ho hc).imp_right fun ⟨d, ho, hd, hdk⟩ => ?_
    exact ⟨d, ho, hd, hdk.trans hke⟩
  · have hop : ∀ i, a ≠ .call i (.run .opened) := by
      rintro i rfl
      cases ha
    obtain ⟨y, hy, -, hold⟩ := hst.live_before hw (D1.State.placed_of_reach hr) hop hx
    obtain ⟨z, hz, hke⟩ := (D1.State.wired_of_reach (.step hr trivial heq)).entry hen
    obtain rfl : z = x := some.inj (hz.symm.trans hx.handle)
    rw [hke] at hold
    exact ⟨rfl, hold hen, y, hy⟩

theorem closed (he : s.Exclusive (.database id)) (hu : s.upkeep = some u)
    (hco : u.work.covers (.database id) = true) (hsv : t.service = s.service)
    (hop : t.openings = s.openings) (hm : t.made = s.made)
    (hsn : t.snapshots = s.snapshots)
    (hou : ∀ o ∈ t.outcomes, o ∈ s.outcomes ∨ (o.isReset id → config.archive = true ∧
      o.made = s.made ∧ o.snapshots = s.snapshots))
    (ha : ∀ f, (id, f) ∈ t.aside → (id, f) ∈ s.aside ∨ s.file (.database id) .sqlite = some f)
    (hfi : ∀ f, t.file (.database id) .sqlite = some f → t.Renewed id f)
    (hmo : ∀ u', t.upkeep = some u' → u'.work = .reset id → config.archive = true ∧
      u'.todo <:+ suffixes ∧ (.sqlite ∉ u'.todo → t.file (.database id) .sqlite = none)) :
    t.Current config id := by
  have hgo := he.gone u hu hco
  refine ⟨fun o ho hrs => ?_, fun f hf => ?_, hfi, fun i o c ho hc hk => ?_,
    fun h x hen _ => ?_, fun i c hc hk hh => ?_, hmo⟩
  · rw [hm, hsn]
    rcases hou o ho with hold | hn
    · exact hs.outcome o hold hrs
    · obtain ⟨har, hm, hsn⟩ := hn hrs
      exact ⟨har, Nat.le_of_eq hm, Nat.le_of_eq (congrFun hsn _)⟩
  · rw [hm]
    rcases ha f hf with hold | hno
    · exact hs.aside f hold
    · exact (hs.file f hno).made
  · rw [hop] at ho
    rw [hsv] at hc
    exact absurd hk (he.not_opening hr hu hco ho hc)
  · rw [hsv, hgo] at hen
    cases hen
  · rw [hsv] at hc
    have hen := D1.State.placed_of_reach hr i c hc hh
    rw [hk, hgo] at hen
    cases hen

theorem step_covering (he : s.Exclusive (.database id)) {a : UpkeepAct}
    (hu : s.upkeep = some u) (hco : u.work.covers (.database id) = true)
    (h : s.UpkeepStep u a t) : t.Current config id := by
  cases h with
  | found hw ht hfi =>
    refine hs.closed hr he hu hco rfl rfl rfl rfl (fun _ ho => .inl ho) (fun _ hf => .inl hf)
      (fun f hf => (hs.file f hf).keeps (.of_eq rfl rfl rfl rfl rfl)) fun u' hu' hw' => ?_
    cases hu'
    exact hs.moving u hu hw'
  | @missing id' suf todo hw ht hfi =>
    refine hs.closed hr he hu hco rfl rfl rfl rfl (fun _ ho => .inl ho) (fun _ hf => .inl hf)
      (fun f hf => (hs.file f hf).keeps (.of_eq rfl rfl rfl rfl rfl)) fun u' hu' hw' => ?_
    cases hu'
    obtain rfl : id' = id := Work.id_unique (.inl hw) (.inl hw')
    obtain ⟨ha, hsu, hn⟩ := hs.moving u hu hw'
    rw [ht] at hsu hn
    refine ⟨ha, (suffix_cons _ _).trans hsu, fun htu => ?_⟩
    by_cases heq : suf = .sqlite
    · exact heq ▸ hfi
    · exact hn (by simp [Ne.symm heq, htu])
  | @next id' suf todo aside hw ht hasd =>
    obtain rfl : id = id' := by
      rcases hw with hw | hw <;> simpa [hw, Work.covers] using hco
    have hsa : ∀ f, (s.files.erase ⟨.database id, suf⟩).lookup ⟨.database id, .sqlite⟩ = some f →
        suf ≠ .sqlite ∧ s.file (.database id) .sqlite = some f := by
      intro f hf
      have hne : suf ≠ .sqlite := by
        rintro rfl
        rw [AList.lookup_erase] at hf
        cases hf
      exact ⟨hne, (AList.lookup_erase_ne (by simp [Ne.symm hne])).symm.trans hf⟩
    refine hs.closed hr he hu hco rfl rfl rfl rfl (fun _ ho => .inl ho) (fun f hf => ?_)
      (fun f hf => ?_) fun u' hu' hw' => ?_
    · rcases hasd with rfl | ⟨-, g, hg, rfl⟩
      · exact .inl hf
      · rcases mem_append.1 hf with hf | hf
        · exact .inl hf
        · rw [mem_singleton, Prod.mk.injEq] at hf
          exact .inr (hf.2 ▸ hg)
    · obtain ⟨hne, hold⟩ := hsa f hf
      obtain rfl := hasd.resolve_right fun hm => hne hm.1
      exact (hs.file f hold).keeps (.of_eq rfl rfl rfl rfl rfl)
    · cases hu'
      obtain ⟨ha, hsu, hn⟩ := hs.moving u hu hw'
      rw [ht] at hsu hn
      refine ⟨ha, (suffix_cons _ _).trans hsu, fun htu => ?_⟩
      by_cases heq : suf = .sqlite
      · rw [heq]
        exact AList.lookup_erase _ _
      · refine (AList.lookup_erase_ne (by simp [Ne.symm heq])).trans (hn ?_)
        simp [Ne.symm heq, htu]
  | entry oid suf hw => simp [hw, Work.covers, Key.isOf] at hco
  | fails error han =>
    refine hs.closed hr he hu hco rfl rfl rfl rfl (fun o ho => ?_) (fun _ hf => .inl hf)
      (fun f hf => (hs.file f hf).keeps (.answer s fun _ => Answer.ne_ok han))
      fun u' hu' => ?_
    · refine (mem_append.1 ho).imp_right fun ho hrs => ?_
      rw [mem_singleton] at ho
      subst ho
      exact absurd hrs.2 (Answer.ne_ok han)
    · cases hu'
  | done hw ht han =>
    refine hs.closed hr he hu hco rfl rfl rfl rfl (fun o ho => ?_) (fun _ hf => .inl hf)
      (fun f hf => ?_) fun u' hu' => ?_
    · refine (mem_append.1 ho).imp_right fun ho hrs => ?_
      rw [mem_singleton] at ho
      subst ho
      exact ⟨(hs.moving u hu hrs.1).1, rfl, rfl⟩
    · refine (hs.file f hf).keeps (.answer s fun hrs => ?_)
      -- a reset that comes to its end has found no file, or moved it
      have hn := (hs.moving u hu hrs).2.2 (by simp [ht])
      exact absurd (hn.symm.trans hf) (by simp)
    · cases hu'
  | emptied hw hem => simp [hw, Work.covers, Key.isOf] at hco

theorem start {work : Work} (ha : ∀ id, work = .reset id → config.archive = true)
    (hd : s.service.detach work.covers = some r)
    (heq : s.service.step config work.act = some r) : (s.start r work).Current config id := by
  have ht : s.service.Thinned (fun _ => True) r :=
    D1.State.thinned_of_detach (fun _ _ => trivial) hd
  refine hs.frame (.of_eq rfl rfl rfl rfl rfl) rfl (fun _ hf => hf) (fun i o c ho hc hk => ?_)
    (fun h x hen hx => ?_) (fun i c hc hk hh => ?_) fun u hu hw => ?_
  · exact .inr ⟨c, ho, ht.calls ▸ hc, hk⟩
  · obtain ⟨y, hy, -, -⟩ := (D1.State.step_of_eq heq).live_before (D1.State.wired_of_reach hr)
      (D1.State.placed_of_reach hr) (by cases work <;> simp [Work.act]) hx
    exact ⟨rfl, ht.entry hen, y, hy⟩
  · exact hs.wrote i c (ht.calls ▸ hc) hk hh
  · cases hu
    exact ⟨ha id hw, suffix_rfl, fun htu => absurd (by decide : Suffix.sqlite ∈ suffixes) htu⟩

/-- **What a step keeps.** -/
theorem step {a : Act} (he : s.Exclusive (.database id)) (h : s.Step config a t) :
    t.Current config id := by
  cases h with
  | service hal heq => exact hs.service hr he hal heq
  | opening hc ho hcl h => exact hs.step_opening hr he hc ho h
  | @makeBeside m suf k f hm hsu hdi hno =>
    have hfi : ∀ x ∈ [Suffix.sqlite, .restoreScratch],
        (s.files.insert ⟨k, suf⟩ f).lookup ⟨.database id, x⟩ = s.file (.database id) x := by
      intro x hx
      refine AList.lookup_insert_ne ?_
      rintro ⟨rfl, rfl⟩
      revert hsu hx
      cases suf <;> decide
    exact hs.quiet (.of_eq rfl rfl rfl rfl rfl) (hfi _ (by decide))
      (fun g hg => (hfi _ (by decide)).symm.trans hg) rfl rfl rfl (fun _ _ _ ho _ _ => ho)
      fun u hu hw => ⟨u, hu, hw, rfl⟩
  | @unlink name h =>
    refine hs.quiet (.of_eq rfl rfl rfl rfl rfl) (AList.lookup_erase_ne ?_) (fun f hf => ?_) rfl rfl
      rfl (fun _ _ _ ho _ _ => ho) fun u hu hw => ⟨u, hu, hw, rfl⟩
    · rintro rfl
      exact h rfl
    · by_cases hn : (⟨.database id, .restoreScratch⟩ : Name) = name
      · subst hn
        exact absurd ((AList.lookup_erase _ _).symm.trans hf) (by simp)
      · exact (AList.lookup_erase_ne hn).symm.trans hf
  | start hid ha hd heq => exact hs.start hr ha hd heq
  | refused hid han =>
    exact hs.quiet (.answer s fun _ => Answer.ne_ok han) rfl (fun _ hf => hf) rfl rfl rfl
      (fun _ _ _ ho _ _ => ho) nofun
  | @upkeep u a t hu h =>
    cases hco : u.work.covers (.database id) with
    | true => exact hs.step_covering hr he hu hco h
    | false => exact hs.step_other hco h
  | crash => exact hs.crash

end Current

theorem current_empty : Current config id .empty := by
  refine ⟨nofun, nofun, fun f hf => ?_, fun i o c ho => ?_, fun h x hen => ?_, fun i c hc => ?_,
    fun u hu => ?_⟩
  · cases hf
  · cases ho
  · cases hen
  · cases hc
  · cases hu

theorem current_of_reach (hs : (machine config).Reach (Undisturbed (.database id)) s) :
    s.Current config id :=
  hs.invariant (I := Current config id) current_empty fun _ _ _ hrc hI _ h =>
    hI.step (reachable_service hrc) (exclusive_of_reach (fun _ _ hok => hok) hrc)
      (step_of_eq h)

/-! ## Jobs, with their callers or without -/

/-- The database file `f` is newer than the resets that had returned `Ok` when the call `i`
began. -/
structure RenewedFor (id : BitVec 128) (s : State) (i f : Nat) : Prop where
  made : f < s.made
  reset : ∀ o ∈ s.outcomes, o.isReset id → o.called ≤ i →
    o.made ≤ f ∧ o.snapshots (.database id) ≤ s.source f

def Served (id : BitVec 128) (s : State) : Prop :=
  ∀ i c, s.service.calls i = some c → c.key = .database id → c.jobRuns = true →
    ∃ f, s.connections c.handle = some f ∧ s.RenewedFor id i f

theorem RenewedFor.mono (h : s.RenewedFor id i f) (hi : i < s.service.called)
    (hm : s.made ≤ t.made) (hsr : ∀ f, f < s.made → t.source f = s.source f)
    (hou : ∀ o ∈ t.outcomes, o.isReset id → o ∈ s.outcomes ∨ o.called = s.service.called) :
    t.RenewedFor id i f := by
  refine ⟨Nat.lt_of_lt_of_le h.made hm, fun o ho hrs hcl => ?_⟩
  rw [hsr f h.made]
  rcases hou o ho hrs with hold | hn
  · exact h.reset o hold hrs hcl
  · omega

theorem RenewedFor.of_renewed (h : s.Renewed id f) : s.RenewedFor id i f :=
  ⟨h.made, fun o ho hrs _ => h.reset o ho hrs⟩

namespace Served

theorem mono (hw : s.service.Wired) (hs : s.Served id) (hsv : t.service = s.service)
    (hco : t.connections = s.connections) (hm : s.made ≤ t.made)
    (hsr : ∀ f, f < s.made → t.source f = s.source f)
    (ho : ∀ o ∈ t.outcomes, o.isReset id → o ∈ s.outcomes ∨ o.called = s.service.called) :
    t.Served id := by
  intro i c hc hk hru
  rw [hsv] at hc
  obtain ⟨f, hf, hre⟩ := hs i c hc hk hru
  exact ⟨f, hco ▸ hf, hre.mono (hw.call hc).1 hm hsr ho⟩

theorem answer (hw : s.service.Wired) (hs : s.Served id) {o : Outcome}
    (hsv : t.service = s.service) (hco : t.connections = s.connections)
    (hm : t.made = s.made) (hsr : t.source = s.source)
    (ho : t.outcomes = s.outcomes ++ [o]) (hcl : o.called = s.service.called) :
    t.Served id := by
  refine hs.mono hw hsv hco (Nat.le_of_eq hm.symm) (by simp [hsr])
    fun p hp _ => ?_
  rw [ho, mem_append, mem_singleton] at hp
  rcases hp with hp | rfl
  · exact .inl hp
  · exact .inr hcl

theorem job_before {i : Nat} {c c' : Call} {x x' : Handle} {a : CallAct}
    (h : c.Step config i x a c' x') (hru : c'.jobRuns = true) :
    c.jobRuns = true ∨ c.holds = true ∧ x.database.isSome = true := by
  cases h with
  | spawn hc hd => exact .inr ⟨by rw [Call.holds, hc], by rw [hd]; rfl⟩
  | deadline hc | cancelRunning hc =>
    left
    simpa [Call.jobRuns, hc, Stage.job] using hru
  | beginStatement | hook | visible | rollback => exact .inl hru
  | endStatement ok hc => exact .inl (by simp [Call.jobRuns, hc, Job.runs])
  | finish panicked hc hj => exact .inl (by simp [Call.jobRuns, hc, hj])
  | _ => simp [Call.jobRuns, Stage.job] at hru

theorem service (hr : (D1.machine config).Reachable s.service) (hcu : s.Current config id)
    (hs : s.Served id) {a : D1.Act} {r : D1.State} (heq : s.service.step config a = some r) :
    (s.after a r).Served id := by
  intro i c hc hk hru
  have hw := D1.State.wired_of_reach hr
  have hst := D1.State.step_of_eq heq
  obtain ⟨d, hd, hdk, hdh, -⟩ | ⟨hen, -⟩ := hst.call_before hc
  · rw [← hdk] at hk
    rw [← hdh]
    suffices hold : ∃ f, s.connections d.handle = some f ∧ s.RenewedFor id i f by
      obtain ⟨f, hf, hre⟩ := hold
      exact ⟨f, hf, hre.made, hre.reset⟩
    rcases hst.call_after hw hd with hsa | ⟨act, c', x, x', -, hc', hx, h⟩
    · obtain rfl : c = d := mem_unique hc hsa
      exact hs i c hd hk hru
    · obtain rfl : c = c' := some.inj (hc.symm.trans hc')
      rcases job_before h hru with hold | ⟨hh, hda⟩
      · exact hs i d hd hk hold
      · have hentry := D1.State.placed_of_reach hr i d hd hh
        rw [hk] at hentry
        have hl := D1.State.live_of_holds hr hd hx hh hda
        obtain ⟨f, hf, hre⟩ := hcu.connection _ x hentry hl
        exact ⟨f, hf, .of_renewed hre⟩
  · rw [Call.jobRuns, hen] at hru
    cases hru

theorem learn (hr : (D1.machine config).Reachable s.service) (hs : s.Served id) {j : Nat}
    {d : Call} (hd : s.service.calls j = some d) (hst : d.stage = .opening) {a : RunAct}
    (heq : s.service.step config (.call j (.run a)) = some t.service)
    (hco : ∀ h, h ≠ d.handle → t.connections h = s.connections h)
    (hm : t.made = s.made) (hsr : t.source = s.source)
    (hou : t.outcomes = s.outcomes) : t.Served id := by
  obtain ⟨e, e', x, x', he, hx, hstep, hp⟩ := D1.State.step_call heq
  obtain rfl : d = e := mem_unique hd he
  have hgu := D1.State.guarded_of_reach hr d.handle x hx
  intro i c hc hk hru
  rw [hp] at hc
  rcases update_some_eq_some hc with ⟨rfl, rfl⟩ | ⟨hij, hc⟩
  · rw [hstep.jobRuns_of_opening hst] at hru
    cases hru
  · have hot : c.handle ≠ d.handle := by
      intro hh
      have hi := (hgu i).2 ⟨c, hc, hh, Call.guards_of_jobRuns hru⟩
      have hj := (hgu j).2 ⟨d, hd, rfl, by rw [Call.guards, hst]⟩
      exact hij (mem_unique hi hj)
    obtain ⟨f, hf, hre⟩ := hs i c hc hk hru
    refine ⟨f, (hco _ hot).trans hf, ?_⟩
    exact hre.mono ((D1.State.wired_of_reach hr).call hc).1 (Nat.le_of_eq hm.symm)
      (by simp [hsr]) fun o ho _ => .inl (hou ▸ ho)

theorem step {a : Act} (hr : (D1.machine config).Reachable s.service)
    (hcu : s.Current config id) (hs : s.Served id) (h : s.Step config a t) : t.Served id := by
  have hw := D1.State.wired_of_reach hr
  cases h with
  | service hal heq => exact hs.service hr hcu heq
  | opening hc ho hcl h =>
    have hk : Keeps id s t := h.keeps
    cases h with
    | learnOpened heq =>
      exact hs.learn hr hc (hcl.resolve_left (by simp [Opening.isBlocking])) heq
        (fun h hh => update_of_ne hh _ _) rfl rfl rfl
    | learnFailed heq =>
      exact hs.learn hr hc (hcl.resolve_left (by simp [Opening.isBlocking])) heq
        (fun _ _ => rfl) rfl rfl rfl
    | _ =>
      exact hs.mono hw rfl rfl hk.made hk.source fun o ho hrs => .inl (hk.outcomes o ho hrs)
  | makeBeside | unlink =>
    exact hs.mono hw rfl rfl (Nat.le_refl _) (fun _ _ => rfl) fun _ ho _ => .inl ho
  | start hid ha hd heq =>
    have ht : s.service.Thinned (fun _ => True) _ :=
      D1.State.thinned_of_detach (fun _ _ => trivial) hd
    intro i c hc hke hru
    obtain ⟨f, hf, hre⟩ := hs i c (ht.calls ▸ hc) hke hru
    exact ⟨f, hf, hre.made, hre.reset⟩
  | refused hid han => exact hs.answer hw rfl rfl rfl rfl rfl rfl
  | upkeep hu h =>
    cases h with
    | found | missing | next | entry =>
      exact hs.mono hw rfl rfl (Nat.le_refl _) (fun _ _ => rfl) fun _ ho _ => .inl ho
    | fails | done | emptied => exact hs.answer hw rfl rfl rfl rfl rfl rfl
  | crash =>
    intro i c hc
    cases hc

end Served

theorem served_of_reach (hs : (machine config).Reach (Undisturbed (.database id)) s) :
    s.Served id := by
  refine hs.invariant (I := Served id) (fun i c hc => ?_) fun _ _ _ hrc hI _ h =>
    hI.step (reachable_service hrc) (current_of_reach hrc) (step_of_eq h)
  cases hc

/-! ## What is asked of a reset -/

/-- A call on the database that began after a `reset_to_snapshot` had returned `Ok` runs on a
database that was made after that, from a snapshot no older than the latest of that time; and no
call reports what it committed to a file that was moved aside. -/
structure ResetHolds (config : Config) (id : BitVec 128) (s : State) : Prop where
  renewed : ∀ o ∈ s.outcomes, o.isReset id → ∀ i c, s.service.calls i = some c →
    c.key = .database id → o.called ≤ i → c.jobRuns = true →
      ∃ f, s.connections c.handle = some f ∧ o.made ≤ f ∧ o.snapshots (.database id) ≤ s.source f
  reported : ∀ i c t, s.service.calls i = some c → c.key = .database id →
    s.step config (.service (.call i (.run .learn))) = some t → ∀ f ∈ s.wrote i, (id, f) ∉ s.aside

/-- **A reset holds**, under the condition on its database. -/
theorem reset_renews (config : Config) (id : BitVec 128) {s : State}
    (hs : (machine config).Reach (Undisturbed (.database id)) s) : s.ResetHolds config id := by
  refine ⟨fun o ho hrst i c hc hkey hcalled hruns => ?_, fun i c t hc hkey h => ?_⟩
  · obtain ⟨f, hf, hren⟩ := served_of_reach hs i c hc hkey hruns
    exact ⟨f, hf, hren.reset o ho hrst hcalled⟩
  · obtain ⟨r, hr', rfl⟩ := map_eq_some_iff.1 h
    obtain ⟨d, d', x, x', hd, -, hstep, -⟩ := D1.State.step_call hr'
    obtain rfl : c = d := Option.mem_unique hc hd
    refine (current_of_reach hs).wrote i c hc hkey ?_
    cases hstep with
    | learn hst => rw [Call.holds, hst]

end State

theorem reset_renews_next_call :
    ∃ s, (machine ⟨64, 256, 300, true⟩).Reach (State.Undisturbed (.database 1)) s ∧
      ∃ o ∈ s.outcomes, o.isReset 1 ∧ o.snapshots (.database 1) = 1 ∧
        ∃ c f, s.service.calls 1 = some c ∧ c.jobRuns = true ∧ s.connections c.handle = some f ∧
          o.made ≤ f ∧ 1 ≤ s.source f := by
  obtain ⟨s, hs, hp⟩ := Machine.exists_reach_of_runIf (M := machine ⟨64, 256, 300, true⟩)
    State.undisturbedNow (fun _ _ _ h => State.undisturbed_of_now h)
    (firstCall (.database 1) ++ Act.upkeep (.start (.reset 1)) :: moveFiles ++
      restoreOf (.database 1) 1 ++
      [Act.opening 1 (.install .renamed), .opening 1 .spawn, .opening 1 (.connect true),
        .opening 1 (.prepare none), .opening 1 .learn, .service (.call 1 (.run .spawn))])
    (fun s => (s.outcomes.any fun o => o.work == .reset 1 && o.answer == .reset (.ok ()) &&
        o.called == 1 && o.snapshots (.database 1) == 1) &&
      (s.service.calls 1).any fun c => c.key == .database 1 && c.jobRuns) (by decide +kernel)
  simp only [Bool.and_eq_true, List.any_eq_true, Option.any_eq_true, beq_iff_eq] at hp
  obtain ⟨⟨o, ho, ⟨⟨hwork, hans⟩, hcalled⟩, hsnap⟩, c, hc, hkey, hruns⟩ := hp
  obtain ⟨f, hf, hmade, hsrc⟩ := (State.reset_renews _ 1 hs).renewed o ho ⟨hwork, hans⟩ 1 c hc
    hkey (Nat.le_of_eq hcalled) hruns
  exact ⟨s, hs, o, ho, ⟨hwork, hans⟩, hsnap, c, f, hc, hruns, hf, hmade, hsnap ▸ hsrc⟩

def openAgain (key : Key) (i : Nat) : List Act :=
  [.service (.submit key none 0), .service (.call i (.submit .count)),
    .service (.call i (.run .lock)), .service (.call i (.run .openFile)),
    .opening i (.createDirectory true), .opening i .exists, .opening i .spawn,
    .opening i (.connect true), .opening i (.prepare none), .opening i .learn]

/-- **A call reports a commit that is lost**: it opens the file between the release of the lock and
the rename. -/
theorem commit_moved_aside : ¬ ∀ config id s, (machine config).Reachable s →
    State.ResetHolds config id s := by
  intro h
  obtain ⟨s, hs, hp⟩ := (machine ⟨64, 256, 300, true⟩).exists_of_run
    (firstCall (.database 1) ++ Act.upkeep (.start (.reset 1)) :: openAgain (.database 1) 1 ++
      moveFiles ++ commit 1)
    (fun s => ((s.service.calls 1).any fun c => c.key == .database 1) &&
      (s.step ⟨64, 256, 300, true⟩ (.service (.call 1 (.run .learn)))).isSome &&
      s.wrote 1 == [0] && s.aside == [(1, 0)]) (by decide +kernel)
  simp only [Bool.and_eq_true, Option.any_eq_true, beq_iff_eq] at hp
  obtain ⟨⟨⟨⟨c, hc, hkey⟩, hstep⟩, hwrote⟩, hasd⟩ := hp
  obtain ⟨t, ht⟩ := isSome_iff_exists.1 hstep
  refine (h _ 1 s hs).reported 1 c t hc hkey ht 0 ?_ ?_
  · rw [hwrote]
    decide
  · rw [hasd]
    decide

end OpenWorkersRunner.D1.Files
