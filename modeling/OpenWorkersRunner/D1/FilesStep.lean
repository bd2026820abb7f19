import OpenWorkersRunner.D1.Files

/-!
# D1: what a step does to the files

`OpenStep`, `UpkeepStep` and `Step` say once what each step of the machine of
`OpenWorkersRunner.D1.Files` can do, and `step_of_eq` that it does nothing else.
`reachable_service` is the way back to the service: its part of a reachable state is a reachable
state of the service, so what is known of calls, guards and entries is known here.
-/

namespace OpenWorkersRunner.D1

open Function Option

variable {config : Config}

/-! ## Connections -/

variable {x x' : Handle} {a : CallAct} {c c' : Call} {i : Nat}

theorem Snapshot.step_database {p : Snapshot} {a : PassAct} {p' : Option Snapshot}
    (h : p.step x a = some (p', x')) : x'.database = x.database := by
  unfold Snapshot.step at h
  split at h <;> cases h <;> rfl

/-- The step of a call that opens a connection is `opened`; the step that takes a free guard is
`lock`. -/
theorem Call.Step.connection (h : c.Step config i x a c' x') (ha : a ≠ .run .opened)
    (hx' : x'.database.isSome = true) :
    x.database.isSome = true ∧ (x'.guard.isSome = true → x.guard.isSome = true ∨ c.holds = true) :=
  by
  cases h with
  | opened hc => exact absurd rfl ha
  | lock hc hf => exact ⟨hx', fun _ => .inr (by rw [Call.holds, hc])⟩
  | beginStatement hc hd | hook hc hd | visible hc hd | rollback hc hd | endStatement ok hc hd =>
    exact ⟨by rw [hd]; rfl, .inl⟩
  | deadline hc | cancelRunning hc =>
    exact ⟨by simpa [Handle.interrupt] using hx', .inl⟩
  | notOpened | cancelOpening | finish =>
    refine ⟨hx', fun h => ?_⟩
    cases h
  | _ => exact ⟨hx', .inl⟩

theorem Call.Step.of_opening (h : c.Step config i x a c' x') (hc : c.stage = .opening) :
    a = .run .opened ∨ (∃ failure, a = .run (.notOpened failure)) ∨ a = .run .cancel := by
  cases h <;> simp_all [Stage.job]

theorem Call.Step.jobRuns_of_opening (h : c.Step config i x a c' x') (hc : c.stage = .opening) :
    c'.jobRuns = false := by
  cases h <;> simp_all [Stage.job, Call.jobRuns]

theorem Call.guards_of_not_holds (h : c.holds = false) : c.guards = c.jobRuns := by
  rw [Call.holds] at h
  split at h
  next hst =>
    rw [Call.guards, hst]
  next hst =>
    rw [Call.guards, hst]
  · cases h

namespace State

structure Live (s : State) (h : Nat) (x : Handle) : Prop where
  handle : s.handles h = some x
  database : x.database.isSome = true
  referred : s.databases.lookup x.key = some h ∨ x.guard.isSome = true

variable {s t : State} {a : Act}

theorem Thinned.connection {taken : Key → Prop} (ht : s.Thinned taken t) {h : Nat} {x' : Handle}
    (hx' : t.handles h = some x') (hd : x'.database.isSome = true) :
    ∃ x, s.handles h = some x ∧ x.database.isSome = true ∧ x.key = x'.key ∧ x.guard = x'.guard := by
  rcases ht.handle h with heq | ⟨x, hx, hcl⟩
  · exact ⟨x', heq ▸ hx', hd, rfl, rfl⟩
  · obtain rfl : x' = x.close := some.inj (hx'.symm.trans hcl)
    refine ⟨x, hx, ?_, rfl, rfl⟩
    rw [Handle.close] at hd
    dsimp only at hd
    split at hd
    · cases hd
    · exact hd

theorem Step.live_before (hw : s.Wired) (hpl : s.Placed Call.holds) (h : s.Step config a t)
    (ha : ∀ i, a ≠ .call i (.run .opened)) {g : Nat} {x' : Handle} (hx' : t.Live g x') :
    ∃ x, s.Live g x ∧ x.key = x'.key ∧
      (t.databases.lookup x'.key = some g → s.databases.lookup x'.key = some g) := by
  obtain ⟨hg, hd, hre⟩ := hx'
  cases h with
  | enter victim now hen => exact ⟨x', ⟨hg, hd, hre⟩, rfl, id⟩
  | @create k r victim now hn ht =>
    rcases update_some_eq_some hg with ⟨rfl, rfl⟩ | ⟨hne, hold⟩
    · cases hd
    · obtain ⟨x, hx, hxd, hkey, hgr⟩ := ht.connection hold hd
      -- the new entry has the new handle
      have hen : ((r.create k now).enter k r.made).databases.lookup x'.key = some g →
          s.databases.lookup x'.key = some g := by
        intro hen
        by_cases hk : x'.key = k
        · rw [hk] at hen
          exact absurd (some.inj (hen.symm.trans (AList.lookup_insert _))) hne
        · exact ht.entry ((AList.lookup_insert_ne hk).symm.trans hen)
      refine ⟨x, ⟨hx, hxd, ?_⟩, hkey, hen⟩
      rw [hkey, hgr]
      exact hre.imp_left hen
  | @call i act c c' x y hc hx h =>
    rcases handles_put hg with ⟨rfl, rfl⟩ | ⟨-, hg⟩
    · obtain ⟨hxd, hgr⟩ := h.connection (fun hac => ha i (by rw [hac])) hd
      rw [h.keys.2.1]
      refine ⟨x, ⟨hx, hxd, ?_⟩, h.keys.2.2.symm, id⟩
      rcases hre with hen | hgu
      · rw [h.keys.2.1, h.keys.2.2] at hen
        exact .inl hen
      · -- who takes a free guard has the handle of the entry
        refine (hgr hgu).symm.imp_left fun hh => ?_
        obtain ⟨-, z, hz, hkey⟩ := hw.call hc
        obtain rfl : z = x := mem_unique hz hx
        rw [hkey]
        exact hpl i c hc hh
    · exact ⟨x', ⟨hg, hd, hre⟩, rfl, id⟩
  | thin ht =>
    obtain ⟨x, hx, hxd, hkey, hgr⟩ := ht.connection hg hd
    refine ⟨x, ⟨hx, hxd, ?_⟩, hkey, ht.entry⟩
    rw [hkey, hgr]
    exact hre.imp_left ht.entry
  | snapshotAll todo | load now hp hx | passEnds a => exact ⟨x', ⟨hg, hd, hre⟩, rfl, id⟩
  | snapshot hp hcu hx h =>
    rcases update_some_eq_some hg with ⟨rfl, rfl⟩ | ⟨-, hg⟩
    · have hke := Snapshot.step_kept h
      refine ⟨_, ⟨hx, ?_, ?_⟩, hke.key.symm, id⟩
      · rwa [← Snapshot.step_database h]
      · rw [← hke.key, ← hke.guard]
        exact hre
    · exact ⟨x', ⟨hg, hd, hre⟩, rfl, id⟩

theorem live_of_holds {ok : State → Act → Prop} (hs : (machine config).Reach ok s) {i : Nat}
    {c : Call} {x : Handle} (hc : s.calls i = some c) (hx : s.handles c.handle = some x)
    (hh : c.holds = true) (hd : x.database.isSome = true) : s.Live c.handle x := by
  obtain ⟨-, y, hy, hk⟩ := (wired_of_reach hs).call hc
  obtain rfl : y = x := mem_unique hy hx
  refine ⟨hx, hd, .inl ?_⟩
  rw [hk]
  exact placed_of_reach hs i c hc hh

theorem live_opened (hw : s.Wired) {i : Nat} (h : s.step config (.call i (.run .opened)) = some t)
    {g : Nat} {x : Handle} (hx : t.Live g x) :
    s.Live g x ∨ ∃ c, s.calls i = some c ∧ g = c.handle ∧ x.key = c.key := by
  obtain ⟨c, c', y, y', hc, hy, hst, rfl⟩ := step_call h
  rcases handles_put hx.handle with ⟨rfl, rfl⟩ | ⟨-, hold⟩
  · obtain ⟨-, z, hz, hk⟩ := hw.call hc
    obtain rfl : z = y := mem_unique hz hy
    exact .inr ⟨c, hc, hst.keys.2.1, hst.keys.2.2.trans hk⟩
  · exact .inl ⟨hold, hx.database, hx.referred⟩

end State

namespace Files

def Work.act : Work → D1.Act
  | .reset id => .resetToSnapshot id (.ok ())
  | .remove id => .removeFiles id true
  | .removeNamespace namespaceId => .removeNamespaceFiles namespaceId true

theorem Work.covers_database {work : Work} {id : BitVec 128}
    (h : work = .reset id ∨ work = .remove id) : work.covers (.database id) = true := by
  rcases h with rfl | rfl <;> simp [Work.covers]

theorem Work.id_unique {work : Work} {id id' : BitVec 128}
    (h : work = .reset id ∨ work = .remove id) (h' : work = .reset id' ∨ work = .remove id') :
    id = id' := by
  rcases h with rfl | rfl <;> simpa using h'

def Answer.failed : Answer → Bool
  | .reset (.error _) | .removed false => true
  | _ => false

namespace State

/-! ## The steps -/

inductive OpenStep (config : Config) (s : State) (i : Nat) (c : Call) :
    Opening → OpenAct → State → Prop
  | createDirectory :
      OpenStep config s i c .directory (.createDirectory true)
        ((s.makeDirectory c.key).goto i .checking)
  | existing (h : config.archive = false ∨ s.file c.key .sqlite ≠ none) :
      OpenStep config s i c .checking .exists (s.goto i .restored)
  | missing (harchive : config.archive = true) (hnone : s.file c.key .sqlite = none) :
      OpenStep config s i c .checking .exists (s.goto i .fetching)
  | noSnapshot (h : s.snapshots c.key = 0) :
      OpenStep config s i c .fetching (.fetch true) (s.goto i .restored)
  | fetched (h : s.snapshots c.key ≠ 0) :
      OpenStep config s i c .fetching (.fetch true) (s.goto i (.restoring (s.snapshots c.key)))
  | write {snapshot : Nat} (hdir : s.hasDirectory c.key = true) :
      OpenStep config s i c (.restoring snapshot) (.write true)
        ((s.make ⟨c.key, .restoreScratch⟩ snapshot).goto i .written)
  | renamed {f : Nat} (hf : s.file c.key .restoreScratch = some f) :
      OpenStep config s i c .written (.install .renamed)
        { s.remove ⟨c.key, .restoreScratch⟩ with
          files := (s.remove ⟨c.key, .restoreScratch⟩).files.insert ⟨c.key, .sqlite⟩ f
          openings := Function.update s.openings i (some .restored) }
  | corrupt :
      OpenStep config s i c .written (.install .corrupt)
        ((s.remove ⟨c.key, .restoreScratch⟩).goto i (.failed .restore))
  | spawn : OpenStep config s i c .restored .spawn (s.goto i .opening)
  | connect {f : Nat} (hf : s.file c.key .sqlite = some f) :
      OpenStep config s i c .opening (.connect true) (s.goto i (.preparing f))
  | connectNew (hnone : s.file c.key .sqlite = none) (hdir : s.hasDirectory c.key = true) :
      OpenStep config s i c .opening (.connect true)
        ((s.make ⟨c.key, .sqlite⟩ 0).goto i (.preparing s.made))
  | prepared {f : Nat} :
      OpenStep config s i c (.preparing f) (.prepare none) (s.goto i (.opened f))
  | fails (o : Opening) (a : OpenAct) (failure : OpenFailure) :
      OpenStep config s i c o a (s.goto i (.failed failure))
  | learnOpened {f : Nat} {t : D1.State}
      (h : s.service.step config (.call i (.run .opened)) = some t) :
      OpenStep config s i c (.opened f) .learn
        { s with
          service := t
          connections := Function.update s.connections c.handle (some f)
          openings := Function.update s.openings i none }
  | learnFailed {failure : OpenFailure} {t : D1.State}
      (h : s.service.step config (.call i (.run (.notOpened failure))) = some t) :
      OpenStep config s i c (.failed failure) .learn
        { s with service := t, openings := Function.update s.openings i none }

inductive UpkeepStep (s : State) (u : Upkeep) : UpkeepAct → State → Prop
  | found {id : BitVec 128} {suffix : Suffix} {todo : List Suffix} (hwork : u.work = .reset id)
      (htodo : u.todo = suffix :: todo) (hfile : s.file (.database id) suffix ≠ none) :
      UpkeepStep s u .exists { s with upkeep := some { u with found := true } }
  | missing {id : BitVec 128} {suffix : Suffix} {todo : List Suffix} (hwork : u.work = .reset id)
      (htodo : u.todo = suffix :: todo) (hfile : s.file (.database id) suffix = none) :
      UpkeepStep s u .exists { s with upkeep := some { u with todo := todo } }
  | next {id : BitVec 128} {suffix : Suffix} {todo : List Suffix} {aside : List (BitVec 128 × Nat)}
      (hwork : u.work = .reset id ∨ u.work = .remove id) (htodo : u.todo = suffix :: todo)
      (haside : aside = s.aside ∨ suffix = .sqlite ∧
        ∃ f, s.file (.database id) .sqlite = some f ∧ aside = s.aside ++ [(id, f)]) :
      UpkeepStep s u (.take none) { s.take u ⟨.database id, suffix⟩ todo with aside := aside }
  | entry {namespaceId : BitVec 128} (objectId : BitVec 256) (suffix : Suffix)
      (hwork : u.work = .removeNamespace namespaceId) :
      UpkeepStep s u (.takeEntry objectId suffix)
        (s.take u ⟨.object namespaceId objectId, suffix⟩ u.todo)
  | fails (error : String) {answer : Answer} (hanswer : answer.failed = true) :
      UpkeepStep s u (.take (some error)) (s.answer u.work u.taken answer)
  | done {id : BitVec 128} {answer : Answer} (hwork : u.work = .reset id ∨ u.work = .remove id)
      (htodo : u.todo = []) (hanswer : answer.failed = false) :
      UpkeepStep s u .finish (s.answer u.work u.taken answer)
  | emptied {namespaceId : BitVec 128} (hwork : u.work = .removeNamespace namespaceId)
      (hempty : ∀ name f, s.files.lookup name = some f → name.key.isOf namespaceId = false) :
      UpkeepStep s u .finish
        ({ s with directories := Function.update s.directories namespaceId false }.answer u.work
          u.taken (.removed true))

inductive Step (config : Config) (s : State) : Act → State → Prop
  | service {a : D1.Act} {t : D1.State} (hallows : s.allows a = true)
      (heq : s.service.step config a = some t) : Step config s (.service a) (s.after a t)
  | opening {i : Nat} {c : Call} {o : Opening} {a : OpenAct} {t : State}
      (hc : s.service.calls i = some c) (ho : s.openings i = some o)
      (hcaller : o.isBlocking = true ∨ c.stage = .opening) (h : s.OpenStep config i c o a t) :
      Step config s (.opening i a) t
  | makeBeside {m : Maker} {suffix : Suffix} {key : Key} {f : Nat} (hm : s.maker m = some (key, f))
      (hsuffix : suffix ∈ [Suffix.wal, .shm, .snapshotScratch])
      (hdir : s.hasDirectory key = true) (hnone : s.file key suffix = none) :
      Step config s (.makeBeside m suffix) { s with files := s.files.insert ⟨key, suffix⟩ f }
  | unlink {name : Name} (h : name.suffix ≠ .sqlite) : Step config s (.unlink name) (s.remove name)
  | start {work : Work} {t : D1.State} (hidle : s.upkeep = none)
      (harchive : ∀ id, work = .reset id → config.archive = true)
      (hdetach : s.service.detach work.covers = some t)
      (heq : s.service.step config work.act = some t) :
      Step config s (.upkeep (.start work)) (s.start t work)
  | refused {work : Work} {answer : Answer} (hidle : s.upkeep = none)
      (hanswer : answer.failed = true) :
      Step config s (.upkeep (.start work)) (s.answer work [] answer)
  | upkeep {u : Upkeep} {a : UpkeepAct} {t : State} (hu : s.upkeep = some u)
      (h : s.UpkeepStep u a t) : Step config s (.upkeep a) t
  | crash : Step config s .crash s.crash

variable {s t : State}

variable {a : OpenAct} {c : Call} {i : Nat} {o : Opening}

theorem openStep_of_eq (h : s.stepOpening config i c o a = some t) :
    s.OpenStep config i c o a t := by
  unfold stepOpening at h
  split at h
  · cases h; exact .createDirectory
  · cases h; exact .fails ..
  · cases h
    split
    · refine .existing ?_
      simp_all [isSome_iff_ne_none]
    · refine .missing ?_ ?_ <;> simp_all
  · cases h
    split
    · exact .noSnapshot ‹_›
    · exact .fetched ‹_›
  · cases h; exact .fails ..
  · split at h
    · cases h; exact .write ‹_›
    · cases h
  · cases h; exact .fails ..
  · obtain ⟨f, hf, rfl⟩ := map_eq_some_iff.1 h
    exact .renamed hf
  · cases h; exact .corrupt
  · cases h; exact .fails ..
  · split at h
    · split at h
      · cases h; exact .fails ..
      · cases h
    · cases h
  · cases h; exact .spawn
  · split at h
    · cases h; exact .connect ‹_›
    · split at h
      · cases h; exact .connectNew ‹_› ‹_›
      · cases h
  · cases h; exact .fails ..
  · cases h; exact .prepared
  · cases h; exact .fails ..
  · cases h; exact .fails ..
  · obtain ⟨r, hr, rfl⟩ := map_eq_some_iff.1 h
    exact .learnOpened hr
  · obtain ⟨r, hr, rfl⟩ := map_eq_some_iff.1 h
    exact .learnFailed hr
  · cases h

theorem upkeepStep_of_eq {u : Upkeep} {a : UpkeepAct} (h : s.stepUpkeep u a = some t) :
    s.UpkeepStep u a t := by
  unfold stepUpkeep at h
  split at h
  · split at h
    · cases h
    · cases h
      split
      · exact .found ‹_› ‹_› (isSome_iff_ne_none.1 ‹_›)
      · exact .missing ‹_› ‹_› (by simp_all)
  · split at h
    · obtain ⟨f, hf, rfl⟩ := map_eq_some_iff.1 h
      refine .next (.inl ‹_›) ‹_› ?_
      split
      next hsu =>
        exact .inr ⟨hsu, f, hsu ▸ hf, rfl⟩
      · exact .inl rfl
    · cases h
  next hw _ =>
    split at h
    · cases h
      rw [← hw]
      exact .fails _ rfl
    · cases h
  next hw ht =>
    cases h
    rw [← hw]
    exact .done (.inl hw) ht rfl
  · cases h; exact .next (.inr ‹_›) ‹_› (.inl rfl)
  next hw _ =>
    cases h
    rw [← hw]
    exact .fails _ rfl
  next hw ht =>
    cases h
    rw [← hw]
    exact .done (.inr hw) ht rfl
  · cases h; exact .entry _ _ ‹_›
  next hw =>
    cases h
    rw [← hw]
    exact .fails _ rfl
  next hw =>
    split at h
    next hem =>
      cases h
      rw [← hw]
      refine .emptied hw fun name f hf => ?_
      have := List.all_eq_true.1 hem _ (AList.lookup_eq_some_iff.1 hf)
      simpa using this
    · cases h
  · cases h

theorem step_begin (hid : s.upkeep = none) (work : Work) :
    s.Step config (.upkeep (.start work)) (s.begin config work) := by
  cases work with
  | reset id =>
    rw [begin]
    split
    next r heq =>
      have hst : s.service.step config (Work.reset id).act = some r :=
        congrArg some (congrArg Prod.fst heq)
      rw [D1.State.resetToSnapshot] at heq
      split at heq
      next ha =>
        split at heq
        next hd =>
          cases heq
          exact .start hid (fun _ _ => ha) hd hst
        · cases heq
      · cases heq
    · exact .refused hid rfl
  | remove id =>
    rw [begin]
    split
    next r heq =>
      have hst : s.service.step config (Work.remove id).act = some r :=
        congrArg some (congrArg Prod.fst heq)
      rw [D1.State.removeFiles] at heq
      split at heq
      next hd =>
        cases heq
        exact .start hid nofun hd hst
      · cases heq
    · exact .refused hid rfl
  | removeNamespace ns =>
    rw [begin]
    split
    next r heq =>
      have hst : s.service.step config (Work.removeNamespace ns).act = some r :=
        congrArg some (congrArg Prod.fst heq)
      rw [D1.State.removeNamespaceFiles] at heq
      split at heq
      next hd =>
        cases heq
        exact .start hid nofun hd hst
      · cases heq
    · exact .refused hid rfl

/-- **The machine does nothing else.** -/
theorem step_of_eq {a : Act} (h : s.step config a = some t) : s.Step config a t := by
  cases a with
  | service a =>
    rw [step] at h
    split at h
    · obtain ⟨r, hr, rfl⟩ := map_eq_some_iff.1 h
      exact .service ‹_› hr
    · cases h
  | opening i a =>
    obtain ⟨c, hc, h⟩ := bind_eq_some_iff.1 h
    obtain ⟨o, ho, h⟩ := bind_eq_some_iff.1 h
    split at h
    next hcl =>
      refine .opening hc ho ?_ (openStep_of_eq h)
      simpa using hcl
    · cases h
  | makeBeside m suf =>
    obtain ⟨⟨key, f⟩, hm, h⟩ := bind_eq_some_iff.1 h
    split at h
    next hco =>
      cases h
      exact .makeBeside hm hco.1 hco.2.1 hco.2.2
    · cases h
  | unlink name =>
    rw [step] at h
    split at h
    · cases h
    · cases h; exact .unlink ‹_›
  | upkeep a =>
    unfold step at h
    dsimp only at h
    split at h
    · cases h; exact step_begin ‹_› _
    · exact .upkeep ‹_› (upkeepStep_of_eq h)
    · cases h
  | crash => cases h; exact .crash

theorem OpenStep.file (h : s.OpenStep config i c o a t) (key : Key) {suf : Suffix}
    (hsu : suf ∈ suffixes) :
    t.file key suf = s.file key suf ∨ key = c.key ∧ suf = .sqlite ∧ t.file key suf ≠ none := by
  have hsc : (⟨key, suf⟩ : Name) ≠ ⟨c.key, .restoreScratch⟩ := by
    rintro heq
    cases heq
    simp [suffixes] at hsu
  cases h with
  | write hd => exact .inl (AList.lookup_insert_ne hsc)
  | corrupt => exact .inl (AList.lookup_erase_ne hsc)
  | @renamed f hf =>
    by_cases hn : (⟨key, suf⟩ : Name) = ⟨c.key, .sqlite⟩
    · cases hn
      refine .inr ⟨rfl, rfl, ?_⟩
      rw [State.file, AList.lookup_insert]
      simp
    · exact .inl ((AList.lookup_insert_ne hn).trans (AList.lookup_erase_ne hsc))
  | connectNew hno hd =>
    by_cases hn : (⟨key, suf⟩ : Name) = ⟨c.key, .sqlite⟩
    · cases hn
      refine .inr ⟨rfl, rfl, ?_⟩
      exact ne_of_eq_of_ne (AList.lookup_insert _) (by simp)
    · exact .inl (AList.lookup_insert_ne hn)
  | _ => exact .inl rfl

theorem OpenStep.file_other (h : s.OpenStep config i c o a t) {key : Key} (hk : c.key ≠ key)
    (suffix : Suffix) : t.file key suffix = s.file key suffix := by
  have hn : ∀ x, (⟨key, suffix⟩ : Name) ≠ ⟨c.key, x⟩ :=
    fun x heq => hk (congrArg Name.key heq).symm
  cases h with
  | write | connectNew => exact AList.lookup_insert_ne (hn _)
  | corrupt => exact AList.lookup_erase_ne (hn _)
  | renamed => exact (AList.lookup_insert_ne (hn _)).trans (AList.lookup_erase_ne (hn _))
  | _ => rfl

/-! ## Back to the service -/

theorem Step.service_after {a : Act} (h : s.Step config a t) :
    t.service = s.service ∨ (∃ a, s.service.step config a = some t.service) ∨
      t.service = .empty := by
  cases h with
  | service hal heq => exact .inr (.inl ⟨_, heq⟩)
  | opening hc ho hcl h =>
    cases h with
    | learnOpened h | learnFailed h => exact .inr (.inl ⟨_, h⟩)
    | _ => exact .inl rfl
  | makeBeside hm hsu hd hn => exact .inl rfl
  | unlink h => exact .inl rfl
  | start hid ha hde heq => exact .inr (.inl ⟨_, heq⟩)
  | refused hid han => exact .inl rfl
  | upkeep hu h => cases h <;> exact .inl rfl
  | crash => exact .inr (.inr rfl)

/-- **The service with its files is the service otherwise.** -/
theorem reachable_service {ok : State → Act → Prop} (hs : (machine config).Reach ok s) :
    (D1.machine config).Reachable s.service := by
  refine hs.invariant (I := fun s => (D1.machine config).Reachable s.service) .init
    fun s a t _ hr _ h => ?_
  rcases (step_of_eq h).service_after with heq | ⟨b, hb⟩ | hem
  · rw [heq]
    exact hr
  · exact .step hr trivial hb
  · rw [hem]
    exact .init

/-! ## Nobody comes in between -/

/-- **The condition on the key**: no call on it begins while its files are moved or deleted, and no
call on it is dropped while a thread restores or opens its file. -/
def Undisturbed (key : Key) (s : State) : Act → Prop
  | .service (.submit k _ _) => k = key → ∀ u, s.upkeep = some u → u.work.covers key = false
  | .service (.call i (.run .cancel)) =>
    ∀ c o, s.service.calls i = some c → c.key = key → s.openings i = some o → o.isBlocking = false
  | _ => True

/-- A key whose files are being moved has no entry, and an opening of it has its caller. -/
structure Exclusive (key : Key) (s : State) : Prop where
  gone : ∀ u, s.upkeep = some u → u.work.covers key = true → s.service.databases.lookup key = none
  attended : ∀ i o, s.openings i = some o →
    ∃ c, s.service.calls i = some c ∧ (c.key = key → c.stage = .opening)

variable {key : Key}

theorem openingsAfter_eq_some {a : D1.Act} (h : s.openingsAfter a i = some o) :
    s.openings i = some o ∧ (a = .call i (.run .cancel) → o.isBlocking = true) ∨
      a = .call i (.run .openFile) ∧ o = .directory := by
  unfold openingsAfter at h
  split at h
  next j =>
    by_cases hij : i = j
    · subst hij
      rw [update_self] at h
      exact .inr ⟨rfl, (some.inj h).symm⟩
    · rw [update_of_ne hij] at h
      exact .inl ⟨h, nofun⟩
  next j =>
    split at h
    next hbl =>
      refine .inl ⟨h, fun heq => ?_⟩
      cases heq
      rw [h] at hbl
      exact hbl
    · by_cases hij : i = j
      · subst hij
        rw [update_self] at h
        cases h
      · rw [update_of_ne hij] at h
        refine .inl ⟨h, fun heq => ?_⟩
        cases heq
        exact absurd rfl hij
  next hca =>
    exact .inl ⟨h, fun heq => absurd heq (hca i)⟩

namespace Exclusive

theorem service {a : D1.Act} {r : D1.State} (hw : s.service.Wired) (hs : s.Exclusive key)
    (hok : Undisturbed key s (.service a)) (ha : s.allows a = true)
    (heq : s.service.step config a = some r) : (s.after a r).Exclusive key := by
  have hstep := D1.State.step_of_eq heq
  constructor
  · intro u hu hco
    rw [eq_none_iff_forall_ne_some]
    intro g hg
    rcases hstep.entry_before hg with hold | ⟨victim, now, rfl⟩
    · rw [hs.gone u hu hco] at hold
      cases hold
    · rw [hok rfl u hu] at hco
      cases hco
  · intro i o ho
    rcases openingsAfter_eq_some ho with ⟨hold, hca⟩ | ⟨rfl, -⟩
    · obtain ⟨c, hc, hst⟩ := hs.attended i o hold
      rcases hstep.call_after hw hc with hsa | ⟨act, c', x, x', rfl, hc', hx, h⟩
      · exact ⟨c, hsa, hst⟩
      · refine ⟨c', hc', fun hk => ?_⟩
        rw [h.keys.1] at hk
        rcases h.of_opening (hst hk) with rfl | ⟨failure, rfl⟩ | rfl
        · cases ha
        · cases ha
        · have hbl := hok c o hc hk hold
          rw [hca rfl] at hbl
          cases hbl
    · obtain ⟨c, c', x, x', hc, hx, h, rfl⟩ := D1.State.step_call heq
      cases h with
      | openFile => exact ⟨_, update_self .., fun _ => rfl⟩

variable {i : Nat} {o : Opening} {c : Call}

theorem goto (hs : s.Exclusive key) (ho : s.openings i = some o) (hsv : t.service = s.service)
    (hu : t.upkeep = s.upkeep) {o' : Option Opening}
    (hop : t.openings = update s.openings i o') : t.Exclusive key := by
  constructor
  · rw [hsv, hu]
    exact hs.gone
  · intro j p hp
    rw [hsv]
    by_cases hij : j = i
    · subst hij
      exact hs.attended j o ho
    · rw [hop, update_of_ne hij] at hp
      exact hs.attended j p hp

theorem learn {a : CallAct} (hs : s.Exclusive key)
    (heq : s.service.step config (.call i a) = some t.service) (hu : t.upkeep = s.upkeep)
    (ho : t.openings = update s.openings i none) : t.Exclusive key := by
  obtain ⟨c, c', x, x', hc, hx, h, hpu⟩ := D1.State.step_call heq
  constructor
  · rw [hpu, hu]
    exact hs.gone
  · intro j p hp
    have hij : j ≠ i := by
      rintro rfl
      rw [ho, update_self] at hp
      cases hp
    rw [ho, update_of_ne hij] at hp
    obtain ⟨d, hd, hst⟩ := hs.attended j p hp
    refine ⟨d, ?_, hst⟩
    rw [hpu]
    exact (update_of_ne hij _ _).trans hd

theorem upkeep (hs : s.Exclusive key) (hsv : t.service = s.service) (ho : t.openings = s.openings)
    (hup : ∀ u', t.upkeep = some u' → ∃ u, s.upkeep = some u ∧ u'.work = u.work) :
    t.Exclusive key := by
  constructor
  · intro u' hu' hco
    obtain ⟨u, hu, hw⟩ := hup u' hu'
    rw [hsv]
    exact hs.gone u hu (hw ▸ hco)
  · rw [hsv, ho]
    exact hs.attended

theorem start {work : Work} {r : D1.State} (hs : s.Exclusive key)
    (hd : s.service.detach work.covers = some r) : (s.start r work).Exclusive key := by
  have ht : s.service.Thinned (fun _ => True) r :=
    D1.State.thinned_of_detach (fun _ _ => trivial) hd
  constructor
  · intro u hu hco
    cases hu
    exact D1.State.lookup_of_detach hd hco
  · intro i o ho
    obtain ⟨c, hc, hst⟩ := hs.attended i o ho
    exact ⟨c, ht.calls ▸ hc, hst⟩

/-- **What a step keeps.** -/
theorem step {a : Act} (hw : s.service.Wired) (hs : s.Exclusive key) (hok : Undisturbed key s a)
    (h : s.Step config a t) : t.Exclusive key := by
  cases h with
  | service hal heq => exact hs.service hw hok hal heq
  | opening hc ho hcl h =>
    cases h with
    | learnOpened h | learnFailed h => exact hs.learn h rfl rfl
    | _ => exact hs.goto ho rfl rfl rfl
  | makeBeside hm hsu hdi hn => exact ⟨hs.gone, hs.attended⟩
  | unlink h => exact ⟨hs.gone, hs.attended⟩
  | start hid ha hd heq => exact hs.start hd
  | refused hid han => exact hs.upkeep rfl rfl nofun
  | @upkeep u a t hu h =>
    cases h with
    | found | missing | next | entry =>
      refine hs.upkeep rfl rfl fun u' hu' => ⟨u, hu, ?_⟩
      cases hu'
      rfl
    | fails | done | emptied => exact hs.upkeep rfl rfl nofun
  | crash => exact ⟨nofun, nofun⟩

theorem opening_before {a : D1.Act} {r : D1.State} (hw : s.service.Wired) (hs : s.Exclusive key)
    (heq : s.service.step config a = some r) (ho : s.openingsAfter a i = some o)
    (hc : r.calls i = some c) :
    o = .directory ∨ ∃ d, s.openings i = some o ∧ s.service.calls i = some d ∧ d.key = c.key := by
  rcases openingsAfter_eq_some ho with ⟨hold, -⟩ | ⟨-, hn⟩
  · obtain ⟨d, hd, -⟩ := hs.attended i o hold
    refine .inr ⟨d, hold, hd, ?_⟩
    rcases (D1.State.step_of_eq heq).call_after hw hd with hsa | ⟨act, c', x, x', -, hc', -, h⟩
    · rw [mem_unique hc hsa]
    · rw [some.inj (hc.symm.trans hc'), h.keys.1]
  · exact .inl hn

theorem opening (hr : (D1.machine config).Reachable s.service) (hs : s.Exclusive key)
    (ho : s.openings i = some o) (hc : s.service.calls i = some c) (hk : c.key = key) :
    s.service.databases.lookup key = some c.handle ∧
      ∃ x, s.service.handles c.handle = some x ∧ x.guard = some i := by
  obtain ⟨d, hd, hst⟩ := hs.attended i o ho
  obtain rfl : d = c := mem_unique hd hc
  have hop := hst hk
  obtain ⟨-, x, hx, -⟩ := (D1.State.wired_of_reach hr).call hc
  refine ⟨?_, x, hx, ?_⟩
  · rw [← hk]
    exact D1.State.placed_of_reach hr i d hc (by rw [Call.holds, hop])
  · exact (D1.State.guarded_of_reach hr _ x hx i).2 ⟨d, hc, rfl, by rw [Call.guards, hop]⟩

/-- **One opening at a time.** -/
theorem opening_unique (hr : (D1.machine config).Reachable s.service) (hs : s.Exclusive key)
    {j : Nat} {p : Opening} {d : Call} (ho : s.openings i = some o)
    (hc : s.service.calls i = some c) (hk : c.key = key) (hp : s.openings j = some p)
    (hd : s.service.calls j = some d) (hk' : d.key = key) : i = j := by
  obtain ⟨hen, x, hx, hgr⟩ := hs.opening hr ho hc hk
  obtain ⟨hen', y, hy, hgr'⟩ := hs.opening hr hp hd hk'
  have hh : c.handle = d.handle := some.inj (hen.symm.trans hen')
  rw [hh, hy] at hx
  obtain rfl := some.inj hx
  exact some.inj (hgr.symm.trans hgr')

/-- **No opening while the files are moved.** -/
theorem not_opening (hr : (D1.machine config).Reachable s.service) (hs : s.Exclusive key)
    {u : Upkeep} (hu : s.upkeep = some u) (hco : u.work.covers key = true)
    (ho : s.openings i = some o) (hc : s.service.calls i = some c) : c.key ≠ key := by
  intro hk
  have hen := (hs.opening hr ho hc hk).1
  rw [hs.gone u hu hco] at hen
  cases hen

end Exclusive

theorem exclusive_empty : Exclusive key .empty := by
  constructor
  · intro u hu
    cases hu
  · intro i o ho
    cases ho

theorem exclusive_of_reach {ok : State → Act → Prop} (hok : ∀ s a, ok s a → Undisturbed key s a)
    (hs : (machine config).Reach ok s) : s.Exclusive key :=
  hs.invariant (I := Exclusive key) exclusive_empty fun s a _ hr hI ha h =>
    hI.step (D1.State.wired_of_reach (reachable_service hr)) (hok s a ha) (step_of_eq h)

def undisturbedNow (s : State) : Act → Bool
  | .service (.submit _ _ _) => s.upkeep.isNone
  | .service (.call _ (.run .cancel)) => false
  | _ => true

theorem undisturbed_of_now {a : Act} (h : s.undisturbedNow a = true) : Undisturbed key s a := by
  unfold Undisturbed
  split
  · intro _ u hu
    rw [undisturbedNow, hu] at h
    cases h
  · cases h
  · trivial

end State

/-! ## Runs -/

def openFirst (i : Nat) : List Act :=
  [.service (.call i (.submit .count)), .service (.call i (.run .lock)),
    .service (.call i (.run .openFile)), .opening i (.createDirectory true), .opening i .exists,
    .opening i (.fetch true), .opening i .spawn, .opening i (.connect true),
    .opening i (.prepare none), .opening i .learn]

def commit (i : Nat) : List Act :=
  [.service (.call i (.run .spawn)), .service (.call i (.job .beginStatement)),
    .service (.call i (.job .hook)), .service (.call i (.job .visible)),
    .service (.call i (.job (.endStatement true))), .service (.call i (.job (.finish false)))]

def reply (i : Nat) : List Act :=
  [.service (.call i (.run .learn)), .service (.call i (.submit .uncount)),
    .service (.call i (.submit (.touch 0))), .service (.call i (.submit .load)),
    .service (.call i (.submit .compare)), .service (.call i (.submit .check)),
    .service (.call i (.submit (.note 0)))]

def snapshotOf (h : Nat) : List Act :=
  [.service .snapshotAll, .service (.pass (.load h 0)), .service (.pass .copy),
    .service (.pass .record), .service (.pass .store), .service (.pass .reload),
    .service (.pass .note), .service (.pass .finish)]

def restoreOf (key : Key) (i : Nat) : List Act :=
  [.service (.submit key none 0), .service (.call i (.submit .count)),
    .service (.call i (.run .lock)), .service (.call i (.run .openFile)),
    .opening i (.createDirectory true), .opening i .exists, .opening i (.fetch true),
    .opening i (.write true)]

def moveFiles : List Act :=
  [.upkeep .exists, .upkeep (.take none), .upkeep .exists, .upkeep (.take none), .upkeep .exists,
    .upkeep .finish]

def firstCall (key : Key) : List Act :=
  Act.service (.submit key none 0) :: openFirst 0 ++
    [Act.makeBeside (.handle 0) .wal] ++ commit 0 ++ reply 0 ++ snapshotOf 0

end Files
end OpenWorkersRunner.D1
