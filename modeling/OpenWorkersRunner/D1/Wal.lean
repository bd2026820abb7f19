import OpenWorkersRunner.D1.FilesStep

/-!
# D1: a restored database and the WAL of the one before

SQLite takes the `-wal` it finds beside a database for the WAL of that database.
`restore_if_missing` looks at `<id>.sqlite` only, so the `-wal` and `-shm` of the database that was
there before have to be gone by then; and `reset_to_snapshot`, which moves the three files one by
one and returns at the first error, moves `<id>.sqlite` first.
-/

namespace OpenWorkersRunner.D1.Files

open Function List Option

variable {config : Config}

def Opening.isRestoring : Opening → Bool
  | .fetching | .restoring _ | .written => true
  | _ => false

def Opening.isConnected : Opening → Bool
  | .preparing _ | .opened _ => true
  | _ => false

namespace State

variable {s t : State} {key : Key}

/-! ## The condition -/

/-- **The second condition on the key**: no job of a dropped call runs on it when its files are
about to be moved or deleted, and once `<key>.sqlite` is taken no error and no end of the process
comes before the others. -/
def Whole (key : Key) (s : State) : Act → Prop
  | .upkeep (.start work) => work.covers key = true → ∀ i c, s.service.calls i = some c →
      c.key = key → c.holds = false → c.jobRuns = false
  | .upkeep (.take (some _)) | .crash => ∀ u, s.upkeep = some u → ⟨key, .sqlite⟩ ∉ u.taken
  | _ => True

def Careful (key : Key) (s : State) (a : Act) : Prop := Undisturbed key s a ∧ Whole key s a

/-! ## Connections and restores -/

/-- Where there is a connection, the file is there; where a restore is under way, it is not; and
where the file is being moved, there is no connection. -/
structure Attached (key : Key) (s : State) : Prop where
  opening : ∀ i o c, s.openings i = some o → s.service.calls i = some c → c.key = key →
    (o.isRestoring = true → s.file key .sqlite = none) ∧
      (o.isConnected = true → s.file key .sqlite ≠ none)
  live : ∀ h x, s.service.Live h x → x.key = key → s.file key .sqlite ≠ none
  still : ∀ u, s.upkeep = some u → u.work.covers key = true → ∀ h x, s.service.Live h x →
    x.key ≠ key

namespace Attached

/-- A step that leaves the file, the connections and the work alone, and makes no progress with an
opening. -/
theorem frame (hs : s.Attached key) (hf : t.file key .sqlite = s.file key .sqlite)
    (hop : ∀ i o c, t.openings i = some o → t.service.calls i = some c → c.key = key →
      o.isRestoring = false ∧ o.isConnected = false ∨
        ∃ c, s.openings i = some o ∧ s.service.calls i = some c ∧ c.key = key)
    (hl : ∀ h x, t.service.Live h x → x.key = key → ∃ x, s.service.Live h x ∧ x.key = key)
    (hup : ∀ u, t.upkeep = some u → u.work.covers key = true →
      ∃ u, s.upkeep = some u ∧ u.work.covers key = true) : t.Attached key := by
  constructor
  · intro i o c ho hc hk
    rw [hf]
    rcases hop i o c ho hc hk with ⟨hre, hco⟩ | ⟨d, ho, hd, hk⟩
    · rw [hre, hco]
      exact ⟨nofun, nofun⟩
    · exact hs.opening i o d ho hd hk
  · intro h x hx hk
    rw [hf]
    obtain ⟨y, hy, hk⟩ := hl h x hx hk
    exact hs.live h y hy hk
  · intro u hu hcovers h x hx hk
    obtain ⟨v, hv, hcovers⟩ := hup u hu hcovers
    obtain ⟨y, hy, hk⟩ := hl h x hx hk
    exact hs.still v hv hcovers h y hy hk

theorem quiet (hs : s.Attached key) (hf : t.file key .sqlite = s.file key .sqlite)
    (hsv : t.service = s.service) (hop : t.openings = s.openings)
    (hup : ∀ u, t.upkeep = some u → ∃ v, s.upkeep = some v ∧ u.work = v.work) :
    t.Attached key := by
  refine hs.frame hf (fun i o c ho hc hk => .inr ⟨c, hop ▸ ho, hsv ▸ hc, hk⟩)
    (fun h x hx hk => ⟨x, hsv ▸ hx, hk⟩) fun u hu hco => ?_
  obtain ⟨v, hv, hw⟩ := hup u hu
  exact ⟨v, hv, hw ▸ hco⟩

variable {c : Call} {i : Nat} {o : Opening}

theorem other (hs : s.Attached key) (hc : s.service.calls i = some c) (hk : c.key ≠ key)
    (hsv : t.service = s.service) (hup : t.upkeep = s.upkeep) {o' : Option Opening}
    (hop : t.openings = update s.openings i o')
    (hf : t.file key .sqlite = s.file key .sqlite) : t.Attached key := by
  refine hs.frame hf (fun j o d ho hd hk' => .inr ⟨d, ?_, hsv ▸ hd, hk'⟩)
    (fun h x hx hxk => ⟨x, hsv ▸ hx, hxk⟩) (fun u hu hco => ⟨u, hup ▸ hu, hco⟩)
  have hij : j ≠ i := by
    rintro rfl
    rw [hsv, hc] at hd
    rw [some.inj hd] at hk
    exact hk hk'
  rwa [hop, update_of_ne hij] at ho

variable (hr : (D1.machine config).Reachable s.service) (he : s.Exclusive key)
  (hs : s.Attached key)

include hr he hs

theorem own {o' : Opening} (ho : s.openings i = some o)
    (hc : s.service.calls i = some c) (hk : c.key = key) (hsv : t.service = s.service)
    (hu : t.upkeep = s.upkeep)
    (hop : t.openings = update s.openings i (some o'))
    (hf : t.file key .sqlite = s.file key .sqlite ∨ t.file key .sqlite ≠ none)
    (ho' : (o'.isRestoring = true → t.file key .sqlite = none) ∧
      (o'.isConnected = true → t.file key .sqlite ≠ none)) : t.Attached key := by
  constructor
  · rw [hsv, hop]
    refine fun j p d hp hd hk' => ?_
    rcases update_some_eq_some hp with ⟨rfl, rfl⟩ | ⟨hij, hp⟩
    · exact ho'
    · exact absurd (he.opening_unique hr hp hd hk' ho hc hk) hij
  · rw [hsv]
    intro h x hx hxk
    rcases hf with hf | hf
    · rw [hf]
      exact hs.live h x hx hxk
    · exact hf
  · rw [hsv, hu]
    exact hs.still

theorem learn (ho : s.openings i = some o) (hc : s.service.calls i = some c)
    {a : CallAct} (heq : s.service.step config (.call i a) = some t.service)
    (hl : ∀ h x, t.service.Live h x → x.key = key →
      (∃ x, s.service.Live h x ∧ x.key = key) ∨ c.key = key ∧ s.file key .sqlite ≠ none)
    (hup : t.upkeep = s.upkeep) (hop : t.openings = update s.openings i none)
    (hf : t.file key .sqlite = s.file key .sqlite) : t.Attached key := by
  obtain ⟨d, d', x, x', -, -, -, hpu⟩ := D1.State.step_call heq
  constructor
  · intro j p e hp he hk
    have hij : j ≠ i := by
      rintro rfl
      rw [hop, update_self] at hp
      cases hp
    rw [hop, update_of_ne hij] at hp
    rw [hpu] at he
    rw [hf]
    exact hs.opening j p e hp ((update_of_ne hij _ _).symm.trans he) hk
  · intro h x hx hk
    rw [hf]
    rcases hl h x hx hk with ⟨y, hy, hk⟩ | ⟨-, hf⟩
    · exact hs.live h y hy hk
    · exact hf
  · intro u hu hco h x hx hk
    rw [hup] at hu
    rcases hl h x hx hk with ⟨y, hy, hk⟩ | ⟨hk, -⟩
    · exact hs.still u hu hco h y hy hk
    · exact he.not_opening hr hu hco ho hc hk

theorem step_opening {a : OpenAct} (hc : s.service.calls i = some c)
    (ho : s.openings i = some o) (h : s.OpenStep config i c o a t) : t.Attached key := by
  have hw := D1.State.wired_of_reach hr
  have hp := D1.State.placed_of_reach hr
  have hfi := h.file key (by decide : Suffix.sqlite ∈ suffixes)
  by_cases hk : c.key = key
  · have hbe := hs.opening i o c ho hc hk
    replace hfi := hfi.imp_right fun hnew => hnew.2.2
    cases h with
    | missing ha hn =>
      exact hs.own hr he ho hc hk rfl rfl rfl hfi ⟨fun _ => hk ▸ hn, nofun⟩
    | fetched => exact hs.own hr he ho hc hk rfl rfl rfl hfi ⟨fun _ => hbe.1 rfl, nofun⟩
    | write hdi =>
      refine hs.own hr he ho hc hk rfl rfl rfl hfi ⟨fun _ => ?_, nofun⟩
      exact (AList.lookup_insert_ne (by simp)).trans (hbe.1 rfl)
    | @connect f hf =>
      refine hs.own hr he ho hc hk rfl rfl rfl hfi ⟨nofun, fun _ => ?_⟩
      rw [← hk]
      exact ne_of_eq_of_ne hf (by simp)
    | connectNew hn hdi =>
      refine hs.own hr he ho hc hk rfl rfl rfl hfi ⟨nofun, fun _ => ?_⟩
      rw [← hk]
      exact ne_of_eq_of_ne (AList.lookup_insert _) (by simp)
    | prepared => exact hs.own hr he ho hc hk rfl rfl rfl hfi ⟨nofun, fun _ => hbe.2 rfl⟩
    | learnOpened heq =>
      refine hs.learn hr he ho hc heq (fun g x hx hxk => ?_) rfl rfl rfl
      rcases D1.State.live_opened hw heq hx with hold | -
      · exact .inl ⟨x, hold, hxk⟩
      · exact .inr ⟨hk, hbe.2 rfl⟩
    | learnFailed heq =>
      refine hs.learn hr he ho hc heq (fun g x hx hxk => .inl ?_) rfl rfl rfl
      obtain ⟨y, hy, hyk, -⟩ := (D1.State.step_of_eq heq).live_before hw hp (by simp) hx
      exact ⟨y, hy, hyk.trans hxk⟩
    | _ => exact hs.own hr he ho hc hk rfl rfl rfl hfi ⟨nofun, nofun⟩
  · replace hfi := hfi.resolve_right fun hnew => hk hnew.1.symm
    cases h with
    | learnOpened heq =>
      refine hs.learn hr he ho hc heq (fun g x hx hxk => .inl ?_) rfl rfl rfl
      rcases D1.State.live_opened hw heq hx with hold | ⟨d, hd, -, hdk⟩
      · exact ⟨x, hold, hxk⟩
      · rw [hc] at hd
        rw [some.inj hd] at hk
        exact absurd (hdk.symm.trans hxk) hk
    | learnFailed heq =>
      refine hs.learn hr he ho hc heq (fun g x hx hxk => .inl ?_) rfl rfl rfl
      obtain ⟨y, hy, hyk, -⟩ := (D1.State.step_of_eq heq).live_before hw hp (by simp) hx
      exact ⟨y, hy, hyk.trans hxk⟩
    | _ => exact hs.other hc hk rfl rfl rfl hfi

theorem start {work : Work} {r : D1.State} (hok : Whole key s (.upkeep (.start work)))
    (hd : s.service.detach work.covers = some r)
    (heq : s.service.step config work.act = some r) : (s.start r work).Attached key := by
  have hw := D1.State.wired_of_reach hr
  have ht : s.service.Thinned (fun _ => True) r :=
    D1.State.thinned_of_detach (fun _ _ => trivial) hd
  have hl : ∀ h x, r.Live h x → x.key = key → ∃ y, s.service.Live h y ∧ y.key = key := by
    intro h x hx hk
    have hst := D1.State.step_of_eq heq
    obtain ⟨y, hy, hyk, -⟩ :=
      hst.live_before hw (D1.State.placed_of_reach hr) (by cases work <;> simp [Work.act]) hx
    exact ⟨y, hy, hyk.trans hk⟩
  constructor
  · intro i o c ho hc hk
    rw [show (s.start r work).service.calls = s.service.calls from ht.calls] at hc
    exact hs.opening i o c ho hc hk
  · intro h x hx hk
    obtain ⟨y, hy, hk⟩ := hl h x hx hk
    exact hs.live h y hy hk
  · intro u hu hco h x hx hk
    have hgo := (he.start hd).gone u hu hco
    cases hu
    -- the entry is gone, so a job has the connection, and the job has no caller
    have hr' : (D1.machine config).Reachable r := .step hr trivial heq
    obtain ⟨i, hi⟩ : ∃ i, x.guard = some i := by
      rcases hx.referred with hen | hgr
      · rw [hk] at hen
        exact absurd (hgo.symm.trans hen) (by simp)
      · exact isSome_iff_exists.1 hgr
    obtain ⟨c, hc, rfl, hgu⟩ := (D1.State.guarded_of_reach hr' h x hx.handle i).1 hi
    obtain ⟨-, y, hy, hyk⟩ := (D1.State.wired_of_reach hr').call hc
    obtain rfl : y = x := some.inj (hy.symm.trans hx.handle)
    have hck : c.key = key := hyk.symm.trans hk
    have hh : c.holds = false := by
      by_contra hh
      have hen := D1.State.placed_of_reach hr' i c hc (by simpa using hh)
      rw [hck] at hen
      exact absurd (hgo.symm.trans hen) (by simp)
    rw [Call.guards_of_not_holds hh, hok hco i c (ht.calls ▸ hc) hck hh] at hgu
    cases hgu

theorem take {u : Upkeep} (hu : s.upkeep = some u) {name : Name}
    (hn : u.work.covers name.key = true) (hf : t.files = s.files.erase name)
    (hsv : t.service = s.service) (hop : t.openings = s.openings)
    (hup : ∀ u', t.upkeep = some u' → u'.work = u.work) : t.Attached key := by
  by_cases heq : name = ⟨key, .sqlite⟩
  · -- nobody has the file of a key that the upkeep works on
    subst heq
    constructor
    · intro i o c ho hc hk
      rw [hop] at ho
      rw [hsv] at hc
      exact absurd hk (he.not_opening hr hu hn ho hc)
    · intro h x hx hk
      rw [hsv] at hx
      exact absurd hk (hs.still u hu hn h x hx)
    · intro u' hu' hco h x hx
      rw [hsv] at hx
      exact hs.still u hu hn h x hx
  · refine hs.quiet ?_ hsv hop fun u' hu' => ⟨u, hu, hup u' hu'⟩
    rw [file, hf]
    exact AList.lookup_erase_ne fun h => heq h.symm

/-- **What a step keeps.** -/
theorem step {a : Act} (hok : Careful key s a) (h : s.Step config a t) : t.Attached key := by
  have hw := D1.State.wired_of_reach hr
  have hp := D1.State.placed_of_reach hr
  cases h with
  | @service a r hal heq =>
    refine hs.frame rfl (fun i o c ho hc hk => ?_) (fun g x hx hk => ?_)
      (fun u hu hc => ⟨u, hu, hc⟩)
    · rcases he.opening_before hw heq ho hc with rfl | ⟨d, hold, hd, hdk⟩
      · exact .inl ⟨rfl, rfl⟩
      · exact .inr ⟨d, hold, hd, hdk.trans hk⟩
    · have hop : ∀ i, a ≠ .call i (.run .opened) := by
        rintro i rfl
        cases hal
      obtain ⟨y, hy, hyk, -⟩ := (D1.State.step_of_eq heq).live_before hw hp hop hx
      exact ⟨y, hy, hyk.trans hk⟩
  | opening hc ho hcl h => exact hs.step_opening hr he hc ho h
  | @makeBeside m suf k f hm hsu hdi hn =>
    refine hs.quiet (AList.lookup_insert_ne ?_) rfl rfl fun u hu => ⟨u, hu, rfl⟩
    rintro ⟨rfl, rfl⟩
    simp at hsu
  | unlink h =>
    refine hs.quiet (AList.lookup_erase_ne ?_) rfl rfl fun u hu => ⟨u, hu, rfl⟩
    rintro rfl
    exact h rfl
  | start hid ha hde heq => exact hs.start hr he hok.2 hde heq
  | refused hid han =>
    refine hs.quiet rfl rfl rfl fun u hu => ?_
    cases hu
  | @upkeep u a t hu h =>
    cases h with
    | found | missing =>
      refine hs.quiet rfl rfl rfl fun u' hu' => ⟨u, hu, ?_⟩
      cases hu'
      rfl
    | next hwo ht hasd =>
      refine hs.take hr he hu ?_ rfl rfl rfl fun u' hu' => ?_
      · rcases hwo with hwo | hwo <;> simp [hwo, Work.covers]
      · cases hu'
        rfl
    | entry oid suf hwo =>
      refine hs.take hr he hu ?_ rfl rfl rfl fun u' hu' => ?_
      · simp [hwo, Work.covers, Key.isOf]
      · cases hu'
        rfl
    | fails | done | emptied =>
      refine hs.quiet rfl rfl rfl fun u hu => ?_
      cases hu
  | crash =>
    constructor
    · intro i o c ho
      cases ho
    · intro h x hx
      cases hx.handle
    · intro u hu
      cases hu

end Attached

theorem maker_eq_some {m : Maker} {f : Nat} (h : s.maker m = some (key, f)) :
    (∃ h x, s.service.Live h x ∧ x.key = key) ∨
      (∃ i c, s.service.calls i = some c ∧ c.key = key ∧ s.openings i = some (.preparing f)) ∨
      s.file key .sqlite = some f := by
  cases m with
  | handle g =>
    obtain ⟨x, hx, h⟩ := bind_eq_some_iff.1 h
    split at h
    next hl =>
      obtain ⟨f', -, heq⟩ := map_eq_some_iff.1 h
      cases heq
      rw [isLive, Bool.and_eq_true, Bool.or_eq_true, beq_iff_eq] at hl
      exact .inl ⟨g, x, ⟨hx, hl.1, hl.2⟩, rfl⟩
    · cases h
  | opening i =>
    obtain ⟨c, hc, h⟩ := bind_eq_some_iff.1 h
    split at h
    · cases h
      exact .inr (.inl ⟨i, c, hc, rfl, ‹_›⟩)
    · cases h
  | snapshot k =>
    obtain ⟨f', hf, heq⟩ := map_eq_some_iff.1 h
    cases heq
    exact .inr (.inr hf)

/-! ## The files -/

structure Moving (key : Key) (s : State) (u : Upkeep) : Prop where
  todo : u.todo <:+ suffixes
  cleared : ∀ suffix ∈ suffixes, suffix ∉ u.todo → s.file key suffix = none
  first : ⟨key, .sqlite⟩ ∉ u.taken → u.taken = []

/-- Without `<key>.sqlite` the other files are gone, but for the time that the upkeep takes them. -/
structure Bare (key : Key) (s : State) : Prop where
  alone : s.file key .sqlite = none → (∀ u, s.upkeep = some u → ⟨key, .sqlite⟩ ∉ u.taken) →
      ∀ suffix ∈ suffixes, s.file key suffix = none
  own : ∀ u, s.upkeep = some u → ∀ name ∈ u.taken, u.work.covers name.key = true
  moving : ∀ u, s.upkeep = some u → ∀ id, key = .database id →
    u.work = .reset id ∨ u.work = .remove id → Moving key s u
  outcomes : ∀ o ∈ s.outcomes, ∀ id, key = .database id → o.work = .reset id →
    ∀ e, o.answer = .reset (.error e) → o.taken = []

theorem Moving.todo_eq {u : Upkeep} (h : Moving key s u) (hf : s.file key .sqlite ≠ none) :
    u.todo = suffixes := by
  have hm : Suffix.sqlite ∈ u.todo := by
    by_contra hm
    exact hf (h.cleared .sqlite (by decide) hm)
  have ht := h.todo
  simp only [suffixes, suffix_cons_iff, suffix_nil] at ht
  rcases ht with ht | ht | ht | ht
  · exact ht
  all_goals
    rw [ht] at hm
    simp at hm

namespace Bare

/-- A step that leaves the upkeep alone, and makes a file of the key only where `<key>.sqlite` is
there and the file has not had its turn. -/
theorem frame (hs : s.Bare key) (hup : t.upkeep = s.upkeep) (ho : t.outcomes = s.outcomes)
    (hma : t.file key .sqlite = s.file key .sqlite ∨ t.file key .sqlite ≠ none)
    (hf : ∀ suf ∈ suffixes, t.file key suf = s.file key suf ∨ t.file key suf = none ∨
      t.file key .sqlite ≠ none ∧ ∀ u, s.upkeep = some u → ∀ id, key = .database id →
        (u.work = .reset id ∨ u.work = .remove id) → suf ∈ u.todo) : t.Bare key := by
  refine ⟨fun hn hu suf hsu => ?_, hup ▸ hs.own, fun u hu id hk hw => ?_, ho ▸ hs.outcomes⟩
  · rw [hup] at hu
    have hn' : s.file key .sqlite = none :=
      (hma.resolve_right (absurd hn)).symm.trans hn
    rcases hf suf hsu with heq | hgo | ⟨hth, -⟩
    · rw [heq]
      exact hs.alone hn' hu suf hsu
    · exact hgo
    · exact absurd hn hth
  · rw [hup] at hu
    have hm := hs.moving u hu id hk hw
    refine ⟨hm.todo, fun suf hsu ht => ?_, hm.first⟩
    rcases hf suf hsu with heq | hgo | ⟨-, hto⟩
    · rw [heq]
      exact hm.cleared suf hsu ht
    · exact hgo
    · exact absurd (hto u hu id hk hw) ht

theorem step_opening (hr : (D1.machine config).Reachable s.service) (he : s.Exclusive key)
    (hs : s.Bare key) {i : Nat} {o : Opening} {c : Call} {a : OpenAct}
    (hc : s.service.calls i = some c) (ho : s.openings i = some o)
    (h : s.OpenStep config i c o a t) : t.Bare key := by
  have hup : t.upkeep = s.upkeep := by cases h <;> rfl
  have hou : t.outcomes = s.outcomes := by cases h <;> rfl
  refine hs.frame hup hou ?_ fun suf hsu => ?_
  · exact (h.file key (by decide)).imp_right fun hn => hn.2.2
  · refine (h.file key hsu).imp_right fun hn => .inr ?_
    obtain ⟨hk, rfl, ht⟩ := hn
    refine ⟨ht, fun u hu id hid hw => ?_⟩
    have hco : u.work.covers key = true := hid ▸ Work.covers_database hw
    exact absurd hk.symm (he.not_opening hr hu hco ho hc)

theorem makeBeside (hr : (D1.machine config).Reachable s.service) (he : s.Exclusive key)
    (ha : s.Attached key) (hs : s.Bare key) {m : Maker} {suf : Suffix} {k : Key} {f : Nat}
    (hm : s.maker m = some (k, f)) (hsu : suf ∈ [Suffix.wal, .shm, .snapshotScratch]) :
    Bare key { s with files := s.files.insert ⟨k, suf⟩ f } := by
  have hma : State.file { s with files := s.files.insert ⟨k, suf⟩ f } key .sqlite =
      s.file key .sqlite := by
    refine AList.lookup_insert_ne ?_
    rintro ⟨rfl, rfl⟩
    simp at hsu
  refine hs.frame rfl rfl (.inl hma) fun x hx => ?_
  by_cases hn : (⟨key, x⟩ : Name) = ⟨k, suf⟩
  · cases hn
    refine .inr (.inr ⟨?_, fun u hu id hid hw => ?_⟩)
    · rw [hma]
      rcases maker_eq_some hm with ⟨h, y, hl, hk⟩ | ⟨i, c, hc, hk, ho⟩ | hf
      · exact ha.live h y hl hk
      · exact (ha.opening i _ c ho hc hk).2 rfl
      · exact ne_of_eq_of_ne hf (by simp)
    · have hco : u.work.covers key = true := hid ▸ Work.covers_database hw
      rcases maker_eq_some hm with ⟨h, y, hl, hk⟩ | ⟨i, c, hc, hk, ho⟩ | hf
      · exact absurd hk (ha.still u hu hco h y hl)
      · exact absurd hk (he.not_opening hr hu hco ho hc)
      · rw [(hs.moving u hu id hid hw).todo_eq (ne_of_eq_of_ne hf (by simp))]
        exact hx
  · exact .inl (AList.lookup_insert_ne hn)

theorem remove (hs : s.Bare key) {name : Name} (h : name.suffix ≠ .sqlite) :
    (s.remove name).Bare key := by
  refine hs.frame rfl rfl (.inl (AList.lookup_erase_ne ?_)) fun suf hsu => ?_
  · rintro rfl
    exact h rfl
  · by_cases hn : (⟨key, suf⟩ : Name) = name
    · subst hn
      exact .inr (.inl (AList.lookup_erase _ _))
    · exact .inl (AList.lookup_erase_ne hn)

theorem start (hs : s.Bare key) (hid : s.upkeep = none) (r : D1.State) (work : Work) :
    (s.start r work).Bare key := by
  refine ⟨fun hn _ => hs.alone hn (by simp [hid]), fun u hu => ?_,
    fun u hu id hk hw => ?_, hs.outcomes⟩
  · cases hu
    simp
  · cases hu
    exact ⟨suffix_rfl, fun suf hsu ht => absurd hsu ht, fun _ => rfl⟩

theorem answer (hs : s.Bare key) {work : Work} {taken : List Name} {answer : Answer}
    (ha : s.file key .sqlite = none → ∀ suffix ∈ suffixes, s.file key suffix = none)
    (ht : ∀ id, key = .database id → work = .reset id → ∀ e, answer = .reset (.error e) →
      taken = []) : (s.answer work taken answer).Bare key := by
  refine ⟨fun hn _ => ha hn, nofun, nofun, fun o ho => ?_⟩
  rcases mem_append.1 ho with ho | ho
  · exact hs.outcomes o ho
  · rw [mem_singleton] at ho
    subst ho
    exact ht

theorem look (hs : s.Bare key) {u u' : Upkeep} (hu : s.upkeep = some u) (hw : u'.work = u.work)
    (htk : u'.taken = u.taken)
    (ht : ∀ id, key = .database id → (u.work = .reset id ∨ u.work = .remove id) →
      u'.todo <:+ suffixes ∧ ∀ suf ∈ suffixes, suf ∉ u'.todo → s.file key suf = none) :
    Bare key { s with upkeep := some u' } := by
  refine ⟨fun hn hm => hs.alone hn fun v hv => ?_, fun v hv => ?_,
    fun v hv id hk hv' => ?_, hs.outcomes⟩
  · obtain rfl : u = v := mem_unique hu hv
    exact htk ▸ hm u' rfl
  · cases hv
    rw [hw, htk]
    exact hs.own u hu
  · cases hv
    rw [hw] at hv'
    obtain ⟨hsu, hcl⟩ := ht id hk hv'
    exact ⟨hsu, hcl, htk ▸ (hs.moving u hu id hk hv').first⟩

theorem take (hs : s.Bare key) {u : Upkeep} (hu : s.upkeep = some u) {name : Name}
    {todo : List Suffix} (hna : u.work.covers name.key = true)
    (ht : ∀ id, key = .database id → (u.work = .reset id ∨ u.work = .remove id) →
      name.key = key ∧ u.todo = name.suffix :: todo)
    (hf : t.files = (s.take u name todo).files)
    (hup : t.upkeep = (s.take u name todo).upkeep) (ho : t.outcomes = s.outcomes) :
    t.Bare key := by
  have hgo : ∀ suf, s.file key suf = none → t.file key suf = none := by
    intro suf hn
    rw [file, hf]
    by_cases heq : (⟨key, suf⟩ : Name) = name
    · subst heq
      exact AList.lookup_erase _ _
    · exact (AList.lookup_erase_ne heq).trans hn
  -- what is not among the files it has taken was not taken now either
  have hk : ∀ u', t.upkeep = some u' → ⟨key, .sqlite⟩ ∉ u'.taken →
      ⟨key, .sqlite⟩ ∉ u.taken ∧ (name = ⟨key, .sqlite⟩ → s.file key .sqlite = none) := by
    intro u' hu' hme
    rw [hup] at hu'
    cases hu'
    rw [mem_append, not_or] at hme
    refine ⟨hme.1, fun heq => ?_⟩
    subst heq
    by_contra hth
    have hso : (s.files.lookup ⟨key, .sqlite⟩).isSome = true := isSome_iff_ne_none.2 hth
    rw [if_pos hso] at hme
    exact hme.2 (mem_singleton.2 rfl)
  have ha : ∀ u', t.upkeep = some u' → ⟨key, .sqlite⟩ ∉ u'.taken → s.file key .sqlite = none →
      ∀ suf ∈ suffixes, s.file key suf = none := by
    intro u' hu' hme hn
    refine hs.alone hn fun v hv => ?_
    obtain rfl : u = v := mem_unique hu hv
    exact (hk u' hu' hme).1
  obtain ⟨u', hu'⟩ : ∃ u', t.upkeep = some u' := ⟨_, hup⟩
  refine ⟨fun hn hme suf hsu => ?_, fun v hv => ?_, fun v hv id hke hw => ?_, ho ▸ hs.outcomes⟩
  · refine hgo suf (ha u' hu' (hme u' hu') ?_ suf hsu)
    by_cases heq : name = ⟨key, .sqlite⟩
    · exact (hk u' hu' (hme u' hu')).2 heq
    · rw [file, hf] at hn
      exact (AList.lookup_erase_ne fun h => heq h.symm).symm.trans hn
  · rw [hup] at hv
    cases hv
    intro x hx
    rcases mem_append.1 hx with hx | hx
    · exact hs.own u hu x hx
    · split at hx
      · rw [mem_singleton.1 hx]
        exact hna
      · cases hx
  · have hk' := hk v hv
    have ha' := ha v hv
    rw [hup] at hv
    cases hv
    obtain ⟨hname, hnext⟩ := ht id hke hw
    have hm := hs.moving u hu id hke hw
    have hsu : name.suffix :: todo <:+ suffixes := hnext ▸ hm.todo
    refine ⟨(suffix_cons _ _).trans hsu, fun x hx htu => ?_, fun hme => ?_⟩
    · by_cases heq : x = name.suffix
      · rw [file, hf, heq, ← hname]
        exact AList.lookup_erase _ _
      · refine hgo x (hm.cleared x hx ?_)
        rw [hnext, mem_cons, not_or]
        exact ⟨heq, htu⟩
    · obtain ⟨hold, hma⟩ := hk' hme
      rw [hm.first hold, nil_append, ite_eq_right_iff]
      intro hso
      -- a file after the first is there only with the first
      have hth : s.file key name.suffix ≠ none := by
        rw [← hname]
        exact isSome_iff_ne_none.1 hso
      have hn : s.file key .sqlite = none := by
        by_contra hne
        have ht' := hm.todo_eq hne
        rw [hnext] at ht'
        refine hne (hma ?_)
        rw [← hname, ← (cons.inj ht').1]
      exact absurd (ha' hme hn _ (hsu.subset (mem_cons_self ..))) hth

/-- **What a step keeps.** -/
theorem step {a : Act} (hr : (D1.machine config).Reachable s.service) (he : s.Exclusive key)
    (ha : s.Attached key) (hs : s.Bare key) (hok : Careful key s a) (h : s.Step config a t) :
    t.Bare key := by
  cases h with
  | service hal heq => exact hs.frame rfl rfl (.inl rfl) fun _ _ => .inl rfl
  | opening hc ho hcl h => exact hs.step_opening hr he hc ho h
  | makeBeside hm hsu hd hn => exact hs.makeBeside hr he ha hm hsu
  | unlink h => exact hs.remove h
  | start hid har hde heq => exact hs.start hid _ _
  | refused hid han =>
    exact hs.answer (fun hn => hs.alone hn (by simp [hid])) fun _ _ _ _ _ => rfl
  | @upkeep u a t hu h =>
    cases h with
    | found hw ht hfi =>
      refine hs.look hu rfl rfl fun id hk hw => ?_
      have hm := hs.moving u hu id hk hw
      exact ⟨hm.todo, hm.cleared⟩
    | @missing id suffix todo hw ht hfi =>
      refine hs.look hu rfl rfl fun id' hk hw' => ?_
      have hm := hs.moving u hu id' hk hw'
      obtain rfl : id = id' := Work.id_unique (.inl hw) hw'
      refine ⟨(suffix_cons _ _).trans (ht ▸ hm.todo), fun x hx htu => ?_⟩
      by_cases heq : x = suffix
      · rw [heq, hk]
        exact hfi
      · refine hm.cleared x hx ?_
        rw [ht, mem_cons, not_or]
        exact ⟨heq, htu⟩
    | @next id suffix todo aside hw ht hasd =>
      refine hs.take hu (Work.covers_database hw) (fun id' hk hw' => ?_) rfl rfl rfl
      obtain rfl : id = id' := Work.id_unique hw hw'
      exact ⟨hk.symm, ht⟩
    | entry oid suffix hw =>
      refine hs.take hu (by simp [hw, Work.covers, Key.isOf]) (fun id' hk hw' => ?_) rfl rfl
        rfl
      simp [hw] at hw'
    | fails error han =>
      have hme := hok.2 u hu
      refine hs.answer (fun hn => hs.alone hn fun v hv => ?_) fun id hk hw e _ => ?_
      · obtain rfl : u = v := mem_unique hu hv
        exact hme
      · exact (hs.moving u hu id hk (.inl hw)).first hme
    | @done id ans hw ht han =>
      refine hs.answer (fun hn => ?_) fun _ _ _ e he => ?_
      · by_cases hk : key = .database id
        · intro suffix hsu
          exact (hs.moving u hu id hk hw).cleared suffix hsu (by simp [ht])
        · refine hs.alone hn fun v hv hme => ?_
          obtain rfl : u = v := mem_unique hu hv
          have hco := hs.own u hu _ hme
          rcases hw with hw | hw <;> simp [hw, Work.covers, hk] at hco
      · subst he
        cases han
    | @emptied ns hw hem =>
      have hs' : Bare key { s with
          directories := update s.directories ns false } :=
        hs.frame rfl rfl (.inl rfl) fun _ _ => .inl rfl
      refine hs'.answer (fun hn => ?_) fun _ _ _ _ he => by cases he
      by_cases hk : key.isOf ns = true
      · intro suffix hsu
        rw [eq_none_iff_forall_ne_some]
        intro f hf
        have := hem _ f hf
        rw [hk] at this
        cases this
      · refine hs.alone hn fun v hv hme => ?_
        obtain rfl : u = v := mem_unique hu hv
        have hco := hs.own u hu _ hme
        rw [hw] at hco
        exact hk hco
  | crash =>
    have hfi : ∀ suffix ∈ suffixes, s.crash.file key suffix = s.file key suffix := by
      intro suffix hsu
      refine ext fun f => ?_
      rw [file, crash, AList.lookup_retain_eq_some]
      refine and_iff_left_of_imp fun _ => ?_
      simp only [suffixes, mem_cons, not_mem_nil, or_false] at hsu
      rcases hsu with rfl | rfl | rfl <;> cases key <;> rfl
    constructor
    · intro hn _ suffix hsu
      rw [hfi suffix hsu]
      rw [hfi .sqlite (by decide)] at hn
      exact hs.alone hn hok.2 suffix hsu
    · intro u hu
      cases hu
    · intro u hu
      cases hu
    · intro o ho
      cases ho

end Bare

end State

end OpenWorkersRunner.D1.Files
