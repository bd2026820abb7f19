import OpenWorkersRunner.Lib.Table
import OpenWorkersRunner.Durable.RegistryStep

/-!
# One object, one task

"Old and new code never run for the same object at once": of the tasks of one object, at most one
is between the start of its load and the end of its `serve`, under every interleaving of events,
loads, idle exits, deployments, deletions and panics (`one_task_serves`).
-/

namespace OpenWorkersRunner.Durable

open Function Option

variable {ε : Type}

def State.Placed (s : State ε) (i : Nat) (t : Task ε) : Prop :=
  s.stopped t.key.namespaceId = true ∨
    (∃ entry, s.objects t.key = some entry ∧ entry.generation = i) ∨
    s.retiring t.key = some i ∨
    ∃ j u, s.tasks j = some u ∧ u.phase = .waiting ∧ u.key = t.key

structure State.Exclusive (s : State ε) : Prop where
  closed : ∀ i t, s.tasks i = some t → t.mailbox.closed = t.phase.isOver
  entry : ∀ key entry, s.objects key = some entry → ∃ t, s.tasks entry.generation = some t ∧
    t.key = key ∧ (entry.version ≠ none → t.phase.loaded = true)
  apart : ∀ key, s.objects key = none ∨ s.retiring key = none
  placed : ∀ i t, s.tasks i = some t → t.phase.serves = true → s.Placed i t
  waits : ∀ i t, s.tasks i = some t → t.phase = .waiting → s.stopped t.key.namespaceId = true ∨
      ∃ entry, s.objects t.key = some entry ∧ entry.generation = i
  before : ∀ i t j u, s.tasks i = some t → t.phase = .waiting → s.tasks j = some u →
    u.phase.serves = true → u.key = t.key → t.previous = some j
  oneWaits : ∀ i t j u, s.tasks i = some t → t.phase = .waiting → s.tasks j = some u →
    u.phase = .waiting → u.key = t.key → i = j
  oneServes : ∀ i t j u, s.tasks i = some t → t.phase.serves = true → s.tasks j = some u →
    u.phase.serves = true → u.key = t.key → i = j

/-! ## Phases -/

variable {p : Phase}

theorem Phase.not_serves_of_isGone (h : p.isGone = true) : p.serves = false := by
  cases p <;> first | rfl | cases h

theorem Phase.ne_waiting_of_serves (h : p.serves = true) : p ≠ .waiting := by
  rintro rfl
  cases h

theorem Phase.ne_waiting_of_loaded (h : p.loaded = true) : p ≠ .waiting := by
  rintro rfl
  cases h

namespace State.Exclusive

/-! ## Steps that leave the entries alone -/

variable {i : Nat} {s s' : State ε} {t : Task ε}

theorem setTask (h : s.Exclusive) {t' : Task ε} (ht : s.tasks i = some t)
    (hts : s'.tasks = update s.tasks i (some t'))
    (hm : s'.objects = s.objects ∧ s'.retiring = s.retiring ∧ s'.stopped = s.stopped)
    (hke : t'.key = t.key) (hpr : t'.previous = t.previous)
    (hcl : t'.mailbox.closed = t'.phase.isOver)
    (hsv : t'.phase.serves = true → t.phase.serves = true)
    (hwa : t'.phase = .waiting ↔ t.phase = .waiting)
    (hld : t.phase.loaded = true → t'.phase.loaded = true) : s'.Exclusive := by
  obtain ⟨ho, hr, hst⟩ := hm
  -- every task of the new state is a task of the old one that has moved on
  have back : ∀ j u', s'.tasks j = some u' → ∃ u, s.tasks j = some u ∧ u'.key = u.key ∧
      u'.previous = u.previous ∧ (u'.phase.serves = true → u.phase.serves = true) ∧
      (u'.phase = .waiting → u.phase = .waiting) := by
    intro j u' hj
    rw [hts] at hj
    rcases update_some_eq_some hj with ⟨rfl, rfl⟩ | ⟨-, hj⟩
    · exact ⟨t, ht, hke, hpr, hsv, hwa.1⟩
    · exact ⟨u', hj, rfl, rfl, id, id⟩
  have forth : ∀ j u, s.tasks j = some u → ∃ u', s'.tasks j = some u' ∧ u'.key = u.key ∧
      (u.phase = .waiting → u'.phase = .waiting) ∧
      (u.phase.loaded = true → u'.phase.loaded = true) := by
    intro j u hj
    by_cases hji : j = i
    · subst hji
      obtain rfl := mem_unique ht hj
      exact ⟨t', by rw [hts, update_self], hke, hwa.2, hld⟩
    · exact ⟨u, by rw [hts, update_of_ne hji, hj], rfl, id, id⟩
  refine ⟨?_, ?_, ?_, ?_, ?_, ?_, ?_, ?_⟩
  · intro j u' hj
    rw [hts] at hj
    rcases update_some_eq_some hj with ⟨rfl, rfl⟩ | ⟨-, hj⟩
    · exact hcl
    · exact h.closed j u' hj
  · intro key entry he
    rw [ho] at he
    obtain ⟨u, hu, hk, hv⟩ := h.entry key entry he
    obtain ⟨u', hu', hk', -, hl⟩ := forth _ u hu
    exact ⟨u', hu', hk'.trans hk, fun hne => hl (hv hne)⟩
  · rw [ho, hr]
    exact h.apart
  · intro j u' hj hse
    obtain ⟨u, hu, hk, -, hs, -⟩ := back j u' hj
    have hp := h.placed j u hu (hs hse)
    rw [State.Placed, ho, hr, hst, hk]
    refine hp.imp id (Or.imp id (Or.imp id ?_))
    rintro ⟨l, w, hl, hw, hlk⟩
    obtain ⟨w', hl', hwk, hww, -⟩ := forth l w hl
    exact ⟨l, w', hl', hww hw, hwk.trans hlk⟩
  · intro j u' hj hw
    obtain ⟨u, hu, hk, -, -, hwait⟩ := back j u' hj
    rw [ho, hst, hk]
    exact h.waits j u hu (hwait hw)
  · intro j u' l w' hj hw hl hs hk
    obtain ⟨u, hu, huk, hpre, -, huw⟩ := back j u' hj
    obtain ⟨w, hw', hwk, -, hws, -⟩ := back l w' hl
    rw [hpre]
    exact h.before j u l w hu (huw hw) hw' (hws hs) (by rw [← hwk, hk, huk])
  · intro j u' l w' hj hw hl hw' hk
    obtain ⟨u, hu, huk, -, -, huw⟩ := back j u' hj
    obtain ⟨w, hlw, hwk, -, -, hww⟩ := back l w' hl
    exact h.oneWaits j u l w hu (huw hw) hlw (hww hw') (by rw [← hwk, hk, huk])
  · intro j u' l w' hj hs hl hs' hk
    obtain ⟨u, hu, huk, -, hus, -⟩ := back j u' hj
    obtain ⟨w, hlw, hwk, -, hws, -⟩ := back l w' hl
    exact h.oneServes j u l w hu (hus hs) hlw (hws hs') (by rw [← hwk, hk, huk])

theorem start (h : s.Exclusive) (ht : s.tasks i = some t) (hp : t.phase = .waiting)
    (hpr : s.previousEnded t = true) :
    (s.setTask i { t with phase := .loading }).Exclusive := by
  have alone : ∀ j u, s.tasks j = some u → u.phase.serves = true → u.key ≠ t.key := by
    intro j u hu hs hk
    have hpre := h.before i t j u ht hp hu hs hk
    rw [State.previousEnded, hpre, all_some, hu, all_some] at hpr
    rw [Phase.not_serves_of_isGone hpr] at hs
    cases hs
  refine ⟨?_, ?_, h.apart, ?_, ?_, ?_, ?_, ?_⟩
  · intro j u hj
    rcases update_some_eq_some hj with ⟨rfl, rfl⟩ | ⟨-, hj⟩
    · have hcl := h.closed j t ht
      rw [hp] at hcl
      exact hcl
    · exact h.closed j u hj
  · intro key entry he
    obtain ⟨u, hu, hk, hv⟩ := h.entry key entry he
    by_cases hei : entry.generation = i
    · rw [hei] at hu ⊢
      obtain rfl := mem_unique ht hu
      refine ⟨_, update_self .., hk, fun hne => ?_⟩
      rw [hp] at hv
      exact hv hne
    · exact ⟨u, (update_of_ne hei ..).trans hu, hk, hv⟩
  · intro j u hj hs
    rcases update_some_eq_some hj with ⟨rfl, rfl⟩ | ⟨-, hu⟩
    · exact (h.waits j t ht hp).imp id Or.inl
    · refine (h.placed j u hu hs).imp id (Or.imp id (Or.imp id ?_))
      rintro ⟨l, w, hl, hw, hlk⟩
      refine ⟨l, w, (update_of_ne ?_ ..).trans hl, hw, hlk⟩
      rintro rfl
      obtain rfl := mem_unique ht hl
      exact alone j u hu hs hlk.symm
  · intro j u hj hw
    rcases update_some_eq_some hj with ⟨rfl, rfl⟩ | ⟨-, hj⟩
    · cases hw
    · exact h.waits j u hj hw
  · intro j u l w hj hw hl hs hk
    rcases update_some_eq_some hj with ⟨rfl, rfl⟩ | ⟨hji, hu⟩
    · cases hw
    · rcases update_some_eq_some hl with ⟨rfl, rfl⟩ | ⟨-, hl⟩
      · exact absurd (h.oneWaits j u l t hu hw ht hp hk) hji
      · exact h.before j u l w hu hw hl hs hk
  · intro j u l w hj hw hl hw' hk
    rcases update_some_eq_some hj with ⟨rfl, rfl⟩ | ⟨-, hj⟩
    · cases hw
    · rcases update_some_eq_some hl with ⟨rfl, rfl⟩ | ⟨-, hl⟩
      · cases hw'
      · exact h.oneWaits j u l w hj hw hl hw' hk
  · intro j u l w hj hs hl hs' hk
    rcases update_some_eq_some hj with ⟨rfl, rfl⟩ | ⟨-, hu⟩
    · rcases update_some_eq_some hl with ⟨rfl, rfl⟩ | ⟨-, hl⟩
      · rfl
      · exact absurd hk (alone l w hl hs')
    · rcases update_some_eq_some hl with ⟨rfl, rfl⟩ | ⟨-, hl⟩
      · exact absurd hk.symm (alone j u hu hs)
      · exact h.oneServes j u l w hu hs hl hs' hk

section Closed

variable {s : State ε} {key : ObjectKey}

variable {j : Nat} {u : Task ε}

theorem generation_ne (h : s.Exclusive) (hclo : ∀ entry t, s.objects key = some entry →
      s.tasks entry.generation = some t → t.mailbox.closed = true) {entry : Entry}
    (hj : s.tasks j = some u) (ho : u.phase.isOver = false) (he : s.objects key = some entry) :
    entry.generation ≠ j := by
  rintro rfl
  have hcl := hclo entry u he hj
  rw [h.closed _ u hj, ho] at hcl
  cases hcl

theorem key_ne_of_waiting (h : s.Exclusive) (hstored : s.stopped key.namespaceId = false)
    (hcl : ∀ entry t, s.objects key = some entry → s.tasks entry.generation = some t →
      t.mailbox.closed = true) (hj : s.tasks j = some u) (hw : u.phase = .waiting) :
    u.key ≠ key := by
  rintro rfl
  rcases h.waits j u hj hw with hst | ⟨entry, he, hge⟩
  · rw [hstored] at hst
    cases hst
  · exact h.generation_ne hcl hj (by rw [hw]; rfl) he hge

theorem retiring_of_serves (h : s.Exclusive) (hstored : s.stopped key.namespaceId = false)
    (hcl : ∀ entry t, s.objects key = some entry → s.tasks entry.generation = some t →
      t.mailbox.closed = true) (hj : s.tasks j = some u) (hs : u.phase.serves = true)
    (hk : u.key = key) : s.retiring key = some j := by
  subst hk
  rcases h.placed j u hj hs with hst | ⟨entry, he, hge⟩ | hr | ⟨l, w, hl, hw, hlk⟩
  · rw [hstored] at hst
    cases hst
  · exact absurd hge (h.generation_ne hcl hj (Phase.isOver_of_serves hs) he)
  · exact hr
  · exact absurd hlk (h.key_ne_of_waiting hstored hcl hl hw)

end Closed

theorem spawn (h : s.Exclusive) (hc : s.Counted) {ns : NamespaceConfig} {oid : String}
    {ev : ε} {depth : Nat} (hst : s.stopped ns.id = false)
    (hcl : ∀ entry t, s.objects ⟨ns.id, oid⟩ = some entry →
      s.tasks entry.generation = some t → t.mailbox.closed = true) :
    ((s.spawn ns ⟨ns.id, oid⟩ ev).1.enter s.generation
      (s.spawn ns ⟨ns.id, oid⟩ ev).2 depth ev).Exclusive := by
  have old : ∀ j u, s.tasks j = some u → j ≠ s.generation :=
    fun j u hj => Nat.ne_of_lt (hc.lt j u hj)
  have noWaits : ∀ j u, s.tasks j = some u → u.phase = .waiting → u.key ≠ ⟨ns.id, oid⟩ :=
    fun _ _ => h.key_ne_of_waiting hst hcl
  have retires : ∀ j u, s.tasks j = some u → u.phase.serves = true → u.key = ⟨ns.id, oid⟩ →
      s.retiring ⟨ns.id, oid⟩ = some j :=
    fun _ _ => h.retiring_of_serves hst hcl
  refine ⟨?_, ?_, ?_, ?_, ?_, ?_, ?_, ?_⟩
  · intro j u hj
    rcases update_some_eq_some hj with ⟨rfl, rfl⟩ | ⟨-, hj⟩
    · rfl
    · exact h.closed j u hj
  · intro key entry he
    rcases update_some_eq_some he with ⟨rfl, rfl⟩ | ⟨-, he⟩
    · exact ⟨_, update_self .., rfl, fun hne => absurd rfl hne⟩
    · obtain ⟨u, hu, hk, hv⟩ := h.entry key entry he
      exact ⟨u, (update_of_ne (old _ u hu) ..).trans hu, hk, hv⟩
  · intro key
    by_cases hk : key = ⟨ns.id, oid⟩
    · exact .inr (by rw [hk]; exact update_self ..)
    · refine (h.apart key).imp ?_ ?_
      · exact (update_of_ne hk ..).trans
      · exact (update_of_ne hk ..).trans
  · intro j u hj hs
    rcases update_some_eq_some hj with ⟨rfl, rfl⟩ | ⟨-, hu⟩
    · cases hs
    · by_cases hk : u.key = ⟨ns.id, oid⟩
      · exact .inr (.inr (.inr ⟨s.generation, _, update_self .., rfl, hk.symm⟩))
      · refine (h.placed j u hu hs).imp id (Or.imp ?_ (Or.imp ?_ ?_))
        · rintro ⟨entry, he, hge⟩
          exact ⟨entry, (update_of_ne hk ..).trans he, hge⟩
        · exact (update_of_ne hk ..).trans
        · rintro ⟨l, w, hl, hw, hlk⟩
          exact ⟨l, w, (update_of_ne (old l w hl) ..).trans hl, hw, hlk⟩
  · intro j u hj hw
    rcases update_some_eq_some hj with ⟨rfl, rfl⟩ | ⟨-, hu⟩
    · exact .inr ⟨_, update_self .., rfl⟩
    · refine (h.waits j u hu hw).imp id ?_
      rintro ⟨entry, he, hge⟩
      exact ⟨entry, (update_of_ne (noWaits j u hu hw) ..).trans he, hge⟩
  · intro j u l w hj hw hl hs hk
    rcases update_some_eq_some hl with ⟨rfl, rfl⟩ | ⟨-, hl⟩
    · cases hs
    · rcases update_some_eq_some hj with ⟨rfl, rfl⟩ | ⟨-, hu⟩
      · exact retires l w hl hs hk
      · exact h.before j u l w hu hw hl hs hk
  · intro j u l w hj hw hl hw' hk
    rcases update_some_eq_some hj with ⟨rfl, rfl⟩ | ⟨-, hu⟩
    · rcases update_some_eq_some hl with ⟨rfl, rfl⟩ | ⟨-, hl⟩
      · rfl
      · exact absurd hk (noWaits l w hl hw')
    · rcases update_some_eq_some hl with ⟨rfl, rfl⟩ | ⟨-, hl⟩
      · exact absurd hk.symm (noWaits j u hu hw)
      · exact h.oneWaits j u l w hu hw hl hw' hk
  · intro j u l w hj hs hl hs' hk
    rcases update_some_eq_some hj with ⟨rfl, rfl⟩ | ⟨-, hu⟩
    · cases hs
    · rcases update_some_eq_some hl with ⟨rfl, rfl⟩ | ⟨-, hl⟩
      · cases hs'
      · exact h.oneServes j u l w hu hs hl hs' hk

/-! ## Steps that change the entries

The tasks stay as they are, so only where they can be found changes. -/

theorem congrMaps (h : s.Exclusive) (hts : s'.tasks = s.tasks)
    (hen : ∀ key entry, s'.objects key = some entry → ∃ t, s.tasks entry.generation = some t ∧
      t.key = key ∧ (entry.version ≠ none → t.phase.loaded = true))
    (ha : ∀ key, s'.objects key = none ∨ s'.retiring key = none)
    (hp : ∀ i t, s.tasks i = some t → t.phase.serves = true → s.Placed i t → s'.Placed i t)
    (hwa : ∀ i t, s.tasks i = some t → t.phase = .waiting → s.stopped t.key.namespaceId = true ∨
        (∃ entry, s.objects t.key = some entry ∧ entry.generation = i) →
      s'.stopped t.key.namespaceId = true ∨
        ∃ entry, s'.objects t.key = some entry ∧ entry.generation = i) : s'.Exclusive := by
  refine ⟨?_, ?_, ha, ?_, ?_, ?_, ?_, ?_⟩
  · rw [hts]; exact h.closed
  · rw [hts]; exact hen
  · rw [hts]; exact fun i t ht hs => hp i t ht hs (h.placed i t ht hs)
  · rw [hts]; exact fun i t ht hw => hwa i t ht hw (h.waits i t ht hw)
  · rw [hts]; exact h.before
  · rw [hts]; exact h.oneWaits
  · rw [hts]; exact h.oneServes

theorem forget (h : s.Exclusive) (hts : s'.tasks = s.tasks) (hst : s'.stopped = s.stopped)
    (ho : ∀ key, s'.objects key = s.objects key ∨ (s'.objects key = none ∧ ∀ entry t,
      s.objects key = some entry → s.tasks entry.generation = some t → t.phase.isOver = true))
    (hr : ∀ key, s'.retiring key = s.retiring key ∨ (s'.retiring key = none ∧ ∀ g t,
      s.retiring key = some g → s.tasks g = some t → t.phase.isOver = true)) : s'.Exclusive := by
  refine h.congrMaps hts ?_ ?_ ?_ ?_
  · intro key entry he
    rcases ho key with heq | ⟨hn, -⟩
    · exact h.entry key entry (heq ▸ he)
    · rw [hn] at he
      cases he
  · intro key
    rcases ho key with heq | ⟨hn, -⟩
    · rcases hr key with heq' | ⟨hn', -⟩
      · rw [heq, heq']
        exact h.apart key
      · exact .inr hn'
    · exact .inl hn
  · intro i t ht hs hp
    have hov := Phase.isOver_of_serves hs
    rw [State.Placed, hst, hts]
    refine hp.imp id (Or.imp ?_ (Or.imp ?_ id))
    · rintro ⟨entry, he, rfl⟩
      rcases ho t.key with heq | ⟨-, hgo⟩
      · exact ⟨entry, heq.trans he, rfl⟩
      · rw [hgo entry t he ht] at hov
        cases hov
    · intro hre
      rcases hr t.key with heq | ⟨-, hgo⟩
      · exact heq.trans hre
      · rw [hgo i t hre ht] at hov
        cases hov
  · intro i t ht hw hp
    rw [hst]
    refine hp.imp id ?_
    rintro ⟨entry, he, rfl⟩
    rcases ho t.key with heq | ⟨-, hgo⟩
    · exact ⟨entry, heq.trans he, rfl⟩
    · have hov := hgo entry t he ht
      rw [hw] at hov
      cases hov

theorem setVersion (h : s.Exclusive) {version : Int} (ht : s.tasks i = some t)
    (hl : t.phase.loaded = true) (hts : s'.tasks = s.tasks) (hr : s'.retiring = s.retiring)
    (hst : s'.stopped = s.stopped)
    (ho : s'.objects = update s.objects t.key ((s.objects t.key).map fun entry =>
      if entry.generation = i then { entry with version := some version } else entry)) :
    s'.Exclusive := by
  -- the same keys have entries, of the same generations
  have back : ∀ key entry', s'.objects key = some entry' → ∃ entry, s.objects key = some entry ∧
      entry'.generation = entry.generation ∧ (entry'.version = entry.version ∨
        entry'.generation = i) := by
    intro key entry' he
    rw [ho] at he
    by_cases hk : key = t.key
    · subst hk
      rw [update_self] at he
      obtain ⟨entry, hold, rfl⟩ := map_eq_some_iff.1 he
      refine ⟨entry, hold, ?_⟩
      split
      · exact ⟨rfl, .inr ‹_›⟩
      · exact ⟨rfl, .inl rfl⟩
    · rw [update_of_ne hk] at he
      exact ⟨entry', he, rfl, .inl rfl⟩
  have forth : ∀ key entry, s.objects key = some entry → ∃ entry', s'.objects key = some entry' ∧
      entry'.generation = entry.generation := by
    intro key entry he
    rw [ho]
    by_cases hk : key = t.key
    · subst hk
      rw [update_self, he]
      refine ⟨_, rfl, ?_⟩
      dsimp only
      split <;> rfl
    · exact ⟨entry, (update_of_ne hk ..).trans he, rfl⟩
  refine h.congrMaps hts ?_ ?_ ?_ ?_
  · intro key entry' he
    obtain ⟨entry, he, hge, hv⟩ := back key entry' he
    obtain ⟨u, hu, hk, hl'⟩ := h.entry key entry he
    rw [hge]
    refine ⟨u, hu, hk, fun hne => ?_⟩
    rcases hv with hv | hv
    · exact hl' (hv ▸ hne)
    · rw [← hge, hv] at hu
      obtain rfl := mem_unique ht hu
      exact hl
  · intro key
    rw [hr]
    refine (h.apart key).imp (fun hn => ?_) id
    cases he : s'.objects key with
    | none => rfl
    | some entry' =>
      obtain ⟨entry, he', -⟩ := back key entry' he
      rw [hn] at he'
      cases he'
  · intro j u _ _ hp
    rw [State.Placed, hst, hr, hts]
    refine hp.imp id (Or.imp ?_ id)
    rintro ⟨entry, he, rfl⟩
    obtain ⟨entry', he', hge⟩ := forth _ entry he
    exact ⟨entry', he', hge⟩
  · intro j u _ _ hp
    rw [hst]
    refine hp.imp id ?_
    rintro ⟨entry, he, rfl⟩
    obtain ⟨entry', he', hge⟩ := forth _ entry he
    exact ⟨entry', he', hge⟩

theorem retire (h : s.Exclusive) (wid : String) (ver : Int) :
    (s.retire wid ver).Exclusive := by
  refine h.congrMaps rfl ?_ ?_ ?_ ?_
  · intro key entry he
    exact h.entry key entry (filter_eq_some_iff.1 he).1
  · intro key
    cases he : s.objects key with
    | none =>
      refine .inl ?_
      simp [State.retire, he]
    | some entry =>
      by_cases hru : State.runs wid ver entry = true
      · exact .inl (by simp [State.retire, he, hru])
      · refine .inr ?_
        have hn := (h.apart key).resolve_left (by rw [he]; simp)
        simp [State.retire, he, filter_some, hru, hn]
  · intro i t _ _ hp
    refine hp.imp id fun hp => ?_
    rcases hp with ⟨entry, he, rfl⟩ | hre | hwa
    · by_cases hru : State.runs wid ver entry = true
      · exact .inr (.inl (by simp [State.retire, he, filter_some, hru]))
      · exact .inl ⟨entry, by simp [State.retire, he, hru], rfl⟩
    · have hn := (h.apart t.key).resolve_right (by rw [hre]; simp)
      exact .inr (.inl (by simp [State.retire, hn, hre]))
    · exact .inr (.inr hwa)
  · intro i t ht hw hp
    refine hp.imp id ?_
    rintro ⟨entry, he, rfl⟩
    obtain ⟨u, hu, -, hv⟩ := h.entry t.key entry he
    obtain rfl := mem_unique ht hu
    have hve : entry.version = none := by
      by_contra hne
      exact Phase.ne_waiting_of_loaded (hv hne) hw
    exact ⟨entry, by simp [State.retire, he, State.runs, hve], rfl⟩

theorem stopNamespace (h : s.Exclusive) (ns : String) :
    (s.stopNamespace ns).1.Exclusive := by
  have keep : ∀ key entry, s.objects key = some entry →
      (s.stopNamespace ns).1.stopped key.namespaceId = true ∨
        (s.stopNamespace ns).1.objects key = some entry := by
    intro key entry he
    by_cases hk : key.namespaceId = ns
    · exact .inl (by rw [hk]; exact update_self ..)
    · exact .inr ((if_neg hk).trans he)
  have stays : ∀ n, s.stopped n = true → (s.stopNamespace ns).1.stopped n = true := by
    intro n hn
    by_cases hk : n = ns
    · rw [hk]
      exact update_self ..
    · exact (update_of_ne hk ..).trans hn
  refine h.congrMaps rfl ?_ ?_ ?_ ?_
  · intro key entry he
    simp only [State.stopNamespace] at he
    split at he
    · cases he
    · exact h.entry key entry he
  · intro key
    refine (h.apart key).imp (fun hno => ?_) id
    simp [State.stopNamespace, hno]
  · intro i t _ _ hp
    rcases hp with hst | ⟨entry, he, rfl⟩ | hre
    · exact .inl (stays _ hst)
    · exact (keep _ entry he).imp id fun he => .inl ⟨entry, he, rfl⟩
    · exact .inr (.inr hre)
  · intro i t _ _ hp
    rcases hp with hst | ⟨entry, he, rfl⟩
    · exact .inl (stays _ hst)
    · exact (keep _ entry he).imp id fun he => ⟨entry, he, rfl⟩

/-! ## Every step, every run -/

theorem endServe (h : s.Exclusive) (ht : s.tasks i = some t) (how : End)
    (hp : t.phase.serves = true) : (s.endServe i t how).Exclusive :=
  h.setTask ht rfl ⟨rfl, rfl, rfl⟩ rfl rfl rfl (fun _ => hp)
    ⟨nofun, fun hw => absurd hw (Phase.ne_waiting_of_serves hp)⟩ (fun _ => rfl)

theorem endsOn (h : s.Exclusive) {how : End} {rest : Rest} (ht : s.tasks i = some t)
    (hp : t.phase = .ended how rest) (rest' : Rest) :
    (s.setTask i { t with phase := .ended how rest' }).Exclusive := by
  have hcl := h.closed i t ht
  rw [hp] at hcl
  refine h.setTask ht rfl ⟨rfl, rfl, rfl⟩ rfl rfl hcl nofun ⟨nofun, fun hw => ?_⟩ fun _ => rfl
  rw [hp] at hw
  cases hw

theorem goto (h : s.Exclusive) {t' : Task ε} (ht : s.tasks i = some t)
    (hts : s'.tasks = update s.tasks i (some t'))
    (hm : s'.objects = s.objects ∧ s'.retiring = s.retiring ∧ s'.stopped = s.stopped)
    (hk : t'.key = t.key) (hpr : t'.previous = t.previous)
    (hcl : t'.mailbox.closed = t.mailbox.closed) (hp : t.phase.serves = true)
    (hp' : t'.phase.serves = true) (hl : t.phase.loaded = true → t'.phase.loaded = true) :
    s'.Exclusive := by
  refine h.setTask ht hts hm hk hpr ?_ (fun _ => hp)
    ⟨fun hw => absurd hw (Phase.ne_waiting_of_serves hp'),
      fun hw => absurd hw (Phase.ne_waiting_of_serves hp)⟩ hl
  rw [hcl, h.closed i t ht, Phase.isOver_of_serves hp, Phase.isOver_of_serves hp']

theorem step {a : Act ε} (h : s.Exclusive) (hc : s.Counted) (hs : s.Step a s') : s'.Exclusive := by
  cases hs with
  | refused => exact h
  | pushed depth ev hst he ht ho =>
    have hcl := h.closed _ _ ht
    exact h.setTask ht rfl ⟨rfl, rfl, rfl⟩ rfl rfl hcl id Iff.rfl id
  | dropGuard depths guards ht =>
    have hcl := h.closed _ _ ht
    exact h.setTask ht rfl ⟨rfl, rfl, rfl⟩ rfl rfl hcl id Iff.rfl id
  | spawned depth ev hst hcl hac => exact h.spawn hc hst hcl
  | start ht hp hpr => exact h.start ht hp hpr
  | @loaded i t ver ht hp =>
    have hgo : (s.setTask i { t with phase := .looping }).Exclusive :=
      h.goto ht rfl ⟨rfl, rfl, rfl⟩ rfl rfl rfl (by rw [hp]; rfl) rfl (fun _ => rfl)
    exact hgo.setVersion (t := { t with phase := .looping }) (update_self ..) rfl rfl
      rfl rfl rfl
  | notLoaded ht hp => exact h.endServe ht _ (by rw [hp]; rfl)
  | die ht hp => exact h.endServe ht _ hp
  | tookFirst built ht hp hq =>
    refine h.goto ht rfl ⟨rfl, rfl, rfl⟩ rfl rfl rfl (by rw [hp]; rfl) ?_ fun _ => ?_
    · cases built <;> rfl
    · cases built <;> rfl
  | tookNone built ht hp | received ht hp | receivedNone ht hp | objectEnds ht hp
  | stayed ht hp =>
    exact h.goto ht rfl ⟨rfl, rfl, rfl⟩ rfl rfl rfl (by rw [hp]; rfl) rfl (fun _ => rfl)
  | @left i t ht hp hq =>
    have hen := h.endServe ht .left (by rw [hp]; rfl)
    refine hen.forget rfl rfl (fun key => ?_) fun _ => .inl rfl
    by_cases han : (s.objects t.key).any fun entry => entry.generation = i
    · by_cases hk : key = t.key
      · subst hk
        refine .inr ⟨by simp only [han, if_true]; exact update_self .., ?_⟩
        intro entry u he hu
        have hge : entry.generation = i := by
          rw [show s.objects t.key = some entry from he] at han
          simpa using han
        rw [hge] at hu
        obtain rfl := some.inj ((State.tasks_setTask_self ..).symm.trans hu)
        rfl
      · exact .inl (by simp only [han, if_true]; exact update_of_ne hk ..)
    · exact .inl (by simp only [han]; rfl)
  | @release i t how running accounts ht hp hr ha =>
    refine (h.endsOn ht hp .released).forget rfl rfl (fun _ => .inl rfl) fun key => ?_
    by_cases hre : s.retiring t.key = some i
    · by_cases hk : key = t.key
      · subst hk
        refine .inr ⟨by simp only [hre, if_true]; exact update_self .., ?_⟩
        intro g u hg hu
        obtain rfl := mem_unique hre hg
        obtain rfl := some.inj ((State.tasks_setTask_self ..).symm.trans hu)
        rfl
      · exact .inl (by simp only [hre, if_true]; exact update_of_ne hk ..)
    · exact .inl (by simp only [hre]; rfl)
  | finish ht hp => exact h.endsOn ht hp .gone
  | retire wid ver => exact h.retire wid ver
  | stopNamespace ns => exact h.stopNamespace ns

end State.Exclusive

theorem exclusive_of_reach {s : State ε} (h : (machine ε).Reachable s) : s.Exclusive := by
  refine h.invariant (I := State.Exclusive) ?_ fun s a s' hr hi _ hs =>
    hi.step (counted_of_reach hr) (State.step_of_eq hs)
  have none : ∀ i (t : Task ε), (machine ε).init.tasks i ≠ some t := fun i t ht => by cases ht
  exact ⟨fun i t ht => absurd ht (none i t), fun key entry he => (by cases he), fun _ => .inl rfl,
    fun i t ht => absurd ht (none i t), fun i t ht => absurd ht (none i t),
    fun i t _ _ ht => absurd ht (none i t), fun i t _ _ ht => absurd ht (none i t),
    fun i t _ _ ht => absurd ht (none i t)⟩

def State.Serves (s : State ε) (key : ObjectKey) (i : Nat) : Prop :=
  ∃ t, s.tasks i = some t ∧ t.key = key ∧ t.phase.serves = true

/-- **Old and new code never run for the same object at once**: in every state the registry
reaches, at most one task of an object is between the start of its load and the end of its
`serve`, and no key is both in `objects` and in `retiring`. -/
theorem one_task_serves {s : State ε} (h : (machine ε).Reachable s) (key : ObjectKey) :
    (∀ i j, s.Serves key i → s.Serves key j → i = j) ∧
      ¬ (s.objects key ≠ none ∧ s.retiring key ≠ none) := by
  have hi := exclusive_of_reach h
  refine ⟨?_, ?_⟩
  · rintro i j ⟨t, ht, hk, hs⟩ ⟨u, hu, hk', hs'⟩
    exact hi.oneServes i t j u ht hs hu hs' (hk'.trans hk.symm)
  · rintro ⟨ho, hr⟩
    exact (hi.apart key).elim ho hr

def redeployed : List (Act String) :=
  let ns : NamespaceConfig := ⟨"n", "account", "worker"⟩
  [.admitEvent ns "o" 0 "first", .start 0, .loaded 0 1, .tryRecv 0 true, .retire "worker" 1,
    .admitEvent ns "o" 0 "second"]

theorem one_task_serves_redeployed :
    ∃ s : State String, (machine String).Reachable s ∧ s.Serves ⟨"n", "o"⟩ 0 ∧
      (s.tasks 1).map Task.phase = some .waiting ∧ ∀ j, s.Serves ⟨"n", "o"⟩ j → j = 0 := by
  obtain ⟨s, hs, h0, h1⟩ := (machine String).exists_of_run redeployed
    (fun s => (s.tasks 0).map (fun t => (t.key, t.phase)) = some (⟨"n", "o"⟩, .lent) ∧
      (s.tasks 1).map Task.phase = some .waiting) (by decide)
  obtain ⟨t, ht, hkp⟩ := map_eq_some_iff.1 h0
  rw [Prod.mk.injEq] at hkp
  have hsv : s.Serves ⟨"n", "o"⟩ 0 := ⟨t, ht, hkp.1, by rw [hkp.2]; rfl⟩
  exact ⟨s, hs, hsv, h1, fun j hj => (one_task_serves hs ⟨"n", "o"⟩).1 j 0 hj hsv⟩

end OpenWorkersRunner.Durable
