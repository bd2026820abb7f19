import OpenWorkersRunner.Durable.Exclusion

/-!
# Every event is taken once

`admit` puts an event in the mailbox of a task, and the task takes the events of its mailbox one by
one; when the mailbox is empty it asks `leave` whether it can end, and `leave` closes the mailbox
under the lock that `admit` sends under.  `State.accepted` and `State.taken` record the two ends.
-/

namespace OpenWorkersRunner.Durable

open Function List Option

variable {ε : Type}

/-! ## The two records -/

def eventsOf (log : List (Nat × ε)) (i : Nat) : List ε :=
  (log.filter fun p => p.1 = i).map Prod.snd

theorem eventsOf_append_self (log : List (Nat × ε)) (i : Nat) (events : List ε) :
    eventsOf (log ++ events.map (i, ·)) i = eventsOf log i ++ events := by
  have ha : (events.map (i, ·)).filter (fun p => p.1 = i) = events.map (i, ·) := by
    rw [filter_eq_self]
    intro p hp
    obtain ⟨e, -, rfl⟩ := List.mem_map.1 hp
    exact decide_eq_true rfl
  rw [eventsOf, filter_append, ha, map_append, List.map_map, eventsOf]
  congr 1
  exact List.map_id _

variable {i : Nat} {s s' : State ε} {a : Act ε} {t : Task ε}

theorem eventsOf_append_of_ne (log : List (Nat × ε)) {j : Nat} (hj : j ≠ i) (evs : List ε) :
    eventsOf (log ++ evs.map (i, ·)) j = eventsOf log j := by
  have hn : (evs.map (i, ·)).filter (fun p => p.1 = j) = [] := by
    rw [filter_eq_nil_iff]
    intro p hp
    obtain ⟨e, -, rfl⟩ := mem_map.1 hp
    simpa using Ne.symm hj
  rw [eventsOf, filter_append, hn, append_nil, eventsOf]

def State.acceptedBy (s : State ε) (i : Nat) : List ε := eventsOf s.accepted i

def State.takenBy (s : State ε) (i : Nat) : List ε := eventsOf s.taken i

/-! ## What was put in is what was taken and what is left -/

structure State.Delivered (s : State ε) : Prop where
  kept : ∀ i t, s.tasks i = some t → s.acceptedBy i = s.takenBy i ++ t.mailbox.queue
  left : ∀ i t rest, s.tasks i = some t → t.phase = .ended .left rest → t.mailbox.queue = []
  unborn : ∀ i, s.tasks i = none → s.acceptedBy i = [] ∧ s.takenBy i = []

namespace State.Delivered

variable {i : Nat} {s s' : State ε} {t' : Task ε}

theorem update (h : s.Delivered) {queue : List ε} (put took : List ε)
    (hk : s.acceptedBy i = s.takenBy i ++ queue)
    (ht : s'.tasks = Function.update s.tasks i (some t'))
    (ha : s'.accepted = s.accepted ++ put.map (i, ·))
    (htk : s'.taken = s.taken ++ took.map (i, ·)) (hq : queue ++ put = took ++ t'.mailbox.queue)
    (hl : ∀ rest, t'.phase = .ended .left rest → t'.mailbox.queue = []) : s'.Delivered := by
  refine ⟨?_, ?_, ?_⟩
  · intro j u hj
    rw [ht] at hj
    rw [State.acceptedBy, State.takenBy, ha, htk]
    rcases update_some_eq_some hj with ⟨rfl, rfl⟩ | ⟨hji, hj⟩
    · rw [State.acceptedBy, State.takenBy] at hk
      rw [eventsOf_append_self, eventsOf_append_self, hk, append_assoc, hq, append_assoc]
    · rw [eventsOf_append_of_ne _ hji, eventsOf_append_of_ne _ hji]
      exact h.kept j u hj
  · intro j u rest hj hp
    rw [ht] at hj
    rcases update_some_eq_some hj with ⟨rfl, rfl⟩ | ⟨-, hj⟩
    · exact hl rest hp
    · exact h.left j u rest hj hp
  · intro j hj
    have hji : j ≠ i := by
      rintro rfl
      rw [ht, update_self] at hj
      cases hj
    rw [ht, update_of_ne hji] at hj
    rw [State.acceptedBy, State.takenBy, ha, htk, eventsOf_append_of_ne _ hji,
      eventsOf_append_of_ne _ hji]
    exact h.unborn j hj

theorem still (h : s.Delivered) {t : Task ε} (ht : s.tasks i = some t)
    (hts : s'.tasks = Function.update s.tasks i (some t')) (ha : s'.accepted = s.accepted)
    (htk : s'.taken = s.taken) (hq : t'.mailbox.queue = t.mailbox.queue)
    (hl : ∀ rest, t'.phase = .ended .left rest → t'.mailbox.queue = []) : s'.Delivered := by
  refine h.update [] [] (h.kept i t ht) hts ?_ ?_ ?_ hl
  · simpa using ha
  · simpa using htk
  · simpa using hq.symm

theorem start (h : s.Delivered) {ev : ε} (hi : s.tasks i = none)
    (hts : s'.tasks = Function.update s.tasks i (some t'))
    (ha : s'.accepted = s.accepted ++ [(i, ev)]) (htk : s'.taken = s.taken)
    (hq : t'.mailbox.queue = [ev]) (hp : t'.phase = .waiting) : s'.Delivered := by
  obtain ⟨hpu, ht⟩ := h.unborn i hi
  have hk : s.acceptedBy i = s.takenBy i ++ [] := by rw [hpu, ht]; rfl
  refine h.update [ev] [] hk hts ha ?_ ?_ fun rest hl => ?_
  · simpa using htk
  · simpa using hq.symm
  · rw [hp] at hl
    cases hl

theorem step {a : Act ε} (h : s.Delivered) (hc : s.Counted) (hi : s.Exclusive) (hs : s.Step a s') :
    s'.Delivered := by
  cases hs with
  | refused => exact h
  | @pushed ns id entry t depth ev hst he ht ho =>
    refine h.update [ev] [] (h.kept _ t ht) rfl rfl ?_ rfl fun rest hre => ?_
    · simp [State.enter, State.setTask]
    · have hcl := hi.closed _ t ht
      rw [ho, show t.phase = .ended .left rest from hre] at hcl
      cases hcl
  | @spawned ns id depth ev hst hcl hac =>
    refine h.start (i := s.generation) ?_ rfl rfl rfl rfl rfl
    cases ht : s.tasks s.generation with
    | none => rfl
    | some t => exact absurd (hc.lt _ t ht) (Nat.lt_irrefl _)
  | dropGuard depths guards ht =>
    have hl := fun rest => h.left _ _ rest ht
    exact h.still ht rfl rfl rfl rfl hl
  | @tookFirst i t ev queue built ht hp hq =>
    refine h.update [] [ev] (h.kept i t ht) rfl ?_ rfl ?_ fun rest hre => ?_
    · simp [State.setTask]
    · simpa using hq
    · cases built <;> cases hre
  | @received i t ev queue ht hp hq =>
    refine h.update [] [ev] (h.kept i t ht) rfl ?_ rfl ?_ fun rest hre => ?_
    · simp [State.setTask]
    · simpa using hq
    · cases hre
  | left ht hp hq => exact h.still ht rfl rfl rfl rfl fun _ _ => hq
  | release ht hp hr ha | finish ht hp =>
    have hl := fun rest => h.left _ _ rest ht
    refine h.still ht rfl rfl rfl rfl fun rest hre => ?_
    cases hre
    exact hl _ hp
  | retire | stopNamespace => exact ⟨h.kept, h.left, h.unborn⟩
  | start ht | loaded _ ht | notLoaded ht | tookNone _ ht | receivedNone ht | objectEnds ht
  | stayed ht | die ht =>
    refine h.still ht rfl rfl rfl rfl fun rest hre => ?_
    cases hre

end State.Delivered

theorem delivered_of_reach (h : (machine ε).Reachable s) : s.Delivered := by
  refine h.invariant (I := State.Delivered) ⟨?_, ?_, fun _ _ => ⟨rfl, rfl⟩⟩
    fun s a s' hr hi _ hs =>
      hi.step (counted_of_reach hr) (exclusive_of_reach hr) (State.step_of_eq hs)
  · intro i t ht
    cases ht
  · intro i t rest ht
    cases ht

/-! ## Nothing is put in a closed mailbox -/

/-- What was put in a mailbox after a step: nothing more, or one event, which a mailbox that is
open took or a new one. -/
theorem State.Step.accepted (hs : s.Step a s') :
    s'.accepted = s.accepted ∨ ∃ i ev, s'.accepted = s.accepted ++ [(i, ev)] ∧
      (i = s.generation ∨ ∃ t, s.tasks i = some t ∧ t.mailbox.closed = false) := by
  cases hs with
  | pushed depth ev hst he ht ho => exact .inr ⟨_, ev, rfl, .inr ⟨_, ht, ho⟩⟩
  | spawned depth ev hst hcl ha => exact .inr ⟨_, ev, rfl, .inl rfl⟩
  | _ => exact .inl rfl

theorem closed_step (hc : s.Counted) (hi : s.Exclusive) (hs : s.Step a s') (ht : s.tasks i = some t)
    (ho : t.phase.isOver = true) :
    (∃ t', s'.tasks i = some t' ∧ t'.phase.isOver = true ∧ t'.mailbox = t.mailbox) ∧
      s'.acceptedBy i = s.acceptedBy i := by
  have hlt := hc.lt i t ht
  have hcl : t.mailbox.closed = true := (hi.closed i t ht).trans ho
  refine ⟨?_, ?_⟩
  · obtain ⟨t', ht', hon⟩ := hs.task_on hc ht
    exact ⟨t', ht', hon.ended ho, hon.mailbox ho hcl⟩
  · rcases hs.accepted with heq | ⟨j, ev, heq, hj⟩
    · rw [State.acceptedBy, heq, State.acceptedBy]
    · have hij : i ≠ j := by
        rintro rfl
        rcases hj with hge | ⟨u, hu, hop⟩
        · omega
        · obtain rfl := mem_unique ht hu
          rw [hcl] at hop
          cases hop
      rw [State.acceptedBy, heq, State.acceptedBy]
      exact eventsOf_append_of_ne _ hij [ev]

theorem closed_run {s s' : State ε} {as : List (Act ε)} (h : (machine ε).Reachable s)
    (hs : (machine ε).run s as = some s') {i : Nat} {t : Task ε} (ht : s.tasks i = some t)
    (ho : t.phase.isOver = true) :
    (∃ t', s'.tasks i = some t' ∧ t'.mailbox = t.mailbox) ∧ s'.acceptedBy i = s.acceptedBy i := by
  induction as generalizing s t with
  | nil =>
    rw [Machine.run_nil, some_inj] at hs
    subst hs
    exact ⟨⟨t, ht, rfl⟩, rfl⟩
  | cons a as ih =>
    obtain ⟨r, hr, hs⟩ := bind_eq_some_iff.1 hs
    obtain ⟨⟨t', ht', ho', hm⟩, hp⟩ :=
      closed_step (counted_of_reach h) (exclusive_of_reach h) (State.step_of_eq hr) ht ho
    obtain ⟨⟨u, hu, hm'⟩, hp'⟩ := ih (.step h trivial hr) hs ht' ho'
    exact ⟨⟨u, hu, hm'.trans hm⟩, hp'.trans hp⟩

/-! ## A task can be run on until it has taken everything -/

def Act.GoesOn (p : Nat) : Act ε → Prop
  | .start i | .loaded i _ | .tryRecv i true | .recv i | .objectEnds i | .leave i | .release i
  | .finish i => i = p
  | _ => False

def State.Leads (p : Nat) (s s' : State ε) : Prop :=
  ∃ as : List (Act ε), (∀ a ∈ as, a.GoesOn p) ∧ (machine ε).run s as = some s'

namespace State.Leads

theorem refl (p : Nat) (s : State ε) : s.Leads p s := ⟨[], nofun, rfl⟩

variable {p : Nat} {s s' : State ε}

theorem trans {t u : State ε} (h : s.Leads p t) (h' : t.Leads p u) : s.Leads p u := by
  obtain ⟨as, has, hs⟩ := h
  obtain ⟨bs, hbs, ht⟩ := h'
  refine ⟨as ++ bs, fun a ha => ?_, ?_⟩
  · exact (mem_append.1 ha).elim (has a) (hbs a)
  · rw [Machine.run_append, hs]
    exact ht

theorem single {t : State ε} {a : Act ε} (h : s.step a = some t) (ha : a.GoesOn p) :
    s.Leads p t := by
  refine ⟨[a], fun b hb => ?_, ?_⟩
  · rw [mem_singleton] at hb
    rw [hb]
    exact ha
  · show ((machine ε).step s a).bind _ = some t
    rw [show (machine ε).step s a = some t from h]
    rfl

theorem reachable (h : s.Leads p s') (hr : (machine ε).Reachable s) : (machine ε).Reachable s' := by
  obtain ⟨as, -, hs⟩ := h
  exact hr.run (fun _ _ _ => trivial) hs

theorem step_frame {a : Act ε} (ha : a.GoesOn p) (hs : s.Step a s') :
    (∀ j, j ≠ p → s'.tasks j = s.tasks j) ∧ s'.accepted = s.accepted := by
  have other : ∀ {i : Nat} {t : Task ε} (j : Nat), i = p → j ≠ p →
      Function.update s.tasks i (some t) j = s.tasks j := by
    rintro i t j rfl hj
    exact update_of_ne hj ..
  cases hs with
  | refused | pushed | spawned | dropGuard | notLoaded | die | retire | stopNamespace => cases ha
  | tookFirst built ht | tookNone built ht =>
    cases built with
    | true => exact ⟨fun j hj => other j ha hj, rfl⟩
    | false => cases ha
  | _ => exact ⟨fun j hj => other j ha hj, rfl⟩

theorem frame (h : s.Leads p s') :
    (∀ j, j ≠ p → s'.tasks j = s.tasks j) ∧ s'.accepted = s.accepted := by
  obtain ⟨as, has, hs⟩ := h
  induction as generalizing s with
  | nil =>
    rw [Machine.run_nil, some_inj] at hs
    subst hs
    exact ⟨fun _ _ => rfl, rfl⟩
  | cons a as ih =>
    obtain ⟨r, hr, hs⟩ := bind_eq_some_iff.1 hs
    obtain ⟨ht, ha⟩ := step_frame (has a (by simp)) (State.step_of_eq hr)
    obtain ⟨ht', ha'⟩ := ih (fun b hb => has b (by simp [hb])) hs
    exact ⟨fun j hj => (ht' j hj).trans (ht j hj), ha'.trans ha⟩

end State.Leads

def State.At (s : State ε) (p : Nat) (phase : Phase) (queue : List ε) : Prop :=
  ∃ t, s.tasks p = some t ∧ t.phase = phase ∧ t.mailbox.queue = queue

namespace State.At

theorem setTask {s s' : State ε} {p : Nat} {t : Task ε} {queue : List ε}
    (h : s'.tasks = (s.setTask p t).tasks) (hq : t.mailbox.queue = queue) :
    s'.At p t.phase queue :=
  ⟨t, by rw [h, State.tasks_setTask_self], rfl, hq⟩

variable {p : Nat} {phase : Phase} {queue : List ε} {s : State ε}

theorem take_cons {t : Task ε} {otherwise : Phase} {ev : ε}
    (hq : t.mailbox.queue = ev :: queue) : (s.take p t phase otherwise).At p phase queue := by
  rw [State.take, hq]
  exact setTask (s := s) rfl rfl

theorem take_nil {t : Task ε} {otherwise : Phase} (hq : t.mailbox.queue = []) :
    (s.take p t phase otherwise).At p otherwise [] := by
  rw [State.take, hq]
  exact setTask (s := s) rfl hq

theorem leads_recv (h : s.At p .lent queue) : ∃ s', s.Leads p s' ∧ s'.At p .lent [] := by
  induction queue generalizing s with
  | nil => exact ⟨s, .refl p s, h⟩
  | cons ev queue ih =>
    obtain ⟨t, ht, hp, hq⟩ := h
    have hst : s.step (.recv p) = some (s.take p t .lent .lent) :=
      State.move_eq_some.2 ⟨t, ht, hp, rfl⟩
    obtain ⟨s', hs', ha⟩ := ih (take_cons hq)
    exact ⟨s', (State.Leads.single hst rfl).trans hs', ha⟩

theorem leads_looping (h : s.At p .looping queue) :
    ∃ s' phase, s.Leads p s' ∧ s'.At p phase [] ∧ (phase = .lent ∨ phase = .leaving) := by
  obtain ⟨t, ht, hp, hq⟩ := h
  have hst : s.step (.tryRecv p true) = some (s.take p t .lent .leaving) :=
    State.move_eq_some.2 ⟨t, ht, hp, rfl⟩
  have hl := State.Leads.single hst rfl
  cases queue with
  | nil => exact ⟨_, .leaving, hl, take_nil hq, .inr rfl⟩
  | cons ev queue =>
    obtain ⟨s', hs', ha⟩ := leads_recv (take_cons hq)
    exact ⟨s', .lent, hl.trans hs', ha, .inl rfl⟩

theorem leads_serving (h : s.At p phase queue) (hsv : phase.serves = true) :
    ∃ s' phase', s.Leads p s' ∧ s'.At p phase' [] ∧ (phase' = .lent ∨ phase' = .leaving) := by
  obtain ⟨t, ht, hp, hq⟩ := h
  cases phase with
  | waiting => cases hsv
  | ended how rest => cases hsv
  | lent =>
    obtain ⟨s', hs', ha⟩ := leads_recv ⟨t, ht, hp, hq⟩
    exact ⟨s', .lent, hs', ha, .inl rfl⟩
  | looping => exact leads_looping ⟨t, ht, hp, hq⟩
  | loading =>
    obtain ⟨r, hst, ha⟩ : ∃ r, s.step (.loaded p 0) = some r ∧ r.At p .looping queue :=
      ⟨_, State.move_eq_some.2 ⟨t, ht, hp, rfl⟩, setTask (s := s) rfl hq⟩
    obtain ⟨s', phase', hs', hre⟩ := ha.leads_looping
    exact ⟨s', phase', (State.Leads.single hst rfl).trans hs', hre⟩
  | leaving =>
    cases queue with
    | nil => exact ⟨s, .leaving, .refl p s, ⟨t, ht, hp, hq⟩, .inr rfl⟩
    | cons ev queue =>
      have hst : s.step (.leave p) = some (s.setTask p { t with phase := .looping }) := by
        refine State.move_eq_some.2 ⟨t, ht, hp, ?_⟩
        simp [State.leave, hq]
      have ha : (s.setTask p { t with phase := .looping }).At p .looping (ev :: queue) :=
        setTask (s := s) rfl hq
      obtain ⟨s', phase', hs', hre⟩ := ha.leads_looping
      exact ⟨s', phase', (State.Leads.single hst rfl).trans hs', hre⟩

theorem leads_leaving (h : s.At p .leaving []) :
    ∃ s', s.Leads p s' ∧ s'.At p (.ended .left .running) [] := by
  obtain ⟨t, ht, hp, hq⟩ := h
  have hst : s.step (.leave p) = some ((s.leave p t).1.endServe p t .left) := by
    refine State.move_eq_some.2 ⟨t, ht, hp, ?_⟩
    simp [State.leave, hq]
  exact ⟨_, .single hst rfl, setTask (s := (s.leave p t).1) rfl hq⟩

theorem leads_left (h : s.At p phase []) (hph : phase = .lent ∨ phase = .leaving) :
    ∃ s', s.Leads p s' ∧ s'.At p (.ended .left .running) [] := by
  rcases hph with rfl | rfl
  · obtain ⟨t, ht, hp, hq⟩ := h
    have hen : s.step (.objectEnds p) = some (s.setTask p { t with phase := .looping }) :=
      State.move_eq_some.2 ⟨t, ht, hp, rfl⟩
    have htr : (s.setTask p { t with phase := .looping }).step (.tryRecv p true) = some _ :=
      State.move_eq_some.2 ⟨_, State.tasks_setTask_self .., rfl, rfl⟩
    obtain ⟨s', hs', ha⟩ := leads_leaving (take_nil hq)
    exact ⟨s', (State.Leads.single hen rfl).trans ((State.Leads.single htr rfl).trans hs'), ha⟩
  · exact leads_leaving h

end State.At

theorem leads_gone_of_over (hr : (machine ε).Reachable s) {p : Nat} {how : End} {rest : Rest}
    (ht : s.tasks p = some t) (hp : t.phase = .ended how rest) :
    ∃ s' u, s.Leads p s' ∧ s'.tasks p = some u ∧ u.phase.isGone = true := by
  have finish : ∀ {r : State ε} {u : Task ε}, r.tasks p = some u → u.phase = .ended how .released →
      ∃ s' u', r.Leads p s' ∧ s'.tasks p = some u' ∧ u'.phase.isGone = true := by
    intro r u hu hup
    have hst : r.step (.finish p) = some (r.setTask p { u with phase := .ended how .gone }) := by
      simp [State.step, State.finish, hu, hup]
    exact ⟨_, _, .single hst rfl, State.tasks_setTask_self .., rfl⟩
  cases rest with
  | gone => exact ⟨s, t, .refl p s, ht, by rw [hp]; rfl⟩
  | released => exact finish ht hp
  | running =>
    obtain ⟨r, hrel⟩ := isSome_iff_exists.1 (release_isSome hr ht hp)
    have hl := State.Leads.single (a := .release p) hrel rfl
    have hre : ∃ u, r.tasks p = some u ∧ u.phase = .ended how .released := by
      cases State.step_release_of_eq hrel with
      | release ht' hp' =>
        obtain rfl := some.inj (ht.symm.trans ht')
        cases hp.symm.trans hp'
        exact ⟨_, State.tasks_setTask_self .., rfl⟩
    obtain ⟨u, hu, hup⟩ := hre
    obtain ⟨s', v, hs', hv, hgo⟩ := finish hu hup
    exact ⟨s', v, hl.trans hs', hv, hgo⟩

theorem leads_gone (hr : (machine ε).Reachable s) {p : Nat} (ht : s.tasks p = some t)
    (hp : t.phase ≠ .waiting) :
    ∃ s' u, s.Leads p s' ∧ s'.tasks p = some u ∧ u.phase.isGone = true := by
  by_cases hsv : t.phase.serves = true
  · obtain ⟨r, phase, hr1, ha, hph⟩ := State.At.leads_serving ⟨t, ht, rfl, rfl⟩ hsv
    obtain ⟨r', hr2, u, hu, hup, -⟩ := ha.leads_left hph
    obtain ⟨s', v, hs', hv, hgo⟩ := leads_gone_of_over (hr2.reachable (hr1.reachable hr)) hu hup
    exact ⟨s', v, hr1.trans (hr2.trans hs'), hv, hgo⟩
  · cases hph : t.phase with
    | ended how rest => exact leads_gone_of_over hr ht hph
    | waiting => exact absurd hph hp
    | loading | looping | leaving | lent => rw [hph] at hsv; exact absurd rfl hsv

structure State.Linked (s : State ε) : Prop where
  retiring : ∀ key g, s.retiring key = some g → ∃ u, s.tasks g = some u ∧ u.phase.loaded = true
  previous : ∀ i t g, s.tasks i = some t → t.previous = some g →
    ∃ u, s.tasks g = some u ∧ u.phase.loaded = true

theorem State.Step.loaded_mono (hc : s.Counted) (hs : s.Step a s') {g : Nat}
    (h : ∃ u, s.tasks g = some u ∧ u.phase.loaded = true) :
    ∃ u, s'.tasks g = some u ∧ u.phase.loaded = true := by
  obtain ⟨u, hu, hl⟩ := h
  obtain ⟨u', hu', ho⟩ := hs.task_on hc hu
  exact ⟨u', hu', ho.loaded hl⟩

theorem State.Step.retiring (hi : s.Exclusive) (hs : s.Step a s') {key : ObjectKey} {g : Nat}
    (h : s'.retiring key = some g) :
    s.retiring key = some g ∨ ∃ u, s.tasks g = some u ∧ u.phase.loaded = true := by
  cases hs with
  | spawned depth ev hst hcl hac =>
    rename_i ns id
    by_cases hk : key = ⟨ns.id, id⟩
    · rw [hk] at h
      cases (update_self ..).symm.trans h
    · exact .inl ((update_of_ne hk ..).symm.trans h)
  | @release i t how running accounts ht hp hr ha =>
    by_cases hre : s.retiring t.key = some i
    · simp only [hre, if_true] at h
      by_cases hk : key = t.key
      · rw [hk, update_self] at h
        cases h
      · rw [update_of_ne hk] at h
        exact .inl h
    · simp only [hre, if_false] at h
      exact .inl h
  | retire workerId version =>
    simp only [State.retire] at h
    split at h
    next entry he =>
      obtain ⟨he, hru⟩ := filter_eq_some_iff.1 he
      obtain ⟨u, hu, -, hv⟩ := hi.entry key entry he
      rw [State.runs, Bool.and_eq_true, beq_iff_eq, beq_iff_eq] at hru
      rw [← some.inj h]
      exact .inr ⟨u, hu, hv (by rw [hru.2]; simp)⟩
    · exact .inl h
  | _ => exact .inl h

theorem State.Linked.step (h : s.Linked) (hc : s.Counted) (hi : s.Exclusive) (hs : s.Step a s') :
    s'.Linked := by
  refine ⟨fun key g hg => ?_, fun i t g ht hg => ?_⟩
  · exact hs.loaded_mono hc ((hs.retiring hi hg).elim (h.retiring key g) id)
  · refine hs.loaded_mono hc ?_
    rcases hs.tasks with heq | ⟨j, u, u', hu, heq, ho⟩ | ⟨u', heq, hp⟩
    · rw [heq] at ht
      exact h.previous i t g ht hg
    · rw [heq] at ht
      rcases update_some_eq_some ht with ⟨rfl, rfl⟩ | ⟨-, ht⟩
      · exact h.previous i u g hu (ho.previous.symm.trans hg)
      · exact h.previous i t g ht hg
    · rw [heq] at ht
      rcases update_some_eq_some ht with ⟨rfl, rfl⟩ | ⟨-, ht⟩
      · exact h.retiring _ g (hp.symm.trans hg)
      · exact h.previous i t g ht hg

theorem linked_of_reach (h : (machine ε).Reachable s) : s.Linked := by
  refine h.invariant (I := State.Linked) ⟨?_, ?_⟩ fun s a s' hr hi _ hs =>
    hi.step (counted_of_reach hr) (exclusive_of_reach hr) (State.step_of_eq hs)
  · intro key g hg
    cases hg
  · intro i t g ht
    cases ht

/-- **A task that is not over can be run on until its mailbox is empty**: if it waits, the task it
waits for is run to its end first. -/
theorem leads_taken (hr : (machine ε).Reachable s) (ht : s.tasks i = some t)
    (ho : t.phase.isOver = false) :
    ∃ s' p, (∃ r, s.Leads p r ∧ r.Leads i s') ∧ ∃ t', s'.tasks i = some t' ∧
      t'.mailbox.queue = [] := by
  -- from a state in which the task serves
  have serving : ∀ {r : State ε} {u : Task ε}, r.tasks i = some u → u.phase.serves = true →
      ∃ s', r.Leads i s' ∧ ∃ t', s'.tasks i = some t' ∧ t'.mailbox.queue = [] := by
    intro r u hu hsv
    obtain ⟨s', phase, hs', ⟨t', ht', -, hq⟩, -⟩ := State.At.leads_serving ⟨u, hu, rfl, rfl⟩ hsv
    exact ⟨s', hs', t', ht', hq⟩
  by_cases hw : t.phase = .waiting
  · -- what it waits for has ended in some state in which the task is as it was
    obtain ⟨r, p, hl, htr, hen⟩ : ∃ r p, s.Leads p r ∧ r.tasks i = some t ∧
        r.previousEnded t = true := by
      cases hpr : t.previous with
      | none => exact ⟨s, i, .refl i s, ht, by rw [State.previousEnded, hpr]; rfl⟩
      | some p =>
        obtain ⟨u, hu, hld⟩ := (linked_of_reach hr).previous i t p ht hpr
        have huw : u.phase ≠ .waiting := Phase.ne_waiting_of_loaded hld
        have hip : i ≠ p := by
          rintro rfl
          obtain rfl := mem_unique ht hu
          exact huw hw
        obtain ⟨r, v, hl, hv, hgo⟩ := leads_gone hr hu huw
        refine ⟨r, p, hl, (hl.frame.1 i hip).trans ht, ?_⟩
        rw [State.previousEnded, hpr, all_some, hv, all_some]
        exact hgo
    have hst : r.step (.start i) = some (r.setTask i { t with phase := .loading }) := by
      simp [State.step, State.start, htr, hw, hen]
    obtain ⟨s', hs', hre⟩ :=
      serving (State.tasks_setTask_self r i { t with phase := .loading }) rfl
    exact ⟨s', p, ⟨r, hl, (State.Leads.single hst rfl).trans hs'⟩, hre⟩
  · have hsv : t.phase.serves = true := by
      cases hp : t.phase <;> rw [hp] at hw ho <;> first | rfl | exact absurd rfl hw | cases ho
    obtain ⟨s', hs', hre⟩ := serving ht hsv
    exact ⟨s', i, ⟨s, .refl i s, hs'⟩, hre⟩

/-! ## The account -/

theorem accepted_of_admit (hi : s.Exclusive) (hc : s.Counted) {ns : NamespaceConfig} {id : String}
    {depth : Nat} {ev : ε} {guard : DepthGuard}
    (h : s.admitEvent ns id depth ev = .ok (s', guard)) :
    s'.accepted = s.accepted ++ [(guard.generation, ev)] ∧
      ∃ t, s'.tasks guard.generation = some t ∧ t.key = ⟨ns.id, id⟩ := by
  obtain ⟨hs, ha, hgr⟩ := State.step_admit_of_ok h
  refine ⟨ha, ?_⟩
  rcases hgr with ⟨entry, he, hge⟩ | ⟨hge, ht⟩
  · obtain ⟨t, ht, hk, -⟩ := hi.entry _ entry he
    obtain ⟨t', ht', ho⟩ := hs.task_on hc ht
    rw [hge]
    exact ⟨t', ht', ho.key.trans hk⟩
  · rw [hge]
    exact ⟨_, ht, rfl⟩

/-- **Every event is taken once.**  In every state the registry reaches:

* an event that `admit` accepts is put in one mailbox, of a task of its object;
* what was put in a mailbox is what its task took, in the same order and each event once, and what
  is still in it;
* a task that left has taken everything, and a task that is not over can be run on until it has:
  what is lost is lost with a load that failed or a task that died;
* when `leave` answers that the task can end, its mailbox is empty and closed, and stays so:
  nothing that is admitted later is put in it. -/
theorem events_taken_once {s : State ε} (h : (machine ε).Reachable s) :
    (∀ ns id depth event s' guard, s.admitEvent ns id depth event = .ok (s', guard) →
      s'.accepted = s.accepted ++ [(guard.generation, event)] ∧
        ∃ t, s'.tasks guard.generation = some t ∧ t.key = ⟨ns.id, id⟩) ∧
    (∀ i event, (i, event) ∈ s.accepted → ∃ t, s.tasks i = some t) ∧
    (∀ i t, s.tasks i = some t → s.acceptedBy i = s.takenBy i ++ t.mailbox.queue ∧
      (∀ rest, t.phase = .ended .left rest → s.takenBy i = s.acceptedBy i) ∧
      (t.phase.isOver = false → ∃ as s', (∀ a ∈ as, ∃ p, Act.GoesOn p a) ∧
        (machine ε).run s as = some s' ∧ s'.takenBy i = s.acceptedBy i)) ∧
    ∀ i t s', s.tasks i = some t → t.phase = .leaving → (s.leave i t).2 = true →
      s.step (.leave i) = some s' → ∀ as s'', (machine ε).run s' as = some s'' →
        (∃ t', s''.tasks i = some t' ∧ t'.mailbox = ⟨[], true⟩) ∧
          s''.acceptedBy i = s.acceptedBy i := by
  have hd := delivered_of_reach h
  have hc := counted_of_reach h
  have hi := exclusive_of_reach h
  refine ⟨fun ns id depth event s' guard hadm => accepted_of_admit hi hc hadm, ?_, ?_, ?_⟩
  · intro i event hmem
    cases ht : s.tasks i with
    | some t => exact ⟨t, rfl⟩
    | none =>
      have hput := (hd.unborn i ht).1
      have : event ∈ s.acceptedBy i :=
        List.mem_map.2 ⟨(i, event), mem_filter.2 ⟨hmem, decide_eq_true rfl⟩, rfl⟩
      rw [hput] at this
      cases this
  · intro i t ht
    refine ⟨hd.kept i t ht, fun rest hp => ?_, fun hover => ?_⟩
    · rw [hd.kept i t ht, hd.left i t rest ht hp, append_nil]
    · obtain ⟨s', p, ⟨r, hpr, hrs⟩, t', ht', hq⟩ := leads_taken h ht hover
      have hkept := (delivered_of_reach (hrs.reachable (hpr.reachable h))).kept i t' ht'
      rw [hq, append_nil] at hkept
      have hacc : s'.acceptedBy i = s.acceptedBy i := by
        rw [State.acceptedBy, hrs.frame.2, hpr.frame.2, State.acceptedBy]
      obtain ⟨as, has, hrun⟩ := hpr
      obtain ⟨bs, hbs, hrun'⟩ := hrs
      refine ⟨as ++ bs, s', fun a ha => ?_, ?_, hkept.symm.trans hacc⟩
      · exact (mem_append.1 ha).elim (fun ha => ⟨p, has a ha⟩) fun ha => ⟨i, hbs a ha⟩
      · rw [Machine.run_append, hrun]
        exact hrun'
  · intro i t s' ht hp hleaves hs as s'' hrun
    have hq : t.mailbox.queue = [] := by
      by_contra hne
      simp [State.leave, hne] at hleaves
    have hr' : (machine ε).Reachable s' := .step (a := .leave i) h trivial hs
    cases State.step_of_eq hs with
    | stayed ht' hp' hq' =>
      obtain rfl := Option.some.inj (ht.symm.trans ht')
      exact absurd hq hq'
    | left ht' hp' hq' =>
      obtain rfl := Option.some.inj (ht.symm.trans ht')
      obtain ⟨⟨t', ht'', hmail⟩, hput⟩ :=
        closed_run hr' hrun (State.tasks_setTask_self ..) rfl
      refine ⟨⟨t', ht'', ?_⟩, hput⟩
      rw [hmail, ← hq]

def servedOne : List (Act String) :=
  [.admitEvent ⟨"n", "account", "worker"⟩ "o" 0 "first", .start 0, .loaded 0 1, .tryRecv 0 true,
    .objectEnds 0, .tryRecv 0 true]

theorem events_taken_once_redeployed :
    (∃ s : State String, (machine String).Reachable s ∧ ∃ as s', (∀ a ∈ as, ∃ p, Act.GoesOn p a) ∧
      (machine String).run s as = some s' ∧ s.takenBy 1 = [] ∧ s'.takenBy 1 = ["second"]) ∧
    ∃ s s' s'' : State String, (machine String).Reachable s ∧ s.step (.leave 0) = some s' ∧
      (machine String).run s' [.admitEvent ⟨"n", "account", "worker"⟩ "o" 0 "late"] = some s'' ∧
      (∃ t', s''.tasks 0 = some t' ∧ t'.mailbox = ⟨[], true⟩) ∧ s''.acceptedBy 0 = ["first"] := by
  refine ⟨?_, ?_⟩
  · obtain ⟨s, hs, hph, htk, hacc⟩ := (machine String).exists_of_run redeployed
      (fun s => (s.tasks 1).map Task.phase = some .waiting ∧ s.takenBy 1 = [] ∧
        s.acceptedBy 1 = ["second"]) (by decide)
    obtain ⟨t, ht, hwait⟩ := map_eq_some_iff.1 hph
    obtain ⟨as, s', has, hrun, hall⟩ :=
      ((events_taken_once hs).2.2.1 1 t ht).2.2 (by rw [hwait]; rfl)
    exact ⟨s, hs, as, s', has, hrun, htk, hall.trans hacc⟩
  · obtain ⟨s, hs, hph, hacc, hleaves, hsome⟩ := (machine String).exists_of_run servedOne
      (fun s => (s.tasks 0).map Task.phase = some .leaving ∧ s.acceptedBy 0 = ["first"] ∧
        ((s.tasks 0).all fun t => (s.leave 0 t).2) ∧
        ((s.step (.leave 0)).bind fun s' => (machine String).run s'
          [.admitEvent ⟨"n", "account", "worker"⟩ "o" 0 "late"]).isSome) (by decide)
    obtain ⟨s'', hrun⟩ := isSome_iff_exists.1 hsome
    obtain ⟨t, ht, hleaving⟩ := map_eq_some_iff.1 hph
    obtain ⟨s', hs', hrun⟩ := bind_eq_some_iff.1 hrun
    rw [ht, all_some] at hleaves
    obtain ⟨hcl, hput⟩ :=
      (events_taken_once hs).2.2.2 0 t s' ht hleaving hleaves hs' _ s'' hrun
    exact ⟨s, s', s'', hs, hs', hrun, hcl, hput.trans hacc⟩

end OpenWorkersRunner.Durable
