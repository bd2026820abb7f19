import OpenWorkersRunner.Lib.Prog

/-!
# Programs that ask, against a state

A program of `Lib.Prog` has no state of its own; whoever answers its questions has.  A `World` says
how: `step` is what an answer can be and what it does to the state, and `safe` is what a question
may be asked in.
-/

universe u v w x

structure World (σ : Type x) (Q : Type u) (A : Q → Type v) where
  safe : σ → Q → Prop
  step : σ → (q : Q) → A q → σ → Prop

namespace Prog

variable {σ : Type x} {Q : Type u} {A : Q → Type v} {α β : Type w} {W : World σ Q A}

/-- From the state on, the program asks only what is safe, and ends with a value and a state that
pass `post`. -/
def Meets (W : World σ Q A) (post : α → σ → Prop) : Prog Q A α → σ → Prop
  | done a, s => post a s
  | ask q next, s => W.safe s q ∧ ∀ answer t, W.step s q answer t → Meets W post (next answer) t

variable {p : Prog Q A α} {post : α → σ → Prop} {s : σ}

theorem Meets.mono {post' : α → σ → Prop} (hp : ∀ a s, post a s → post' a s)
    (h : p.Meets W post s) : p.Meets W post' s := by
  induction p generalizing s with
  | done a => exact hp a s h
  | ask q next ih => exact ⟨h.1, fun ans t ht => ih ans (h.2 ans t ht)⟩

theorem Meets.and {post' : α → σ → Prop} (h : p.Meets W post s) (h' : p.Meets W post' s) :
    p.Meets W (fun a t => post a t ∧ post' a t) s := by
  induction p generalizing s with
  | done a => exact ⟨h, h'⟩
  | ask q next ih => exact ⟨h.1, fun ans t ht => ih ans (h.2 ans t ht) (h'.2 ans t ht)⟩

theorem meets_bind {post : β → σ → Prop} (p : Prog Q A α) (f : α → Prog Q A β) (s : σ) :
    (p >>= f).Meets W post s ↔ p.Meets W (fun a t => (f a).Meets W post t) s := by
  induction p generalizing s with
  | done a => rfl
  | ask q next ih =>
    exact and_congr_right fun _ => forall₃_congr fun ans t _ => ih ans t

theorem Meets.of_le {W' : World σ Q A} (hsa : ∀ s q, W.safe s q → W'.safe s q)
    (hst : ∀ s q ans t, W'.step s q ans t → W.step s q ans t) (h : p.Meets W post s) :
    p.Meets W' post s := by
  induction p generalizing s with
  | done a => exact h
  | ask q next ih =>
    exact ⟨hsa s q h.1, fun ans t ht => ih ans (h.2 ans t (hst s q ans t ht))⟩

end Prog

namespace World

variable {σ : Type x} {Q : Type u} {A : Q → Type v} {α β ε ε' : Type w} (W : World σ Q A)

/-- `{pre} p {post}`. -/
def Triple (pre : σ → Prop) (p : Prog Q A α) (post : α → σ → Prop) : Prop :=
  ∀ s, pre s → p.Meets W post s

def Spec (pre : σ → Prop) (p : ExceptT ε (Prog Q A) α) (post : α → σ → Prop) (fail : σ → Prop) :
    Prop :=
  W.Triple pre p.run fun r s =>
    match r with
    | .ok a => post a s
    | .error _ => fail s

/-- The program keeps `pre`, also when it fails. -/
abbrev Keeps (pre : σ → Prop) (p : ExceptT ε (Prog Q A) α) : Prop :=
  W.Spec pre p (fun _ => pre) pre

variable {W} {pre mid : σ → Prop} {fail fail' : σ → Prop}

variable {f : α → Prog Q A β} {post : α → σ → Prop} {post' : β → σ → Prop} {pre' : σ → Prop}
  {p : ExceptT ε (Prog Q A) α} {s u : σ}

theorem Triple.bind {p : Prog Q A α} (hp : W.Triple pre p post)
    (hf : ∀ a, W.Triple (post a) (f a) post') : W.Triple pre (p >>= f) post' := by
  intro s hs
  rw [Prog.meets_bind]
  exact (hp s hs).mono fun a t ht => hf a t ht

theorem Triple.mono {p : Prog Q A α} {post' : α → σ → Prop} (hp : W.Triple pre p post)
    (hpr : ∀ s, pre' s → pre s) (hpo : ∀ a s, post a s → post' a s) : W.Triple pre' p post' :=
  fun s hs => (hp s (hpr s hs)).mono hpo

theorem Triple.and {p : Prog Q A α} {post' : α → σ → Prop} (hp : W.Triple pre p post)
    (hp' : W.Triple pre' p post') :
    W.Triple (fun s => pre s ∧ pre' s) p fun a s => post a s ∧ post' a s :=
  fun s hs => (hp s hs.1).and (hp' s hs.2)

theorem Triple.assume {p : Prog Q A α} {P : Prop} (h : P → W.Triple pre p post) :
    W.Triple (fun s => pre s ∧ P) p post :=
  fun s hs => h hs.2 s hs.1

theorem Triple.ask {A : Q → Type w} {W : World σ Q A} {q : Q} {post : A q → σ → Prop}
    (hsa : ∀ s, pre s → W.safe s q)
    (hst : ∀ s, pre s → ∀ ans t, W.step s q ans t → post ans t) :
    W.Triple pre (Prog.call q) post := fun s hs => ⟨hsa s hs, hst s hs⟩

theorem Spec.mono {post' : α → σ → Prop} (hp : W.Spec pre p post fail) (hpr : ∀ s, pre' s → pre s)
    (hpo : ∀ a s, post a s → post' a s) (hf : ∀ s, fail s → fail' s) :
    W.Spec pre' p post' fail' := by
  refine Triple.mono hp hpr fun r s h => ?_
  cases r with
  | ok a => exact hpo a s h
  | error err => exact hf s h

theorem Spec.triple (hp : W.Spec pre p (fun _ => fail) fail) :
    W.Triple pre p.run fun _ => fail := by
  refine Triple.mono hp (fun _ hs => hs) fun r s h => ?_
  cases r with
  | ok a => exact h
  | error err => exact h

theorem Spec.value (a : α) (h : ∀ s, pre s → post a s) : W.Spec (ε := ε) pre (pure a) post fail := h

theorem Keeps.value (a : α) : W.Keeps (ε := ε) pre (pure a) := fun _ hs => hs

theorem Spec.bind {f : α → ExceptT ε (Prog Q A) β} (hp : W.Spec pre p post fail)
    (hf : ∀ a, W.Spec (post a) (f a) post' fail) : W.Spec pre (p >>= f) post' fail := by
  refine Triple.bind hp fun r => ?_
  cases r with
  | ok a => exact hf a
  | error err => exact fun s hs => hs

theorem Spec.lift {p : Prog Q A α} (hp : W.Triple pre p post) :
    W.Spec (ε := ε) pre (liftM p) post fail :=
  Triple.bind hp fun _ => fun _ hs => hs

theorem Spec.adapt (hp : W.Spec pre p post fail) (f : ε → ε') :
    W.Spec pre (p.adapt f) post fail := by
  refine Triple.bind hp fun r => ?_
  cases r with
  | ok a => exact fun s hs => hs
  | error err => exact fun s hs => hs

theorem Spec.map (hp : W.Spec pre p post fail) (f : α → β) (h : ∀ a s, post a s → post' (f a) s) :
    W.Spec pre (f <$> p) post' fail :=
  hp.bind fun a => Spec.value (f a) (h a)

theorem Spec.handled {undo : Prog Q A PUnit} (hp : W.Spec pre p post fail)
    (hu : W.Triple fail undo fun _ => fail') :
    W.Spec pre (tryCatch p fun err => do
      undo
      throw err) post fail' := by
  refine Triple.bind hp fun r => ?_
  cases r with
  | ok a => exact fun s hs => hs
  | error err =>
    intro s hs
    refine (Prog.meets_bind _ _ s).2 ((Prog.meets_bind _ _ s).2 ?_)
    exact (hu s hs).mono fun _ _ h => h

/-! ## Runs -/

variable (W) in
inductive Runs : Prog Q A α → σ → α → σ → Prop
  | done (a : α) (s : σ) : Runs (.done a) s a s
  | ask {q : Q} {next : A q → Prog Q A α} {s t u : σ} {answer : A q} {a : α}
      (hstep : W.step s q answer t) (hrest : Runs (next answer) t a u) :
      Runs (.ask q next) s a u

theorem Triple.of_runs {p : Prog Q A α} {post : α → σ → Prop} (hp : W.Triple pre p post) {s t : σ}
    {a : α} (hs : pre s) (h : W.Runs p s a t) : post a t := by
  have hm := hp s hs
  clear hs hp
  induction h with
  | done a s => exact hm
  | ask hst hre ih => exact ih (hm.2 _ _ hst)

theorem runs_bind {p : Prog Q A α} {b : β} :
    W.Runs (p >>= f) s b u ↔ ∃ a t, W.Runs p s a t ∧ W.Runs (f a) t b u := by
  refine ⟨fun h => ?_, ?_⟩
  · induction p generalizing s with
    | done a => exact ⟨a, s, .done a s, h⟩
    | ask q next ih =>
      cases h with
      | ask hst hre =>
        obtain ⟨a, t, hp, hf⟩ := ih _ hre
        exact ⟨a, t, .ask hst hp, hf⟩
  · rintro ⟨a, t, hp, hf⟩
    induction hp with
    | done a s => exact hf
    | ask hst hre ih => exact .ask hst (ih hf)

theorem runs_done {a b : α} {t : σ} : W.Runs (.done a) s b t ↔ b = a ∧ t = s := by
  refine ⟨fun h => ?_, ?_⟩
  · cases h
    exact ⟨rfl, rfl⟩
  · rintro ⟨rfl, rfl⟩
    exact .done b t

theorem runs_call {A : Q → Type w} {W : World σ Q A} {q : Q} {ans : A q} :
    W.Runs (Prog.call q) s ans u ↔ W.step s q ans u := by
  refine ⟨fun h => ?_, fun h => .ask h (.done _ _)⟩
  cases h with
  | ask hst hre =>
    obtain ⟨rfl, rfl⟩ := runs_done.1 hre
    exact hst

theorem runs_bind_except {f : α → ExceptT ε (Prog Q A) β} {r : Except ε β} :
    W.Runs (p >>= f).run s r u ↔ (∃ a t, W.Runs p.run s (.ok a) t ∧ W.Runs (f a).run t r u) ∨
        ∃ err, r = .error err ∧ W.Runs p.run s (.error err) u := by
  refine runs_bind.trans ⟨?_, ?_⟩
  · rintro ⟨x, t, hp, hf⟩
    cases x with
    | ok a => exact .inl ⟨a, t, hp, hf⟩
    | error err =>
      obtain ⟨rfl, rfl⟩ := runs_done.1 hf
      exact .inr ⟨err, rfl, hp⟩
  · rintro (⟨a, t, hp, hf⟩ | ⟨err, rfl, hp⟩)
    · exact ⟨.ok a, t, hp, hf⟩
    · exact ⟨.error err, u, hp, .done _ u⟩

theorem runs_adapt {f : ε → ε'} {r : Except ε' α} :
    W.Runs (p.adapt f).run s r u ↔ ∃ x, W.Runs p.run s x u ∧ r = x.mapError f := by
  refine runs_bind.trans ⟨?_, ?_⟩
  · rintro ⟨x, t, hp, hf⟩
    obtain ⟨rfl, rfl⟩ := runs_done.1 hf
    exact ⟨x, hp, rfl⟩
  · rintro ⟨x, hp, rfl⟩
    exact ⟨x, u, hp, .done _ u⟩

variable (W) in
/-- The world, with a record of the questions. -/
def logged : World (σ × List Q) Q A where
  safe _ _ := True
  step s q answer t := W.step s.1 q answer t.1 ∧ t.2 = s.2 ++ [q]

section Logged

variable {p : Prog Q A α} {s t : σ × List Q} {a : α}

/-- What holds of the record, and goes on to hold with any question that the program asks. -/
theorem triple_logged {ok : Q → Prop} {P : List Q → Prop}
    (hP : ∀ log q, ok q → P log → P (log ++ [q])) (hp : p.Only ok fun _ => True) :
    W.logged.Triple (fun s => P s.2) p fun _ s => P s.2 := by
  induction p with
  | done a => exact fun _ hs => hs
  | ask q next ih =>
    refine fun s hs => ⟨trivial, fun ans t hst => ih ans (hp.2 ans) t ?_⟩
    change P t.2
    rw [hst.2]
    exact hP _ q hp.1 hs

end Logged

/-! ## Programs with the same runs -/

variable (W) in
def Same (p q : Prog Q A α) : Prop := ∀ s a t, W.Runs p s a t ↔ W.Runs q s a t

theorem Same.refl (p : Prog Q A α) : W.Same p p := fun _ _ _ => Iff.rfl

theorem Same.bind {p q : Prog Q A α} {g : α → Prog Q A β} (hp : W.Same p q)
    (hf : ∀ s a t, W.Runs p s a t → W.Same (f a) (g a)) : W.Same (p >>= f) (q >>= g) := by
  intro s b u
  rw [runs_bind, runs_bind]
  refine exists₂_congr fun a t => ?_
  rw [← hp s a t]
  exact and_congr_right fun hru => hf s a t hru t b u

theorem Same.bind_except {p q : ExceptT ε (Prog Q A) α} {f g : α → ExceptT ε (Prog Q A) β}
    (hp : W.Same p.run q.run)
    (hf : ∀ s a t, W.Runs p.run s (.ok a) t → W.Same (f a).run (g a).run) :
    W.Same (p >>= f).run (q >>= g).run := by
  refine Same.bind hp fun s r t hru => ?_
  cases r with
  | ok a => exact hf s a t hru
  | error err => exact Same.refl _

end World
