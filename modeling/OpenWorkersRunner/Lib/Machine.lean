import Mathlib.Data.Option.Basic
import Mathlib.Data.List.Basic

/-!
# Machines: partial steps, runs, and invariants of runs

A `Machine` is an initial state and a partial step function.  An action carries everything the
program does not decide itself — which task moves, what the clock shows, whether a write fails —
so the step is a function, and "every interleaving" is "every list of actions".
-/

universe u v w x

/-- A machine: where it starts, and what each action does, if it is possible. -/
structure Machine (σ : Type u) (α : Type v) where
  init : σ
  step : σ → α → Option σ

namespace Machine

open Option

variable {σ : Type u} {α : Type v} (M : Machine σ α)

def run : σ → List α → Option σ
  | s, [] => some s
  | s, a :: as => (M.step s a).bind fun t => run t as

inductive Reach (ok : σ → α → Prop) : σ → Prop
  | init : Reach ok M.init
  | step {s t : σ} {a : α} (hs : Reach ok s) (ha : ok s a) (h : M.step s a = some t) : Reach ok t

def startAt (s : σ) : Machine σ α := { M with init := s }

abbrev Reachable : σ → Prop := M.Reach fun _ _ => True

variable {M}

@[simp] theorem run_nil (s : σ) : M.run s [] = some s := rfl

theorem run_cons (s : σ) (a : α) (as : List α) :
    M.run s (a :: as) = (M.step s a).bind fun t => M.run t as := rfl

theorem run_append (s : σ) (as bs : List α) :
    M.run s (as ++ bs) = (M.run s as).bind fun t => M.run t bs := by
  induction as generalizing s with
  | nil => rfl
  | cons a as ih =>
    rw [List.cons_append, run_cons, run_cons, bind_assoc]
    exact congrArg _ (funext ih)

/-- **The invariant rule.**  The step case may use that the state before is reached, so facts
proved earlier of every such state are available in it. -/
theorem Reach.invariant {ok : σ → α → Prop} {I : σ → Prop} (h0 : I M.init)
    (hst : ∀ s a t, M.Reach ok s → I s → ok s a → M.step s a = some t → I t)
    {s : σ} (hs : M.Reach ok s) : I s := by
  induction hs with
  | init => exact h0
  | step hs ha h ih => exact hst _ _ _ hs ih ha h

theorem run_invariant {I : σ → Prop} (hst : ∀ s a t, I s → M.step s a = some t → I t) {s t : σ}
    {as : List α} (hs : I s) (h : M.run s as = some t) : I t := by
  induction as generalizing s with
  | nil => cases h; exact hs
  | cons a as ih =>
    obtain ⟨r, hr, ht⟩ := bind_eq_some_iff.1 h
    exact ih (hst s a r hs hr) ht

theorem Reach.mono {ok ok' : σ → α → Prop} (hok : ∀ s a, ok s a → ok' s a) {s : σ}
    (hs : M.Reach ok s) : M.Reach ok' s := by
  induction hs with
  | init => exact .init
  | step _ ha h ih => exact .step ih (hok _ _ ha) h

/-- A run from a reached state stays among the states reached, when its actions are all allowed
wherever they stand. -/
theorem Reach.run {ok : σ → α → Prop} {s t : σ} {as : List α} (hs : M.Reach ok s)
    (hok : ∀ r, ∀ a ∈ as, ok r a) (h : M.run s as = some t) : M.Reach ok t := by
  induction as generalizing s with
  | nil => rw [run_nil] at h; cases h; exact hs
  | cons a as ih =>
    obtain ⟨r, hr, ht⟩ := bind_eq_some_iff.1 h
    exact ih (.step hs (hok s a (by simp)) hr) (fun r b hb => hok r b (by simp [hb])) ht

theorem exists_reach_of_run (ok : σ → α → Prop) (as : List α) (p : σ → Prop) [DecidablePred p]
    (hok : ∀ r, ∀ a ∈ as, ok r a) (h : (M.run M.init as).any (p ·) = true) :
    ∃ s, M.Reach ok s ∧ p s := by
  obtain ⟨s, hs, hp⟩ := (any_eq_true _ _).1 h
  exact ⟨s, Reach.init.run hok hs, of_decide_eq_true hp⟩

variable (M) in
theorem exists_of_run (as : List α) (p : σ → Prop) [DecidablePred p]
    (h : (M.run M.init as).any (p ·) = true) : ∃ s, M.Reachable s ∧ p s :=
  exists_reach_of_run (fun _ _ => True) as p (fun _ _ _ => trivial) h

variable (M) in
def runIf (check : σ → α → Bool) : σ → List α → Option σ
  | s, [] => some s
  | s, a :: as => if check s a then (M.step s a).bind fun t => runIf check t as else none

theorem Reach.runIf {ok : σ → α → Prop} {check : σ → α → Bool}
    (hok : ∀ r a, M.Reach ok r → check r a = true → ok r a) {s t : σ} {as : List α}
    (hs : M.Reach ok s) (h : M.runIf check s as = some t) : M.Reach ok t := by
  induction as generalizing s with
  | nil => cases h; exact hs
  | cons a as ih =>
    rw [Machine.runIf] at h
    split at h
    · obtain ⟨r, hr, ht⟩ := bind_eq_some_iff.1 h
      exact ih (.step hs (hok s a hs ‹_›) hr) ht
    · cases h

/-- The same with a condition that depends on where an action stands: a check that implies it is
made along the run. -/
theorem exists_reach_of_runIf {ok : σ → α → Prop} (check : σ → α → Bool)
    (hok : ∀ r a, M.Reach ok r → check r a = true → ok r a) (as : List α) (p : σ → Prop)
    [DecidablePred p] (h : (M.runIf check M.init as).any (p ·) = true) :
    ∃ s, M.Reach ok s ∧ p s := by
  obtain ⟨s, hs, hp⟩ := (any_eq_true _ _).1 h
  exact ⟨s, Reach.init.runIf hok hs, of_decide_eq_true hp⟩

/-- **Projection.**  If under `f` every allowed step of `M` is an allowed step of `N` or changes
nothing, then `f` takes the states `M` reaches to states `N` reaches. -/
theorem Reach.project {τ : Type w} {β : Type x} {N : Machine τ β} {ok : σ → α → Prop}
    {ok' : τ → β → Prop} (f : σ → τ) (h0 : f M.init = N.init)
    (hst : ∀ s a t, ok s a → M.step s a = some t →
      f t = f s ∨ ∃ b, ok' (f s) b ∧ N.step (f s) b = some (f t))
    {s : σ} (hs : M.Reach ok s) : N.Reach ok' (f s) := by
  induction hs with
  | init => rw [h0]; exact .init
  | @step s t a _ ha h ih =>
    rcases hst s a t ha h with heq | ⟨b, hb, hN⟩
    · rw [heq]; exact ih
    · exact .step ih hb hN

end Machine
