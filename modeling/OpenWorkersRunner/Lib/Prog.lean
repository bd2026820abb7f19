import Mathlib.Logic.Basic

/-!
# Programs that ask

A `Prog` is a program as the things it talks to see it: it ends with a value, or it asks a question
and goes on with the answer.  The questions are what the program does not decide itself — what a
database finds, whether a statement fails — so a program by itself has no state, and whoever runs it
says what the answers are.
-/

universe u v w

inductive Prog (Q : Type u) (A : Q → Type v) (α : Type w)
  | done (value : α)
  | ask (q : Q) (next : A q → Prog Q A α)

namespace Prog

open List

variable {Q : Type u} {A : Q → Type v} {α β : Type w}

def bind : Prog Q A α → (α → Prog Q A β) → Prog Q A β
  | done a, f => f a
  | ask q next, f => ask q fun answer => (next answer).bind f

instance : Monad (Prog Q A) where
  pure := done
  bind := bind

def call {A : Q → Type w} (q : Q) : Prog Q A (A q) := ask q done

@[simp] theorem pure_eq_done (a : α) : (pure a : Prog Q A α) = done a := rfl

@[simp] theorem done_bind (a : α) (f : α → Prog Q A β) : done a >>= f = f a := rfl

@[simp] theorem ask_bind (q : Q) (next : A q → Prog Q A α) (f : α → Prog Q A β) :
    ask q next >>= f = ask q fun answer => next answer >>= f := rfl

@[simp] theorem call_bind {A : Q → Type w} (q : Q) (f : A q → Prog Q A β) :
    call q >>= f = ask q f := rfl

/-! ## The questions a program asks -/

/-- Whatever it is answered, the program asks only questions that pass `ok`, and what it ends with
passes `post`. -/
def Only (ok : Q → Prop) (post : α → Prop) : Prog Q A α → Prop
  | done a => post a
  | ask q next => ok q ∧ ∀ answer, Only ok post (next answer)

variable {p : Prog Q A α} {post : α → Prop}

theorem Only.mono {ok : Q → Prop} {post' : α → Prop} (hp : ∀ a, post a → post' a)
    (h : p.Only ok post) : p.Only ok post' := by
  induction p with
  | done a => exact hp a h
  | ask q next ih => exact ⟨h.1, fun answer => ih answer (h.2 answer)⟩

theorem only_bind {ok : Q → Prop} {post : β → Prop} (p : Prog Q A α) (f : α → Prog Q A β) :
    (p >>= f).Only ok post ↔ p.Only ok fun a => (f a).Only ok post := by
  induction p with
  | done a => rfl
  | ask q next ih => exact and_congr_right fun _ => forall_congr' ih

/-! ## Stopping after a bad answer -/

/-- From the first bad answer on, the program asks only questions that pass `ok`, and then ends with
a value that passes `bad`; without a bad answer it ends with one that passes `post`. -/
def StopsAfter (critical : (q : Q) → A q → Prop) (ok : Q → Prop) (bad post : α → Prop) :
    Prog Q A α → Prop
  | done a => post a
  | ask q next => ∀ answer, (critical q answer → (next answer).Only ok bad) ∧
        StopsAfter critical ok bad post (next answer)

variable {critical : (q : Q) → A q → Prop} {ok : Q → Prop}

theorem StopsAfter.mono {bad bad' post' : α → Prop} (hba : ∀ a, bad a → bad' a)
    (hp : ∀ a, post a → post' a) (h : p.StopsAfter critical ok bad post) :
    p.StopsAfter critical ok bad' post' := by
  induction p with
  | done a => exact hp a h
  | ask q next ih =>
    intro answer
    exact ⟨fun hc => ((h answer).1 hc).mono hba, ih answer (h answer).2⟩

theorem Only.stopsAfter (h : p.Only ok post) : p.StopsAfter critical ok post post := by
  induction p with
  | done a => exact h
  | ask q next ih => exact fun answer => ⟨fun _ => h.2 answer, ih answer (h.2 answer)⟩

theorem StopsAfter.bind {bad post : β → Prop} {f : α → Prog Q A β}
    (h : p.StopsAfter critical ok (fun a => (f a).Only ok bad)
      fun a => (f a).StopsAfter critical ok bad post) :
    (p >>= f).StopsAfter critical ok bad post := by
  induction p with
  | done a => exact h
  | ask q next ih =>
    intro answer
    refine ⟨fun hc => ?_, ih answer (h answer).2⟩
    exact (only_bind (next answer) f).2 ((h answer).1 hc)

/-! ## What a program ends with -/

def Ends (ok : (q : Q) → A q → Prop) (post : α → Prop) : Prog Q A α → Prop
  | done a => post a
  | ask q next => ∀ answer, ok q answer → Ends ok post (next answer)

section Ends

variable {ok : (q : Q) → A q → Prop}

theorem Ends.mono {post post' : α → Prop} (hp : ∀ a, post a → post' a) {p : Prog Q A α}
    (h : p.Ends ok post) : p.Ends ok post' := by
  induction p with
  | done a => exact hp a h
  | ask q next ih => exact fun answer hok => ih answer (h answer hok)

theorem ends_bind {post : β → Prop} (p : Prog Q A α) (f : α → Prog Q A β) :
    (p >>= f).Ends ok post ↔ p.Ends ok fun a => (f a).Ends ok post := by
  induction p with
  | done a => rfl
  | ask q next ih => exact forall_congr' fun answer => imp_congr_right fun _ => ih answer

theorem ends_of_forall {post : α → Prop} (h : ∀ a, post a) (p : Prog Q A α) : p.Ends ok post := by
  induction p with
  | done a => exact h a
  | ask q next ih => exact fun answer _ => ih answer

end Ends

/-! ## Evaluation -/

def eval (answer : Nat → (q : Q) → A q) : Nat → Prog Q A α → α
  | _, done a => a
  | n, ask q next => eval answer (n + 1) (next (answer n q))

def asked (answer : Nat → (q : Q) → A q) : Nat → Prog Q A α → List (Nat × Q)
  | _, done _ => []
  | n, ask q next => (n, q) :: asked answer (n + 1) (next (answer n q))

variable (answer : Nat → (q : Q) → A q) (n : Nat)

@[simp] theorem eval_done (a : α) : (done a : Prog Q A α).eval answer n = a := rfl

@[simp] theorem eval_ask (q : Q) (next : A q → Prog Q A α) :
    (ask q next).eval answer n = (next (answer n q)).eval answer (n + 1) := rfl

@[simp] theorem asked_done (a : α) : (done a : Prog Q A α).asked answer n = [] := rfl

@[simp] theorem asked_ask (q : Q) (next : A q → Prog Q A α) :
    (ask q next).asked answer n = (n, q) :: (next (answer n q)).asked answer (n + 1) := rfl

theorem eval_bind (p : Prog Q A α) (f : α → Prog Q A β) :
    (p >>= f).eval answer n =
      (f (p.eval answer n)).eval answer (n + (p.asked answer n).length) := by
  induction p generalizing n with
  | done a => rfl
  | ask q next ih =>
    rw [ask_bind, eval_ask, eval_ask, asked_ask, length_cons, ih, Nat.add_right_comm,
      Nat.add_assoc n]

theorem asked_bind (p : Prog Q A α) (f : α → Prog Q A β) :
    (p >>= f).asked answer n = p.asked answer n ++
      (f (p.eval answer n)).asked answer (n + (p.asked answer n).length) := by
  induction p generalizing n with
  | done a => simp
  | ask q next ih =>
    rw [ask_bind, asked_ask, asked_ask, eval_ask, length_cons, ih, cons_append,
      Nat.add_right_comm, Nat.add_assoc n]

/-- Where the number of a question does not matter, it does not matter from where they are
counted. -/
theorem eval_const (answer : (q : Q) → A q) (n : Nat) (p : Prog Q A α) :
    p.eval (fun _ => answer) n = p.eval (fun _ => answer) 0 := by
  induction p generalizing n with
  | done a => rfl
  | ask q next ih => rw [eval_ask, eval_ask, ih _ (n + 1), ih _ (0 + 1)]

variable {answer n} in
theorem Ends.eval {ok : (q : Q) → A q → Prop} (h : p.Ends ok post)
    (hok : ∀ x ∈ p.asked answer n, ok x.2 (answer x.1 x.2)) : post (p.eval answer n) := by
  induction p generalizing n with
  | done a => exact h
  | ask q next ih =>
    rw [asked_ask] at hok
    exact ih _ (h _ (hok (n, q) mem_cons_self)) fun x hx => hok x (mem_cons_of_mem _ hx)

end Prog
