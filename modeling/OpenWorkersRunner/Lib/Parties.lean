import Mathlib.Algebra.BigOperators.Group.List.Basic
import Mathlib.Algebra.GroupWithZero.Nat

/-!
# Parties: a list of them, of which one moves

A concurrent program has a list of parties, each in some state of its own, and a step moves one of
them.  What the parties hold together — permits, debts, places in a queue — is a sum over the list,
`total f`, and the lemmas say how a step changes it: by what it changes for the party that moves.
-/

universe u

namespace Parties

open List

variable {α : Type u} (f : α → ℕ)

def total (l : List α) : ℕ := (l.map f).sum

@[simp] theorem total_cons (a : α) (l : List α) : total f (a :: l) = f a + total f l := by
  simp [total]

@[simp] theorem total_concat (l : List α) (a : α) : total f (l ++ [a]) = total f l + f a := by
  simp [total]

theorem total_append (l l' : List α) : total f (l ++ l') = total f l + total f l' := by
  simp [total]

theorem countP_eq_total (p : α → Bool) (l : List α) :
    l.countP p = total (fun a => if p a then 1 else 0) l := by
  induction l with
  | nil => rfl
  | cons a l ih => rw [countP_cons, total_cons, ih, Nat.add_comm]

variable {a b : α} {i : ℕ} {l : List α} {p : α → Prop}

theorem total_set (h : l[i]? = some a) : total f (l.set i b) + f a = total f l + f b := by
  induction l generalizing i with
  | nil => simp at h
  | cons x l ih =>
    cases i with
    | zero =>
      obtain rfl : x = a := by simpa using h
      simp only [set_cons_zero, total_cons]
      omega
    | succ i =>
      have := ih (by simpa using h)
      simp only [set_cons_succ, total_cons]
      omega

theorem total_erase [BEq α] [LawfulBEq α] (h : a ∈ l) : total f (l.erase a) + f a = total f l := by
  have := ((perm_cons_erase h).map f).sum_eq
  simp only [total, this, map_cons, sum_cons]
  omega

theorem total_eraseIdx (h : l[i]? = some a) : total f (l.eraseIdx i) + f a = total f l := by
  obtain ⟨hi, rfl⟩ := List.getElem?_eq_some_iff.1 h
  have := ((getElem_cons_eraseIdx_perm hi).map f).sum_eq
  simp only [total, ← this, map_cons, sum_cons]
  omega

theorem le_total (h : a ∈ l) : f a ≤ total f l := by
  induction l with
  | nil => simp at h
  | cons x l ih =>
    rw [total_cons]
    rcases mem_cons.1 h with rfl | h
    · omega
    · have := ih h
      omega

theorem total_le_total {f g : α → ℕ} (h : ∀ a ∈ l, f a ≤ g a) : total f l ≤ total g l := by
  induction l with
  | nil => exact Nat.le_refl 0
  | cons x l ih =>
    have hx := h x (by simp)
    have hl := ih fun a ha => h a (by simp [ha])
    simp only [total_cons]
    omega

theorem total_add (f g : α → ℕ) (l : List α) :
    total (fun a => f a + g a) l = total f l + total g l := by
  induction l with
  | nil => rfl
  | cons x l ih =>
    simp only [total_cons, ih]
    omega

theorem total_eq_zero {f : α → ℕ} (h : ∀ a ∈ l, f a = 0) : total f l = 0 := by
  induction l with
  | nil => rfl
  | cons x l ih =>
    rw [total_cons, h x (by simp), ih fun a ha => h a (by simp [ha])]

theorem forall_mem_set (h : ∀ a ∈ l, p a) (hb : p b) : ∀ a ∈ l.set i b, p a := by
  intro a ha
  rcases mem_or_eq_of_mem_set ha with ha | rfl
  · exact h a ha
  · exact hb

theorem map_set_eq {β : Type*} {g : α → β} (h : l[i]? = some a) (hb : g b = g a) :
    (l.set i b).map g = l.map g := by
  obtain ⟨hlt, rfl⟩ := List.getElem?_eq_some_iff.1 h
  rw [map_set, hb, ← getElem_map g (h := by simpa using hlt), set_getElem_self]

theorem getElem?_set_eq_some {j : ℕ} (h : (l.set i b)[j]? = some a) :
    (j = i ∧ a = b) ∨ (j ≠ i ∧ l[j]? = some a) := by
  by_cases hij : j = i
  · subst hij
    have hlt : j < l.length := by simpa using (List.getElem?_eq_some_iff.1 h).1
    rw [List.getElem?_set_self hlt] at h
    exact .inl ⟨rfl, (Option.some.inj h).symm⟩
  · rw [List.getElem?_set_ne (Ne.symm hij)] at h
    exact .inr ⟨hij, h⟩

theorem getElem?_set_of_some (h : l[i]? = some a) : (l.set i b)[i]? = some b :=
  List.getElem?_set_self (List.getElem?_eq_some_iff.1 h).1

/-- What some party satisfies, at its place in the list, one satisfies there after the step. -/
theorem exists_getElem?_set {j : ℕ} {c : α} (hi : l[i]? = some a) (hj : l[j]? = some c)
    (hb : p a → p b) (hc : p c) : ∃ x, (l.set i b)[j]? = some x ∧ p x := by
  by_cases hij : i = j
  · subst hij
    cases hi.symm.trans hj
    exact ⟨b, getElem?_set_of_some hi, hb hc⟩
  · exact ⟨c, (getElem?_set_ne hij).trans hj, hc⟩

theorem exists_mem_set (hi : l[i]? = some a) (hb : p a → p b) (h : ∃ x ∈ l, p x) :
    ∃ x ∈ l.set i b, p x := by
  obtain ⟨x, hx, hp⟩ := h
  obtain ⟨j, hj⟩ := mem_iff_getElem?.1 hx
  obtain ⟨y, hy, hp⟩ := exists_getElem?_set hi hj hb hp
  exact ⟨y, mem_of_getElem? hy, hp⟩

theorem exists_mem_set_of_not (hi : l[i]? = some a) (ha : ¬ p a) (h : ∃ x ∈ l, p x) :
    ∃ x ∈ l.set i b, p x :=
  exists_mem_set hi (fun hp => (ha hp).elim) h

theorem eq_or_exists_of_mem_set (h : a ∈ l.set i b) : a = b ∨ ∃ j, j ≠ i ∧ l[j]? = some a := by
  obtain ⟨j, hj⟩ := mem_iff_getElem?.1 h
  rcases getElem?_set_eq_some hj with ⟨-, hb⟩ | h
  · exact .inl hb
  · exact .inr ⟨j, h⟩

theorem getElem?_concat_eq_some (h : (l ++ [b])[i]? = some a) :
    l[i]? = some a ∨ (i = l.length ∧ a = b) := by
  rw [getElem?_append] at h
  split at h
  · exact .inl h
  · obtain ⟨hi, hb⟩ : i - l.length = 0 ∧ b = a := by
      simpa [getElem?_singleton] using h
    exact .inr ⟨by omega, hb.symm⟩

theorem getElem?_concat_of_some (h : l[i]? = some a) : (l ++ [b])[i]? = some a :=
  (List.getElem?_append_left (List.getElem?_eq_some_iff.1 h).1).trans h

end Parties
