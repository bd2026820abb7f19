import Mathlib.Data.List.Pairwise
import Mathlib.Order.Lattice

/-!
# Rows in the order of a key

A `Keyed` is a table with a primary key: a list of rows, strictly increasing in the key, so that no
two rows have the same one.  The key is a function of the row, into any linear order.
-/

universe u v

structure Keyed {α : Type u} {τ : Type v} [LinearOrder τ] (key : α → τ) where
  rows : List α
  sorted : rows.Pairwise fun a b => key a < key b

namespace Keyed

open List

variable {α : Type u} {τ : Type v} [LinearOrder τ] {key : α → τ}

instance [DecidableEq α] : DecidableEq (Keyed key) := fun s t =>
  decidable_of_iff (s.rows = t.rows) (by cases s; cases t; simp)

def empty : Keyed key := ⟨[], .nil⟩

def find (s : Keyed key) (k : τ) : Option α := s.rows.find? fun a => key a = k

def erase (s : Keyed key) (k : τ) : Keyed key where
  rows := s.rows.filter fun a => key a ≠ k
  sorted := s.sorted.filter _

theorem sorted_insert (s : Keyed key) (a : α) :
    ((s.rows.filter fun b => key b < key a) ++ a :: s.rows.filter fun b => key a < key b).Pairwise
      fun b c => key b < key c := by
  refine pairwise_append.2 ⟨s.sorted.filter _, ?_, ?_⟩
  · refine pairwise_cons.2 ⟨fun b hb => ?_, s.sorted.filter _⟩
    exact of_decide_eq_true (mem_filter.1 hb).2
  · intro b hb c hc
    have hba : key b < key a := of_decide_eq_true (mem_filter.1 hb).2
    rcases mem_cons.1 hc with rfl | hc
    · exact hba
    · exact lt_trans hba (of_decide_eq_true (mem_filter.1 hc).2)

def insert (s : Keyed key) (a : α) : Keyed key where
  rows := (s.rows.filter fun b => key b < key a) ++ a :: s.rows.filter fun b => key a < key b
  sorted := s.sorted_insert a

theorem eq_of_key_eq (s : Keyed key) {a b : α} (ha : a ∈ s.rows) (hb : b ∈ s.rows)
    (h : key a = key b) : a = b := by
  have hk : s.rows.Pairwise fun a b => key a ≠ key b := s.sorted.imp ne_of_lt
  have : Std.Symm fun a b => key a ≠ key b := ⟨fun _ _ => Ne.symm⟩
  by_contra hne
  exact hk.forall ha hb hne h

variable {a : α} {s : Keyed key}

theorem find_eq_some_iff {k : τ} : s.find k = some a ↔ a ∈ s.rows ∧ key a = k := by
  constructor
  · intro h
    have hk := find?_some h
    exact ⟨mem_of_find?_eq_some h, of_decide_eq_true hk⟩
  · rintro ⟨ha, rfl⟩
    cases hf : s.find (key a) with
    | none => exact absurd rfl (of_decide_eq_false
        (Bool.eq_false_iff.2 (find?_eq_none.1 hf a ha)))
    | some b =>
      have hk := find?_some hf
      rw [s.eq_of_key_eq (mem_of_find?_eq_some hf) ha (of_decide_eq_true hk)]

theorem mem_iff_find : a ∈ s.rows ↔ s.find (key a) = some a := by
  rw [find_eq_some_iff, and_iff_left rfl]

theorem mem_erase {k : τ} : a ∈ (s.erase k).rows ↔ a ∈ s.rows ∧ key a ≠ k := by
  simp [erase]

theorem mem_insert {b : α} : b ∈ (s.insert a).rows ↔ b = a ∨ b ∈ s.rows ∧ key b ≠ key a := by
  simp only [insert, mem_append, mem_cons, mem_filter, decide_eq_true_eq,
    ne_iff_lt_or_gt, and_or_left]
  exact or_left_comm

theorem find_erase (s : Keyed key) (k j : τ) :
    (s.erase k).find j = if j = k then none else s.find j := by
  refine Option.ext fun a => ?_
  rw [find_eq_some_iff, mem_erase]
  split
  next hj =>
    simp only [hj, reduceCtorEq, iff_false]
    exact fun h => h.1.2 h.2
  next hj =>
    rw [find_eq_some_iff]
    exact ⟨fun h => ⟨h.1.1, h.2⟩, fun h => ⟨⟨h.1, h.2 ▸ hj⟩, h.2⟩⟩

theorem find_insert (s : Keyed key) (a : α) (j : τ) :
    (s.insert a).find j = if j = key a then some a else s.find j := by
  refine Option.ext fun b => ?_
  rw [find_eq_some_iff, mem_insert]
  split
  next hj =>
    rw [Option.some_inj, hj]
    refine ⟨fun h => ?_, fun h => h ▸ ⟨.inl rfl, rfl⟩⟩
    exact (h.1.resolve_right fun hb => hb.2 h.2).symm
  next hj =>
    rw [find_eq_some_iff]
    refine ⟨fun h => ⟨?_, h.2⟩, fun h => ⟨.inr ⟨h.1, h.2 ▸ hj⟩, h.2⟩⟩
    rcases h.1 with rfl | hb
    · exact absurd h.2.symm hj
    · exact hb.1

end Keyed
