import Mathlib.Data.List.Infix

/-!
# Finding a text in a text

`before?` is what stands before the first occurrence of a text in another, and `splitText` are the
pieces between its occurrences, as `str::find` and `str::split` of Rust have them.  A text that does
not start again inside itself is found where it was put (`before?_append`, `splitText_append`).
-/

universe u

namespace Split

open List

variable {α : Type u}

variable {c : α} {sep x : List α}

theorem infix_of_infix_append {u v : List α} (hc : c ∉ u) (h : c :: sep <:+: u ++ v) :
    c :: sep <:+: v := by
  induction u with
  | nil => exact h
  | cons b u ih =>
    rw [mem_cons, not_or] at hc
    rcases infix_cons_iff.1 h with h | h
    · exact absurd (cons_prefix_cons.1 h).1 hc.1
    · exact ih hc.2 h

theorem not_prefix_append (hc : c ∉ sep) (hx : x ≠ []) (h : ¬ c :: sep <+: x) (y : List α) :
    ¬ c :: sep <+: x ++ (c :: sep ++ y) := by
  intro hst
  rcases prefix_or_prefix_of_prefix hst (prefix_append x _) with hsh | ⟨r, hr⟩
  · exact h hsh
  · obtain ⟨b, x, rfl⟩ := exists_cons_of_ne_nil hx
    have hre : (b :: x) ++ r <+: (b :: x) ++ (c :: sep ++ y) := by
      rw [hr]
      exact hst
    rw [prefix_append_right_inj] at hre
    cases r with
    | nil => exact h (by rw [← hr, append_nil])
    | cons a r =>
      obtain ⟨rfl, -⟩ := cons_prefix_cons.1 hre
      exact hc ((cons.inj hr).2 ▸ by simp)

variable [DecidableEq α]

def before? (sep : List α) : List α → Option (List α)
  | [] => if sep = [] then some [] else none
  | b :: t => if sep.isPrefixOf (b :: t) then some [] else (before? sep t).map (b :: ·)

/-- The pieces between the occurrences: of the occurrence just found, `skip` bytes are still to be
passed, and `piece` is what was read since the last one. -/
def pieces (sep : List α) : (skip : ℕ) → (piece : List α) → List α → List (List α)
  | _, piece, [] => [piece]
  | skip + 1, piece, _ :: t => pieces sep skip piece t
  | 0, piece, b :: t =>
    if sep.isPrefixOf (b :: t) then piece :: pieces sep (sep.length - 1) [] t
    else pieces sep 0 (piece ++ [b]) t

def splitText (sep t : List α) : List (List α) := pieces sep 0 [] t

theorem before?_append (hc : c ∉ x) (y : List α) :
    before? (c :: sep) (x ++ (c :: sep ++ y)) = some x := by
  induction x with
  | nil =>
    rw [nil_append, cons_append, before?, if_pos]
    rw [ isPrefixOf_iff_prefix, ← cons_append]
    exact prefix_append _ _
  | cons b x ih =>
    rw [mem_cons, not_or] at hc
    rw [cons_append, before?, if_neg, ih hc.2, Option.map_some]
    rw [ isPrefixOf_iff_prefix]
    exact fun h => hc.1 (cons_prefix_cons.1 h).1

theorem before?_eq_none (hse : sep ≠ []) (h : ¬ sep <:+: x) : before? sep x = none := by
  induction x with
  | nil => rw [before?, if_neg hse]
  | cons b x ih =>
    rw [infix_cons_iff, not_or] at h
    rw [before?, if_neg, ih h.2, Option.map_none]
    rw [ isPrefixOf_iff_prefix]
    exact h.1

theorem pieces_skip (sep : List α) (z piece y : List α) :
    pieces sep z.length piece (z ++ y) = pieces sep 0 piece y := by
  induction z with
  | nil => rfl
  | cons b z ih => rw [length_cons, cons_append, pieces, ih]

theorem pieces_of_not_infix (h : ¬ sep <:+: x) (piece : List α) :
    pieces sep 0 piece x = [piece ++ x] := by
  induction x generalizing piece with
  | nil => rw [pieces, append_nil]
  | cons b x ih =>
    rw [infix_cons_iff, not_or] at h
    rw [pieces, if_neg, ih h.2, append_assoc, singleton_append]
    rw [ isPrefixOf_iff_prefix]
    exact h.1

theorem pieces_append (hc : c ∉ sep) (h : ¬ c :: sep <:+: x) (piece y : List α) :
    pieces (c :: sep) 0 piece (x ++ (c :: sep ++ y))
      = (piece ++ x) :: pieces (c :: sep) 0 [] y := by
  induction x generalizing piece with
  | nil =>
    rw [nil_append, cons_append, pieces, if_pos, length_cons, Nat.add_sub_cancel,
      pieces_skip, append_nil]
    rw [ isPrefixOf_iff_prefix, ← cons_append]
    exact prefix_append _ _
  | cons b x ih =>
    have hh := not_prefix_append hc (cons_ne_nil b x) (fun hp => h hp.isInfix) y
    rw [infix_cons_iff, not_or] at h
    rw [cons_append, pieces, if_neg, ih h.2, append_assoc, singleton_append]
    rw [ isPrefixOf_iff_prefix]
    exact hh

theorem splitText_of_not_infix (h : ¬ sep <:+: x) : splitText sep x = [x] :=
  pieces_of_not_infix h []

theorem splitText_append (hc : c ∉ sep) (h : ¬ c :: sep <:+: x) (y : List α) :
    splitText (c :: sep) (x ++ (c :: sep ++ y)) = x :: splitText (c :: sep) y :=
  pieces_append hc h [] y

end Split
