import Mathlib.Data.List.Basic

/-!
# Names made of parts

A program names its files and objects by joining texts: an id, a `/`, a number in decimal.  The
parts can be read back from the name when the last ones hold no separator, and `decimal_inj` and
`append_cons_inj_of_notMem_right` are the two facts that show it.
-/

universe u

theorem List.append_cons_inj_of_notMem_right {α : Type u} {x1 x2 z1 z2 : List α} {a : α}
    (h1 : a ∉ z1) (h2 : a ∉ z2) (h : x1 ++ a :: z1 = x2 ++ a :: z2) : x1 = x2 ∧ z1 = z2 := by
  rcases List.append_eq_append_iff.1 h with ⟨y, rfl, hy⟩ | ⟨y, rfl, hy⟩
  · cases y with
    | nil => exact ⟨by simp, by simpa using hy⟩
    | cons b y =>
      obtain ⟨-, rfl⟩ := List.cons.inj hy
      simp at h1
  · cases y with
    | nil => exact ⟨by simp, by simpa using hy.symm⟩
    | cons b y =>
      obtain ⟨-, rfl⟩ := List.cons.inj hy
      simp at h2

def decimal (n : Int) : List Char := (toString n).toList

theorem decimal_eq (n : Int) :
    decimal n = (if n < 0 then ['-'] else []) ++ Nat.toDigits 10 n.natAbs := by
  cases n with
  | ofNat m => simp [decimal, toString, Int.repr]
  | negSucc m => simp [decimal, toString, Int.repr]

theorem notMem_decimal {c : Char} (hd : c.isDigit = false) (hm : c ≠ '-') (n : Int) :
    c ∉ decimal n := by
  rw [decimal_eq, List.mem_append, not_or]
  refine ⟨by split <;> simp [hm], fun h => ?_⟩
  rw [Nat.isDigit_of_mem_toDigits (by decide) (by decide) h] at hd
  cases hd

theorem minus_notMem_toDigits (n : Nat) : '-' ∉ Nat.toDigits 10 n := fun h =>
  absurd (Nat.isDigit_of_mem_toDigits (by decide) (by decide) h) (by decide)

theorem toDigits_inj {m n : Nat} (h : Nat.toDigits 10 m = Nat.toDigits 10 n) : m = n := by
  have := congrArg (fun ds => Nat.ofDigitChars 10 ds 0) h
  simpa [Nat.ofDigitChars_toDigits] using this

theorem decimal_inj {m n : Int} (h : decimal m = decimal n) : m = n := by
  rw [decimal_eq, decimal_eq] at h
  have hm : ∀ k l : Nat, ['-'] ++ Nat.toDigits 10 k ≠ [] ++ Nat.toDigits 10 l := by
    intro k l heq
    have : '-' ∈ [] ++ Nat.toDigits 10 l := heq ▸ List.mem_append_left _ List.mem_cons_self
    exact minus_notMem_toDigits l this
  split at h <;> split at h
  · have := toDigits_inj (List.append_cancel_left h)
    omega
  · exact absurd h (hm _ _)
  · exact absurd h.symm (hm _ _)
  · have := toDigits_inj (List.append_cancel_left h)
    omega
