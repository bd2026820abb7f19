import Mathlib.Data.Finset.Card
import Mathlib.Logic.Function.Basic

/-!
# Counts: how many there are, by name

A program that keeps "how many run for this account" has a map from names to numbers, adds one
when something starts and takes one off when it ends, and removes a name whose number falls to
zero.  The things themselves are numbered in the order they start, and `live i` is the name the
`i`-th of them is counted under, or `none` when it is over.
-/

universe u

abbrev Counts (κ : Type u) := κ → Option ℕ

namespace Counts

open Function Option

variable {κ : Type u} [DecidableEq κ]

def add (counts : Counts κ) (key : κ) : Counts κ :=
  Function.update counts key (some ((counts key).getD 0 + 1))

/-- One less, and a name whose number falls to zero goes; `none` when there is nothing to take
off. -/
def release (counts : Counts κ) (key : κ) : Option (Counts κ) :=
  (counts key).bind fun count =>
    if count = 0 then none
    else some (Function.update counts key (if count - 1 = 0 then none else some (count - 1)))

def ofNumbers (f : κ → ℕ) : Counts κ := fun key => if f key = 0 then none else some (f key)

omit [DecidableEq κ] in
theorem getD_ofNumbers (f : κ → ℕ) (key : κ) : (ofNumbers f key).getD 0 = f key := by
  rw [ofNumbers]
  split
  next h =>
    rw [h]
    rfl
  · rfl

omit [DecidableEq κ] in
theorem ofNumbers_ne_zero (f : κ → ℕ) (key : κ) : ofNumbers f key ≠ some 0 := by
  rw [ofNumbers]
  split
  · exact nofun
  next h =>
    exact fun heq => h (some.inj heq)

theorem add_ofNumbers (f : κ → ℕ) (key : κ) :
    add (ofNumbers f) key = ofNumbers (update f key (f key + 1)) := by
  funext k
  by_cases hk : k = key
  · subst hk
    rw [add, update_self, getD_ofNumbers, ofNumbers, update_self]
    simp
  · rw [add, update_of_ne hk, ofNumbers, ofNumbers, update_of_ne hk]

variable {key : κ} {i n : ℕ} {live : ℕ → Option κ}

theorem release_ofNumbers {f : κ → ℕ} (h : 0 < f key) :
    release (ofNumbers f) key = some (ofNumbers (update f key (f key - 1))) := by
  have hne : f key ≠ 0 := by omega
  have hso : ofNumbers f key = some (f key) := by rw [ofNumbers, if_neg hne]
  rw [release, hso, bind_some, if_neg hne, some_inj]
  funext k
  by_cases hk : k = key
  · subst hk
    rw [update_self, ofNumbers, update_self]
  · rw [update_of_ne hk, ofNumbers, ofNumbers, update_of_ne hk]

def census (live : ℕ → Option κ) (n : ℕ) (key : κ) : ℕ :=
  ((Finset.range n).filter fun i => live i = some key).card

def tally (live : ℕ → Option κ) (n : ℕ) : Counts κ := ofNumbers (census live n)

theorem census_pos (hi : i < n) (h : live i = some key) : 0 < census live n key :=
  Finset.card_pos.2 ⟨i, by simp [hi, h]⟩

theorem census_congr {live' : ℕ → Option κ} (h : ∀ i, live i = some key ↔ live' i = some key) :
    census live n key = census live' n key :=
  congrArg Finset.card (Finset.filter_congr fun i _ => h i)

theorem census_eq_zero (h : ∀ i, live i ≠ some key) : census live n key = 0 :=
  Finset.card_eq_zero.2 (Finset.filter_eq_empty_iff.2 fun i _ => h i)

theorem census_start (key : κ) :
    census (update live n (some key)) (n + 1)
      = update (census live n) key (census live n key + 1) := by
  have hold : ∀ k, ((Finset.range n).filter fun i => update live n (some key) i = some k)
      = (Finset.range n).filter fun i => live i = some k := by
    intro k
    refine Finset.filter_congr fun i hi => ?_
    rw [update_of_ne (Finset.mem_range.1 hi).ne]
  funext k
  rw [census, Finset.range_add_one, Finset.filter_insert, update_self, hold]
  by_cases hk : k = key
  · subst hk
    rw [if_pos rfl, Finset.card_insert_of_notMem (by simp), update_self, census]
  · rw [if_neg (fun h => hk (some.inj h).symm), update_of_ne hk, census]

theorem census_end (hi : i < n) (h : live i = some key) :
    census (update live i none) n
      = update (census live n) key (census live n key - 1) := by
  have her : ∀ k, ((Finset.range n).filter fun j => update live i none j = some k)
      = ((Finset.range n).filter fun j => live j = some k).erase i := by
    intro k
    ext j
    by_cases hj : j = i
    · subst hj; simp
    · simp [hj]
  funext k
  rw [census, her]
  by_cases hk : k = key
  · subst hk
    rw [Finset.card_erase_of_mem (by simp [hi, h]), update_self, census]
  · rw [update_of_ne hk, Finset.erase_eq_of_notMem, census]
    simp [h, Ne.symm hk]

theorem census_add (hi : i < n) (h : live i = none) (key : κ) :
    census (update live i (some key)) n
      = update (census live n) key (census live n key + 1) := by
  have hl : update (update live i (some key)) i none = live := by
    rw [update_idem, ← h, update_eq_self]
  have hse : update live i (some key) i = some key := update_self ..
  have hp := census_pos hi hse
  have hen := census_end hi hse
  rw [hl] at hen
  rw [hen, update_self, Nat.sub_add_cancel hp, update_idem, update_eq_self]

theorem census_idle (live : ℕ → Option κ) (n : ℕ) :
    census (update live n none) (n + 1) = census live n := by
  funext k
  rw [census, Finset.range_add_one, Finset.filter_insert, update_self, if_neg nofun, census]
  refine congrArg _ (Finset.filter_congr fun i hi => ?_)
  rw [update_of_ne (Finset.mem_range.1 hi).ne]

theorem add_tally (live : ℕ → Option κ) (n : ℕ) (key : κ) :
    add (tally live n) key = tally (update live n (some key)) (n + 1) := by
  rw [tally, add_ofNumbers, tally, census_start]

theorem release_tally (hi : i < n) (h : live i = some key) :
    release (tally live n) key = some (tally (update live i none) n) := by
  rw [tally, release_ofNumbers (census_pos hi h), tally, census_end hi h]

end Counts
