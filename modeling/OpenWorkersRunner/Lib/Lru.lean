import Mathlib.Data.List.Nodup

/-!
# A cache of bounded size that drops what was used longest ago

An `Lru capacity κ ν` holds at most `capacity` entries, the one used last in front, and no two of
them under one key.  `touch` is what looking up a key does to the order, and `put` what storing an
entry does: the entry comes in front, and the last one falls out if there is no room.
-/

universe u v

structure Lru (capacity : Nat) (κ : Type u) (ν : Type v) where
  entries : List (κ × ν)
  nodup : (entries.map Prod.fst).Nodup
  bounded : entries.length ≤ capacity

namespace Lru

open List

variable {capacity : Nat} {κ : Type u} {ν : Type v}

def empty : Lru capacity κ ν := ⟨[], nodup_nil, Nat.zero_le _⟩

theorem not_mem_empty (e : κ × ν) : e ∉ (empty : Lru capacity κ ν).entries := not_mem_nil

variable [DecidableEq κ]

theorem nodup_front (e : κ × ν) {entries : List (κ × ν)} (h : (entries.map Prod.fst).Nodup) :
    ((e :: entries.filter (·.1 ≠ e.1)).map Prod.fst).Nodup := by
  rw [map_cons, nodup_cons]
  refine ⟨?_, h.sublist (filter_sublist.map _)⟩
  simp

def get (l : Lru capacity κ ν) (k : κ) : Option ν := (l.entries.find? (·.1 = k)).map Prod.snd

def touch (l : Lru capacity κ ν) (k : κ) : Lru capacity κ ν :=
  match h : l.entries.find? (·.1 = k) with
  | none => l
  | some e =>
    { entries := e :: l.entries.filter (·.1 ≠ e.1)
      nodup := nodup_front e l.nodup
      bounded := by
        have hlt : (l.entries.filter (·.1 ≠ e.1)).length < l.entries.length :=
          length_filter_lt_length_iff_exists.2 ⟨e, mem_of_find?_eq_some h, by simp⟩
        exact Nat.le_trans hlt l.bounded }

def put (l : Lru capacity κ ν) (k : κ) (v : ν) : Lru capacity κ ν where
  entries := ((k, v) :: l.entries.filter (·.1 ≠ k)).take capacity
  nodup := (nodup_front (k, v) l.nodup).sublist ((take_sublist _ _).map _)
  bounded := length_take_le _ _

variable {k : κ} {l : Lru capacity κ ν}

theorem mem_of_get {v : ν} (h : l.get k = some v) : (k, v) ∈ l.entries := by
  obtain ⟨⟨k', v'⟩, he, rfl⟩ := Option.map_eq_some_iff.1 h
  obtain rfl : k' = k := by simpa using find?_some he
  exact mem_of_find?_eq_some he

theorem mem_of_mem_touch {e : κ × ν} (h : e ∈ (l.touch k).entries) : e ∈ l.entries := by
  unfold touch at h
  split at h
  · exact h
  next found hf =>
    rcases mem_cons.1 h with rfl | h
    · exact mem_of_find?_eq_some hf
    · exact mem_of_mem_filter h

theorem mem_of_mem_put {v : ν} {e : κ × ν} (h : e ∈ (l.put k v).entries) :
    e = (k, v) ∨ e ∈ l.entries := by
  rcases mem_cons.1 (mem_of_mem_take h) with rfl | h
  · exact .inl rfl
  · exact .inr (mem_of_mem_filter h)

end Lru
