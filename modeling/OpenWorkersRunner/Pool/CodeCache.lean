import Mathlib.Data.List.Nodup
import OpenWorkersRunner.Lib.Machine
import OpenWorkersRunner.Lib.Parties

/-!
# The code cache (`code_cache.rs`)

Compiled code is kept by worker and version, bounded by the number of blobs and by their bytes.  The
entries are those of an `LruCache`, the one used longest ago first.  A subtraction that would go
below zero has no result here.
-/

namespace OpenWorkersRunner.CodeCache

open List Parties Option

abbrev Entry (K : Type) := K × List UInt8

variable {K : Type} [DecidableEq K]

def size (entries : List (Entry K)) : ℕ := total (fun e => e.2.length) entries

structure Cache (K : Type) where
  entries : List (Entry K)
  bytes : ℕ
deriving DecidableEq

def sub? (n m : ℕ) : Option ℕ := if m ≤ n then some (n - m) else none

def find (entries : List (Entry K)) (key : K) : Option (Entry K) := entries.find? (·.1 = key)

/-- `CodeCache::get`. -/
def Cache.get (c : Cache K) (key : K) : Cache K × Option (List UInt8) :=
  match find c.entries key with
  | some e => ({ c with entries := c.entries.erase e ++ [e] }, some e.2)
  | none => (c, none)

def push (maxEntries : ℕ) (entries : List (Entry K)) (key : K) (blob : List UInt8) :
    List (Entry K) × Option (Entry K) :=
  match find entries key with
  | some e => (entries.erase e ++ [(key, blob)], some e)
  | none =>
    if entries.length = maxEntries then (entries.tail ++ [(key, blob)], entries.head?)
    else (entries ++ [(key, blob)], none)

def evict (maxBytes : ℕ) : List (Entry K) → ℕ → Option (Cache K)
  | [], bytes => some ⟨[], bytes⟩
  | e :: rest, bytes =>
    if bytes > maxBytes then (sub? bytes e.2.length).bind (evict maxBytes rest)
    else some ⟨e :: rest, bytes⟩

/-- `CodeCache::put`. -/
def Cache.put (maxEntries maxBytes : ℕ) (c : Cache K) (key : K) (blob : List UInt8) :
    Option (Cache K) :=
  if blob.length > maxBytes then some c
  else
    let bytes := c.bytes + blob.length
    match push maxEntries c.entries key blob with
    | (entries, some dropped) => (sub? bytes dropped.2.length).bind (evict maxBytes entries)
    | (entries, none) => evict maxBytes entries bytes

inductive Act (K : Type)
  | get (key : K)
  | put (key : K) (blob : List UInt8)

def machine (K : Type) [DecidableEq K] (maxEntries maxBytes : ℕ) : Machine (Cache K) (Act K) where
  init := ⟨[], 0⟩
  step c
    | .get key => some (c.get key).1
    | .put key blob => c.put maxEntries maxBytes key blob

/-! ## What a call does -/

variable {maxEntries maxBytes : ℕ} {entries : List (Entry K)} {key : K} {blob : List UInt8}

theorem find_eq_some {e : Entry K} (h : find entries key = some e) : e ∈ entries ∧ e.1 = key :=
  ⟨mem_of_find?_eq_some h, by simpa using find?_some h⟩

theorem find_concat (h : key ∉ entries.map Prod.fst) :
    find (entries ++ [(key, blob)]) key = some (key, blob) := by
  have hn : entries.find? (·.1 = key) = none := by
    refine find?_eq_none.2 fun e he => ?_
    rw [decide_eq_true_eq]
    rintro rfl
    exact h (mem_map_of_mem he)
  rw [find, find?_append, hn]
  simp

omit [DecidableEq K] in
theorem size_concat (e : Entry K) : size (entries ++ [e]) = size entries + e.2.length := by
  rw [size, total_append]
  simp [size, total]

theorem notMem_erase {e : Entry K} (hnd : (entries.map Prod.fst).Nodup) (he : e ∈ entries) :
    e.1 ∉ (entries.erase e).map Prod.fst ∧ ((entries.erase e).map Prod.fst).Nodup :=
  nodup_cons.1 (((perm_cons_erase he).map Prod.fst).nodup_iff.1 hnd)

omit [DecidableEq K] in
theorem evict_concat (entries : List (Entry K)) {e : Entry K} (he : e.2.length ≤ maxBytes) :
    ∃ l, l <:+ entries ∧ evict maxBytes (entries ++ [e]) (size (entries ++ [e])) =
      some ⟨l ++ [e], size (l ++ [e])⟩ ∧ size (l ++ [e]) ≤ maxBytes := by
  induction entries with
  | nil =>
    refine ⟨[], suffix_rfl, ?_, ?_⟩
    · have hf : ¬ size [e] > maxBytes := by simpa [size, total] using he
      rw [nil_append, evict, if_neg hf]
    · simpa [size, total] using he
  | cons x xs ih =>
    have hsi : size (x :: xs ++ [e]) = x.2.length + size (xs ++ [e]) := by
      simp [size, total]
    by_cases hf : size (x :: xs ++ [e]) > maxBytes
    · obtain ⟨l, hl, hev, hle⟩ := ih
      refine ⟨l, hl.trans (suffix_cons x xs), ?_, hle⟩
      rw [cons_append, evict, ← cons_append, if_pos hf, hsi, sub?,
        if_pos (Nat.le_add_right _ _), Nat.add_sub_cancel_left]
      exact hev
    · refine ⟨x :: xs, suffix_rfl, ?_, Nat.le_of_not_lt hf⟩
      rw [cons_append, evict, ← cons_append, if_neg hf]

structure Kept (maxEntries maxBytes : ℕ) (c : Cache K) : Prop where
  bytes : c.bytes = size c.entries
  budget : c.bytes ≤ maxBytes
  count : c.entries.length ≤ maxEntries
  nodup : (c.entries.map Prod.fst).Nodup

theorem push_cases (key : K) (blob : List UInt8) (hma : 1 ≤ maxEntries)
    (hnd : (entries.map Prod.fst).Nodup) (hcn : entries.length ≤ maxEntries) :
    ∃ rest, (push maxEntries entries key blob).1 = rest ++ [(key, blob)] ∧
      size rest + ((push maxEntries entries key blob).2.map (·.2.length)).getD 0 = size entries ∧
      rest.length + 1 ≤ maxEntries ∧ key ∉ rest.map Prod.fst ∧ (rest.map Prod.fst).Nodup := by
  rw [push]
  cases hf : find entries key with
  | some e =>
    obtain ⟨hm, rfl⟩ := find_eq_some hf
    obtain ⟨hk, hre⟩ := notMem_erase hnd hm
    refine ⟨entries.erase e, rfl, total_erase (fun e => e.2.length) hm, ?_, hk, hre⟩
    rw [length_erase_of_mem hm]
    have := length_pos_of_mem hm
    omega
  | none =>
    have hk : key ∉ entries.map Prod.fst := by
      intro h
      obtain ⟨e, he, rfl⟩ := mem_map.1 h
      exact absurd (find?_eq_none.1 hf e he) (by simp)
    dsimp only
    split
    next hfu =>
      cases entries with
      | nil => exact absurd hfu (by simp; omega)
      | cons e rest =>
        refine ⟨rest, rfl, ?_, hcn, fun h => hk (mem_cons_of_mem _ h), (nodup_cons.1 hnd).2⟩
        simp [size, total, Nat.add_comm]
    · exact ⟨entries, rfl, rfl, by omega, hk, hnd⟩

/-- **A blob that fits is stored**, and others go until it does. -/
theorem Kept.put {c : Cache K} (key : K) (hc : Kept maxEntries maxBytes c) (hm : 1 ≤ maxEntries)
    (hf : blob.length ≤ maxBytes) :
    ∃ t, c.put maxEntries maxBytes key blob = some t ∧ Kept maxEntries maxBytes t ∧
      (t.get key).2 = some blob := by
  obtain ⟨rest, hp, hsi, hcn, hke, hnd⟩ :=
    push_cases key blob hm hc.nodup hc.count
  obtain ⟨l, hl, hev, hle⟩ := evict_concat rest (e := (key, blob)) hf
  have hk : key ∉ l.map Prod.fst := fun h => hke ((hl.map Prod.fst).subset h)
  refine ⟨⟨l ++ [(key, blob)], size (l ++ [(key, blob)])⟩, ?_, ⟨rfl, hle, ?_, ?_⟩, ?_⟩
  · rw [Cache.put, if_neg (Nat.not_lt.2 hf), ← hev, size_concat]
    generalize CodeCache.push maxEntries c.entries key blob = pushed at hp hsi ⊢
    obtain ⟨pushed, dropped⟩ := pushed
    obtain rfl : pushed = rest ++ [(key, blob)] := hp
    cases dropped with
    | none =>
      simp only [map_none, getD_none, Nat.add_zero] at hsi
      simp only [hc.bytes, hsi]
    | some e =>
      simp only [map_some, getD_some] at hsi
      have hsu : sub? (c.bytes + blob.length) e.2.length = some (size rest + blob.length) := by
        rw [sub?, hc.bytes, if_pos (by omega)]
        congr 1
        omega
      simp only [hsu, bind_some]
  · rw [length_append]
    exact Nat.le_trans (Nat.add_le_add_right hl.length_le 1) hcn
  · rw [map_append]
    exact Nodup.append ((hl.map Prod.fst).sublist.nodup hnd) (nodup_singleton _)
      (disjoint_singleton.2 hk)
  · rw [Cache.get]
    simp only [find_concat hk]

theorem Kept.get {c : Cache K} (hc : Kept maxEntries maxBytes c) (key : K) :
    Kept maxEntries maxBytes (c.get key).1 := by
  rw [Cache.get]
  cases hf : find c.entries key with
  | none => exact hc
  | some e =>
    obtain ⟨hm, -⟩ := find_eq_some hf
    have hp : c.entries.erase e ++ [e] ~ c.entries :=
      perm_append_singleton _ _ |>.trans (perm_cons_erase hm).symm
    refine ⟨?_, hc.budget, hp.length_eq.trans_le hc.count, (hp.map Prod.fst).nodup_iff.2 hc.nodup⟩
    rw [hc.bytes, size_concat]
    exact (total_erase _ hm).symm

theorem kept_of_reach {c : Cache K} (hm : 1 ≤ maxEntries)
    (hc : (machine K maxEntries maxBytes).Reachable c) : Kept maxEntries maxBytes c := by
  refine hc.invariant ⟨rfl, Nat.zero_le _, Nat.zero_le _, nodup_nil⟩ fun c a t _ hc _ h => ?_
  cases a with
  | get key =>
    cases h
    exact hc.get key
  | put key blob =>
    by_cases hf : blob.length ≤ maxBytes
    · obtain ⟨t', ht', hk, -⟩ := hc.put key hm hf
      cases ht'.symm.trans h
      exact hk
    · cases (if_pos (Nat.not_le.1 hf)).symm.trans h
      exact hc

/-- **The code cache keeps its budget**, after any calls: the bytes are those of the blobs, within
both bounds; a call never goes below zero; what was put is there, if it fits at all, and changes
nothing otherwise. -/
theorem code_cache_keeps_budget (maxEntries maxBytes : ℕ) (hmax : 1 ≤ maxEntries) (c : Cache K)
    (hc : (machine K maxEntries maxBytes).Reachable c) :
    c.bytes = size c.entries ∧ c.bytes ≤ maxBytes ∧ c.entries.length ≤ maxEntries ∧
      (c.entries.map Prod.fst).Nodup ∧
      ∀ key blob, (blob.length ≤ maxBytes → ∃ t, c.put maxEntries maxBytes key blob = some t ∧
          (t.get key).2 = some blob) ∧
        (maxBytes < blob.length → c.put maxEntries maxBytes key blob = some c) := by
  have hkept := kept_of_reach hmax hc
  refine ⟨hkept.bytes, hkept.budget, hkept.count, hkept.nodup, fun key blob => ⟨fun hfits => ?_,
    fun hlarge => if_pos hlarge⟩⟩
  obtain ⟨t, ht, -, hget⟩ := hkept.put key hmax hfits
  exact ⟨t, ht, hget⟩

theorem code_cache_keeps_budget_two :
    ∃ c, (machine ℕ 5 3).Reachable c ∧ c = ⟨[(1, [0, 0])], 2⟩ ∧ c.bytes ≤ 3 := by
  obtain ⟨c, hc, hp⟩ := (machine ℕ 5 3).exists_of_run
    [.put 0 [0, 0], .get 0, .put 1 [0, 0]] (· = ⟨[(1, [0, 0])], 2⟩)
    (by decide)
  exact ⟨c, hc, hp, (code_cache_keeps_budget 5 3 (by decide) c hc).2.1⟩

end OpenWorkersRunner.CodeCache
