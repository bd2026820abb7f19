import OpenWorkersRunner.Lib.Machine
import OpenWorkersRunner.Lib.Parties
import OpenWorkersRunner.Lib.Table
import OpenWorkersRunner.Lib.Text

/-!
# D1: what the objects of a namespace hold (`Usage` of `d1/mod.rs`)

The sizes of the objects of a namespace are kept with their sum, as `u64`s: `scan` seeds them from
the files, and each call sets the size of its object.  Modulo `2 ^ 64` the sum is always right
(`Adds.set`), so it is right whenever the sizes add up to less than that (`usage_adds_up`).  Files
can be longer than what they occupy, and then it is not (`usage_wraps`).
-/

namespace OpenWorkersRunner.D1

open Parties List

structure Usage where
  objects : AList fun _ : Text => UInt64
  total : UInt64

/-- An entry of the directory of a namespace: the UTF-8 of its name as `to_string_lossy` gives it,
and its length if there is metadata. -/
structure DirEntry where
  name : Text
  len : Option UInt64

/-- What `read_dir` gives, if it gives anything. -/
abbrev Dir := Option (List (Option DirEntry))

namespace Usage

/-! ## The model -/

def empty : Usage := ⟨∅, 0⟩

/-- The size that is recorded for an object. -/
def size (u : Usage) (objectId : Text) : UInt64 := (u.objects.lookup objectId).getD 0

/-- A release build does not check `-` and `+`. -/
def set (u : Usage) (objectId : Text) (bytes : UInt64) : Usage :=
  ⟨u.objects.insert objectId bytes, u.total - u.size objectId + bytes⟩

/-- The object whose file or WAL has the name. -/
def objectId (name : Text) : Option Text :=
  ((Text.ascii ".sqlite").isSuffixOf? name).or ((Text.ascii ".sqlite-wal").isSuffixOf? name)

def scanEntry (u : Usage) (e : DirEntry) : Usage :=
  match objectId e.name with
  | none => u
  | some o => u.set o (u.size o + e.len.getD 0)

/-- The entries that `entries.flatten()` leaves. -/
def files (dir : Dir) : List DirEntry := (dir.getD []).reduceOption

def scan (dir : Dir) : Usage := (files dir).foldl scanEntry empty

/-- `namespaces` of the service. -/
abbrev State := String → Option Usage

/-- Why the objects of a namespace cannot hold more.  `dir` is its directory at that time. -/
def full (limit : UInt64) (s : State) (namespaceId : String) (dir : Dir) : State × Option String :=
  let usage := (s namespaceId).getD (scan dir)
  (Function.update s namespaceId (some usage), if limit ≤ usage.total then
      some s!"the objects of the namespace hold {usage.total >>> 20} of {limit >>> 20} MiB"
    else none)

inductive Act
  | full (namespaceId : String) (dir : Dir)
  /-- A call has ended and says the size of its object. -/
  | set (namespaceId : String) (objectId : Text) (bytes : UInt64)
  /-- `remove_namespace_files`. -/
  | remove (namespaceId : String)

def step (limit : UInt64) (s : State) : Act → State
  | .full namespaceId dir => (full limit s namespaceId dir).1
  | .set namespaceId objectId bytes =>
    Function.update s namespaceId (some (((s namespaceId).getD empty).set objectId bytes))
  | .remove namespaceId => Function.update s namespaceId none

def machine (limit : UInt64) : Machine State Act := ⟨fun _ => none, fun s a => step limit s a⟩

/-! ## The sum -/

/-- The sum of the sizes, as a number. -/
def sum (u : Usage) : ℕ := Parties.total (·.2.toNat) u.objects.entries

/-- The sum of the sizes of the two files of an object. -/
def filesSize (o : Text) (l : List DirEntry) : ℕ :=
  Parties.total (fun e => if e.name = o ++ Text.ascii ".sqlite" ∨
    e.name = o ++ Text.ascii ".sqlite-wal" then (e.len.getD 0).toNat else 0) l

variable {u : Usage} {o : Text}

/-- `insert` erases the key first, so a total changes by what the key had. -/
theorem total_kerase {α β : Type} [DecidableEq α] (f : β → ℕ) (a : α)
    (l : List (Sigma fun _ : α => β)) :
    Parties.total (f ·.2) (l.kerase a) + (l.dlookup a).elim 0 f = Parties.total (f ·.2) l := by
  induction l with
  | nil => rfl
  | cons e l ih =>
    by_cases he : a = e.1
    · subst he
      rw [kerase_cons_eq rfl, dlookup_cons_eq, total_cons, Nat.add_comm]
      rfl
    · rw [kerase_cons_ne he, dlookup_cons_ne _ _ he, total_cons, total_cons, ← ih]
      omega

theorem toNat_size : (u.size o).toNat = (u.objects.lookup o).elim 0 UInt64.toNat := by
  rw [size]
  cases u.objects.lookup o with
  | none => rfl
  | some bs => rfl

theorem sum_set (u : Usage) (o : Text) (bs : UInt64) :
    (u.set o bs).sum + (u.size o).toNat = u.sum + bs.toNat := by
  have hk := total_kerase UInt64.toNat o u.objects.entries
  rw [sum, set, AList.entries_insert, total_cons, toNat_size, sum, ← hk, AList.lookup]
  dsimp only
  omega

theorem size_le_sum (u : Usage) (o : Text) : (u.size o).toNat ≤ u.sum := by
  have hk := total_kerase UInt64.toNat o u.objects.entries
  rw [toNat_size, sum, ← hk]
  exact Nat.le_add_left _ _

theorem size_set (u : Usage) (o : Text) (bs : UInt64) (o' : Text) :
    (u.set o bs).size o' = if o' = o then bs else u.size o' := by
  by_cases ho : o' = o
  · rw [if_pos ho, ho, size, set, AList.lookup_insert]
    rfl
  · rw [if_neg ho, size, set, AList.lookup_insert_ne ho, size]

/-- The total is the sum of the sizes, modulo `2 ^ 64`. -/
def Adds (u : Usage) : Prop := u.total = UInt64.ofNat u.sum

theorem Adds.set (hu : u.Adds) (o : Text) (bs : UInt64) : (u.set o bs).Adds := by
  have hsu := congrArg UInt64.ofNat (sum_set u o bs)
  rw [UInt64.ofNat_add, UInt64.ofNat_add, UInt64.ofNat_toNat, UInt64.ofNat_toNat, ← hu] at hsu
  rw [Adds, ← UInt64.add_sub_cancel (UInt64.ofNat (u.set o bs).sum) (u.size o), hsu]
  change u.total - u.size o + bs = _
  grind

theorem Adds.scanEntry (hu : u.Adds) (e : DirEntry) : (u.scanEntry e).Adds := by
  rw [Usage.scanEntry]
  split
  · exact hu
  · exact hu.set _ _

theorem adds_scan (dir : Dir) : (scan dir).Adds :=
  foldlRecOn (files dir) Usage.scanEntry (motive := Adds) rfl fun _ hu e _ => hu.scanEntry e

theorem adds_of_reach {lim : UInt64} {s : State} (hs : (machine lim).Reachable s) :
    ∀ n u, s n = some u → u.Adds := by
  refine hs.invariant (I := fun s => ∀ n u, s n = some u → u.Adds) nofun ?_
  intro s a t _ hI _ h
  cases h
  cases a with
  | full n dir =>
    refine forall_update_some (fun k u _ h => hI k u h) ?_
    cases hn : s n with
    | none => exact adds_scan dir
    | some u => exact hI n u hn
  | set n o bs =>
    refine forall_update_some (fun k u _ h => hI k u h) ?_
    cases hn : s n with
    | none => exact Adds.set (u := empty) rfl o bs
    | some u => exact (hI n u hn).set o bs
  | remove n =>
    intro k u h
    by_cases hk : k = n
    · rw [hk, step, Function.update_self] at h
      cases h
    · rw [step, Function.update_of_ne hk] at h
      exact hI k u h

theorem Adds.total_toNat (hu : u.Adds) (h : u.sum < 2 ^ 64) : u.total.toNat = u.sum := by
  rw [hu, UInt64.toNat_ofNat_of_lt' h]

/-! ## The files of an object -/

theorem objectId_eq_some {name : Text} : objectId name = some o ↔
    name = o ++ Text.ascii ".sqlite" ∨ name = o ++ Text.ascii ".sqlite-wal" := by
  simp only [objectId, Option.or_eq_some_iff, isSuffixOf?_eq_some_iff_append_eq]
  constructor
  · rintro (h | ⟨-, h⟩)
    · exact .inl h.symm
    · exact .inr h.symm
  · rintro (h | h)
    · exact .inl h.symm
    · refine .inr ⟨?_, h.symm⟩
      -- the last bytes differ
      rw [Option.eq_none_iff_forall_ne_some]
      intro rest hre
      have hn := isSuffixOf?_eq_some_iff_append_eq.1 hre
      rw [h] at hn
      have hl := congrArg getLast? hn
      rw [getLast?_append, getLast?_append] at hl
      cases hl

theorem size_foldl (l : List DirEntry) (u : Usage) (o : Text) :
    (l.foldl scanEntry u).size o = u.size o + UInt64.ofNat (filesSize o l) := by
  induction l generalizing u with
  | nil => exact (UInt64.add_zero _).symm
  | cons e l ih =>
    rw [foldl_cons, ih, filesSize, filesSize, total_cons, UInt64.ofNat_add, ← UInt64.add_assoc]
    congr 1
    by_cases ho : objectId e.name = some o
    · rw [if_pos (objectId_eq_some.1 ho), UInt64.ofNat_toNat, scanEntry, ho]
      exact (size_set u o _ o).trans (if_pos rfl)
    · rw [if_neg (mt objectId_eq_some.2 ho), scanEntry]
      cases hid : objectId e.name with
      | none => exact (UInt64.add_zero _).symm
      | some o' =>
        have hne : o ≠ o' := fun h => ho (h ▸ hid)
        rw [size_set, if_neg hne]
        exact (UInt64.add_zero _).symm

theorem filesSize_perm {l l' : List DirEntry} (h : l.Perm l') :
    filesSize o l = filesSize o l' := (h.map _).sum_eq

theorem toNat_size_scan {dir : Dir} {l : List DirEntry} (hl : l.Perm (files dir))
    (h : filesSize o l < 2 ^ 64) : ((scan dir).size o).toNat = filesSize o l := by
  rw [scan, size_foldl, ← filesSize_perm hl]
  change (0 + UInt64.ofNat (filesSize o l)).toNat = _
  rw [UInt64.zero_add, UInt64.toNat_ofNat_of_lt' h]

/-! ## The usage of a namespace -/

/-- **The usage adds up** as long as it is less than `2 ^ 64`: the total is the sum of the sizes,
the subtraction in `set` does not underflow, and `full` refuses exactly at the limit.  `scan` counts
both files of an object, in any order. -/
theorem usage_adds_up {limit : UInt64} {s : State} (hs : (machine limit).Reachable s) :
    (∀ n u, s n = some u → u.sum < 2 ^ 64 → u.total.toNat = u.sum ∧ ∀ o, u.size o ≤ u.total) ∧
    (∀ n dir, ∃ u, (full limit s n dir).1 n = some u ∧ (u.sum < 2 ^ 64 →
      ((full limit s n dir).2.isSome = true ↔ limit.toNat ≤ u.sum))) ∧
    ∀ dir l o, l.Perm (files dir) → filesSize o l < 2 ^ 64 →
      ((scan dir).size o).toNat = filesSize o l := by
  refine ⟨fun n u hn hsum => ?_, fun n dir => ?_, fun dir l o => toNat_size_scan⟩
  · have htot := (adds_of_reach hs n u hn).total_toNat hsum
    refine ⟨htot, fun o => ?_⟩
    rw [UInt64.le_iff_toNat_le, htot]
    exact u.size_le_sum o
  · have hfull : (machine limit).Reachable (full limit s n dir).1 :=
      hs.step (a := .full n dir) trivial rfl
    refine ⟨(s n).getD (scan dir), Function.update_self .., fun hsum => ?_⟩
    have htot := (adds_of_reach hfull n _ (Function.update_self ..)).total_toNat hsum
    rw [← htot, ← UInt64.le_iff_toNat_le, full]
    split <;> simp [*]

/-- Two objects, of which one has both files and the other has been called since. -/
theorem usage_adds_up_two :
    ∃ s u, (machine 100).Reachable s ∧ s "n" = some u ∧ u.sum = 90 ∧ u.total.toNat = u.sum := by
  obtain ⟨s, hs, hp⟩ := (machine 100).exists_of_run
    [.full "n" (some [some ⟨Text.ascii "a.sqlite-wal", some 20⟩, none,
      some ⟨Text.ascii "b.sqlite", some 5⟩, some ⟨Text.ascii "a.sqlite", some 40⟩]),
      .set "n" (Text.ascii "b") 30]
    (fun s => (s "n").any (·.sum == 90)) (by decide)
  obtain ⟨u, hu, hp⟩ := (Option.any_eq_true _ _).1 hp
  have hsum := beq_iff_eq.1 hp
  exact ⟨s, u, hs, hu, hsum, ((usage_adds_up hs).1 "n" u hu (by rw [hsum]; decide)).1⟩

/-- Three sparse files are `2 ^ 64` bytes long: the total is zero, `full` lets more in, and the next
call on an object takes its size from that. -/
theorem usage_wraps :
    ∃ s u, (machine 10737418240).Reachable s ∧ s "n" = some u ∧ u.sum = 2 ^ 64 ∧ u.total = 0 ∧
      (full 10737418240 s "n" none).2 = none ∧ u.total < u.size (Text.ascii "a") := by
  obtain ⟨s, hs, hfull, hu⟩ := (machine 10737418240).exists_of_run
    [.full "n" (some [some ⟨Text.ascii "a.sqlite", some 9223372036854775807⟩,
      some ⟨Text.ascii "b.sqlite", some 9223372036854775807⟩,
      some ⟨Text.ascii "c.sqlite", some 2⟩])]
    (fun s => (full 10737418240 s "n" none).2 = none ∧ (s "n").any fun u : Usage =>
      u.sum = 2 ^ 64 ∧ u.total = 0 ∧ u.total < u.size (Text.ascii "a")) (by decide)
  obtain ⟨u, hu, hp⟩ := (Option.any_eq_true _ _).1 hu
  obtain ⟨hsum, htot, hlt⟩ := of_decide_eq_true hp
  exact ⟨s, u, hs, hu, hsum, htot, hfull, hlt⟩

end Usage

end OpenWorkersRunner.D1
