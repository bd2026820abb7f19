import Mathlib.Data.List.AList
import Mathlib.Data.List.Perm.Subperm
import Mathlib.Logic.Function.Basic

/-!
# Tables: maps that are walked, and maps that are only looked up

The maps of the program that are walked as well as looked up — the rows of a table, the entries of
a `HashMap` — are Mathlib's `AList`s, whose keys are distinct by construction.  What is added here
is what SQL and `HashMap` have and `AList` does not: `mapVal` changes every value, and `retain`
keeps the entries that pass a test.
-/

universe u v w

inductive Sent
  | done
  | failed
  | unacknowledged
deriving DecidableEq

variable {α : Type u} {β : Type v}

theorem update_some_eq_some [DecidableEq α] {f : α → Option β} {a b : α}
    {x y : β} (h : Function.update f a (some x) b = some y) :
    (b = a ∧ y = x) ∨ (b ≠ a ∧ f b = some y) := by
  by_cases hb : b = a
  · subst hb
    rw [Function.update_self, Option.some_inj] at h
    exact .inl ⟨rfl, h.symm⟩
  · rw [Function.update_of_ne hb] at h
    exact .inr ⟨hb, h⟩

/-- What holds of the value written and of what is under the other keys holds of all that is found
after the write. -/
theorem forall_update_some [DecidableEq α] {f : α → Option β} {a : α}
    {x : β} {P : α → β → Prop} (h : ∀ b y, b ≠ a → f b = some y → P b y) (hx : P a x) :
    ∀ b y, Function.update f a (some x) b = some y → P b y := by
  intro b y hy
  rcases update_some_eq_some hy with ⟨rfl, rfl⟩ | ⟨hb, hy⟩
  · exact hx
  · exact h b y hb hy

/-! ## Entry by entry -/

namespace Option

theorem Rel.self {α : Type u} {r : α → α → Prop} (hr : ∀ x, r x x) (a : Option α) : Rel r a a := by
  cases a with
  | none => exact .none
  | some x => exact .some (hr x)

theorem Rel.exists_of_some_right {α : Type u} {β : Type v} {r : α → β → Prop} {a : Option α} {y : β}
    (h : Rel r a (.some y)) : ∃ x, a = .some x ∧ r x y := by
  cases h with
  | some h => exact ⟨_, rfl, h⟩

theorem Rel.exists_of_some_left {α : Type u} {β : Type v} {r : α → β → Prop} {x : α} {b : Option β}
    (h : Rel r (.some x) b) : ∃ y, b = .some y ∧ r x y := by
  cases h with
  | some h => exact ⟨_, rfl, h⟩

end Option

theorem rel_update_some [DecidableEq α] {r : β → β → Prop}
    (hr : ∀ x, r x x) {f : α → Option β} {a : α} {x x' : β} (hx : f a = some x) (h : r x x')
    (b : α) : Option.Rel r (f b) (Function.update f a (some x') b) := by
  by_cases hb : b = a
  · subst hb
    rw [Function.update_self, hx]
    exact .some h
  · rw [Function.update_of_ne hb]
    exact .self hr _

/-! ## Counting -/

namespace List

variable {α : Type u} {l l' : List α} {p p' : α → Bool}

theorem countP_le_length_of_mem (hnd : l'.Nodup) {k : List α}
    (h : ∀ a ∈ l', p' a = true → a ∈ k) : l'.countP p' ≤ k.length := by
  rw [countP_eq_length_filter]
  refine (Nodup.subperm (hnd.filter p') fun a ha => ?_).length_le
  obtain ⟨hm, hp⟩ := mem_filter.1 ha
  exact h a hm hp

theorem countP_le_of_mem (hnd : l'.Nodup) (h : ∀ a ∈ l', p' a = true → a ∈ l ∧ p a = true) :
    l'.countP p' ≤ l.countP p := by
  rw [l.countP_eq_length_filter]
  exact countP_le_length_of_mem hnd fun a ha hp => mem_filter.2 (h a ha hp)

theorem countP_le_succ_of_mem (hnd : l'.Nodup) (b : α)
    (h : ∀ a ∈ l', p' a = true → a = b ∨ a ∈ l ∧ p a = true) :
    l'.countP p' ≤ l.countP p + 1 := by
  rw [l.countP_eq_length_filter, ← length_cons (a := b)]
  refine countP_le_length_of_mem hnd fun a ha hp => ?_
  rcases h a ha hp with rfl | hm
  · exact mem_cons_self
  · exact mem_cons_of_mem _ (mem_filter.2 hm)

theorem countP_lt_of_mem (hnd : l'.Nodup) {b : α} (hb : b ∈ l) (hpb : p b = true)
    (h : ∀ a ∈ l', p' a = true → a ≠ b ∧ a ∈ l ∧ p a = true) : l'.countP p' < l.countP p := by
  rw [l'.countP_eq_length_filter, l.countP_eq_length_filter, Nat.lt_iff_add_one_le,
    ← length_cons (a := b)]
  refine (Nodup.subperm (nodup_cons.2 ⟨fun hm => ?_, hnd.filter p'⟩) fun a ha => ?_).length_le
  · obtain ⟨hm, hp⟩ := mem_filter.1 hm
    exact (h b hm hp).1 rfl
  · rcases mem_cons.1 ha with rfl | ha
    · exact mem_filter.2 ⟨hb, hpb⟩
    · obtain ⟨hm, hp⟩ := mem_filter.1 ha
      exact mem_filter.2 (h a hm hp).2

end List

/-! ## Maps that are walked -/

namespace AList

variable {α : Type u} {β : Type v} {γ : Type w}

def mapVal (f : β → γ) (s : AList fun _ : α => β) : AList fun _ : α => γ :=
  ⟨s.entries.map (.map id fun _ => f), s.nodupKeys.map₂ (fun _ => f) s.entries⟩

def retain (p : α → β → Bool) (s : AList fun _ : α => β) : AList fun _ : α => β :=
  ⟨s.entries.filter fun e => p e.1 e.2, s.nodupKeys.sublist List.filter_sublist⟩

variable [DecidableEq α]

@[simp] theorem lookup_mapVal (f : β → γ) (s : AList fun _ : α => β) (a : α) :
    (s.mapVal f).lookup a = (s.lookup a).map f :=
  List.dlookup_map₂ (l := s.entries) (f := fun _ => f) a

theorem lookup_eq_some_iff {s : AList fun _ : α => β} {a : α} {b : β} :
    s.lookup a = some b ↔ ⟨a, b⟩ ∈ s.entries :=
  List.mem_dlookup_iff s.nodupKeys

theorem lookup_retain_eq_some {p : α → β → Bool} {s : AList fun _ : α => β} {a : α} {b : β} :
    (s.retain p).lookup a = some b ↔ s.lookup a = some b ∧ p a b = true := by
  rw [lookup_eq_some_iff, lookup_eq_some_iff]
  exact List.mem_filter

end AList
