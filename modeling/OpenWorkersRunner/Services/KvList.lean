import Mathlib.Algebra.GroupWithZero.Nat
import Mathlib.Data.List.Infix

/-!
# Listing keys (`services/kv.rs`)

`list` gives PostgreSQL the prefix with a `%` behind it as a pattern, and does not escape what is a
pattern character in the prefix itself.  The order of the keys is that of the database.
-/

namespace OpenWorkersRunner.KvList

open List

structure Row where
  namespaceId : String
  key : String
  expiresAt : Option Int
deriving DecidableEq

/-- The answers of the service, for values of the type `ω`. -/
inductive KvResult (ω : Type)
  | value (value : Option ω)
  | ok
  | keys (keys : List String)
  | error (message : String)
deriving DecidableEq

/-- `key LIKE pattern`.  A pattern that ends in a backslash is an error, but here it ends in `%`. -/
def like : List Char → List Char → Bool
  | [], key => key.isEmpty
  | '%' :: pattern, key => key.tails.any (like pattern)
  | _ :: _, [] => false
  | '_' :: pattern, _ :: key => like pattern key
  | '\\' :: c :: pattern, k :: key => c == k && like pattern key
  | c :: pattern, k :: key => c == k && like pattern key

def matchesPattern (pattern : Option String) (key : String) : Bool :=
  pattern.elim true fun pattern => like pattern.toList key.toList

/-- `expires_at IS NULL OR expires_at > NOW()`. -/
def Row.isFresh (now : Int) (row : Row) : Bool := row.expiresAt.elim true (now < ·)

def select (le : String → String → Bool) (now : Int) (rows : List Row) (namespaceId : String)
    (wanted : String → Bool) (limit : Nat) : List String :=
  let found := rows.filter fun row =>
    row.namespaceId == namespaceId && wanted row.key && row.isFresh now
  ((found.map Row.key).mergeSort le).take limit

section list

variable (le : String → String → Bool) (now : Int) (rows : List Row) (fails : Option String)
  (namespaceId : String) (start : Option String) (limit : Option UInt32)

def list {ω : Type} : KvResult ω :=
  match fails with
  | some e => .error ("KV list failed: " ++ e)
  | none =>
    .keys (select le now rows namespaceId (matchesPattern (start.map (· ++ "%")))
      ((limit.map UInt32.toNat).getD 1000))

def listed : List String :=
  select le now rows namespaceId (fun key => start.elim true (·.toList.isPrefixOf key.toList))
    ((limit.map UInt32.toNat).getD 1000)

end list

def isPlain (c : Char) : Bool := c ≠ '%' && c ≠ '_' && c ≠ '\\'

theorem like_percent (key : List Char) : like ['%'] key = true := by
  rw [like, any_eq_true]
  exact ⟨[], (mem_tails _ _).2 nil_suffix, rfl⟩

/-- **A plain prefix is found as it is.** -/
theorem like_append_percent {start key : List Char} (h : start.all isPlain = true) :
    like (start ++ ['%']) key = start.isPrefixOf key := by
  induction start generalizing key with
  | nil => exact like_percent key
  | cons c start ih =>
    rw [all_cons, Bool.and_eq_true] at h
    obtain ⟨hc, hst⟩ := h
    simp only [isPlain, ne_eq, Bool.and_eq_true, decide_eq_true_eq] at hc
    obtain ⟨⟨hp, hu⟩, hba⟩ := hc
    rw [cons_append]
    cases key with
    | nil => simp [like]
    | cons k key =>
      have hl : like (c :: (start ++ ['%'])) (k :: key) =
          (c == k && like (start ++ ['%']) key) := by
        simp [like, hba]
      rw [hl, ih hst]
      rfl

/-! ### A key that only the pattern finds -/

/-- The key that a pattern matches with each escaped character for itself and an `x` for each
wildcard. -/
def sample : List Char → List Char
  | '\\' :: c :: pattern => c :: sample pattern
  | c :: pattern => (if c = '%' ∨ c = '_' then 'x' else c) :: sample pattern
  | [] => []

theorem like_sample (pattern : List Char) : like pattern (sample pattern) = true := by
  fun_induction sample pattern with
  | case1 c pattern ih => simp [like, ih]
  | case2 c pattern hesc ih =>
    by_cases hp : c = '%'
    · subst hp
      rw [like, any_eq_true]
      exact ⟨sample pattern, (mem_tails _ _).2 (suffix_cons _ _), ih⟩
    by_cases hu : c = '_'
    · subst hu
      simpa [like] using ih
    · rw [if_neg (by simp [hp, hu])]
      unfold like
      split <;> simp_all
  | case3 => rfl

/-- What a pattern character weighs: an escape more than the wildcard that may follow it. -/
def weight (c : Char) : Nat := if c = '\\' then 2 else if c = '%' ∨ c = '_' then 1 else 0

def weigh (text : List Char) : Nat := (text.map weight).sum

theorem weigh_sample_le (start : List Char) :
    weigh (sample (start ++ ['%'])) ≤ weigh start ∧
      (weigh start ≤ weigh (sample (start ++ ['%'])) → start.all isPlain = true) := by
  induction start using sample.induct with
  | case1 c start ih =>
    simp only [cons_append, sample, weigh, weight, map_cons, sum_cons] at ih ⊢
    grind
  | case2 c start hesc ih =>
    by_cases hb : c = '\\'
    · obtain rfl : start = [] := eq_nil_iff_forall_not_mem.2 fun d hd => by
        obtain ⟨d', rest, rfl⟩ := exists_cons_of_ne_nil (ne_nil_of_mem hd)
        exact hesc _ _ hb rfl
      subst hb
      decide
    · rw [cons_append, sample.eq_2 _ _ fun c' rest hc _ => hb hc]
      simp only [weigh, weight, map_cons, sum_cons, isPlain, all_cons] at ih ⊢
      grind
  | case3 => decide

theorem not_isPrefixOf_sample {start : List Char} (h : start.all isPlain = false) :
    start.isPrefixOf (sample (start ++ ['%'])) = false := by
  rw [Bool.eq_false_iff] at h ⊢
  intro hpre
  obtain ⟨rest, hrest⟩ := isPrefixOf_iff_prefix.1 hpre
  refine h ((weigh_sample_le start).2 ?_)
  rw [← hrest, weigh, weigh, map_append, sum_append_nat]
  exact Nat.le_add_right _ _

/-- **When listing is exact**: for every table, time, namespace, order of the keys and limit,
exactly if there is no prefix or the prefix has none of the characters `%`, `_` and `\`. -/
theorem list_exact {ω : Type} (start : Option String) :
    (∀ (le : String → String → Bool) (now : Int) (rows : List Row) (namespaceId : String)
      (limit : Option UInt32), (list le now rows none namespaceId start limit : KvResult ω) =
        .keys (listed le now rows namespaceId start limit)) ↔
      ∀ s ∈ start, s.toList.all isPlain = true := by
  constructor
  · intro h s hs
    obtain rfl := Option.mem_def.1 hs
    by_contra hplain
    let key := String.ofList (sample (s.toList ++ ['%']))
    have hlike : matchesPattern (some (s ++ "%")) key = true := by
      simpa [matchesPattern, key] using like_sample (s.toList ++ ['%'])
    have hpre : s.toList.isPrefixOf key.toList = false := by
      rw [String.toList_ofList]
      exact not_isPrefixOf_sample (Bool.of_not_eq_true hplain)
    have hone := h (fun _ _ => true) 0 [⟨"", key, none⟩] "" none
    simp [list, listed, select, hlike, hpre, Row.isFresh] at hone
  · intro hplain le now rows namespaceId limit
    have hwant : matchesPattern (start.map (· ++ "%")) =
        fun key => start.elim true (·.toList.isPrefixOf key.toList) := by
      funext key
      cases start with
      | none => rfl
      | some s =>
        rw [matchesPattern, Option.map_some, Option.elim_some, Option.elim_some,
          String.toList_append]
        exact like_append_percent (hplain s rfl)
    rw [list, listed, hwant]

/-- **An underscore finds other keys, a backslash not its own.** -/
theorem list_finds_others :
    list (fun _ _ => true) 0 [⟨"n", "axb", none⟩] none "n" (some "a_") none =
        (.keys ["axb"] : KvResult Unit) ∧
      listed (fun _ _ => true) 0 [⟨"n", "axb", none⟩] "n" (some "a_") none = [] ∧
      list (fun _ _ => true) 0 [⟨"n", "a\\b", none⟩] none "n" (some "a\\b") none =
        (.keys [] : KvResult Unit) ∧
      listed (fun _ _ => true) 0 [⟨"n", "a\\b", none⟩] "n" (some "a\\b") none = ["a\\b"] := by
  decide +kernel

end OpenWorkersRunner.KvList
