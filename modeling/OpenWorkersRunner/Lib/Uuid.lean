import OpenWorkersRunner.Lib.Hex
import Mathlib.Data.Vector.Defs

/-!
# UUIDs

A UUID is sixteen bytes.  Its canonical text (`Display`) is its digits in lower case, with a hyphen
after the eighth, twelfth, sixteenth and twentieth.  `parseStr` is `Uuid::parse_str`, which takes
digits of any case in four forms: without hyphens, with them, and the latter in braces or after
`urn:uuid:`.
-/

universe u v

abbrev Uuid := List.Vector UInt8 16

namespace Uuid

open List Text

/-! ## Hyphens -/

section Hyphens

variable {α : Type u} {β : Type v} {hyphen : α} {l : List α}

def hyphenate (hyphen : α) (l : List α) : List α :=
  l.take 8 ++ hyphen :: ((l.drop 8).take 4 ++ hyphen :: ((l.drop 12).take 4 ++
    hyphen :: ((l.drop 16).take 4 ++ hyphen :: l.drop 20)))

def unhyphenate (l : List α) : List α :=
  l.take 8 ++ ((l.drop 9).take 4 ++ ((l.drop 14).take 4 ++ ((l.drop 19).take 4 ++ l.drop 24)))

theorem length_hyphenate (h : l.length = 32) : (hyphenate hyphen l).length = 36 := by
  simp [hyphenate, h]

theorem map_hyphenate (f : α → β) (hyphen : α) (l : List α) :
    (hyphenate hyphen l).map f = hyphenate (f hyphen) (l.map f) := by
  simp [hyphenate, map_take, map_drop]

theorem mem_hyphenate {x : α} (h : x ∈ hyphenate hyphen l) : x = hyphen ∨ x ∈ l := by
  simp only [hyphenate, mem_append, mem_cons] at h
  rcases h with h | h | h | h | h | h | h | h | h
  · exact .inr (mem_of_mem_take h)
  · exact .inl h
  · exact .inr (mem_of_mem_drop (mem_of_mem_take h))
  · exact .inl h
  · exact .inr (mem_of_mem_drop (mem_of_mem_take h))
  · exact .inl h
  · exact .inr (mem_of_mem_drop (mem_of_mem_take h))
  · exact .inl h
  · exact .inr (mem_of_mem_drop h)

theorem getElem?_hyphenate (h : l.length = 32) {n : Nat} (hn : n ∈ [8, 13, 18, 23]) :
    (hyphenate hyphen l)[n]? = some hyphen := by
  simp only [mem_cons, not_mem_nil, or_false] at hn
  rcases hn with rfl | rfl | rfl | rfl <;> simp [hyphenate, h]

theorem hyphenate_unhyphenate (hl : l.length = 36)
    (h : ∀ n ∈ [8, 13, 18, 23], l[n]? = some hyphen) : hyphenate hyphen (unhyphenate l) = l := by
  have h8 := h 8 (by simp)
  have h13 := h 13 (by simp)
  have h18 := h 18 (by simp)
  have h23 := h 23 (by simp)
  apply ext_getElem?
  intro n
  simp only [hyphenate, unhyphenate, length_take, hl, Nat.reduceLeDiff, Nat.min_eq_left,
    take_left', drop_left', length_drop, Nat.reduceSub, getElem?_append,
    getElem?_take, getElem?_cons, getElem?_drop, length_append, Nat.reduceAdd]
  grind

theorem unhyphenate_hyphenate (hl : l.length = 32) : unhyphenate (hyphenate hyphen l) = l := by
  apply ext_getElem?
  intro n
  simp only [unhyphenate, hyphenate, length_take, hl, Nat.reduceLeDiff, Nat.min_eq_left,
    take_left', getElem?_append, getElem?_take, length_drop, length_append,
    length_cons, Nat.reduceSub, Nat.reduceAdd, getElem?_drop, getElem?_cons]
  grind

end Hyphens

/-! ## Texts -/

def canonical (id : Uuid) : String := .ofList (hyphenate '-' (Hex.digits id.1))

def ofBytes (bytes : List UInt8) : Option Uuid :=
  if h : bytes.length = 16 then some ⟨bytes, h⟩ else none

def parseSimple (t : Text) : Option Uuid := (Hex.decode t).bind ofBytes

def parseHyphenated (t : Text) : Option Uuid :=
  if t.length = 36 ∧ ∀ n ∈ [8, 13, 18, 23], t[n]? = some '-'.toUInt8 then
    (Hex.decode (unhyphenate t)).bind ofBytes
  else none

def urn : Text := ascii "urn:uuid:"

def parseStr (t : Text) : Option Uuid :=
  if t.length = 32 then parseSimple t
  else if t.length = 36 then parseHyphenated t
  else if t.length = 38 then
    if t.head? = some '{'.toUInt8 ∧ t.getLast? = some '}'.toUInt8 then
      parseHyphenated t.tail.dropLast
    else none
  else if t.length = 45 then
    if urn.isPrefixOf t then parseHyphenated (t.drop urn.length) else none
  else none

variable {id : Uuid} {t : Text}

theorem ofBytes_eq_some {bs : List UInt8} : ofBytes bs = some id ↔ bs = id.1 := by
  rw [ofBytes]
  constructor
  · intro h
    split at h
    · cases h
      rfl
    · cases h
  · rintro rfl
    exact dif_pos id.2

theorem parseSimple_eq_some : parseSimple t = some id ↔ Hex.decode t = some id.1 := by
  rw [parseSimple, Option.bind_eq_some_iff]
  constructor
  · rintro ⟨bs, hbs, hid⟩
    rw [hbs, ofBytes_eq_some.1 hid]
  · intro h
    exact ⟨id.1, h, ofBytes_eq_some.2 rfl⟩

theorem length_of_decode (h : Hex.decode t = some id.1) : t.length = 32 := by
  rw [Hex.length_of_decode h, id.2]

theorem parseHyphenated_eq_some :
    parseHyphenated t = some id ↔ ∃ d, Hex.decode d = some id.1 ∧ t = hyphenate '-'.toUInt8 d := by
  rw [parseHyphenated]
  constructor
  · intro h
    split at h
    next hf =>
      exact ⟨_, parseSimple_eq_some.1 h, (hyphenate_unhyphenate hf.1 hf.2).symm⟩
    · cases h
  · rintro ⟨d, hd, rfl⟩
    have hl := length_of_decode hd
    rw [if_pos ⟨length_hyphenate hl, fun n hn => getElem?_hyphenate hl hn⟩,
      unhyphenate_hyphenate hl]
    exact parseSimple_eq_some.2 hd

theorem eq_braced {x y : UInt8} (hx : t.head? = some x) (hy : t.getLast? = some y) (hne : x ≠ y) :
    t = x :: (t.tail.dropLast ++ [y]) := by
  cases t with
  | nil => cases hx
  | cons b rest =>
    cases hx
    cases rest with
    | nil => exact absurd (Option.some.inj hy) hne
    | cons c rest =>
      rw [getLast?_cons_cons] at hy
      rw [tail_cons, dropLast_append_getLast? y hy]

/-- **The forms that are read.**  The digits alone, with hyphens, and these in braces or after
`urn:uuid:`. -/
theorem parseStr_eq_some :
    parseStr t = some id ↔ ∃ d, Hex.decode d = some id.1 ∧ (t = d ∨ t = hyphenate '-'.toUInt8 d ∨
        t = '{'.toUInt8 :: (hyphenate '-'.toUInt8 d ++ ['}'.toUInt8]) ∨
        t = urn ++ hyphenate '-'.toUInt8 d) := by
  constructor
  · intro h
    rw [parseStr] at h
    split at h
    · exact ⟨t, parseSimple_eq_some.1 h, .inl rfl⟩
    split at h
    · obtain ⟨d, hd, ht⟩ := parseHyphenated_eq_some.1 h
      exact ⟨d, hd, .inr (.inl ht)⟩
    split at h
    · split at h
      next hbr =>
        obtain ⟨d, hd, ht⟩ := parseHyphenated_eq_some.1 h
        refine ⟨d, hd, .inr (.inr (.inl ?_))⟩
        rw [← ht]
        exact eq_braced hbr.1 hbr.2 (by decide)
      · cases h
    split at h
    · split at h
      next hu =>
        obtain ⟨d, hd, ht⟩ := parseHyphenated_eq_some.1 h
        obtain ⟨rest, rfl⟩ := isPrefixOf_iff_prefix.1 hu
        rw [drop_left] at ht
        exact ⟨d, hd, .inr (.inr (.inr (by rw [ht])))⟩
      · cases h
    · cases h
  · rintro ⟨d, hd, rfl | rfl | rfl | rfl⟩
    · rw [parseStr, if_pos (length_of_decode hd)]
      exact parseSimple_eq_some.2 hd
    all_goals
      have hle : (hyphenate '-'.toUInt8 d).length = 36 := length_hyphenate (length_of_decode hd)
      have hparse := parseHyphenated_eq_some.2 ⟨d, hd, rfl⟩
    · rw [parseStr, if_neg (by omega), if_pos hle, hparse]
    · have hl : ('{'.toUInt8 :: (hyphenate '-'.toUInt8 d ++ ['}'.toUInt8])).getLast? =
          some '}'.toUInt8 := by
        rw [← cons_append, getLast?_concat]
      rw [parseStr, if_neg (by simp [hle]), if_neg (by simp [hle]), if_pos (by simp [hle]),
        if_pos ⟨rfl, hl⟩, tail_cons, dropLast_concat, hparse]
    · have hu : urn.length = 9 := by decide
      rw [parseStr, if_neg (by simp [hle, hu]), if_neg (by simp [hle, hu]),
        if_neg (by simp [hle, hu]), if_pos (by simp [hle, hu]),
        if_pos ( isPrefixOf_iff_prefix.2 (prefix_append _ _)), drop_left, hparse]

/-- **The canonical text is read back.** -/
theorem parseStr_canonical (id : Uuid) : parseStr (utf8 (canonical id)) = some id := by
  have ha : ∀ c ∈ Hex.digits id.1, c.toNat < 128 := fun c hc =>
    Hex.ascii_of_isDigit (Hex.isDigit_of_isLowerDigit (Hex.isLowerDigit_of_mem_digits hc))
  have hd : Hex.decode ((Hex.digits id.1).map Char.toUInt8) = some id.1 := by
    rw [← utf8_ofList_of_ascii ha]
    exact Hex.decode_utf8_encode id.1
  refine parseStr_eq_some.2 ⟨_, hd, .inr (.inl ?_)⟩
  rw [canonical, utf8_ofList_of_ascii, map_hyphenate]
  intro c hc
  rcases mem_hyphenate hc with rfl | hc
  · decide
  · exact ha c hc

theorem canonical_inj {id' : Uuid} (h : canonical id = canonical id') : id = id' := by
  have hid := parseStr_canonical id
  rw [h] at hid
  exact Option.some.inj (hid.symm.trans (parseStr_canonical id'))

theorem forall_mem_canonical {p : Char → Prop} (hh : p '-')
    (hd : ∀ c, Hex.isLowerDigit c = true → p c) (id : Uuid) :
    ∀ c ∈ (canonical id).toList, p c := by
  intro c hc
  rw [canonical, String.toList_ofList] at hc
  rcases mem_hyphenate hc with rfl | hc
  · exact hh
  · exact hd c (Hex.isLowerDigit_of_mem_digits hc)

end Uuid
