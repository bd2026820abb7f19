import OpenWorkersRunner.Lib.Hex

/-!
# The Debug form of a string

Rust writes a string for debugging between quotes, with an escape for each character that cannot be
printed.  In ASCII these are the control characters; elsewhere a table of the standard library says
which characters are kept as they are, and it is a parameter.
-/

namespace Text

open List

/-- `char::escape_unicode`. -/
def escapeUnicode (c : Char) : List Char :=
  ['\\', 'u', '\x7b'] ++ Nat.toDigits 16 c.toNat ++ ['\x7d']

def isPrintable (keeps : Char → Bool) (c : Char) : Bool :=
  if c.toNat < 128 then 32 ≤ c.toNat && c.toNat < 127 else keeps c

def escapeDebug (keeps : Char → Bool) (c : Char) : List Char :=
  if c = '\x00' then ['\\', '0']
  else if c = '\t' then ['\\', 't']
  else if c = '\r' then ['\\', 'r']
  else if c = '\n' then ['\\', 'n']
  else if c = '\\' then ['\\', '\\']
  else if c = '"' then ['\\', '"']
  else if isPrintable keeps c then [c]
  else escapeUnicode c

def debugStr (keeps : Char → Bool) (s : String) : String :=
  String.ofList ('"' :: s.toList.flatMap (escapeDebug keeps) ++ ['"'])

def IsVisibleChar (c : Char) : Prop := 32 ≤ c.toNat ∧ c.toNat < 127

instance (c : Char) : Decidable (IsVisibleChar c) := inferInstanceAs (Decidable (_ ∧ _))

theorem isVisibleChar_of_mem_toDigits (n : Nat) : ∀ c ∈ Nat.toDigits 16 n, IsVisibleChar c := by
  have hd : ∀ d, d < 16 → IsVisibleChar d.digitChar := by decide
  induction n using Nat.strongRecOn with
  | ind n ih =>
    intro c hc
    rw [Nat.toDigits_eq_if (by decide)] at hc
    split at hc
    next hlt =>
      exact mem_singleton.1 hc ▸ hd n hlt
    · rcases mem_append.1 hc with hc | hc
      · exact ih (n / 16) (by omega) c hc
      · exact mem_singleton.1 hc ▸ hd (n % 16) (Nat.mod_lt n (by decide))

theorem isVisibleChar_of_mem_escapeUnicode (c : Char) :
    ∀ d ∈ escapeUnicode c, IsVisibleChar d := by
  have ho : ∀ d ∈ ['\\', 'u', '\x7b'], IsVisibleChar d :=
    all_iff_forall_prop.1 (by decide)
  have hcl : ∀ d ∈ ['\x7d'], IsVisibleChar d := all_iff_forall_prop.1 (by decide)
  intro d hd
  rcases mem_append.1 hd with hd | hd
  · rcases mem_append.1 hd with hd | hd
    · exact ho d hd
    · exact isVisibleChar_of_mem_toDigits _ d hd
  · exact hcl d hd

variable {keeps : Char → Bool}

theorem mem_escapeDebug {c d : Char} (h : d ∈ escapeDebug keeps c) :
    IsVisibleChar d ∨ 128 ≤ d.toNat := by
  have hp : ∀ x, IsVisibleChar x → ∀ d ∈ ['\\', x], IsVisibleChar d := by
    intro x hx d hd
    obtain rfl | rfl : d = '\\' ∨ d = x := by simpa using hd
    · decide
    · exact hx
  rw [escapeDebug] at h
  split at h
  · exact .inl (hp '0' (by decide) d h)
  split at h
  · exact .inl (hp 't' (by decide) d h)
  split at h
  · exact .inl (hp 'r' (by decide) d h)
  split at h
  · exact .inl (hp 'n' (by decide) d h)
  split at h
  · exact .inl (hp '\\' (by decide) d h)
  split at h
  · exact .inl (hp '"' (by decide) d h)
  split at h
  next hpr =>
    obtain rfl := mem_singleton.1 h
    rw [isPrintable] at hpr
    split at hpr
    · exact .inl (by simpa [IsVisibleChar] using hpr)
    next hge => exact .inr (Nat.not_lt.1 hge)
  · exact .inl (isVisibleChar_of_mem_escapeUnicode c d h)

theorem utf8_append (s t : String) : utf8 (s ++ t) = utf8 s ++ utf8 t := by
  rw [utf8, String.toList_append, flatMap_append, utf8, utf8]

/-- **The bytes of the Debug form**: visible ASCII, and from 128 on those of characters that are
kept.  There are no control characters and no DEL. -/
theorem mem_utf8_debugStr {s : String} {b : UInt8} (hb : b ∈ utf8 (debugStr keeps s)) :
    32 ≤ b.toNat ∧ b.toNat ≠ 127 := by
  rw [utf8, debugStr, String.toList_ofList, mem_flatMap] at hb
  obtain ⟨d, hd, hb⟩ := hb
  have hquote : IsVisibleChar '"' := by decide
  have hd : IsVisibleChar d ∨ 128 ≤ d.toNat := by
    rcases mem_append.1 hd with hd | hd
    · rcases mem_cons.1 hd with rfl | hd
      · exact .inl hquote
      · obtain ⟨c, -, hd⟩ := mem_flatMap.1 hd
        exact mem_escapeDebug hd
    · exact .inl (mem_singleton.1 hd ▸ hquote)
  rcases hd with ⟨hle, hlt⟩ | hge
  · have hva : d.toUInt8.toNat = d.toNat := Nat.mod_eq_of_lt (hlt.trans (by decide))
    rw [utf8EncodeChar_of_ascii (hlt.trans (by decide))] at hb
    rw [mem_singleton.1 hb, hva]
    omega
  · have hle := le_of_mem_utf8EncodeChar hge hb
    omega

end Text
