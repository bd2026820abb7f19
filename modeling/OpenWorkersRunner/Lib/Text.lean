import Mathlib.Data.Bool.AllAny
import Mathlib.Data.List.DropRight
import Mathlib.Data.List.TakeDrop

/-!
# Text: UTF-8 bytes, and percent-encoding

A `str` is its UTF-8 bytes.  Everything a URL or a path is tested for — separators, dots, percent
signs, control characters — is ASCII, so the tests are tests of bytes.
-/

abbrev Text := List UInt8

namespace Text

def ascii (s : String) : Text := s.toList.map Char.toUInt8

def utf8 (s : String) : Text := s.toList.flatMap String.utf8EncodeChar

def lower (b : UInt8) : UInt8 := if 65 ≤ b.toNat ∧ b.toNat ≤ 90 then b + 32 else b

theorem eq_of_lower_eq {b c : UInt8} (hc : c.toNat < 97) (h : lower b = c) : b = c := by
  rw [lower] at h
  split at h
  next hca =>
    have hv := congrArg UInt8.toNat h
    have ha : (32 : UInt8).toNat = 32 := rfl
    rw [UInt8.toNat_add] at hv
    omega
  · exact h

def hexValue (b : UInt8) : Option UInt8 :=
  if 48 ≤ b.toNat ∧ b.toNat ≤ 57 then some (b - 48)
  else if 65 ≤ b.toNat ∧ b.toNat ≤ 70 then some (b - 55)
  else if 97 ≤ b.toNat ∧ b.toNat ≤ 102 then some (b - 87)
  else none

def hexByte (high low : UInt8) : Option UInt8 :=
  (hexValue high).bind fun high => (hexValue low).map fun low => 16 * high + low

def percentDecode : Text → Text
  | [] => []
  | [b] => [b]
  | [b, high] => [b, high]
  | b :: high :: low :: rest =>
    if b = '%'.toUInt8 then
      match hexByte high low with
      | some byte => byte :: percentDecode rest
      | none => b :: percentDecode (high :: low :: rest)
    else b :: percentDecode (high :: low :: rest)

def hexDigit (value : Nat) : UInt8 :=
  if value < 10 then UInt8.ofNat (48 + value) else UInt8.ofNat (55 + value)

def percentEncode (encodes : UInt8 → Bool) (t : Text) : Text :=
  t.flatMap fun b =>
    if encodes b then ['%'.toUInt8, hexDigit (b.toNat / 16), hexDigit (b.toNat % 16)] else [b]

def utf8Tail (b : UInt8) : Option (List (Nat × Nat)) :=
  let n := b.toNat
  if n ≤ 0x7f then some []
  else if 0xc2 ≤ n ∧ n ≤ 0xdf then some [(0x80, 0xbf)]
  else if n = 0xe0 then some [(0xa0, 0xbf), (0x80, 0xbf)]
  else if n = 0xed then some [(0x80, 0x9f), (0x80, 0xbf)]
  else if 0xe1 ≤ n ∧ n ≤ 0xef then some [(0x80, 0xbf), (0x80, 0xbf)]
  else if n = 0xf0 then some [(0x90, 0xbf), (0x80, 0xbf), (0x80, 0xbf)]
  else if 0xf1 ≤ n ∧ n ≤ 0xf3 then some [(0x80, 0xbf), (0x80, 0xbf), (0x80, 0xbf)]
  else if n = 0xf4 then some [(0x80, 0x8f), (0x80, 0xbf), (0x80, 0xbf)]
  else none

def isUtf8From : List (Nat × Nat) → Text → Bool
  | [], [] => true
  | _ :: _, [] => false
  | [], b :: rest =>
    match utf8Tail b with
    | some ranges => isUtf8From ranges rest
    | none => false
  | (low, high) :: ranges, b :: rest =>
    decide (low ≤ b.toNat ∧ b.toNat ≤ high) && isUtf8From ranges rest

def isUtf8 (t : Text) : Bool := isUtf8From [] t

/-- `trim_start_matches`. -/
def trimStart (t : Text) (b : UInt8) : Text := t.dropWhile (· == b)

/-- `trim_end_matches`. -/
def trimEnd (t : Text) (b : UInt8) : Text := t.rdropWhile (· == b)

def spaces : List Text :=
  [[9], [10], [11], [12], [13], [32], [0xc2, 0x85], [0xc2, 0xa0], [0xe1, 0x9a, 0x80]] ++
    (List.range 11).map (fun n => [0xe2, 0x80, UInt8.ofNat (0x80 + n)]) ++
    [[0xe2, 0x80, 0xa8], [0xe2, 0x80, 0xa9], [0xe2, 0x80, 0xaf], [0xe2, 0x81, 0x9f],
      [0xe3, 0x80, 0x80]]

def skip (chars : List Text) : Nat → Text → Text
  | 0, t => t
  | n + 1, t =>
    match chars.findSome? fun char => char.isPrefixOf? t with
    | some rest => skip chars n rest
    | none => t

/-- `trim`. -/
def trim (t : Text) : Text :=
  (skip (spaces.map List.reverse) t.length (skip spaces t.length t).reverse).reverse

end Text
