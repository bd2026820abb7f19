import OpenWorkersRunner.Lib.Text

/-!
# Hexadecimal text

Bytes written as two hexadecimal digits each, in lower case, and read from digits of any case
(`hex::encode` and `hex::decode`).

The bytes of a string are ASCII only when its characters are (`forall_ascii_of_utf8`), so a string
that is read has no other characters.  Nothing here is about a particular program.
-/

/-! ## ASCII -/

namespace Text

theorem utf8EncodeChar_of_ascii {c : Char} (h : c.toNat < 128) :
    String.utf8EncodeChar c = [c.toUInt8] := by
  have hv : c.val.toNat ≤ 127 := Nat.le_of_lt_succ h
  rw [String.utf8EncodeChar, if_pos hv]
  rfl

theorem le_of_mem_utf8EncodeChar {c : Char} (h : 128 ≤ c.toNat) {b : UInt8}
    (hb : b ∈ String.utf8EncodeChar c) : 128 ≤ b.toNat := by
  have hv : ¬ c.val.toNat ≤ 127 := Nat.not_le.2 h
  have ho : ∀ n, 128 ≤ n → n < 256 → 128 ≤ (UInt8.ofNat n).toNat := by
    intro n hle hlt
    rw [UInt8.toNat_ofNat_of_lt' hlt]
    exact hle
  rw [String.utf8EncodeChar, if_neg hv] at hb
  split at hb
  · simp only [List.mem_cons, List.not_mem_nil, or_false] at hb
    rcases hb with rfl | rfl <;> exact ho _ (by omega) (by omega)
  · split at hb
    · simp only [List.mem_cons, List.not_mem_nil, or_false] at hb
      rcases hb with rfl | rfl | rfl <;> exact ho _ (by omega) (by omega)
    · simp only [List.mem_cons, List.not_mem_nil, or_false] at hb
      rcases hb with rfl | rfl | rfl | rfl <;> exact ho _ (by omega) (by omega)

theorem utf8_ofList_of_ascii {l : List Char} (h : ∀ c ∈ l, c.toNat < 128) :
    utf8 (String.ofList l) = l.map Char.toUInt8 := by
  rw [utf8, String.toList_ofList]
  induction l with
  | nil => rfl
  | cons c l ih =>
    rw [List.flatMap_cons, utf8EncodeChar_of_ascii (h c List.mem_cons_self), List.map_cons,
      ih fun d hd => h d (List.mem_cons_of_mem c hd)]
    rfl

variable {s : String}

theorem utf8_of_ascii (h : ∀ c ∈ s.toList, c.toNat < 128) : utf8 s = s.toList.map Char.toUInt8 := by
  have hlist := utf8_ofList_of_ascii h
  rwa [String.ofList_toList] at hlist

theorem forall_ascii_of_utf8 (h : ∀ b ∈ utf8 s, b.toNat < 128) : ∀ c ∈ s.toList, c.toNat < 128 := by
  intro c hc
  by_contra hge
  obtain ⟨b, hb⟩ := List.exists_mem_of_ne_nil _ (String.utf8EncodeChar_ne_nil (c := c))
  have hle := le_of_mem_utf8EncodeChar (Nat.not_lt.1 hge) hb
  exact absurd (h b (List.mem_flatMap.2 ⟨c, hc, hb⟩)) (Nat.not_lt.2 hle)

theorem forall_utf8_iff {p : UInt8 → Prop} (hp : ∀ b, p b → b.toNat < 128) :
    (∀ b ∈ utf8 s, p b) ↔ ∀ c ∈ s.toList, c.toNat < 128 ∧ p c.toUInt8 := by
  constructor
  · intro h c hc
    have ha := forall_ascii_of_utf8 fun b hb => hp b (h b hb)
    refine ⟨ha c hc, h _ ?_⟩
    rw [utf8_of_ascii ha]
    exact List.mem_map_of_mem hc
  · intro h b hb
    rw [utf8_of_ascii fun c hc => (h c hc).1] at hb
    obtain ⟨c, hc, rfl⟩ := List.mem_map.1 hb
    exact (h c hc).2

end Text

namespace Hex

open List Option Text

/-! ## Digits -/

def digits (bytes : List UInt8) : List Char :=
  bytes.flatMap fun b => [(b.toNat / 16).digitChar, (b.toNat % 16).digitChar]

/-- `hex::encode`. -/
def encode (bytes : List UInt8) : String := .ofList (digits bytes)

/-- `hex::decode`. -/
def decode : Text → Option (List UInt8)
  | [] => some []
  | [_] => none
  | high :: low :: rest => (hexByte high low).bind fun b => (decode rest).map (b :: ·)

def isLowerDigit (c : Char) : Bool :=
  decide (48 ≤ c.toNat ∧ c.toNat ≤ 57) || decide (97 ≤ c.toNat ∧ c.toNat ≤ 102)

def isDigit (c : Char) : Bool :=
  isLowerDigit c || decide (65 ≤ c.toNat ∧ c.toNat ≤ 70)

theorem length_digits (bytes : List UInt8) : (digits bytes).length = 2 * bytes.length := by
  induction bytes with
  | nil => rfl
  | cons b bytes ih =>
    rw [digits, flatMap_cons, length_append]
    show 2 + (digits bytes).length = 2 * (bytes.length + 1)
    omega

theorem digits_append (xs ys : List UInt8) : digits (xs ++ ys) = digits xs ++ digits ys :=
  flatMap_append

theorem forall_mem_digits {p : Char → Prop} (h : ∀ n, n < 16 → p n.digitChar)
    (bytes : List UInt8) : ∀ c ∈ digits bytes, p c := by
  intro c hc
  obtain ⟨b, -, hb⟩ := mem_flatMap.1 hc
  have hlt := UInt8.toNat_lt b
  simp only [mem_cons, not_mem_nil, or_false] at hb
  rcases hb with rfl | rfl
  · exact h _ (by omega)
  · exact h _ (Nat.mod_lt _ (by decide))

variable {bytes : List UInt8} {c : Char}

theorem isLowerDigit_of_mem_digits (hc : c ∈ digits bytes) : isLowerDigit c = true :=
  forall_mem_digits (p := fun c => isLowerDigit c = true) (by decide) bytes c hc

theorem isDigit_of_isLowerDigit (h : isLowerDigit c = true) : isDigit c = true := by
  rw [isDigit, h]
  rfl

theorem ascii_of_isDigit (h : isDigit c = true) : c.toNat < 128 := by
  simp only [isDigit, isLowerDigit, Bool.or_eq_true, decide_eq_true_eq] at h
  omega

theorem digitChar_of_hexValue (hc : c.toNat < 128) {v : UInt8} (h : hexValue c.toUInt8 = some v) :
    v.toNat < 16 ∧ v.toNat.digitChar = c.toLower := by
  have ha : ∀ n : Fin 128, (hexValue (UInt8.ofNat n)).all fun v =>
      decide (v.toNat < 16 ∧ v.toNat.digitChar = (Char.ofNat n).toLower) := by decide +kernel
  have hn := ha ⟨c.toNat, hc⟩
  rw [Char.ofNat_toNat] at hn
  have hb : UInt8.ofNat c.toNat = c.toUInt8 := rfl
  rw [hb, h] at hn
  exact of_decide_eq_true hn

theorem isSome_hexValue (hc : c.toNat < 128) : (hexValue c.toUInt8).isSome = isDigit c := by
  have ha : ∀ n : Fin 128, (hexValue (UInt8.ofNat n)).isSome = isDigit (Char.ofNat n) := by
    decide +kernel
  have hn := ha ⟨c.toNat, hc⟩
  rw [Char.ofNat_toNat] at hn
  exact hn

theorem lt_of_isSome_hexValue {b : UInt8} (h : (hexValue b).isSome = true) : b.toNat < 128 := by
  rw [hexValue] at h
  split at h
  · omega
  · split at h
    · omega
    · split at h
      · omega
      · cases h

theorem digitChar_inj {m n : Nat} (hm : m < 16) (hn : n < 16) (h : m.digitChar = n.digitChar) :
    m = n := by
  have ha : ∀ m n : Fin 16, (m : Nat).digitChar = (n : Nat).digitChar → m = n := by decide
  exact congrArg Fin.val (ha ⟨m, hm⟩ ⟨n, hn⟩ h)

theorem hexByte_eq_some {d : Char} (hc : c.toNat < 128) (hd : d.toNat < 128) {b : UInt8} :
    hexByte c.toUInt8 d.toUInt8 = some b ↔ isDigit c = true ∧ isDigit d = true ∧
      (b.toNat / 16).digitChar = c.toLower ∧ (b.toNat % 16).digitChar = d.toLower := by
  have hv : ∀ {high low : UInt8}, high.toNat < 16 → low.toNat < 16 →
      (16 * high + low).toNat = 16 * high.toNat + low.toNat := by
    intro high low hh hl
    rw [UInt8.toNat_add, UInt8.toNat_mul]
    show (16 * high.toNat % 256 + low.toNat) % 256 = _
    omega
  rw [← isSome_hexValue hc, ← isSome_hexValue hd, hexByte]
  constructor
  · intro h
    obtain ⟨high, hh, h⟩ := bind_eq_some_iff.1 h
    obtain ⟨low, hl, rfl⟩ := map_eq_some_iff.1 h
    obtain ⟨hlt, hch⟩ := digitChar_of_hexValue hc hh
    obtain ⟨hlt', hch'⟩ := digitChar_of_hexValue hd hl
    refine ⟨by rw [hh]; rfl, by rw [hl]; rfl, ?_, ?_⟩
    · rw [hv hlt hlt', ← hch]
      exact congrArg Nat.digitChar (by omega)
    · rw [hv hlt hlt', ← hch']
      exact congrArg Nat.digitChar (by omega)
  · rintro ⟨hso, hso', hch, hch'⟩
    obtain ⟨high, hh⟩ := isSome_iff_exists.1 hso
    obtain ⟨low, hl⟩ := isSome_iff_exists.1 hso'
    obtain ⟨hlt, hdi⟩ := digitChar_of_hexValue hc hh
    obtain ⟨hlt', hdi'⟩ := digitChar_of_hexValue hd hl
    have hb := UInt8.toNat_lt b
    have hdiv := digitChar_inj (by omega) hlt (hch.trans hdi.symm)
    have hm := digitChar_inj (Nat.mod_lt _ (by decide)) hlt' (hch'.trans hdi'.symm)
    rw [hh, hl]
    refine congrArg some (UInt8.toNat_inj.mp ?_)
    rw [hv hlt hlt']
    omega

/-! ## Strings -/

theorem decode_ascii : ∀ {l : List Char} {bytes : List UInt8}, (∀ c ∈ l, c.toNat < 128) →
    (decode (l.map Char.toUInt8) = some bytes ↔
      (∀ c ∈ l, isDigit c = true) ∧ digits bytes = l.map Char.toLower)
  | [], bytes, _ => by
    refine ⟨fun h => ?_, fun h => ?_⟩
    · cases h
      exact ⟨fun c hc => (by cases hc), rfl⟩
    · have hle := length_digits bytes
      rw [h.2] at hle
      have hz : 0 = 2 * bytes.length := hle
      rw [length_eq_zero_iff.1 (show bytes.length = 0 by omega)]
      rfl
  | [c], bytes, _ => by
    refine ⟨fun h => (by cases h), fun h => ?_⟩
    have hle := length_digits bytes
    rw [h.2] at hle
    simp at hle
    omega
  | c :: d :: l, bytes, ha => by
    have hc := ha c (by simp)
    have hd := ha d (by simp)
    have hl : ∀ x ∈ l, x.toNat < 128 := fun x hx => ha x (by simp [hx])
    rw [map_cons, map_cons, decode]
    constructor
    · intro h
      obtain ⟨b, hb, h⟩ := bind_eq_some_iff.1 h
      obtain ⟨bs, hbs, rfl⟩ := map_eq_some_iff.1 h
      obtain ⟨hdc, hdd, hh, hlo⟩ := (hexByte_eq_some hc hd).1 hb
      obtain ⟨hdi, heq⟩ := (decode_ascii hl).1 hbs
      refine ⟨?_, ?_⟩
      · simp only [forall_mem_cons]
        exact ⟨hdc, hdd, hdi⟩
      · rw [digits, flatMap_cons, hh, hlo]
        exact congrArg (c.toLower :: d.toLower :: ·) heq
    · rintro ⟨hdi, heq⟩
      simp only [forall_mem_cons] at hdi
      cases bytes with
      | nil => cases heq
      | cons b bs =>
        rw [digits, flatMap_cons] at heq
        simp only [cons_append, nil_append, map_cons, cons.injEq] at heq
        have hb := (hexByte_eq_some hc hd).2 ⟨hdi.1, hdi.2.1, heq.1, heq.2.1⟩
        rw [hb, bind_some, (decode_ascii hl).2 ⟨hdi.2.2, heq.2.2⟩]
        rfl

theorem isSome_hexValue_of_mem : ∀ {t : Text} {bytes : List UInt8}, decode t = some bytes →
    ∀ b ∈ t, (hexValue b).isSome = true
  | [], _, _ => fun _ hb => by cases hb
  | [_], _, h => by cases h
  | high :: low :: rest, bytes, h => by
    obtain ⟨b, hb, h⟩ := bind_eq_some_iff.1 h
    obtain ⟨bs, hbs, -⟩ := map_eq_some_iff.1 h
    obtain ⟨hv, hh, hb⟩ := bind_eq_some_iff.1 hb
    obtain ⟨lv, hl, -⟩ := map_eq_some_iff.1 hb
    simp only [forall_mem_cons]
    exact ⟨by rw [hh]; rfl, by rw [hl]; rfl, isSome_hexValue_of_mem hbs⟩

theorem length_of_decode : ∀ {t : Text} {bytes : List UInt8}, decode t = some bytes →
    t.length = 2 * bytes.length
  | [], _, h => by cases h; rfl
  | [_], _, h => by cases h
  | high :: low :: rest, bytes, h => by
    obtain ⟨b, -, h⟩ := bind_eq_some_iff.1 h
    obtain ⟨bs, hbs, rfl⟩ := map_eq_some_iff.1 h
    rw [length_cons, length_cons, length_of_decode hbs, length_cons]
    omega

/-- **What is read.**  A string of digits of any case, as the bytes whose digits it has. -/
theorem decode_utf8_eq_some {s : String} :
    decode (utf8 s) = some bytes ↔
      (∀ c ∈ s.toList, isDigit c = true) ∧ digits bytes = s.toList.map Char.toLower := by
  constructor
  · intro h
    have ha := forall_ascii_of_utf8 fun b hb =>
      lt_of_isSome_hexValue (isSome_hexValue_of_mem h b hb)
    rw [utf8_of_ascii ha] at h
    exact (decode_ascii ha).1 h
  · intro h
    have ha : ∀ c ∈ s.toList, c.toNat < 128 := fun c hc => ascii_of_isDigit (h.1 c hc)
    rw [utf8_of_ascii ha]
    exact (decode_ascii ha).2 h

theorem toLower_of_isLowerDigit (h : isLowerDigit c = true) : c.toLower = c := by
  simp only [isLowerDigit, Bool.or_eq_true, decide_eq_true_eq] at h
  delta Char.toLower
  rw [dif_neg]
  rintro ⟨hle, hge⟩
  have hle' : 65 ≤ c.toNat := hle
  have hge' : c.toNat ≤ 90 := hge
  omega

theorem isDigit_of_toLower (h : isLowerDigit c.toLower = true) : isDigit c = true := by
  delta Char.toLower at h
  split at h
  next hu =>
    have hle : 65 ≤ c.toNat := hu.1
    have hge : c.toNat ≤ 90 := hu.2
    simp only [isLowerDigit, Bool.or_eq_true, decide_eq_true_eq] at h
    have hv : (c.val + ('a'.val - 'A'.val)).toNat = c.toNat + 32 := by
      rw [UInt32.toNat_add]
      exact Nat.mod_eq_of_lt (show c.toNat + 32 < 2 ^ 32 by omega)
    simp only [Char.toNat, hv] at h
    simp only [isDigit, Bool.or_eq_true, decide_eq_true_eq]
    right
    show 65 ≤ c.toNat ∧ c.toNat ≤ 70
    have hn : c.val.toNat = c.toNat := rfl
    omega
  · exact isDigit_of_isLowerDigit h

theorem decode_utf8_iff {s : String} :
    decode (utf8 s) = some bytes ↔ digits bytes = s.toList.map Char.toLower := by
  refine decode_utf8_eq_some.trans ⟨fun h => h.2, fun h => ⟨fun c hc => ?_, h⟩⟩
  have hm : c.toLower ∈ digits bytes := by
    rw [h]
    exact mem_map_of_mem hc
  exact isDigit_of_toLower (isLowerDigit_of_mem_digits hm)

theorem map_toLower_digits (bytes : List UInt8) :
    (digits bytes).map Char.toLower = digits bytes := by
  rw [map_congr_left fun c hc => toLower_of_isLowerDigit (isLowerDigit_of_mem_digits hc)]
  exact map_id' _

/-- **The round trip.** -/
theorem decode_utf8_encode (bytes : List UInt8) : decode (utf8 (encode bytes)) = some bytes := by
  rw [decode_utf8_eq_some, encode, String.toList_ofList]
  exact ⟨fun c hc => isDigit_of_isLowerDigit (isLowerDigit_of_mem_digits hc),
    (map_toLower_digits bytes).symm⟩

end Hex
