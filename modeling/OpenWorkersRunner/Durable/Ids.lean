import OpenWorkersRunner.D1.Keys

/-!
# The ids of Durable Objects (`src/durable/id.rs`)

An id is 32 bytes in hexadecimal: sixteen that name the object, and sixteen of a MAC of these under
the key of the namespace.  `with_tag` writes an id, `parse` takes one back, and `object_key` tests
it once more where its file is.
-/

namespace OpenWorkersRunner.Durable.Ids

open List Option Text

/-! ## The functions of the source -/

def part : Nat := 16

abbrev IdKey := List.Vector UInt8 32

abbrev Digest := List.Vector UInt8 32

variable (hmac : IdKey → List UInt8 → Digest)

def mac (key : IdKey) (label data : List UInt8) : Digest := hmac key (label ++ 0 :: data)

def verifyTruncatedLeft (digest : Digest) (tag : List UInt8) : Bool :=
  decide (tag.length ≠ 0 ∧ tag.length ≤ 32 ∧ digest.1.take tag.length = tag)

def withTag (key : IdKey) (body : List UInt8) : String :=
  Hex.encode (body ++ (mac hmac key (ascii "id") body).1.take part)

def fromName (key : IdKey) (name : String) : String :=
  withTag hmac key ((mac hmac key (ascii "name") (utf8 name)).1.take part)

def unique (key : IdKey) (uuid : Uuid) : String := withTag hmac key uuid.1

def parse (key : IdKey) (text : String) : Option String :=
  if (utf8 text).length ≠ part * 4 then none
  else
    (Hex.decode (utf8 text)).bind fun bytes =>
      if verifyTruncatedLeft (mac hmac key (ascii "id") (bytes.take part)) (bytes.drop part) then
        some (Hex.encode bytes)
      else none

/-! ## What is taken -/

def tag (key : IdKey) (body : List UInt8) : List UInt8 :=
  (mac hmac key (ascii "id") body).1.take part

variable {hmac} {key : IdKey}

theorem length_tag (body : List UInt8) : (tag hmac key body).length = 16 := by
  rw [tag, length_take, (mac hmac key (ascii "id") body).2]
  rfl

theorem toList_withTag (body : List UInt8) :
    (withTag hmac key body).toList = Hex.digits body ++ Hex.digits (tag hmac key body) := by
  rw [withTag, Hex.encode, String.toList_ofList, Hex.digits_append]
  rfl

theorem toList_toLower (s : String) : s.toLower.toList = s.toList.map Char.toLower :=
  String.toList_map

theorem verifyTruncatedLeft_iff {bs : List UInt8} (h : bs.length = 32) :
    verifyTruncatedLeft (mac hmac key (ascii "id") (bs.take part)) (bs.drop part) = true ↔
      bs.drop part = tag hmac key (bs.take part) := by
  have hl : (bs.drop part).length = part := by simp [h, part]
  rw [verifyTruncatedLeft, decide_eq_true_iff, hl]
  exact ⟨fun hv => hv.2.2.symm, fun ht => ⟨by decide, by decide, ht.symm⟩⟩

/-- **What `parse` takes**: the ids that `with_tag` makes of sixteen bytes, in any case. -/
theorem parse_eq_some {text t : String} :
    parse hmac key text = some t ↔ ∃ body : List UInt8, body.length = 16 ∧
      text.toLower = withTag hmac key body ∧ t = withTag hmac key body := by
  have hlo : ∀ {bytes : List UInt8}, Hex.decode (utf8 text) = some bytes ↔
      text.toLower = Hex.encode bytes := by
    intro bytes
    rw [Hex.decode_utf8_iff, ← toList_toLower, Hex.encode, ← String.toList_inj,
      String.toList_ofList]
    exact eq_comm
  rw [parse]
  constructor
  · intro h
    obtain ⟨hl, h⟩ := ite_none_left_eq_some.1 h
    rw [not_not] at hl
    obtain ⟨bytes, hbs, h⟩ := bind_eq_some_iff.1 h
    obtain ⟨hv, ht⟩ := ite_none_right_eq_some.1 h
    have hsi : bytes.length = 32 := by
      rw [Hex.length_of_decode hbs] at hl
      exact Nat.eq_of_mul_eq_mul_left (by decide) hl
    have hen : withTag hmac key (bytes.take part) = Hex.encode bytes := by
      rw [withTag]
      refine congrArg Hex.encode ?_
      rw [← tag, ← (verifyTruncatedLeft_iff hsi).1 hv, take_append_drop]
    refine ⟨bytes.take part, by simp [hsi, part], ?_, ?_⟩
    · rw [hen]
      exact hlo.1 hbs
    · rw [hen]
      exact (some.inj ht).symm
  · rintro ⟨body, hbo, hte, rfl⟩
    have hbs := hlo.2 hte
    have hsi : (body ++ tag hmac key body).length = 32 := by
      rw [length_append, hbo, length_tag]
    have hl : ¬ (utf8 text).length ≠ part * 4 := by
      rw [Hex.length_of_decode hbs]
      exact not_not.2 (congrArg (2 * ·) hsi)
    have hta : (body ++ tag hmac key body).take part = body := take_left' hbo
    have hd : (body ++ tag hmac key body).drop part = tag hmac key body :=
      drop_left' hbo
    have hv : verifyTruncatedLeft
        (mac hmac key (ascii "id") ((body ++ tag hmac key body).take part))
        ((body ++ tag hmac key body).drop part) = true := by
      rw [verifyTruncatedLeft_iff hsi, hta, hd]
    rw [if_neg hl, hbs, bind_some]
    exact if_pos hv

/-! ## The result -/

variable {body : List UInt8}

theorem parse_withTag (h : body.length = 16) :
    parse hmac key (withTag hmac key body) = some (withTag hmac key body) := by
  refine parse_eq_some.2 ⟨body, h, ?_, rfl⟩
  rw [← String.toList_inj, toList_toLower, toList_withTag, ← Hex.digits_append,
    Hex.map_toLower_digits]

theorem isObjectId_withTag (h : body.length = 16) : D1.IsObjectId (withTag hmac key body) := by
  rw [D1.IsObjectId, toList_withTag, ← Hex.digits_append]
  refine ⟨?_, fun c hc => Hex.isLowerDigit_of_mem_digits hc⟩
  rw [Hex.length_digits, length_append, h, length_tag]

theorem toLower_eq_withTag_iff {text : String} (h : body.length = 16) :
    text.toLower = withTag hmac key body ↔
      Hex.digits body = (text.toList.take 32).map Char.toLower ∧
        Hex.digits (tag hmac key body) = (text.toList.drop 32).map Char.toLower := by
  have hl : (Hex.digits body).length = 32 := by rw [Hex.length_digits, h]
  rw [← String.toList_inj, toList_toLower, toList_withTag]
  constructor
  · intro heq
    rw [map_take, map_drop, heq]
    exact ⟨(take_left' hl).symm, (drop_left' hl).symm⟩
  · rintro ⟨hf, hse⟩
    rw [hf, hse, ← map_append, take_append_drop]

/-- **Durable Object ids form an exact format**, whatever the HMAC is.

* Every id that `with_tag` makes of sixteen bytes, so those of `from_name` and `unique`, is taken
  and returned unchanged.
* A text is taken exactly when it is 64 hexadecimal digits of any case, the second half of which is
  the tag of the first; then it is returned in lower case.
* What is returned is taken again, as itself, and `object_key` accepts it for every namespace UUID.
* A text with a character that is not ASCII is refused. -/
theorem ids_exact (hmac : IdKey → List UInt8 → Digest) (key : IdKey) :
    (∀ body : List UInt8, body.length = 16 →
      parse hmac key (withTag hmac key body) = some (withTag hmac key body)) ∧
    (∀ name, parse hmac key (fromName hmac key name) = some (fromName hmac key name)) ∧
    (∀ uuid, parse hmac key (unique hmac key uuid) = some (unique hmac key uuid)) ∧
    (∀ text t, parse hmac key text = some t ↔
      text.toList.length = 64 ∧ (∀ c ∈ text.toList, Hex.isDigit c = true) ∧
        (∃ body, Hex.digits body = (text.toList.take 32).map Char.toLower ∧
          Hex.digits (tag hmac key body) = (text.toList.drop 32).map Char.toLower) ∧
        t = text.toLower) ∧
    (∀ text t, parse hmac key text = some t →
      parse hmac key t = some t ∧ ∀ namespaceId id, Uuid.parseStr (utf8 namespaceId) = some id →
        D1.objectKey namespaceId t = some (D1.objectPath id t)) ∧
    ∀ text, (∃ c ∈ text.toList, 128 ≤ c.toNat) → parse hmac key text = none := by
  have hdigit : ∀ {text t}, parse hmac key text = some t →
      text.toList.length = 64 ∧ ∀ c ∈ text.toList, Hex.isDigit c = true := by
    intro text t h
    obtain ⟨body, hbody, htext, -⟩ := parse_eq_some.mp h
    have hlist : text.toList.map Char.toLower = Hex.digits (body ++ tag hmac key body) := by
      rw [← toList_toLower, htext, toList_withTag, Hex.digits_append]
    refine ⟨?_, (Hex.decode_utf8_eq_some.mp (Hex.decode_utf8_iff.mpr hlist.symm)).1⟩
    rw [← length_map (f := Char.toLower), hlist, Hex.length_digits, length_append, hbody,
      length_tag]
  refine ⟨fun body h => parse_withTag h, fun name => parse_withTag ?_,
    fun uuid => parse_withTag uuid.2, fun text t => ⟨fun h => ?_, ?_⟩, fun text t h => ?_,
    fun text hother => ?_⟩
  · rw [length_take, (mac hmac key (ascii "name") (utf8 name)).2]
    rfl
  · obtain ⟨body, hbody, htext, rfl⟩ := parse_eq_some.mp h
    have hhalves := (toLower_eq_withTag_iff hbody).mp htext
    exact ⟨(hdigit h).1, (hdigit h).2, ⟨body, hhalves⟩, htext.symm⟩
  · rintro ⟨hlen, -, ⟨body, hhalves⟩, rfl⟩
    have hbody : body.length = 16 := by
      have hfirst := congrArg List.length hhalves.1
      rw [Hex.length_digits, length_map, length_take, hlen] at hfirst
      exact Nat.eq_of_mul_eq_mul_left (by decide) hfirst
    have htext := (toLower_eq_withTag_iff hbody).mpr hhalves
    exact parse_eq_some.mpr ⟨body, hbody, htext, htext⟩
  · obtain ⟨body, hbody, -, rfl⟩ := parse_eq_some.mp h
    refine ⟨parse_withTag hbody, fun namespaceId id hid => ?_⟩
    exact D1.objectKey_eq_some.mpr ⟨id, hid, isObjectId_withTag hbody, rfl⟩
  · obtain ⟨c, hc, hge⟩ := hother
    cases hparse : parse hmac key text with
    | none => rfl
    | some t =>
      have hasc := Hex.ascii_of_isDigit ((hdigit hparse).2 c hc)
      exact absurd hasc (Nat.not_lt.mpr hge)

/-- A function in the place of the HMAC: the first byte of the key, and the length of the
message. -/
def smallHmac (key : IdKey) (message : List UInt8) : Digest :=
  ⟨key.1.head?.getD 0 :: List.replicate 31 (UInt8.ofNat message.length), by simp⟩

def someKey : IdKey := ⟨List.replicate 32 7, length_replicate⟩

theorem ids_exact_room :
    parse smallHmac someKey (fromName smallHmac someKey "room") =
        some (fromName smallHmac someKey "room") ∧
      parse smallHmac someKey "é" = none ∧
      D1.objectKey "0192f7a852d07c3e9e1b2f6d4c8a7b10" (fromName smallHmac someKey "room") ≠
        none := by
  obtain ⟨-, hname, -, -, hback, hasc⟩ := ids_exact smallHmac someKey
  have huuid : (Uuid.parseStr (utf8 "0192f7a852d07c3e9e1b2f6d4c8a7b10")).isSome = true := by
    decide +kernel
  obtain ⟨id, hid⟩ := isSome_iff_exists.mp huuid
  refine ⟨hname "room", hasc "é" ⟨'é', by decide, by decide⟩, ?_⟩
  rw [(hback _ _ (hname "room")).2 _ id hid]
  exact some_ne_none _

end OpenWorkersRunner.Durable.Ids
