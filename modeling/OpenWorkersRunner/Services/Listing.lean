import OpenWorkersRunner.Lib.Split
import OpenWorkersRunner.Lib.Percent
import OpenWorkersRunner.Services.Confinement

/-!
# Listing a storage binding

`StorageOp::List` takes the keys out of the XML that the service answers by hand, between their tags
and as they stand there.
-/

namespace OpenWorkersRunner.Storage

open List Split Text Url

/-! ## The answer -/

structure Escaping where
  write : UInt8 → Text
  write_spec : ∀ b, write b ≠ [] ∧ '<'.toUInt8 ∉ write b
  write_plain : ∀ b, isPlain b = true → write b = [b]

def Escaping.escape (escaping : Escaping) (t : Text) : Text := t.flatMap escaping.write

/-- The body of the answer: something, and for each key the key in its tags and something more. -/
def listBody (escaping : Escaping) (head : Text) (entries : List (Text × Text)) : Text :=
  head ++ entries.flatMap fun entry =>
    ascii "<Key>" ++ (escaping.escape entry.1 ++ (ascii "</Key>" ++ entry.2))

structure Surroundings (head : Text) (entries : List (Text × Text)) : Prop where
  head : ¬ ascii "<Key>" <:+: head ∧ ¬ ascii "</Key>" <:+: head
  between : ∀ entry ∈ entries, ¬ ascii "<Key>" <:+: entry.2

def parseListResponse (xml : Text) : List Text :=
  (splitText (ascii "<Key>") xml).filterMap (before? (ascii "</Key>"))

/-! ## Reading the answer -/

theorem Escaping.notMem_escape (esc : Escaping) (t : Text) :
    '<'.toUInt8 ∉ esc.escape t := by
  rw [Escaping.escape, mem_flatMap]
  rintro ⟨b, -, hb⟩
  exact (esc.write_spec b).2 hb

theorem Escaping.escape_eq_iff (esc : Escaping) (t : Text) :
    esc.escape t = t ↔ ∀ b ∈ t, esc.write b = [b] := by
  have hl : ∀ t : Text, t.length ≤ (esc.escape t).length := by
    intro t
    induction t with
    | nil => exact Nat.le_refl _
    | cons b t ih =>
      have hb := length_pos_of_ne_nil (esc.write_spec b).1
      rw [Escaping.escape, flatMap_cons, ← Escaping.escape, length_append, length_cons]
      omega
  induction t with
  | nil => simp [Escaping.escape]
  | cons b t ih =>
    rw [Escaping.escape, flatMap_cons, ← Escaping.escape, forall_mem_cons]
    refine ⟨fun h => ?_, fun h => ?_⟩
    · obtain ⟨c, rest, hw⟩ := exists_cons_of_ne_nil (esc.write_spec b).1
      rw [hw, cons_append, cons.injEq] at h
      -- the rest of what is written for `b` would make the whole too long
      have hre : rest = [] := by
        have hle := congrArg length h.2
        have ht := hl t
        rw [length_append] at hle
        exact eq_nil_of_length_eq_zero (by omega)
      rw [hre, nil_append] at h
      rw [hw, hre, h.1]
      exact ⟨rfl, ih.1 h.2⟩
    · rw [h.1, ih.2 h.2]
      rfl

theorem tag_key : ascii "<Key>" = '<'.toUInt8 :: ascii "Key>" := by decide

theorem tag_key_end : ascii "</Key>" = '<'.toUInt8 :: ascii "/Key>" := by decide

theorem not_key_within (esc : Escaping) (key : Text) {after : Text}
    (h : ¬ ascii "<Key>" <:+: after) :
    ¬ ascii "<Key>" <:+: esc.escape key ++ (ascii "</Key>" ++ after) := by
  intro hw
  rw [tag_key] at hw
  have hw := infix_of_infix_append (esc.notMem_escape key) hw
  rw [tag_key_end, cons_append, infix_cons_iff] at hw
  rcases hw with hst | hw
  · have hse := (cons_prefix_cons.1 hst).2
    rw [show ascii "Key>" = 'K'.toUInt8 :: ascii "ey>" by decide,
      show ascii "/Key>" = '/'.toUInt8 :: ascii "Key>" by decide, cons_append,
      cons_prefix_cons] at hse
    exact absurd hse.1 (by decide)
  · rw [tag_key] at h
    exact h (infix_of_infix_append (by decide) hw)

theorem splitText_listBody {esc : Escaping} {head : Text} {entries : List (Text × Text)}
    (hh : ¬ ascii "<Key>" <:+: head)
    (hbe : ∀ entry ∈ entries, ¬ ascii "<Key>" <:+: entry.2) :
    splitText (ascii "<Key>") (listBody esc head entries)
      = head :: entries.map fun entry =>
          esc.escape entry.1 ++ (ascii "</Key>" ++ entry.2) := by
  induction entries generalizing head with
  | nil => rw [listBody, flatMap_nil, append_nil, splitText_of_not_infix hh, map_nil]
  | cons entry entries ih =>
    have hre := ih (not_key_within esc entry.1
      (hbe entry mem_cons_self))
      fun entry hm => hbe entry (mem_cons_of_mem _ hm)
    rw [listBody] at hre
    rw [tag_key] at hh
    rw [listBody, flatMap_cons, append_assoc]
    conv_lhs => rw [tag_key, splitText_append (by decide) hh, ← tag_key]
    rw [hre, map_cons]

theorem parseListResponse_listBody (esc : Escaping) {head : Text}
    {entries : List (Text × Text)} (h : Surroundings head entries) :
    parseListResponse (listBody esc head entries)
      = entries.map fun entry => esc.escape entry.1 := by
  have hf : before? (ascii "</Key>") head = none := before?_eq_none (by decide) h.head.2
  have hk : ∀ entry : Text × Text, before? (ascii "</Key>")
      (esc.escape entry.1 ++ (ascii "</Key>" ++ entry.2))
      = some (esc.escape entry.1) := by
    intro entry
    rw [tag_key_end]
    exact before?_append (esc.notMem_escape entry.1) entry.2
  rw [parseListResponse, splitText_listBody h.head.1 h.between, filterMap_cons, hf, filterMap_map]
  simp only [Function.comp_def, hk]
  rw [filterMap_eq_map']

/-- **Which keys come back**: a list of keys is read back exactly when no byte of a key is written
as something else. -/
theorem list_decodes (escaping : Escaping) (head : Text) (entries : List (Text × Text))
    (h : Surroundings head entries) :
    parseListResponse (listBody escaping head entries) = entries.map Prod.fst ↔
      ∀ entry ∈ entries, ∀ b ∈ entry.1, escaping.write b = [b] := by
  rw [parseListResponse_listBody escaping h, map_inj_left]
  exact forall₂_congr fun entry _ => escaping.escape_eq_iff entry.1

def xmlEscaping : Escaping where
  write b :=
    if b = '&'.toUInt8 then ascii "&amp;"
    else if b = '<'.toUInt8 then ascii "&lt;"
    else if b = '>'.toUInt8 then ascii "&gt;"
    else if b.toNat = 34 then ascii "&quot;"
    else if b.toNat = 39 then ascii "&apos;"
    else [b]
  write_spec b := by
    split_ifs with h1 h2 h3 h4 h5
    · decide
    · decide
    · decide
    · decide
    · decide
    · rw [mem_singleton, eq_comm]
      exact ⟨cons_ne_nil _ _, h2⟩
  write_plain b hb := by
    have hne : ∀ c : UInt8, isPlain c = false → b ≠ c := by
      rintro c hc rfl
      rw [hc] at hb
      cases hb
    have hquote : b.toNat ≠ 34 := fun h => hne 34 (by decide) (UInt8.toNat_inj.1 h)
    have hapostrophe : b.toNat ≠ 39 := fun h => hne 39 (by decide) (UInt8.toNat_inj.1 h)
    rw [if_neg (hne _ (by decide)), if_neg (hne _ (by decide)), if_neg (hne _ (by decide)),
      if_neg hquote, if_neg hapostrophe]

def exampleEntries (first second : String) : List (Text × Text) :=
  [(ascii first, ascii "<Size>1</Size></Contents><Contents>"),
    (ascii second, ascii "<Size>2</Size></Contents></ListBucketResult>")]

def exampleHead : Text := ascii "<ListBucketResult><Name>my-bucket</Name><Contents>"

theorem exampleSurroundings (first second : String) :
    Surroundings exampleHead (exampleEntries first second) := by
  refine ⟨by decide, ?_⟩
  rw [exampleEntries, forall_mem_cons, forall_mem_singleton]
  dsimp only
  decide

theorem list_decodes_two :
    parseListResponse (listBody xmlEscaping exampleHead (exampleEntries "a b" "c/d"))
      = [ascii "a b", ascii "c/d"] :=
  (list_decodes xmlEscaping exampleHead _ (exampleSurroundings "a b" "c/d")).2 (by decide +kernel)

theorem list_garbles :
    ¬ ∀ (escaping : Escaping) (head : Text) (entries : List (Text × Text)),
      Surroundings head entries →
        parseListResponse (listBody escaping head entries) = entries.map Prod.fst := by
  intro h
  have hkeys := h xmlEscaping exampleHead _ (exampleSurroundings "a&b" "c")
  exact absurd hkeys (by decide)

end OpenWorkersRunner.Storage
