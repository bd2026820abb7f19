import OpenWorkersRunner.D1.Archive
import OpenWorkersRunner.Lib.Uuid

/-!
# The keys of storage files

One text names a database everywhere: its file in the data directory, its handle, its count of
usage and the directory of its snapshots.  The key of a D1 database is the canonical text of its
UUID (`submit_database`); the key of an object is `objects/<namespace>/<object>`, with the canonical
text of the namespace UUID and the 64 lowercase digits of the object id (`object_key`).
-/

namespace OpenWorkersRunner.D1

open List Option Text

/-! ## The keys -/

def objects : String := "objects"

def isLowerHex (b : UInt8) : Bool :=
  decide (48 ≤ b.toNat ∧ b.toNat ≤ 57) || decide (97 ≤ b.toNat ∧ b.toNat ≤ 102)

def objectKey (namespaceId objectId : String) : Option String :=
  (Uuid.parseStr (utf8 namespaceId)).bind fun namespaceId =>
    if (utf8 objectId).length = 64 ∧ (utf8 objectId).all isLowerHex then
      some (objects ++ "/" ++ namespaceId.canonical ++ "/" ++ objectId)
    else none

def databaseKey (databaseId : String) : Option String :=
  (Uuid.parseStr (utf8 databaseId)).map Uuid.canonical

/-! ## Which pairs have a key -/

def IsObjectId (objectId : String) : Prop :=
  objectId.toList.length = 64 ∧ ∀ c ∈ objectId.toList, Hex.isLowerDigit c = true

def objectPath (id : Uuid) (objectId : String) : String :=
  objects ++ "/" ++ id.canonical ++ "/" ++ objectId

variable {c : Char} {key objectId : String}

theorem isLowerHex_toUInt8 :
    (c.toNat < 128 ∧ isLowerHex c.toUInt8 = true) ↔ Hex.isLowerDigit c = true := by
  constructor
  · rintro ⟨hc, h⟩
    have hb : c.toUInt8.toNat = c.toNat := Nat.mod_eq_of_lt (Nat.lt_trans hc (by decide))
    rwa [isLowerHex, hb] at h
  · intro h
    have hc := Hex.ascii_of_isDigit (Hex.isDigit_of_isLowerDigit h)
    have hb : c.toUInt8.toNat = c.toNat := Nat.mod_eq_of_lt (Nat.lt_trans hc (by decide))
    refine ⟨hc, ?_⟩
    rw [isLowerHex, hb]
    exact h

theorem isLowerHex_lt {b : UInt8} (h : isLowerHex b = true) : b.toNat < 128 := by
  simp only [isLowerHex, Bool.or_eq_true, decide_eq_true_eq] at h
  omega

theorem isObjectId_iff (objectId : String) :
    ((utf8 objectId).length = 64 ∧ (utf8 objectId).all isLowerHex = true) ↔
      IsObjectId objectId := by
  have hch : (utf8 objectId).all isLowerHex = true ↔
      ∀ c ∈ objectId.toList, Hex.isLowerDigit c = true := by
    rw [List.all_eq_true, forall_utf8_iff fun _ => isLowerHex_lt]
    exact forall₂_congr fun c _ => isLowerHex_toUInt8
  rw [IsObjectId, hch]
  refine and_congr_left fun h => ?_
  rw [utf8_of_ascii fun c hc => Hex.ascii_of_isDigit (Hex.isDigit_of_isLowerDigit (h c hc)),
    length_map]

theorem objectKey_eq_some {ns : String} :
    objectKey ns objectId = some key ↔
      ∃ id, Uuid.parseStr (utf8 ns) = some id ∧ IsObjectId objectId ∧
        key = objectPath id objectId := by
  rw [objectKey, bind_eq_some_iff]
  refine exists_congr fun id => and_congr_right fun _ => ?_
  rw [← isObjectId_iff]
  constructor
  · intro h
    obtain ⟨hid, hk⟩ := ite_none_right_eq_some.1 h
    exact ⟨hid, (some.inj hk).symm⟩
  · rintro ⟨hid, rfl⟩
    exact if_pos hid

/-! ## What stands in a key -/

theorem notMem_canonical (hh : c ≠ '-') (hdi : Hex.isLowerDigit c = false) (id : Uuid) :
    c ∉ id.canonical.toList := by
  intro hc
  refine Uuid.forall_mem_canonical (p := fun d => d ≠ c) hh.symm (fun d hd heq => ?_) id c hc
    rfl
  rw [heq, hdi] at hd
  cases hd

theorem IsObjectId.notMem (h : IsObjectId objectId) (hd : Hex.isLowerDigit c = false) :
    c ∉ objectId.toList := by
  intro hc
  rw [h.2 c hc] at hd
  cases hd

theorem length_canonical (id : Uuid) : id.canonical.toList.length = 36 := by
  rw [Uuid.canonical, String.toList_ofList]
  refine Uuid.length_hyphenate ?_
  rw [Hex.length_digits, id.2]

def objectParts (id : Uuid) (objectId : String) : List (List Char) :=
  [objects.toList, id.canonical.toList, objectId.toList]

theorem toList_objectPath (id : Uuid) (objectId : String) :
    (objectPath id objectId).toList = ['/'].intercalate (objectParts id objectId) := by
  simp [objectPath, objectParts, intercalate]

theorem splitOn_objectPath (id : Uuid) (h : IsObjectId objectId) :
    (objectPath id objectId).toList.splitOn '/' = objectParts id objectId := by
  rw [toList_objectPath]
  refine splitOn_intercalate '/' (fun part hp => ?_) (cons_ne_nil _ _)
  simp only [objectParts, mem_cons, not_mem_nil, or_false] at hp
  rcases hp with rfl | rfl | rfl
  · decide
  · exact notMem_canonical (by decide) (by decide) id
  · exact h.notMem (by decide)

theorem objectParts_plain (id : Uuid) (h : IsObjectId objectId) :
    ∀ part ∈ objectParts id objectId, part ≠ [] ∧ '.' ∉ part := by
  intro part hp
  simp only [objectParts, mem_cons, not_mem_nil, or_false] at hp
  rcases hp with rfl | rfl | rfl
  · decide
  · refine ⟨fun hn => ?_, notMem_canonical (by decide) (by decide) id⟩
    have hl := length_canonical id
    rw [hn] at hl
    cases hl
  · refine ⟨fun hn => ?_, h.notMem (by decide)⟩
    have hl := h.1
    rw [hn] at hl
    cases hl

/-! ## The way back -/

theorem splitOnce_append {before : List Char} (hc : c ∉ before) (after : List Char) :
    Archive.splitOnce c (before ++ c :: after) = some (before, after) := by
  induction before with
  | nil => exact if_pos rfl
  | cons x before ih =>
    rw [mem_cons, not_or] at hc
    rw [cons_append, Archive.splitOnce, if_neg (Ne.symm hc.1), ih hc.2]
    rfl

theorem parseObjectKey_objectPath (id : Uuid) (objectId : String) :
    Archive.parseObjectKey (objectPath id objectId) = some (id.canonical, objectId) := by
  have hlist : (objectPath id objectId).toList =
      "objects/".toList ++ (id.canonical.toList ++ '/' :: objectId.toList) := by
    simp [objectPath, objects]
  have hsl : '/' ∉ id.canonical.toList := notMem_canonical (by decide) (by decide) id
  have hd : (objectPath id objectId).toList.drop 8 =
      id.canonical.toList ++ '/' :: objectId.toList := by
    rw [hlist]
    exact drop_left' rfl
  rw [Archive.parseObjectKey, if_pos, hd, splitOnce_append hsl]
  · simp
  · rw [hlist]
    exact isPrefixOf_iff_prefix.2 (prefix_append _ _)

theorem parseObjectKey_canonical (id : Uuid) : Archive.parseObjectKey id.canonical = none := by
  rw [Archive.parseObjectKey, if_neg]
  intro hp
  obtain ⟨rest, hre⟩ := isPrefixOf_iff_prefix.1 hp
  have ho : 'o' ∈ id.canonical.toList := by
    rw [← hre]
    exact mem_append_left rest (by decide)
  exact notMem_canonical (by decide) (by decide) id ho

theorem prefix_objectName_of_object {ns : String}
    (h : Archive.parseObjectKey key = some (ns, objectId)) (epoch seq : Int) :
    "do/".toList <+: (Archive.objectName key epoch seq).toList := by
  rw [Archive.toList_objectName, Archive.directory, h]
  simp only [String.toList_append, append_assoc]
  exact prefix_append _ _

theorem prefix_objectName_of_database (h : Archive.parseObjectKey key = none) (epoch seq : Int) :
    "d1/".toList <+: (Archive.objectName key epoch seq).toList := by
  rw [Archive.toList_objectName, Archive.directory, h]
  simp only [String.toList_append, append_assoc]
  exact prefix_append _ _

/-! ## The result -/

/-- **Storage keys are safe, injective and invertible.**

* An object has a key only for a namespace UUID, in a form `Uuid::parse_str` takes, and an object id
  of 64 lowercase digits; it is `objects/<uuid>/<object>`, whose components have no dot.
* `parse_object_key` gives exactly the canonical text of the UUID and the object id back, so two
  pairs have the same key only if the UUIDs and the objects are the same.
* It gives nothing for the key of a D1 database, so that the snapshots of objects are under `do/`
  and those of D1 databases under `d1/`. -/
theorem storage_keys_exact :
    (∀ namespaceId objectId key, objectKey namespaceId objectId = some key ↔
      ∃ id, Uuid.parseStr (utf8 namespaceId) = some id ∧ IsObjectId objectId ∧
        key = "objects/" ++ id.canonical ++ "/" ++ objectId) ∧
    (∀ namespaceId objectId key, objectKey namespaceId objectId = some key →
      ∃ id, Uuid.parseStr (utf8 namespaceId) = some id ∧
        key.toList.splitOn '/' = ["objects".toList, id.canonical.toList, objectId.toList] ∧
        (∀ part ∈ key.toList.splitOn '/', part ≠ [] ∧ '.' ∉ part) ∧
        Archive.parseObjectKey key = some (id.canonical, objectId)) ∧
    (∀ n o n' o' key, objectKey n o = some key → objectKey n' o' = some key →
      Uuid.parseStr (utf8 n) = Uuid.parseStr (utf8 n') ∧ o = o') ∧
    (∀ databaseId key, databaseKey databaseId = some key → Archive.parseObjectKey key = none) ∧
    ∀ n o databaseId key key' (epoch seq epoch' seq' : Int), objectKey n o = some key →
      databaseKey databaseId = some key' →
        "do/".toList <+: (Archive.objectName key epoch seq).toList ∧
        "d1/".toList <+: (Archive.objectName key' epoch' seq').toList ∧
        Archive.objectName key epoch seq ≠ Archive.objectName key' epoch' seq' := by
  have hback : ∀ {n o key}, objectKey n o = some key →
      ∃ id, Uuid.parseStr (utf8 n) = some id ∧ IsObjectId o ∧ key = objectPath id o ∧
        Archive.parseObjectKey key = some (id.canonical, o) := by
    intro n o key h
    obtain ⟨id, hid, ho, rfl⟩ := objectKey_eq_some.mp h
    exact ⟨id, hid, ho, rfl, parseObjectKey_objectPath id o⟩
  have hdata : ∀ {databaseId key}, databaseKey databaseId = some key →
      Archive.parseObjectKey key = none := by
    intro databaseId key h
    obtain ⟨id, -, rfl⟩ := map_eq_some_iff.mp h
    exact parseObjectKey_canonical id
  refine ⟨fun n o key => ?_, fun n o key h => ?_, fun n o n' o' key h h' => ?_,
    fun databaseId key h => hdata h,
    fun n o databaseId key key' epoch seq epoch' seq' h h' => ?_⟩
  · exact objectKey_eq_some
  · obtain ⟨id, hid, ho, rfl, hparse⟩ := hback h
    have hspl := splitOn_objectPath id ho
    refine ⟨id, hid, hspl, ?_, hparse⟩
    rw [hspl]
    exact objectParts_plain id ho
  · obtain ⟨id, hid, -, -, hparse⟩ := hback h
    obtain ⟨id', hid', -, -, hparse'⟩ := hback h'
    obtain ⟨hcan, rfl⟩ := Prod.ext_iff.mp (Option.some.inj (hparse.symm.trans hparse'))
    rw [hid, hid', Uuid.canonical_inj hcan]
    exact ⟨rfl, rfl⟩
  · obtain ⟨id, -, -, -, hparse⟩ := hback h
    have hnone := hdata h'
    refine ⟨prefix_objectName_of_object hparse epoch seq,
      prefix_objectName_of_database hnone epoch' seq', fun heq => ?_⟩
    rw [(Archive.objectName_inj heq).1, hnone] at hparse
    cases hparse

def someObject : String := .ofList (List.replicate 64 'a')

theorem storage_keys_exact_braced :
    ∃ key id, objectKey "{0192F7A8-52D0-7C3E-9E1B-2F6D4C8A7B10}" someObject = some key ∧
      objectKey "0192f7a852d07c3e9e1b2f6d4c8a7b10" someObject = some key ∧
      Archive.parseObjectKey key = some (Uuid.canonical id, someObject) ∧
      databaseKey "urn:uuid:0192f7a8-52d0-7c3e-9e1b-2f6d4c8a7b10" = some (Uuid.canonical id) ∧
      Archive.parseObjectKey (Uuid.canonical id) = none ∧
      Archive.objectName key 1 2 ≠ Archive.objectName (Uuid.canonical id) 1 2 := by
  obtain ⟨-, hshape, -, hdata, harc⟩ := storage_keys_exact
  obtain ⟨key, hkey⟩ : ∃ key, objectKey "{0192F7A8-52D0-7C3E-9E1B-2F6D4C8A7B10}" someObject =
      some key := isSome_iff_exists.mp (by decide +kernel)
  have hsame : objectKey "0192f7a852d07c3e9e1b2f6d4c8a7b10" someObject = some key := by
    rw [← hkey]
    decide +kernel
  obtain ⟨id, hid, -, -, hparse⟩ := hshape _ _ _ hkey
  have hd : databaseKey "urn:uuid:0192f7a8-52d0-7c3e-9e1b-2f6d4c8a7b10" =
      some (Uuid.canonical id) := by
    refine map_eq_some_iff.mpr ⟨id, ?_, rfl⟩
    rw [← hid]
    decide +kernel
  exact ⟨key, id, hkey, hsame, hparse, hd, hdata _ _ hd, (harc _ _ _ _ _ 1 2 1 2 hkey hd).2.2⟩

end OpenWorkersRunner.D1
