import Mathlib.Data.List.Lex
import Mathlib.Data.List.TakeWhile
import OpenWorkersRunner.D1.Sqlite
import OpenWorkersRunner.Lib.Keyed

/-!
# D1: the statement of a list

`object_op` puts the statement of a list together from six optional clauses, each with the number of
its parameter.  This file is what SQLite makes of such a text: it reads it (`Select.read`), and
answers it on the rows of the table `kv` (`Select.eval`), as comparison, `substr` and `length` are
documented.
-/

namespace OpenWorkersRunner.D1.Sqlite

open List Option

/-! ## Rows of `kv` -/

def utf8 (text : String) : List ℕ := text.toByteArray.data.toList.map UInt8.toNat

theorem utf8_inj {s t : String} (h : utf8 s = utf8 t) : s = t := by
  have hbs : s.toByteArray.data.toList = t.toByteArray.data.toList :=
    map_injective_iff.2 (fun _ _ => UInt8.toNat_inj.1) h
  exact String.toByteArray_inj.1 (ByteArray.ext (Array.toList_inj.1 hbs))

abbrev Entry := String × List UInt8

abbrev Entries := Keyed fun entry : Entry => utf8 entry.1

def Entries.get (entries : Entries) (key : String) : Option (List UInt8) :=
  (Keyed.find entries (utf8 key)).map Prod.snd

theorem Entries.get_eq_some_iff {entries : Entries} {key : String} {value : List UInt8} :
    entries.get key = some value ↔ (key, value) ∈ entries.rows := by
  rw [Entries.get, map_eq_some_iff]
  constructor
  · rintro ⟨⟨key', value'⟩, hf, rfl⟩
    obtain ⟨hm, hk⟩ := Keyed.find_eq_some_iff.1 hf
    rw [← utf8_inj hk]
    exact hm
  · exact fun hm => ⟨(key, value), Keyed.mem_iff_find.1 hm, rfl⟩

/-! ## Statements -/

inductive Comparison
  | ge
  | gt
  | lt
deriving DecidableEq

inductive Cond
  | compare (comparison : Comparison) (number : ℕ)
  | starts (length text : ℕ)
deriving DecidableEq

structure Select where
  conds : List Cond
  descending : Bool
  limit : Option ℕ
deriving DecidableEq

def Comparison.text : Comparison → String
  | .ge => ">= ?"
  | .gt => "> ?"
  | .lt => "< ?"

def Cond.pieces : Cond → List String
  | .compare comparison number => [" AND key ", comparison.text, toString number]
  | .starts length text =>
    [" AND substr(key, 1, length(?", toString length, ")) = ?", toString text]

def Cond.text (cond : Cond) : String := String.join cond.pieces

def orderText (descending : Bool) : String :=
  if descending then " ORDER BY key DESC" else " ORDER BY key ASC"

def limitText (limit : Option ℕ) : String :=
  String.join (limit.elim [] fun number => [" LIMIT ?", toString number])

def Select.text (q : Select) : String :=
  String.join ["SELECT key, value FROM kv WHERE 1", String.join (q.conds.map Cond.text),
    orderText q.descending, limitText q.limit]

/-! ## Reading -/

def after? (text : String) (t : List Char) : Option (List Char) := text.toList.isPrefixOf? t

def readNumber (t : List Char) : ℕ × List Char :=
  (Nat.ofDigitChars 10 (t.takeWhile Char.isDigit) 0, t.dropWhile Char.isDigit)

def Comparison.read (t : List Char) : Option (Comparison × List Char) :=
  [Comparison.ge, .gt, .lt].findSome? fun comparison =>
    (after? comparison.text t).map fun t => (comparison, t)

def Cond.read (t : List Char) : Option (Cond × List Char) :=
  match after? " AND key " t with
  | some t =>
    (Comparison.read t).map fun (comparison, t) =>
      (.compare comparison (readNumber t).1, (readNumber t).2)
  | none =>
    (after? " AND substr(key, 1, length(?" t).bind fun t =>
      (after? ")) = ?" (readNumber t).2).map fun t' =>
        (.starts (readNumber t).1 (readNumber t').1, (readNumber t').2)

def readConds : ℕ → List Char → List Cond × List Char
  | 0, t => ([], t)
  | fuel + 1, t =>
    match Cond.read t with
    | none => ([], t)
    | some (cond, t) => ((cond :: (readConds fuel t).1), (readConds fuel t).2)

def readOrder (t : List Char) : Option (Bool × List Char) :=
  match after? " ORDER BY key DESC" t with
  | some t => some (true, t)
  | none => (after? " ORDER BY key ASC" t).map fun t => (false, t)

def readLimit (t : List Char) : Option (Option ℕ) :=
  if t = [] then some none
  else
    (after? " LIMIT ?" t).bind fun t =>
      if (readNumber t).2 = [] then some (some (readNumber t).1) else none

def Select.read (t : List Char) : Option Select :=
  (after? "SELECT key, value FROM kv WHERE 1" t).bind fun t =>
    (readOrder (readConds t.length t).2).bind fun (descending, rest) =>
      (readLimit rest).map fun limit => ⟨(readConds t.length t).1, descending, limit⟩

def NoDigit (t : List Char) : Prop := ∀ c, t.head? = some c → c.isDigit = false

theorem after?_append (text : String) (t : List Char) : after? text (text.toList ++ t) = some t :=
  isPrefixOf?_eq_some_iff_append_eq.2 rfl

variable {t : List Char}

theorem readNumber_toString (n : ℕ) (ht : NoDigit t) :
    readNumber ((toString n).toList ++ t) = (n, t) := by
  rw [Nat.toString_eq_repr, Nat.toList_repr]
  have hd : ∀ c ∈ Nat.toDigits 10 n, c.isDigit = true := fun c hc =>
    Nat.isDigit_of_mem_toDigits (by decide) (by decide) hc
  have hre : t.takeWhile Char.isDigit = [] ∧ t.dropWhile Char.isDigit = t := by
    cases t with
    | nil => exact ⟨rfl, rfl⟩
    | cons c t => simp [ht c rfl]
  rw [readNumber, takeWhile_append_of_pos hd, dropWhile_append_of_pos hd,
    hre.1, hre.2, append_nil, Nat.ofDigitChars_toDigits (by decide) (by decide)]

theorem Comparison.read_text (cmp : Comparison) (t : List Char) :
    Comparison.read (cmp.text.toList ++ t) = some (cmp, t) := by
  cases cmp with
  | ge => simp [Comparison.read, Comparison.text, after?, isPrefixOf?]
  | gt => simp [Comparison.read, Comparison.text, after?, isPrefixOf?]
  | lt => simp [Comparison.read, Comparison.text, after?, isPrefixOf?]

/-- **A condition is read back**, in front of anything that does not go on with its number. -/
theorem Cond.read_text (cond : Cond) (ht : NoDigit t) :
    Cond.read (cond.text.toList ++ t) = some (cond, t) := by
  cases cond with
  | compare cmp num =>
    have hte : (Cond.compare cmp num).text.toList ++ t =
        " AND key ".toList ++ (cmp.text.toList ++ ((toString num).toList ++ t)) := by
      simp [Cond.text, Cond.pieces]
    rw [hte, Cond.read, after?_append]
    simp only [Comparison.read_text, map_some, readNumber_toString num ht]
  | starts len text =>
    have ho (u : List Char) :
        after? " AND key " (" AND substr(key, 1, length(?".toList ++ u) = none := by
      simp [after?, isPrefixOf?]
    have hcl : NoDigit (")) = ?".toList ++ ((toString text).toList ++ t)) := by
      simp [NoDigit]
    have hte : (Cond.starts len text).text.toList ++ t =
        " AND substr(key, 1, length(?".toList ++ ((toString len).toList ++
          (")) = ?".toList ++ ((toString text).toList ++ t))) := by
      simp [Cond.text, Cond.pieces]
    rw [hte, Cond.read, ho]
    simp only [after?_append, bind_some, readNumber_toString len hcl,
      map_some, readNumber_toString text ht]

theorem Cond.noDigit_text (cond : Cond) (t : List Char) : NoDigit (cond.text.toList ++ t) := by
  cases cond with
  | compare cmp num => simp [NoDigit, Cond.text, Cond.pieces]
  | starts len text => simp [NoDigit, Cond.text, Cond.pieces]

theorem Cond.length_text_pos (cond : Cond) : 0 < cond.text.toList.length := by
  cases cond with
  | compare cmp num => simp [Cond.text, Cond.pieces]
  | starts len text => simp [Cond.text, Cond.pieces]

theorem toList_join_text (cond : Cond) (conds : List Cond) :
    (String.join ((cond :: conds).map Cond.text)).toList =
      cond.text.toList ++ (String.join (conds.map Cond.text)).toList := by
  simp

theorem readConds_text (conds : List Cond) (ht : NoDigit t) (hno : Cond.read t = none) {fuel : ℕ}
    (hf : conds.length < fuel) :
    readConds fuel ((String.join (conds.map Cond.text)).toList ++ t) = (conds, t) := by
  induction conds generalizing fuel with
  | nil =>
    obtain ⟨fuel, rfl⟩ := Nat.exists_eq_succ_of_ne_zero (Nat.ne_of_gt hf)
    have hem : (String.join (([] : List Cond).map Cond.text)).toList = [] := by simp
    rw [hem, nil_append, readConds, hno]
  | cons cond conds ih =>
    obtain ⟨fuel, rfl⟩ := Nat.exists_eq_succ_of_ne_zero (Nat.ne_of_gt (Nat.zero_lt_of_lt hf))
    have hn : NoDigit ((String.join (conds.map Cond.text)).toList ++ t) := by
      cases conds with
      | nil => simpa using ht
      | cons next conds =>
        rw [toList_join_text, append_assoc]
        exact next.noDigit_text _
    rw [toList_join_text, append_assoc, readConds, cond.read_text hn]
    simp only [ih (Nat.lt_of_succ_lt_succ hf)]

theorem length_le_join_text (conds : List Cond) :
    conds.length ≤ (String.join (conds.map Cond.text)).toList.length := by
  induction conds with
  | nil => exact Nat.zero_le _
  | cons cond conds ih =>
    have hp := cond.length_text_pos
    rw [toList_join_text, length_append, length_cons]
    omega

theorem readLimit_text (limit : Option ℕ) : readLimit (limitText limit).toList = some limit := by
  cases limit with
  | none => exact if_pos rfl
  | some num =>
    have hn : readNumber (toString num).toList = (num, []) := by
      rw [← append_nil (toString num).toList]
      exact readNumber_toString num nofun
    have ht : (limitText (some num)).toList = " LIMIT ?".toList ++ (toString num).toList := by
      simp [limitText]
    rw [ht, readLimit, if_neg (by simp), after?_append, bind_some, hn, if_pos rfl]

theorem readOrder_text (desc : Bool) (t : List Char) :
    readOrder ((orderText desc).toList ++ t) = some (desc, t) := by
  cases desc with
  | true => simp [orderText, readOrder, after?, isPrefixOf?]
  | false => simp [orderText, readOrder, after?, isPrefixOf?]

theorem noDigit_orderText (desc : Bool) (t : List Char) :
    NoDigit ((orderText desc).toList ++ t) := by
  cases desc with
  | true => simp [orderText, NoDigit]
  | false => simp [orderText, NoDigit]

theorem read_orderText (desc : Bool) (t : List Char) :
    Cond.read ((orderText desc).toList ++ t) = none := by
  cases desc with
  | true => simp [orderText, Cond.read, after?, isPrefixOf?]
  | false => simp [orderText, Cond.read, after?, isPrefixOf?]

theorem length_orderText_pos (desc : Bool) : 0 < (orderText desc).toList.length := by
  cases desc with
  | true => simp [orderText]
  | false => simp [orderText]

/-- **A statement is read back from its text.** -/
theorem Select.read_text (q : Select) : Select.read q.text.toList = some q := by
  obtain ⟨conds, desc, limit⟩ := q
  have ht : (Select.mk conds desc limit).text.toList =
      "SELECT key, value FROM kv WHERE 1".toList ++ ((String.join (conds.map Cond.text)).toList ++
        ((orderText desc).toList ++ (limitText limit).toList)) := by
    simp [Select.text]
  rw [ht, Select.read, after?_append, bind_some,
    readConds_text conds (noDigit_orderText desc _) (read_orderText desc _)]
  · simp only [readOrder_text, bind_some, readLimit_text, map_some]
  · have hco := length_le_join_text conds
    have ho := length_orderText_pos desc
    simp only [length_append]
    omega

/-! ## Answering -/

def textParam (params : List SqlPrimitive) (number : ℕ) : Option String :=
  match params[number - 1]? with
  | some (.string value) => some value
  | _ => none

def Comparison.holds (value key : String) : Comparison → Bool
  | .ge => utf8 value ≤ utf8 key
  | .gt => utf8 value < utf8 key
  | .lt => utf8 key < utf8 value

def nul : Char := Char.ofNat 0

def sqlLength (text : String) : ℕ := (text.toList.takeWhile (· ≠ nul)).length

def sqlSubstr (text : String) (n : ℕ) : String := String.ofList (text.toList.take n)

def startsWith (value key : String) : Bool := sqlSubstr key (sqlLength value) == value

/-- Whether a condition selects a key; a parameter without a value is `NULL`, and selects none. -/
def Cond.holds (params : List SqlPrimitive) (key : String) : Cond → Bool
  | .compare comparison number =>
    (textParam params number).any fun value => comparison.holds value key
  | .starts length text =>
    (textParam params length).any fun measured => (textParam params text).any fun value =>
      sqlSubstr key (sqlLength measured) == value

def cut (rows : List Entry) (limit : Int) : List Entry :=
  if limit < 0 then rows else rows.take limit.toNat

def Select.eval (q : Select) (params : List SqlPrimitive) (entries : Entries) :
    Option (List Entry) :=
  let found := entries.rows.filter fun entry => q.conds.all (Cond.holds params entry.1)
  let rows := if q.descending then found.reverse else found
  match q.limit with
  | none => some rows
  | some number =>
    match params[number - 1]? with
    | some (.int limit) => some (cut rows limit)
    | _ => none

/-! ## The statement that the runner makes -/

inductive Bound
  | compare (comparison : Comparison) (value : String)
  | starts (value : String)
deriving DecidableEq

namespace Bound

def value : Bound → String
  | compare _ value => value
  | starts value => value

def clause : Bound → String
  | compare .ge _ => " AND key >= ?"
  | compare .gt _ => " AND key > ?"
  | compare .lt _ => " AND key < ?"
  | starts _ => " AND substr(key, 1, length(?)) = ?"

def cond (number : ℕ) : Bound → Cond
  | compare comparison _ => .compare comparison number
  | starts _ => .starts number number

theorem numbered_clause (b : Bound) (num : ℕ) :
    (numbered b.clause num).toList = (b.cond num).text.toList := by
  cases b with
  | compare cmp val =>
    cases cmp with
    | ge => simp [numbered, clause, cond, Cond.text, Cond.pieces, Comparison.text]
    | gt => simp [numbered, clause, cond, Cond.text, Cond.pieces, Comparison.text]
    | lt => simp [numbered, clause, cond, Cond.text, Cond.pieces, Comparison.text]
  | starts val => simp [numbered, clause, cond, Cond.text, Cond.pieces]

def holds (key : String) : Bound → Bool
  | compare comparison value => comparison.holds value key
  | starts value => startsWith value key

theorem holds_cond {b : Bound} {ps : List SqlPrimitive} {num : ℕ}
    (h : ps[num - 1]? = some (.string b.value)) (key : String) :
    (b.cond num).holds ps key = b.holds key := by
  have ht : textParam ps num = some b.value := by rw [textParam, h]
  cases b with
  | compare cmp val =>
    simp only [cond, Cond.holds, ht, any_some, holds, Bound.value]
  | starts val =>
    simp only [cond, Cond.holds, ht, any_some, holds, Bound.value, startsWith]

end Bound

section List

variable (start startAfter stop keyPrefix : Option String) (reverse : Bool) (limit : Option ℕ)

def boundsOf : List Bound :=
  [start.map (.compare .ge), startAfter.map (.compare .gt), stop.map (.compare .lt),
    keyPrefix.map .starts].filterMap id

def listSelect : Select where
  conds := ((boundsOf start startAfter stop keyPrefix).zipIdx 1).map fun (b, number) =>
    b.cond number
  descending := reverse
  limit := limit.map fun _ => (boundsOf start startAfter stop keyPrefix).length + 1

theorem clauses_eq :
    [start.map fun value => (" AND key >= ?", value),
      startAfter.map fun value => (" AND key > ?", value),
      stop.map fun value => (" AND key < ?", value),
      keyPrefix.map fun value => (" AND substr(key, 1, length(?)) = ?", value)].filterMap id =
      (boundsOf start startAfter stop keyPrefix).map fun b => (b.clause, b.value) := by
  rw [boundsOf, map_filterMap]
  cases start <;> cases startAfter <;> cases stop <;> cases keyPrefix <;> rfl

theorem listStatement_eq :
    listStatement start startAfter stop keyPrefix reverse limit =
      let bounds := boundsOf start startAfter stop keyPrefix
      { role := .work
        sql := "SELECT key, value FROM kv WHERE 1" ++
          String.join ((bounds.zipIdx 1).map fun (b, number) => numbered b.clause number) ++
          orderText reverse ++ limit.elim "" fun _ => numbered " LIMIT ?" (bounds.length + 1)
        params := bounds.map (fun b => SqlPrimitive.string b.value) ++
          (limit.map fun limit => SqlPrimitive.int (min limit (2 ^ 63 - 1) : ℕ)).toList } := by
  have hcl := clauses_eq start startAfter stop keyPrefix
  simp only [listStatement, hcl, zipIdx_map, List.map_map, length_map, orderText]
  rfl

/-- **The text of the statement of a list** is one that SQLite reads as it is meant. -/
theorem read_listStatement :
    Select.read (listStatement start startAfter stop keyPrefix reverse limit).sql.toList =
      some (listSelect start startAfter stop keyPrefix reverse limit) := by
  rw [← Select.read_text]
  congr 1
  have hco (bounds : List Bound) (first : ℕ) :
      (String.join ((bounds.zipIdx first).map fun (b, number) => numbered b.clause number)).toList =
        (String.join (((bounds.zipIdx first).map fun (b, number) => b.cond number).map
          Cond.text)).toList := by
    simp [Bound.numbered_clause, flatMap_map]
  have hl (number : ℕ) : (limit.elim "" fun _ => numbered " LIMIT ?" number).toList =
      (limitText (limit.map fun _ => number)).toList := by
    cases limit with
    | none => simp [limitText]
    | some n => simp [limitText, numbered]
  rw [listStatement_eq]
  simp only [String.toList_append, hco, hl]
  simp [Select.text, listSelect]

theorem all_conds_listSelect (key : String) :
    (listSelect start startAfter stop keyPrefix reverse limit).conds.all
        (Cond.holds (listStatement start startAfter stop keyPrefix reverse limit).params key) =
      (boundsOf start startAfter stop keyPrefix).all (Bound.holds key) := by
  rw [listStatement_eq]
  generalize hbo : boundsOf start startAfter stop keyPrefix = bounds
  have hv : ∀ p ∈ bounds.zipIdx 1, ∀ rest,
      (bounds.map (fun b => SqlPrimitive.string b.value) ++ rest)[p.2 - 1]? =
        some (.string p.1.value) := by
    rintro ⟨b, num⟩ hm rest
    obtain ⟨hle, hlt, hb⟩ := mem_zipIdx hm
    have hge : bounds[num - 1]? = some b := by
      rw [hb]
      exact List.getElem?_eq_getElem (by omega)
    rw [List.getElem?_append_left (by rw [length_map]; omega), List.getElem?_map, hge]
    rfl
  have hma : ((bounds.zipIdx 1).map Prod.fst).all (Bound.holds key) =
      bounds.all (Bound.holds key) := by rw [zipIdx_map_fst]
  simp only [listSelect, hbo, List.all_map, Function.comp_def]
  rw [← hma, List.all_map]
  refine Bool.eq_iff_iff.2 ?_
  simp only [List.all_eq_true, Function.comp_apply]
  refine forall₂_congr fun p hp => ?_
  rw [Bound.holds_cond (hv p hp _)]

/-! ## What a list is for -/

def InRange (key : String) : Prop :=
  (∀ value ∈ start, utf8 value ≤ utf8 key) ∧ (∀ value ∈ startAfter, utf8 value < utf8 key) ∧
    (∀ value ∈ stop, utf8 key < utf8 value) ∧ ∀ value ∈ keyPrefix, value.toList <+: key.toList

instance (key : String) : Decidable (InRange start startAfter stop keyPrefix key) :=
  inferInstanceAs (Decidable (_ ∧ _ ∧ _ ∧ _))

def inOrder (entries : Entries) : List Entry :=
  let found := entries.rows.filter fun entry => InRange start startAfter stop keyPrefix entry.1
  if reverse then found.reverse else found

def listed (entries : Entries) : List Entry :=
  let found := inOrder start startAfter stop keyPrefix reverse entries
  limit.elim found found.take

theorem mem_inOrder {entries : Entries} {key : String} {val : List UInt8} :
    (key, val) ∈ inOrder start startAfter stop keyPrefix reverse entries ↔
      entries.get key = some val ∧ InRange start startAfter stop keyPrefix key := by
  rw [Entries.get_eq_some_iff, inOrder]
  split <;> simp

theorem pairwise_inOrder (entries : Entries) :
    (inOrder start startAfter stop keyPrefix reverse entries).Pairwise fun a b =>
      if reverse then utf8 b.1 < utf8 a.1 else utf8 a.1 < utf8 b.1 := by
  have hf := entries.sorted.filter fun entry =>
    decide (InRange start startAfter stop keyPrefix entry.1)
  cases reverse with
  | false => simpa [inOrder] using hf
  | true => simpa [inOrder, pairwise_reverse] using hf

variable {start startAfter stop keyPrefix limit}

/-- `substr(key, 1, length(value)) = value` says that the key begins with the value, if that has no
U+0000. -/
theorem startsWith_iff {val key : String} (h : nul ∉ val.toList) :
    startsWith val key = true ↔ val.toList <+: key.toList := by
  have hl : sqlLength val = val.toList.length := by
    rw [sqlLength, takeWhile_eq_self_iff.2]
    exact fun c hc => decide_eq_true fun hn => h (hn ▸ hc)
  rw [startsWith, sqlSubstr, hl, beq_iff_eq, prefix_iff_eq_take, ← String.toList_inj,
    String.toList_ofList, eq_comm]

/-- A value with U+0000 is longer than its `length`, and is no `substr` of that length. -/
theorem startsWith_of_nul {val : String} (h : nul ∈ val.toList) (key : String) :
    startsWith val key = false := by
  have hl : sqlLength val < val.toList.length := by
    rw [sqlLength]
    refine lt_of_le_of_ne (takeWhile_sublist _).length_le fun heq => ?_
    have hall := takeWhile_eq_self_iff.1 (( takeWhile_prefix (· ≠ nul)).eq_of_length heq)
    exact of_decide_eq_true (hall nul h) rfl
  rw [startsWith, sqlSubstr, beq_eq_false_iff_ne]
  intro heq
  have hle : val.toList.length ≤ sqlLength val := by
    conv_lhs => rw [← heq, String.toList_ofList]
    exact length_take_le _ _
  omega

theorem all_bounds_iff (hn : ∀ value ∈ keyPrefix, nul ∉ value.toList) (key : String) :
    (boundsOf start startAfter stop keyPrefix).all (Bound.holds key) = true ↔
      InRange start startAfter stop keyPrefix key := by
  have hcl {asked : Option String} {bound : String → Bound} {P : String → Prop}
      (h : ∀ value ∈ asked, (bound value).holds key = true ↔ P value) :
      ((asked.map bound).all (Bound.holds key) = true) ↔ ∀ value ∈ asked, P value := by
    cases asked with
    | none => simp
    | some value => simpa using h value rfl
  have hbo : (boundsOf start startAfter stop keyPrefix).all (Bound.holds key) =
      ((start.map (.compare .ge)).all (Bound.holds key) &&
        (startAfter.map (.compare .gt)).all (Bound.holds key) &&
        (stop.map (.compare .lt)).all (Bound.holds key) &&
        (keyPrefix.map .starts).all (Bound.holds key)) := by
    cases start <;> cases startAfter <;> cases stop <;> cases keyPrefix <;>
      simp [boundsOf, Bool.and_assoc]
  rw [hbo, Bool.and_eq_true, Bool.and_eq_true, Bool.and_eq_true, and_assoc, and_assoc]
  refine and_congr (hcl fun _ _ => decide_eq_true_iff) (and_congr
    (hcl fun _ _ => decide_eq_true_iff) (and_congr (hcl fun _ _ => decide_eq_true_iff)
    (hcl fun value hv => startsWith_iff (hn value hv))))

variable (start startAfter stop keyPrefix limit)

def selected (entries : Entries) : List Entry :=
  let found := entries.rows.filter fun entry =>
    (boundsOf start startAfter stop keyPrefix).all (Bound.holds entry.1)
  let rows := if reverse then found.reverse else found
  limit.elim rows fun n => rows.take (min n (2 ^ 63 - 1))

/-- **What the statement of a list returns**: its conditions are those of the clauses, each with the
value of its number, and so is its limit. -/
theorem eval_listSelect (entries : Entries) :
    (listSelect start startAfter stop keyPrefix reverse limit).eval
        (listStatement start startAfter stop keyPrefix reverse limit).params entries =
      some (selected start startAfter stop keyPrefix reverse limit entries) := by
  have hf : (entries.rows.filter fun entry =>
      (listSelect start startAfter stop keyPrefix reverse limit).conds.all (Cond.holds
        (listStatement start startAfter stop keyPrefix reverse limit).params entry.1)) =
      entries.rows.filter fun entry =>
        (boundsOf start startAfter stop keyPrefix).all (Bound.holds entry.1) :=
    filter_congr fun entry _ => all_conds_listSelect ..
  rw [Select.eval, hf]
  cases limit with
  | none => rfl
  | some n =>
    have hp : (listStatement start startAfter stop keyPrefix reverse (some n)).params[
        (boundsOf start startAfter stop keyPrefix).length]? =
          some (.int (min n (2 ^ 63 - 1) : ℕ)) := by
      rw [listStatement_eq]
      simp
    have hcu (rows : List Entry) :
        cut rows (min n (2 ^ 63 - 1) : ℕ) = rows.take (min n (2 ^ 63 - 1)) := by
      rw [cut, if_neg (Int.not_lt.2 (Int.natCast_nonneg _)), Int.toNat_natCast]
    simp only [listSelect, map_some, Nat.add_sub_cancel, hp]
    exact congrArg some (hcu _)

variable {start startAfter stop keyPrefix limit}

/-- **They are the list that was asked for**, if the prefix has no U+0000 and the table fewer rows
than a limit can say. -/
theorem selected_eq_listed {entries : Entries} (hnu : ∀ val ∈ keyPrefix, nul ∉ val.toList)
    (hro : entries.rows.length < 2 ^ 63) :
    selected start startAfter stop keyPrefix reverse limit entries =
      listed start startAfter stop keyPrefix reverse limit entries := by
  have hf : (entries.rows.filter fun entry =>
      (boundsOf start startAfter stop keyPrefix).all (Bound.holds entry.1)) =
      entries.rows.filter fun entry => InRange start startAfter stop keyPrefix entry.1 := by
    refine filter_congr fun entry _ => ?_
    exact Bool.eq_iff_iff.2 ((all_bounds_iff hnu entry.1).trans decide_eq_true_iff.symm)
  rw [selected, hf]
  cases limit with
  | none => rfl
  | some n =>
    change (inOrder start startAfter stop keyPrefix reverse entries).take _ =
      (inOrder start startAfter stop keyPrefix reverse entries).take n
    have hl : (inOrder start startAfter stop keyPrefix reverse entries).length < 2 ^ 63 := by
      refine lt_of_le_of_lt ?_ hro
      rw [inOrder]
      split
      · rw [length_reverse]
        exact length_filter_le ..
      · exact length_filter_le ..
    rcases Nat.le_total n (2 ^ 63 - 1) with hn | hn
    · rw [Nat.min_eq_left hn]
    · rw [Nat.min_eq_right hn, take_of_length_le (Nat.le_sub_one_of_lt hl),
        take_of_length_le ((Nat.le_sub_one_of_lt hl).trans hn)]

/-- A prefix with U+0000 selects nothing. -/
theorem selected_of_nul {val : String} (hval : val ∈ keyPrefix) (hnu : nul ∈ val.toList)
    (entries : Entries) :
    selected start startAfter stop keyPrefix reverse limit entries = [] := by
  have hm : Bound.starts val ∈ boundsOf start startAfter stop keyPrefix := by
    rw [mem_def.1 hval]
    simp [boundsOf]
  have hf : (entries.rows.filter fun entry =>
      (boundsOf start startAfter stop keyPrefix).all (Bound.holds entry.1)) = [] := by
    refine filter_eq_nil_iff.2 fun entry _ hall => ?_
    exact absurd (List.all_eq_true.1 hall _ hm) (by simp [Bound.holds, startsWith_of_nul hnu])
  rw [selected, hf]
  cases limit <;> simp

end List

end OpenWorkersRunner.D1.Sqlite
