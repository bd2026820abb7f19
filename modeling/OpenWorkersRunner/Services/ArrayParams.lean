import Mathlib.Data.List.Forall2
import OpenWorkersRunner.D1.Sqlite

/-!
# Array parameters (`services/database.rs`)

`bind_sql_param` binds an array as a vector of one type, that of its first element that is not
`Null`.  The other kinds are not refused: each of the five tables makes something else of them.
-/

namespace OpenWorkersRunner.ArrayParams

open D1.Sqlite (SqlPrimitive)
open List

/-! ## Numbers as `f64` -/

def natAsF64 (m : ℕ) : ℕ :=
  let e := m.log2
  if e ≤ 52 then (e + 1022) * 2 ^ 52 + m * 2 ^ (52 - e)
  else
    let unit := 2 ^ (e - 52)
    let (q, r) := (m / unit, m % unit)
    let up := decide (unit < 2 * r) || (2 * r == unit && q % 2 == 1)
    (e + 1022) * 2 ^ 52 + q + up.toNat

/-- `i as f64`. -/
def asF64 (i : Int) : UInt64 :=
  if i = 0 then 0
  else UInt64.ofNat (natAsF64 i.natAbs + if i < 0 then 2 ^ 63 else 0)

def f64Int? (bits : UInt64) : Option Int :=
  let sign : Int := if bits.toNat < 2 ^ 63 then 1 else -1
  let exponent := bits.toNat / 2 ^ 52 % 2 ^ 11
  let mantissa : ℕ := bits.toNat % 2 ^ 52 + 2 ^ 52
  if bits.toNat % 2 ^ 63 = 0 then some 0
  else if exponent = 0 ∨ exponent = 2047 then none
  else if 1075 ≤ exponent then some (sign * (mantissa * 2 ^ (exponent - 1075) : ℕ))
  else if mantissa % 2 ^ (1075 - exponent) = 0 then
    some (sign * (mantissa / 2 ^ (1075 - exponent) : ℕ))
  else none

example : f64Int? (asF64 (-7)) = some (-7) ∧
    f64Int? (asF64 9007199254740993) = some 9007199254740992 := by decide

/-! ## Binding -/

inductive Values
  | bool (values : List (Option Bool))
  | int (values : List (Option Int))
  | float (values : List (Option UInt64))
  | bytes (values : List (Option (List UInt8)))
  | string (values : List (Option String))
deriving DecidableEq

inductive Kind
  | bool
  | int
  | float
  | string
  | bytes
deriving DecidableEq

def kind : SqlPrimitive → Option Kind
  | .null => none
  | .bool _ => some .bool
  | .int _ => some .int
  | .float _ => some .float
  | .string _ => some .string
  | .bytes _ => some .bytes

def firstType (arr : List SqlPrimitive) : Option Kind := arr.findSome? kind

def debug (debugFloat : UInt64 → String) (debugString : String → String) : SqlPrimitive → String
  | .null => "Null"
  | .bool b => "Bool(" ++ toString b ++ ")"
  | .int i => "Int(" ++ toString i ++ ")"
  | .float f => "Float(" ++ debugFloat f ++ ")"
  | .string s => "String(" ++ debugString s ++ ")"
  | .bytes b => "Bytes([" ++ ", ".intercalate (b.map toString) ++ "])"

def toBool : SqlPrimitive → Option Bool
  | .bool b => some b
  | _ => none

def toInt : SqlPrimitive → Option Int
  | .int i => some i
  | _ => none

def toFloat : SqlPrimitive → Option UInt64
  | .float f => some f
  | .int i => some (asF64 i)
  | _ => none

def toBytes : SqlPrimitive → Option (List UInt8)
  | .bytes b => some b
  | _ => none

def toText (debug : SqlPrimitive → String) : SqlPrimitive → Option String
  | .string s => some s
  | .null => none
  | p => some (debug p)

def bindArray (debug : SqlPrimitive → String) (arr : List SqlPrimitive) : Values :=
  match firstType arr with
  | some .bool => .bool (arr.map toBool)
  | some .int => .int (arr.map toInt)
  | some .float => .float (arr.map toFloat)
  | some .bytes => .bytes (arr.map toBytes)
  | some .string | none => .string (arr.map (toText debug))

/-! ## What is kept -/

def Values.cells : Values → List SqlPrimitive
  | .bool values => values.map (·.elim .null .bool)
  | .int values => values.map (·.elim .null .int)
  | .float values => values.map (·.elim .null .float)
  | .bytes values => values.map (·.elim .null .bytes)
  | .string values => values.map (·.elim .null .string)

inductive Same : SqlPrimitive → SqlPrimitive → Prop
  | rfl (p : SqlPrimitive) : Same p p
  | number {i : Int} {bits : UInt64} (h : f64Int? bits = some i) : Same (.int i) (.float bits)

def Kept (arr : List SqlPrimitive) (values : Values) : Prop := Forall₂ Same arr values.cells

/-- The elements that the table of a type keeps: its own, and integers that an `f64` can be. -/
def takes : Option Kind → SqlPrimitive → Bool
  | _, .null => true
  | some .float, .int i => f64Int? (asF64 i) == some i
  | some k, p => kind p == some k
  | none, _ => false

theorem same_iff {p q : SqlPrimitive} :
    Same p q ↔ p = q ∨ ∃ i bits, p = .int i ∧ q = .float bits ∧ f64Int? bits = some i := by
  constructor
  · rintro (_ | h)
    · exact .inl rfl
    · exact .inr ⟨_, _, rfl, rfl, h⟩
  · rintro (rfl | ⟨i, bits, rfl, rfl, h⟩)
    · exact .rfl _
    · exact .number h

theorem forall₂_same_map {f : SqlPrimitive → SqlPrimitive} {arr : List SqlPrimitive} :
    Forall₂ Same arr (arr.map f) ↔ ∀ p ∈ arr, Same p (f p) := by
  rw [forall₂_map_right_iff, forall₂_same]

theorem eq_null_of_firstType {arr : List SqlPrimitive} (h : firstType arr = none)
    {p : SqlPrimitive} (hp : p ∈ arr) : p = .null := by
  have hk : kind p = none := findSome?_eq_none_iff.1 h p hp
  cases p with
  | null => rfl
  | bool | int | float | string | bytes => cases hk

/-- **When an array keeps its values**: exactly when all its elements are of the type of the first,
integers beside a float apart that an `f64` can be. -/
theorem array_kept_iff (debug : SqlPrimitive → String) (arr : List SqlPrimitive) :
    Kept arr (bindArray debug arr) ↔ ∀ p ∈ arr, takes (firstType arr) p = true := by
  rw [Kept, bindArray]
  cases hfirst : firstType arr with
  | none =>
    rw [Values.cells, map_map, forall₂_same_map]
    refine forall₂_congr fun p hp => ?_
    obtain rfl := eq_null_of_firstType hfirst hp
    simp [same_iff, takes, toText]
  | some k =>
    cases k <;> rw [Values.cells, map_map, forall₂_same_map] <;>
      refine forall₂_congr fun p _ => ?_ <;>
      cases p <;> simp [same_iff, takes, kind, toBool, toInt, toFloat, toBytes, toText]

/-- **Mixed arrays lose values**: an integer first makes a text `NULL`, a text first makes an
integer its debug text, and a float first rounds an integer. -/
theorem array_mixed_lost :
    bindArray (debug (fun _ => "") id) [.int 1, .string "a"] = .int [some 1, none] ∧
      bindArray (debug (fun _ => "") id) [.string "a", .int 1] =
        .string [some "a", some "Int(1)"] ∧
      ¬ Kept [.int 1, .string "a"] (.int [some 1, none]) ∧
      ¬ Kept [.string "a", .int 1] (.string [some "a", some "Int(1)"]) ∧
      takes (some .float) (.int 9007199254740993) = false := by
  refine ⟨by decide, by decide, fun h => ?_, fun h => ?_, by decide⟩
  · simp [Kept, Values.cells, same_iff] at h
  · simp [Kept, Values.cells, same_iff] at h

end OpenWorkersRunner.ArrayParams
