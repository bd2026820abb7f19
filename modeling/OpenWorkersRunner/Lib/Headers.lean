import OpenWorkersRunner.Lib.Text
import Mathlib.Data.Set.Insert
import Mathlib.Logic.Function.Basic

/-!
# Header maps, and what two of them have in common

An HTTP header map gives each name, in lower case, its values in order.  `AgreeOff hidden` is that
two maps have the same values under every name outside `hidden`: it is what a two-run statement
about a program that edits headers carries from one edit to the next.
-/

def Headers := Text → List Text

namespace Headers

def get (h : Headers) (name : Text) : Option Text := (h name).head?

def insert (h : Headers) (name value : Text) : Headers := Function.update h name [value]

def removeAll (h : Headers) (names : List Text) : Headers :=
  fun name => if name ∈ names then [] else h name

def ofLines (lines : List (Text × Text)) : Headers :=
  fun name => (lines.filter (·.1 = name)).map Prod.snd

@[simp] theorem insert_self (h : Headers) (name val : Text) :
    h.insert name val name = [val] :=
  Function.update_self ..

variable {name : Text}

@[simp] theorem insert_of_ne {other : Text} (h : Headers) (val : Text) (hne : other ≠ name) :
    h.insert name val other = h other :=
  Function.update_of_ne hne ..

@[simp] theorem removeAll_of_mem {names : List Text} (h : Headers) (hn : name ∈ names) :
    h.removeAll names name = [] :=
  if_pos hn

@[simp] theorem removeAll_of_not_mem {names : List Text} (h : Headers) (hn : name ∉ names) :
    h.removeAll names name = h name :=
  if_neg hn

def AgreeOff (hidden : Set Text) (h₁ h₂ : Headers) : Prop :=
  ∀ name, name ∉ hidden → h₁ name = h₂ name

namespace AgreeOff

variable {hidden : Set Text} {h₁ h₂ : Headers}

theorem insert (h : AgreeOff hidden h₁ h₂) (name val : Text) :
    AgreeOff hidden (h₁.insert name val) (h₂.insert name val) := by
  intro other ho
  by_cases hn : other = name
  · simp [hn]
  · simp [hn, h other ho]

theorem insert_hidden (h : AgreeOff hidden h₁ h₂) {name : Text} (hn : name ∈ hidden)
    (value1 value2 : Text) : AgreeOff hidden (h₁.insert name value1) (h₂.insert name value2) := by
  intro other ho
  have hne : other ≠ name := fun heq => ho (heq ▸ hn)
  simp [hne, h other ho]

theorem removeAll {names : List Text} (h : AgreeOff ({name | name ∈ names} ∪ hidden) h₁ h₂) :
    AgreeOff hidden (h₁.removeAll names) (h₂.removeAll names) := by
  intro other ho
  by_cases hm : other ∈ names
  · simp [hm]
  · simp [hm, h other (by simp [hm, ho])]

end AgreeOff

end Headers
