import OpenWorkersRunner.D1.FilesStep

/-!
# D1: the directory of a namespace that was removed

`remove_namespace_files` deletes `objects/<namespace>/`.  A file comes there only with its
directory, and the one place that makes the directory is `run`, for a call that has its `Arc` of the
handle: a thread that restores or opens a file for a caller that is gone fails on the missing
directory.  So a namespace whose directory is gone stays `Cleared` as long as no call on it begins
(`Cleared.step`), and no call on it has an `Arc` from the moment `remove_namespace_files` has
looked at the table (`unheld_of_detach`).
-/

namespace OpenWorkersRunner.D1

variable {config : Config} {n : BitVec 128}

namespace State

variable {s t : State}

def Unheld (n : BitVec 128) (s : State) : Prop :=
  ∀ i c, s.calls i = some c → c.key.isOf n = true → c.holds = false

theorem Unheld.step {a : Act} (hs : s.Unheld n)
    (hsu : ∀ key victim now, a = .submit key victim now → key.isOf n = false)
    (h : s.step config a = some t) : t.Unheld n := by
  intro i c' hc' hk
  by_contra hhl
  rcases (step_of_eq h).call_before hc' with ⟨c, hc, hsa, -, hh⟩ | ⟨-, -, victim, now, rfl⟩
  · have hold := hs i c hc (hsa ▸ hk)
    rw [hh (by simpa using hhl)] at hold
    cases hold
  · rw [hsu _ victim now rfl] at hk
    cases hk

theorem unheld_of_detach (hs : (machine config).Reachable s) {p : Key → Bool} {a : Act}
    (hp : ∀ key, key.isOf n = true → p key = true) (hd : s.detach p = some t)
    (h : s.step config a = some t) : t.Unheld n := by
  intro i c hc hk
  by_contra hh
  have hen := placed_of_reach (Machine.Reach.step hs trivial h) i c hc (by simpa using hh)
  rw [lookup_of_detach hd (hp _ hk)] at hen
  cases hen

end State

namespace Files
namespace State

variable {s t : State}

def Avoids (n : BitVec 128) : Act → Prop
  | .service (.submit key _ _) => key.isOf n = false
  | _ => True

variable {a : Act}

theorem unheld_step (hs : s.service.Unheld n) (ha : Avoids n a) (h : s.Step config a t) :
    t.service.Unheld n := by
  cases h with
  | service hal heq =>
    refine hs.step (fun key victim now hac => ?_) heq
    subst hac
    exact ha
  | opening hc ho hcl h =>
    cases h with
    | learnOpened heq | learnFailed heq =>
      refine hs.step (fun key victim now hac => ?_) heq
      cases hac
    | _ => exact hs
  | @start work r hid har hd heq =>
    refine hs.step (fun key victim now hac => ?_) heq
    cases work <;> cases hac
  | upkeep hu h => cases h <;> exact hs
  | crash =>
    intro i c hc
    cases hc
  | _ => exact hs

structure Cleared (n : BitVec 128) (s : State) : Prop where
  directory : s.directories n = false
  files : ∀ name, name.key.isOf n = true → s.files.lookup name = none

namespace Cleared

theorem not_isOf (hs : s.Cleared n) {key : Key} (hd : s.hasDirectory key = true) :
    key.isOf n = false := by
  cases key with
  | database id => rfl
  | object m o =>
    by_contra hk
    obtain rfl : m = n := by simpa [Key.isOf] using hk
    exact absurd (hs.directory.symm.trans hd) (by decide)

theorem insert (hs : s.Cleared n) {name : Name} (hn : name.key.isOf n = false) (f : Nat)
    (hd : t.directories = s.directories)
    (hf : t.files = s.files.insert name f) : t.Cleared n := by
  refine ⟨hd ▸ hs.directory, fun other ho => ?_⟩
  rw [hf, AList.lookup_insert_ne]
  · exact hs.files other ho
  · rintro rfl
    rw [hn] at ho
    cases ho

theorem erase (hs : s.Cleared n) (name : Name) (hd : t.directories = s.directories)
    (hf : t.files = s.files.erase name) : t.Cleared n := by
  refine ⟨hd ▸ hs.directory, fun other ho => ?_⟩
  rw [hf]
  by_cases heq : other = name
  · rw [heq]
    exact AList.lookup_erase _ _
  · exact (AList.lookup_erase_ne heq).trans (hs.files other ho)

/-- An opening makes the directory only for a caller with an `Arc`, and a file only in its
directory. -/
theorem opening (hs : s.Cleared n) (hu : s.service.Unheld n) {i : Nat} {c : Call} {o : Opening}
    {a : OpenAct} (hc : s.service.calls i = some c)
    (hcl : o.isBlocking = true ∨ c.stage = .opening) (h : s.OpenStep config i c o a t) :
    t.Cleared n := by
  cases h with
  | createDirectory =>
    have hst := hcl.resolve_left (by decide)
    have hk : c.key.isOf n = false := by
      by_contra hk
      have := hu i c hc (by simpa using hk)
      rw [Call.holds, hst] at this
      cases this
    refine ⟨?_, hs.files⟩
    change (c.key.isOf n || s.directories n) = false
    rw [hk, hs.directory]
    rfl
  | write hd => exact hs.insert (hs.not_isOf hd) _ rfl rfl
  | connectNew hn hd => exact hs.insert (hs.not_isOf hd) _ rfl rfl
  | corrupt => exact hs.erase _ rfl rfl
  | renamed hf =>
    have hk : c.key.isOf n = false := by
      by_contra hk
      rw [State.file, hs.files _ (by simpa using hk)] at hf
      cases hf
    have hs' : (s.remove ⟨c.key, .restoreScratch⟩).Cleared n := hs.erase _ rfl rfl
    exact hs'.insert hk _ rfl rfl
  | _ => exact ⟨hs.directory, hs.files⟩

/-- **What a step keeps.** -/
theorem step {a : Act} (hs : s.Cleared n) (hun : s.service.Unheld n) (h : s.Step config a t) :
    t.Cleared n := by
  cases h with
  | opening hc ho hcl h => exact hs.opening hun hc hcl h
  | makeBeside hm hsu hd hno => exact hs.insert (hs.not_isOf hd) _ rfl rfl
  | unlink h => exact hs.erase _ rfl rfl
  | upkeep hu h =>
    cases h with
    | next | entry => exact hs.erase _ rfl rfl
    | @emptied m hw hem =>
      refine ⟨?_, hs.files⟩
      by_cases hm : n = m
      · rw [hm]
        exact Function.update_self ..
      · exact (Function.update_of_ne hm _ _).trans hs.directory
    | _ => exact ⟨hs.directory, hs.files⟩
  | crash =>
    refine ⟨hs.directory, fun name hn => ?_⟩
    rw [Option.eq_none_iff_forall_ne_some]
    intro f hf
    have hold := (AList.lookup_retain_eq_some.1 hf).1
    rw [hs.files name hn] at hold
    cases hold
  | _ => exact ⟨hs.directory, hs.files⟩

end Cleared

theorem Step.upkeep_before (h : s.Step config a t) {u' : Upkeep} (hu' : t.upkeep = some u') :
    (∃ u, s.upkeep = some u ∧ u.work = u'.work) ∨
      a = .upkeep (.start u'.work) ∧ s.service.detach u'.work.covers = some t.service ∧
        s.service.step config u'.work.act = some t.service := by
  cases h with
  | opening hc ho hcl h => cases h <;> exact .inl ⟨u', hu', rfl⟩
  | start hid ha hd heq =>
    cases hu'
    exact .inr ⟨rfl, hd, heq⟩
  | upkeep hu h =>
    cases h with
    | fails | done | emptied => cases hu'
    | _ =>
      cases hu'
      exact .inl ⟨_, hu, rfl⟩
  | refused | crash => cases hu'
  | _ => exact .inl ⟨u', hu', rfl⟩

def Removed (n : BitVec 128) (s : State) : Prop :=
  ∃ o ∈ s.outcomes, o.work = .removeNamespace n ∧ o.answer = .removed true

/-- **It answers true when the directory is gone**, or has done so before. -/
theorem Step.removed (h : s.Step config a t) (ht : t.Removed n) :
    s.Removed n ∨ ∃ u, s.upkeep = some u ∧ u.work = .removeNamespace n ∧
      t.service = s.service ∧ t.Cleared n := by
  obtain ⟨o, ho, hw, ha⟩ := ht
  -- what a call returns is the last outcome
  have hl : ∀ {r : State} {work : Work} {taken : List Name} {ans : Answer},
      o ∈ (r.answer work taken ans).outcomes → o ∈ r.outcomes ∨
        work = .removeNamespace n ∧ ans = .removed true := by
    intro r work taken ans hm
    refine (List.mem_append.1 hm).imp_right fun hm => ?_
    obtain rfl := List.mem_singleton.1 hm
    exact ⟨hw, ha⟩
  cases h with
  | opening hc ho' hcl h => cases h <;> exact .inl ⟨o, ho, hw, ha⟩
  | refused hid hfa =>
    rcases hl ho with hold | ⟨-, rfl⟩
    · exact .inl ⟨o, hold, hw, ha⟩
    · cases hfa
  | @upkeep u a t hu h =>
    cases h with
    | fails error hfa =>
      rcases hl ho with hold | ⟨-, rfl⟩
      · exact .inl ⟨o, hold, hw, ha⟩
      · cases hfa
    | done hw' hto hd =>
      rcases hl ho with hold | ⟨heq, -⟩
      · exact .inl ⟨o, hold, hw, ha⟩
      · rcases hw' with hw' | hw' <;> cases hw'.symm.trans heq
    | @emptied m hw' hem =>
      rcases hl ho with hold | ⟨heq, -⟩
      · exact .inl ⟨o, hold, hw, ha⟩
      · obtain rfl : m = n := Work.removeNamespace.inj (hw'.symm.trans heq)
        refine .inr ⟨u, hu, hw', rfl, Function.update_self .., fun name hn => ?_⟩
        rw [Option.eq_none_iff_forall_ne_some]
        intro f hf
        have := hem name f hf
        rw [hn] at this
        cases this
    | _ => exact .inl ⟨o, ho, hw, ha⟩
  | crash => cases ho
  | _ => exact .inl ⟨o, ho, hw, ha⟩

end State
end Files
end OpenWorkersRunner.D1
