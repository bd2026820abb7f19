import OpenWorkersRunner.Ingress.Hosts
import OpenWorkersRunner.Lib.Uuid

/-!
# The worker domains, and their order

`worker_route` takes the first domain under which a host is, and tests the label before it
afterwards.  With one domain below another the first one found can be the wrong one:
`a.workers.rocks` is under `rocks` and under `workers.rocks`, and only the second leaves a single
label (`route_lost_under_shorter_domain`).
-/

namespace OpenWorkersRunner.Ingress

open List Text Option

def Under (host name domain : Text) : Prop := host = name ++ dot :: domain

def Labelled (host name domain : Text) : Prop :=
  Under host name domain ∧ name ≠ [] ∧ dot ∉ name

def Apart (domains : List Text) : Prop :=
  ∀ d ∈ domains, ∀ d' ∈ domains, ¬ dot :: d <:+ d'

def routeHeader (name : Text) : Text :=
  if (Uuid.parseStr name).isSome then xWorkerId else xWorkerName

/-! ## The name that is found -/

variable {host name d : Text} {domains : List Text}

theorem strip_eq_some {domain : Text} :
    ((domain.isSuffixOf? host).bind fun rest => List.isSuffixOf? [dot] rest) = some name ↔
      Under host name domain := by
  simp only [bind_eq_some_iff, isSuffixOf?_eq_some_iff_append_eq, Under]
  constructor
  · rintro ⟨rest, rfl, rfl⟩
    simp
  · rintro rfl
    exact ⟨name ++ [dot], by simp, rfl⟩

theorem under_of_nameUnder (h : nameUnder host domains = some name) :
    ∃ d ∈ domains, Under host name d := by
  obtain ⟨d, hd, hn⟩ := exists_of_findSome?_eq_some h
  exact ⟨d, hd, strip_eq_some.1 hn⟩

theorem nameUnder_isSome (hd : d ∈ domains) (h : Under host name d) :
    (nameUnder host domains).isSome = true :=
  findSome?_isSome_iff.2 ⟨d, hd, by rw [strip_eq_some.2 h]; rfl⟩

theorem workerRoute_eq_some {hdr : Text} :
    workerRoute Uuid.parseStr host domains = some (hdr, name) ↔
      nameUnder host domains = some name ∧ name ≠ [] ∧ dot ∉ name ∧ hdr = routeHeader name := by
  rw [workerRoute]
  cases hn : nameUnder host domains with
  | none => simp
  | some found =>
    by_cases hl : found = [] ∨ dot ∈ found
    · simp only [hl, if_true, some.injEq, reduceCtorEq, false_iff, not_and]
      rintro rfl hne hd -
      exact hl.elim hne hd
    · have hro : (if (Uuid.parseStr found).isSome then some (xWorkerId, found)
          else some (xWorkerName, found)) = some (routeHeader found, found) := by
        rw [routeHeader]
        split <;> rfl
      simp only [hl, if_false, hro, some.injEq, Prod.mk.injEq]
      rw [not_or] at hl
      constructor
      · rintro ⟨rfl, rfl⟩
        exact ⟨rfl, hl.1, hl.2, rfl⟩
      · rintro ⟨rfl, -, -, rfl⟩
        exact ⟨rfl, rfl⟩

/-! ## One domain at most -/

theorem Under.suffix {host name name' d d' : Text} (h : Under host name d)
    (h' : Under host name' d') (hlt : d.length < d'.length) : dot :: d <:+ d' := by
  have hd : dot :: d <:+ host := ⟨name, h.symm⟩
  have hd' : d' <:+ host := ⟨name' ++ [dot], by rw [h']; simp⟩
  exact suffix_of_suffix_length_le hd hd' hlt

theorem Under.name_eq {name' : Text} (h : Under host name d) (h' : Under host name' d) :
    name = name' :=
  append_cancel_right (h.symm.trans h')

/-- **A host is under one domain at most**, and has one name there. -/
theorem Apart.unique (h : Apart domains) {name' d' : Text} (hd : d ∈ domains) (hd' : d' ∈ domains)
    (hu : Under host name d) (hu' : Under host name' d') : d = d' ∧ name = name' := by
  have heq : d = d' := by
    rcases Nat.lt_trichotomy d.length d'.length with hlt | hl | hlt
    · exact absurd (hu.suffix hu' hlt) (h d hd d' hd')
    · have hs : d <:+ host := ⟨name ++ [dot], by rw [hu]; simp⟩
      have hs' : d' <:+ host := ⟨name' ++ [dot], by rw [hu']; simp⟩
      exact (suffix_of_suffix_length_le hs hs' (Nat.le_of_eq hl)).eq_of_length hl
    · exact absurd (hu'.suffix hu hlt) (h d' hd' d hd)
  subst heq
  exact ⟨rfl, hu.name_eq hu'⟩

theorem Apart.perm {domains' : List Text} (h : Apart domains) (hp : domains'.Perm domains) :
    Apart domains' :=
  fun d hd d' hd' => h d (hp.mem_iff.1 hd) d' (hp.mem_iff.1 hd')

theorem Apart.isSome_workerRoute (h : Apart domains) (host : Text) :
    (workerRoute Uuid.parseStr host domains).isSome = true ↔
      ∃ d ∈ domains, ∃ name, Labelled host name d := by
  constructor
  · intro hro
    obtain ⟨⟨hdr, name⟩, hso⟩ := isSome_iff_exists.1 hro
    obtain ⟨hn, hne, hdo, -⟩ := workerRoute_eq_some.1 hso
    obtain ⟨d, hd, hu⟩ := under_of_nameUnder hn
    exact ⟨d, hd, name, hu, hne, hdo⟩
  · rintro ⟨d, hd, name, hu, hne, hdo⟩
    obtain ⟨found, hf⟩ := isSome_iff_exists.1 (nameUnder_isSome hd hu)
    obtain ⟨d', hd', hu'⟩ := under_of_nameUnder hf
    obtain ⟨-, rfl⟩ := h.unique hd hd' hu hu'
    have hro := workerRoute_eq_some.2 ⟨hf, hne, hdo, rfl⟩
    rw [hro]
    rfl

theorem Apart.isSome_perm {domains' : List Text} (h : Apart domains) (hp : domains'.Perm domains)
    (host : Text) :
    (workerRoute Uuid.parseStr host domains').isSome =
      (workerRoute Uuid.parseStr host domains).isSome := by
  rw [Bool.eq_iff_iff, (h.perm hp).isSome_workerRoute host, h.isSome_workerRoute host]
  exact exists_congr fun d => and_congr_left fun _ => hp.mem_iff

/-- **`worker_route` is exact and independent of the order**, when no domain is below another: a
route is given exactly for a host that is a label under a domain; its name is that label, and its
header is `x-worker-id` exactly for a UUID; and the order of the domains does not matter. -/
theorem worker_route_exact {domains : List Text} (h : Apart domains) (host : Text) :
    ((workerRoute Uuid.parseStr host domains).isSome = true ↔
      ∃ d ∈ domains, ∃ name, Labelled host name d) ∧
    (∀ header name, workerRoute Uuid.parseStr host domains = some (header, name) →
      (∃ d ∈ domains, Labelled host name d) ∧ (header = xWorkerId ∨ header = xWorkerName) ∧
        (header = xWorkerId ↔ (Uuid.parseStr name).isSome = true)) ∧
    ∀ domains', domains'.Perm domains → (workerRoute Uuid.parseStr host domains').isSome =
        (workerRoute Uuid.parseStr host domains).isSome := by
  refine ⟨h.isSome_workerRoute host, fun header name hroute => ?_,
    fun domains' hperm => h.isSome_perm hperm host⟩
  obtain ⟨hname, hne, hdot, rfl⟩ := workerRoute_eq_some.mp hroute
  obtain ⟨d, hd, hund⟩ := under_of_nameUnder hname
  have hhead : xWorkerName ≠ xWorkerId := by decide
  refine ⟨⟨d, hd, hund, hne, hdot⟩, ?_⟩
  rw [routeHeader]
  cases (Uuid.parseStr name).isSome with
  | true => exact ⟨.inl rfl, iff_of_true rfl rfl⟩
  | false => exact ⟨.inr rfl, iff_of_false hhead Bool.false_ne_true⟩

def sideBySide : List Text := [ascii "workers.rocks", ascii "workers.dev"]

theorem worker_route_exact_side_by_side :
    Apart sideBySide ∧ (∃ d ∈ sideBySide, ∃ name, Labelled (ascii "a.workers.dev") name d) ∧
      (workerRoute Uuid.parseStr (ascii "a.workers.dev") sideBySide.reverse).isSome =
        (workerRoute Uuid.parseStr (ascii "a.workers.dev") sideBySide).isSome := by
  have hapart : Apart sideBySide := by
    have hall : (sideBySide.all fun d => sideBySide.all fun d' =>
        !(dot :: d).isSuffixOf d') = true := by decide
    intro d hd d' hd' hsuf
    have hnot := all_eq_true.mp (all_eq_true.mp hall d hd) d' hd'
    rw [isSuffixOf_iff_suffix.mpr hsuf] at hnot
    cases hnot
  obtain ⟨hexact, -, hperm⟩ := worker_route_exact hapart (ascii "a.workers.dev")
  exact ⟨hapart, hexact.mp (by decide), hperm _ (reverse_perm _)⟩

theorem route_lost_under_shorter_domain :
    ∃ (host d : Text) (domains domains' : List Text), d ∈ domains ∧ Labelled host (ascii "a") d ∧
      workerRoute Uuid.parseStr host domains = none ∧ domains'.Perm domains ∧
      workerRoute Uuid.parseStr host domains' = some (xWorkerName, ascii "a") :=
  ⟨ascii "a.workers.rocks", ascii "workers.rocks", [ascii "rocks", ascii "workers.rocks"],
    [ascii "workers.rocks", ascii "rocks"], by simp,
    ⟨by unfold Under; decide, by decide, by decide⟩, by decide,
    List.Perm.swap _ _ _, by decide⟩

/-! ## When the order never matters -/

theorem nameUnder_cons (h : Under host name d) (domains : List Text) :
    nameUnder host (d :: domains) = some name := by
  rw [nameUnder, findSome?_cons, strip_eq_some.2 h]

theorem perm_of_below {d' : Text} (hd : d ∈ domains) (hd' : d' ∈ domains) (h : dot :: d <:+ d') :
    ∃ rest, domains.Perm (d :: d' :: rest) := by
  have hne : d' ≠ d := by
    rintro rfl
    have hl := h.length_le
    rw [length_cons] at hl
    omega
  refine ⟨(domains.erase d).erase d', (perm_cons_erase hd).trans (List.Perm.cons d ?_)⟩
  exact perm_cons_erase ((mem_erase_of_ne hne).2 hd')

/-- **The order of the domains never matters exactly when none is below another.** -/
theorem order_never_matters_iff (domains : List Text) :
    (∀ host domains', domains'.Perm domains → (workerRoute Uuid.parseStr host domains').isSome =
        (workerRoute Uuid.parseStr host domains).isSome) ↔ Apart domains := by
  constructor
  · intro ho d hd d' hd' hbe
    obtain ⟨rest, hp⟩ := perm_of_below hd hd' hbe
    obtain ⟨front, rfl⟩ := hbe
    -- a label under the longer domain has a route when that one is first, and none after the other
    have hl : Under ('a'.toUInt8 :: dot :: (front ++ dot :: d)) ['a'.toUInt8]
        (front ++ dot :: d) := rfl
    have hsh : Under ('a'.toUInt8 :: dot :: (front ++ dot :: d))
        ('a'.toUInt8 :: dot :: front) d := rfl
    have hso := workerRoute_eq_some.mpr
      ⟨nameUnder_cons hl (d :: rest), cons_ne_nil _ _, by decide, rfl⟩
    have hn : workerRoute Uuid.parseStr ('a'.toUInt8 :: dot :: (front ++ dot :: d))
        (d :: (front ++ dot :: d) :: rest) = none := by
      rw [workerRoute, nameUnder_cons hsh]
      exact if_pos (.inr (by simp))
    have hf := ho ('a'.toUInt8 :: dot :: (front ++ dot :: d)) _ ((List.Perm.swap _ _ rest).trans
      hp.symm)
    rw [← ho _ _ hp.symm, hn, hso] at hf
    cases hf
  · intro h host domains' hp
    exact h.isSome_perm hp host

end OpenWorkersRunner.Ingress
