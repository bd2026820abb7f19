import OpenWorkersRunner.Lib.Headers

/-!
# The hosts of public requests (`ingress.rs`)

How the runner reads a Host header, and which worker a host names under a worker domain.
-/

namespace OpenWorkersRunner.Ingress

open List Text

def dot : UInt8 := '.'.toUInt8

def atSign : UInt8 := '@'.toUInt8

def colon : UInt8 := ':'.toUInt8

/-! ## Configured hosts -/

/-- A host as the configuration keeps it, and `host` gives it: without final dots, in lower
case. -/
def normalHost (t : Text) : Text := (trimEnd t dot).map lower

def items (value : Text) : List Text :=
  ((value.splitOn ','.toUInt8).map fun item => normalHost (trim item)).filter fun item =>
    !item.isEmpty

/-- `list`. -/
def list (value : Option Text) (default : Text) : List Text := items (value.getD default)

structure IsDomain (domain : Text) : Prop where
  ne_nil : domain ≠ []
  undotted : ¬ [dot] <:+ domain

theorem not_dot_suffix_normalHost (t : Text) : ¬ [dot] <:+ normalHost t := by
  rintro ⟨front, hf⟩
  obtain ⟨kept, last, hsp, -, hl⟩ := map_eq_append_iff.1 hf.symm
  obtain ⟨b, rfl, hb⟩ := map_eq_singleton_iff.1 hl
  have hne : trimEnd t dot ≠ [] := by simp [hsp]
  have hk := rdropWhile_last_not (· == dot) t hne
  have hbd : b = dot := eq_of_lower_eq (by decide) hb
  simp only [trimEnd] at hsp
  simp [hsp, hbd] at hk

theorem isDomain_of_mem_items {val domain : Text} (h : domain ∈ items val) :
    IsDomain domain := by
  simp only [items, mem_filter, mem_map] at h
  obtain ⟨⟨item, -, rfl⟩, hne⟩ := h
  exact ⟨by simpa using hne, not_dot_suffix_normalHost _⟩

/-! ## The worker that a host names -/

def nameUnder (host : Text) (domains : List Text) : Option Text :=
  domains.findSome? fun domain =>
    (domain.isSuffixOf? host).bind fun rest => List.isSuffixOf? [dot] rest

def xWorkerId : Text := ascii "x-worker-id"

def xWorkerName : Text := ascii "x-worker-name"

def workerRoute {Uuid : Type} (parseUuid : Text → Option Uuid) (host : Text)
    (domains : List Text) : Option (Text × Text) :=
  match nameUnder host domains with
  | none => none
  | some name =>
    if name = [] ∨ dot ∈ name then none
    else if (parseUuid name).isSome then some (xWorkerId, name)
    else some (xWorkerName, name)

/-! ## Authorities -/

def isDigit (b : UInt8) : Bool := 48 ≤ b.toNat && b.toNat ≤ 57

/-- What may stand for the host in an authority, and how many dots may follow it that are not part
of it: a name, whose final dots are its own, or an address in brackets. -/
inductive IsHost : Text → ℕ → Prop
  | name {t : Text} : atSign ∉ t → colon ∉ t → '['.toUInt8 ∉ t → IsHost t 0
  | bracketed {t : Text} (dots : ℕ) : atSign ∉ t → ']'.toUInt8 ∉ t →
      IsHost ('['.toUInt8 :: t ++ [']'.toUInt8]) dots

structure Authority where
  userinfo : Option Text
  host : Text
  dots : ℕ
  port : Option Text
  isHost : IsHost host dots
  digits : (port.getD []).all isDigit = true

def Authority.tail (a : Authority) : Text :=
  List.replicate a.dots dot ++ (a.port.map (colon :: ·)).getD []

def Authority.text (a : Authority) : Text :=
  (a.userinfo.map (· ++ [atSign])).getD [] ++ (a.host ++ a.tail)

/-- What the runner uses of the `http` crate: the parser of authorities, and the host of one. -/
structure AuthorityParser where
  parse : Text → Option Text
  parse_text : ∀ (a : Authority) (host : Text), parse a.text = some host → host = a.host

def isVisible (b : UInt8) : Bool := (32 ≤ b.toNat && b.toNat < 127) || b == 9

/-- The bytes that `HeaderValue::from_str` takes: all but the control characters and DEL, and the
tab.  `to_str` takes visible ASCII alone. -/
def isHeaderByte (b : UInt8) : Bool := (32 ≤ b.toNat && b.toNat != 127) || b == 9

def headerValue (headerByte : UInt8 → Bool) (value : Text) : Option Text :=
  if value.all headerByte then some value else none

def toStr (value : Text) : Option Text := if value.all isVisible then some value else none

def hostHeader : Text := ascii "host"

def hostOf (P : AuthorityParser) (value : Text) : Option Text :=
  ((toStr value).bind P.parse).bind fun host =>
    if normalHost host = [] then none else some (normalHost host)

/-- `host`. -/
def host (P : AuthorityParser) (headers : Headers) : Option Text :=
  (headers.get hostHeader).bind (hostOf P)

/-- Two values of the Host header that spell one host: written out as authorities, their hosts
differ in case and final dots only. -/
structure SameHost (P : AuthorityParser) (value₁ value₂ : Text) : Prop where
  parses₁ : ((toStr value₁).bind P.parse).isSome
  parses₂ : ((toStr value₂).bind P.parse).isSome
  written : ∃ a₁ a₂ : Authority, value₁ = a₁.text ∧ value₂ = a₂.text ∧
    normalHost a₁.host = normalHost a₂.host

theorem hostOf_text (P : AuthorityParser) (a : Authority)
    (h : ((toStr a.text).bind P.parse).isSome) :
    hostOf P a.text = if normalHost a.host = [] then none else some (normalHost a.host) := by
  obtain ⟨host, hhost⟩ := Option.isSome_iff_exists.1 h
  obtain ⟨val, hv, hparse⟩ := Option.bind_eq_some_iff.1 hhost
  have ht : val = a.text := by
    rw [toStr] at hv
    split at hv
    · exact (Option.some.inj hv).symm
    · cases hv
  subst ht
  rw [hostOf, hhost, P.parse_text a host hparse]
  rfl

theorem SameHost.hostOf_eq {P : AuthorityParser} {value1 value2 : Text}
    (h : SameHost P value1 value2) : hostOf P value1 = hostOf P value2 := by
  obtain ⟨a1, a2, rfl, rfl, hh⟩ := h.written
  rw [hostOf_text P a1 h.parses₁, hostOf_text P a2 h.parses₂, hh]

/-! ## A parser of authorities -/

def lenientHost (t : Text) : Text :=
  let rest := t.rtakeWhile (· != atSign)
  if rest.head? = some '['.toUInt8 then rest.takeWhile (· != ']'.toUInt8) ++ [']'.toUInt8]
  else rest.takeWhile (· != colon)

theorem IsHost.no_at_sign {t : Text} {dots : ℕ} (h : IsHost t dots) : atSign ∉ t := by
  cases h with
  | name ha => exact ha
  | bracketed dots ha =>
    have ho : atSign ≠ '['.toUInt8 := by decide
    have hcl : atSign ≠ ']'.toUInt8 := by decide
    simp [ho, hcl, ha]

theorem Authority.no_at_sign_tail (a : Authority) : atSign ∉ a.tail := by
  have hd : atSign ≠ dot := by decide
  rw [tail, mem_append, not_or]
  refine ⟨by simp [hd], ?_⟩
  cases hp : a.port with
  | none => simp
  | some port =>
    have hco : atSign ≠ colon := by decide
    have hdi : atSign ∉ port := by
      intro hm
      have ha : port.all isDigit = true := by simpa [hp] using a.digits
      exact absurd (all_eq_true.1 ha atSign hm) (by decide)
    simp [hco, hdi]

theorem Authority.rtakeWhile_text (a : Authority) :
    a.text.rtakeWhile (· != atSign) = a.host ++ a.tail := by
  have ha : ∀ b ∈ (a.host ++ a.tail).reverse, (b != atSign) = true := by
    intro b hb
    have hn : atSign ∉ a.host ++ a.tail := by
      simp [a.isHost.no_at_sign, a.no_at_sign_tail]
    simpa using fun heq : b = atSign => hn (heq ▸ mem_reverse.1 hb)
  rw [text, rtakeWhile, reverse_append, takeWhile_append_of_pos ha]
  cases a.userinfo <;> simp

theorem lenientHost_text (a : Authority) : lenientHost a.text = a.host := by
  simp only [lenientHost, a.rtakeWhile_text, Authority.tail]
  obtain ⟨-, host, dots, port, hhost, -⟩ := a
  cases hhost with
  | name hat hco hbr =>
    have hh : (host ++ (port.map (colon :: ·)).getD []).head? ≠ some '['.toUInt8 := by
      cases host with
      | nil =>
        have hco : colon ≠ '['.toUInt8 := by decide
        cases port <;> simp [hco]
      | cons b host => simpa using fun heq : b = '['.toUInt8 => hbr (heq ▸ mem_cons_self)
    have ha : ∀ b ∈ host, (b != colon) = true := by
      intro b hb
      simpa using fun heq : b = colon => hco (heq ▸ hb)
    rw [replicate_zero, nil_append, if_neg hh, takeWhile_append_of_pos ha]
    cases port <;> simp
  | @bracketed t _ hat hcl =>
    have ha : ∀ b ∈ '['.toUInt8 :: t, (b != ']'.toUInt8) = true := by
      intro b hb
      rcases mem_cons.1 hb with rfl | hb
      · decide
      · simpa using fun heq : b = ']'.toUInt8 => hcl (heq ▸ hb)
    rw [if_pos (by simp), append_assoc, takeWhile_append_of_pos ha]
    simp

def AuthorityParser.lenient : AuthorityParser where
  parse t := some (lenientHost t)
  parse_text a host h := by
    rw [← Option.some.inj h, lenientHost_text]

end OpenWorkersRunner.Ingress
