import OpenWorkersRunner.Ingress.Hosts

/-!
# Request targets, as the `http` crate reads them

`Uri::from_str` reads a text by its first byte: a path that begins with a slash, the asterisk, or
else a scheme and an authority.  A text with no scheme that does not begin with a slash must be an
authority as a whole.  The bytes that a path and a query may have are parameters; what ends them,
and what ends an authority, is here.
-/

namespace OpenWorkersRunner.Ingress

open List Option Text

def slash : UInt8 := '/'.toUInt8

def question : UInt8 := '?'.toUInt8

def sharp : UInt8 := '#'.toUInt8

structure Uri where
  authority : Option Text
  pathAndQuery : Option (Text × Option Text)
deriving DecidableEq

namespace Uri

/-- `Uri::path`. -/
def path (uri : Uri) : Text :=
  (uri.pathAndQuery.map fun rest => if rest.1 = [] then [slash] else rest.1).getD []

def maxLen : Nat := 65534

/-- `MAX_SCHEME_LEN`. -/
def maxSchemeLen : Nat := 64

def isSchemeByte (b : UInt8) : Bool :=
  isDigit b || decide (65 ≤ b.toNat ∧ b.toNat ≤ 90) || decide (97 ≤ b.toNat ∧ b.toNat ≤ 122) ||
    b == '+'.toUInt8 || b == '-'.toUInt8 || b == dot

def endsAuthority (b : UInt8) : Bool := b == slash || b == question || b == sharp

def written (path : Text) (query : Option Text) : Text :=
  path ++ (query.map (question :: ·)).getD []

def text : Option (Text × Option Text) → Text
  | none => [slash]
  | some (path, query) =>
    if written path query = [] then [slash] else written path query

variable (P : AuthorityParser) (pathByte queryByte : UInt8 → Bool)

def parsePathAndQuery (t : Text) : Option (Text × Option Text) :=
  let path := (t.takeWhile (· != sharp)).takeWhile (· != question)
  if path.all pathByte then
    match (t.takeWhile (· != sharp)).dropWhile (· != question) with
    | [] => some (path, none)
    | _ :: query => if query.all queryByte then some (path, some query) else none
  else none

def parseAuthority (t : Text) : Option Uri :=
  if t.any endsAuthority then none else (P.parse t).map fun _ => ⟨some t, none⟩

def parseAbsolute (t : Text) : Option Uri :=
  let authority := t.takeWhile fun b => !endsAuthority b
  if authority = [] then none
  else
    (P.parse authority).bind fun _ =>
      (parsePathAndQuery pathByte queryByte (t.dropWhile fun b => !endsAuthority b)).map fun rest =>
        ⟨some authority, some rest⟩

def parseFull (t : Text) : Option Uri :=
  let scheme := t.takeWhile isSchemeByte
  match List.isPrefixOf? [colon, slash, slash] (t.drop scheme.length) with
  | none => parseAuthority P t
  | some rest =>
    if scheme.length ≤ maxSchemeLen then parseAbsolute P pathByte queryByte rest else none

/-- `Uri::from_str`. -/
def parse (t : Text) : Option Uri :=
  if maxLen < t.length then none
  else if t = [] then none
  else if t = [slash] then some ⟨none, some ([slash], none)⟩
  else if t = ['*'.toUInt8] then some ⟨none, some (['*'.toUInt8], none)⟩
  else if t.head? = some slash then
    (parsePathAndQuery pathByte queryByte t).map fun rest => ⟨none, some rest⟩
  else parseFull P pathByte queryByte t

def QueryOnly (uri : Uri) : Prop :=
  uri.authority.isSome = true ∧ ∃ query, uri.pathAndQuery = some ([], some query)

/-! ## A path and a query, written and read -/

structure IsPathAndQuery (path : Text) (query : Option Text) : Prop where
  path : ∀ b ∈ path, pathByte b = true ∧ b ≠ question ∧ b ≠ sharp
  query : ∀ q, query = some q → ∀ b ∈ q, queryByte b = true ∧ b ≠ sharp

variable {P pathByte queryByte}

variable {path t : Text} {query : Option Text}

theorem isPathAndQuery_of_parse (h : parsePathAndQuery pathByte queryByte t = some (path, query)) :
    IsPathAndQuery pathByte queryByte path query ∧ written path query <+: t := by
  rw [parsePathAndQuery] at h
  obtain ⟨hp, h⟩ := ite_none_right_eq_some.1 h
  have hsh : ∀ b ∈ t.takeWhile (· != sharp), b ≠ sharp := by
    intro b hb
    simpa using mem_takeWhile_imp hb
  have hm : ∀ b ∈ (t.takeWhile (· != sharp)).takeWhile (· != question),
      pathByte b = true ∧ b ≠ question ∧ b ≠ sharp := by
    intro b hb
    refine ⟨all_eq_true.1 hp b hb, by simpa using mem_takeWhile_imp hb, ?_⟩
    exact hsh b (( takeWhile_prefix _).subset hb)
  have hsp := takeWhile_append_dropWhile (p := (· != question))
    (l := t.takeWhile (· != sharp))
  split at h
  next hn =>
    cases h
    refine ⟨⟨hm, fun q hq => by cases hq⟩, ?_⟩
    rw [hn] at hsp
    rw [written, map_none, getD_none, hsp]
    exact takeWhile_prefix _
  next b rest hco =>
    obtain ⟨hqr, heq⟩ := ite_none_right_eq_some.1 h
    cases heq
    have hb : b = question := by
      have hh := head?_dropWhile_not (· != question) (t.takeWhile (· != sharp))
      rw [hco] at hh
      simpa using hh
    subst hb
    rw [hco] at hsp
    refine ⟨⟨hm, fun q hq c hc => ?_⟩, ?_⟩
    · cases hq
      refine ⟨all_eq_true.1 hqr c hc, hsh c ?_⟩
      rw [← hsp]
      exact mem_append_right _ (mem_cons_of_mem _ hc)
    · rw [written, map_some, getD_some, hsp]
      exact takeWhile_prefix _

theorem parsePathAndQuery_written (h : IsPathAndQuery pathByte queryByte path query) :
    parsePathAndQuery pathByte queryByte (written path query) = some (path, query) := by
  have hp : ∀ b ∈ path, (b != question) = true := by
    intro b hb
    simpa using (h.path b hb).2.1
  have ha : path.all pathByte = true := all_eq_true.2 fun b hb => (h.path b hb).1
  have hsh : (written path query).takeWhile (· != sharp) = written path query := by
    rw [takeWhile_eq_self_iff]
    intro b hb
    rw [written, mem_append] at hb
    rcases hb with hb | hb
    · simpa using (h.path b hb).2.2
    · cases query with
      | none => cases hb
      | some q =>
        rcases mem_cons.1 hb with rfl | hb
        · decide
        · simpa using (h.query q rfl b hb).2
  have ht : (written path query).takeWhile (· != question) = path := by
    rw [written, takeWhile_append_of_pos hp]
    cases query with
    | none => simp
    | some q => simp
  have hd : (written path query).dropWhile (· != question) =
      (query.map (question :: ·)).getD [] := by
    rw [written, dropWhile_append_of_pos hp]
    cases query with
    | none => rfl
    | some q => simp
  rw [parsePathAndQuery, hsh, ht, hd, if_pos ha]
  cases query with
  | none => rfl
  | some q =>
    exact if_pos (all_eq_true.2 fun b hb => (h.query q rfl b hb).1)

/-! ## The path and the query of a target that names an authority -/

theorem head?_of_parse_rest
    (h : parsePathAndQuery pathByte queryByte (t.dropWhile fun b => !endsAuthority b) =
      some (path, query)) : path = [] ∨ path.head? = some slash := by
  obtain ⟨hv, hp⟩ := isPathAndQuery_of_parse h
  cases path with
  | nil => exact .inl rfl
  | cons b path =>
    obtain ⟨rest, hre⟩ := hp
    have hh := head?_dropWhile_not (fun b => !endsAuthority b) t
    rw [← hre] at hh
    have hen : endsAuthority b = true := by simpa [written] using hh
    obtain ⟨-, hq, hsh⟩ := hv.path b mem_cons_self
    refine .inr (congrArg some ?_)
    simpa [endsAuthority, hq, hsh] using hen

/-- The shape of a target that names an authority: the authority alone, or an absolute target with
a path and a query that can be read again, the path being empty or beginning with a slash. -/
theorem shape_of_parse {uri : Uri} (h : parse P pathByte queryByte t = some uri)
    (ha : uri.authority.isSome = true) :
    uri.pathAndQuery = none ∨ ∃ path query, uri.pathAndQuery = some (path, query) ∧
      IsPathAndQuery pathByte queryByte path query ∧ (path = [] ∨ path.head? = some slash) ∧
      (written path query).length ≤ maxLen := by
  rw [parse] at h
  obtain ⟨hl, h⟩ := ite_none_left_eq_some.1 h
  obtain ⟨-, h⟩ := ite_none_left_eq_some.1 h
  split at h
  · cases h
    cases ha
  split at h
  · cases h
    cases ha
  split at h
  · obtain ⟨rest, -, rfl⟩ := map_eq_some_iff.1 h
    cases ha
  rw [parseFull] at h
  split at h
  · -- no scheme: the authority alone
    obtain ⟨-, h⟩ := ite_none_left_eq_some.1 h
    obtain ⟨host, -, rfl⟩ := map_eq_some_iff.1 h
    exact .inl rfl
  next after haf =>
    obtain ⟨-, h⟩ := ite_none_right_eq_some.1 h
    obtain ⟨-, h⟩ := ite_none_left_eq_some.1 h
    obtain ⟨host, -, h⟩ := bind_eq_some_iff.1 h
    obtain ⟨⟨path, query⟩, hre, rfl⟩ := map_eq_some_iff.1 h
    obtain ⟨hv, hp⟩ := isPathAndQuery_of_parse hre
    refine .inr ⟨path, query, rfl, hv, head?_of_parse_rest hre, ?_⟩
    -- the rest is no longer than the whole
    have hsu : after.length ≤ t.length := by
      have heq := isPrefixOf?_eq_some_iff_append_eq.1 haf
      have hd := congrArg length heq
      rw [length_append, length_drop] at hd
      omega
    have hdr := (dropWhile_suffix (l := after) fun b => !endsAuthority b).length_le
    have hw := hp.length_le
    omega

theorem parse_query (query : Text) : parse P pathByte queryByte (question :: query) = none := by
  have hsc : (question :: query).takeWhile isSchemeByte = [] := by
    rw [takeWhile_cons, if_neg (by decide)]
  have hp : isPrefixOf? [colon, slash, slash] (question :: query) = none := by
    rw [isPrefixOf?, if_neg (by decide)]
  have hf : parseFull P pathByte queryByte (question :: query) = none := by
    simp only [parseFull, hsc, length_nil, drop_zero, hp]
    exact if_pos (by rw [any_cons]; rfl)
  have hsl : question ≠ slash := by decide
  have hst : question ≠ '*'.toUInt8 := by decide
  simp [parse, hf, hsl, hst]

/-- **A path and a query are a target again, unless there is a query and no path.** -/
theorem parse_text_isSome_iff {uri : Uri} (h : parse P pathByte queryByte t = some uri)
    (ha : uri.authority.isSome = true) :
    (parse P pathByte queryByte (text uri.pathAndQuery)).isSome = true ↔ ¬ uri.QueryOnly := by
  have hro : (parse P pathByte queryByte [slash]).isSome = true := by
    simp [parse, maxLen]
  rcases shape_of_parse h ha with hn | ⟨path, query, hpq, hv, hp, hl⟩
  · rw [hn]
    refine iff_of_true hro ?_
    rintro ⟨-, query, hq⟩
    rw [hn] at hq
    cases hq
  · rw [hpq]
    have hw : text (some (path, query)) =
        if written path query = [] then [slash] else written path query := rfl
    rw [hw]
    cases path with
    | nil =>
      cases query with
      | none =>
        refine iff_of_true hro ?_
        rintro ⟨-, query, hq⟩
        rw [hpq] at hq
        cases hq
      | some query =>
        refine iff_of_false ?_ (not_not.2 ⟨ha, query, hpq⟩)
        have hne : written [] (some query) ≠ [] := cons_ne_nil _ _
        have hqr : parse P pathByte queryByte (written [] (some query)) = none :=
          parse_query query
        rw [if_neg hne, hqr]
        exact Bool.false_ne_true
    | cons b path =>
      obtain rfl : b = slash := by simpa using hp
      have hne : written (slash :: path) query ≠ [] := cons_ne_nil _ _
      have hh : (written (slash :: path) query).head? = some slash := rfl
      rw [if_neg hne]
      refine iff_of_true ?_ ?_
      · rw [parse, if_neg (Nat.not_lt.2 hl), if_neg hne, if_pos hh]
        split
        · rfl
        split
        · rfl
        rw [parsePathAndQuery_written hv]
        rfl
      · rintro ⟨-, query', hq⟩
        rw [hpq] at hq
        cases hq

end Uri

end OpenWorkersRunner.Ingress
