import OpenWorkersRunner.Lib.Text

/-!
# URLs: how a parser reads a path

The part of the URL standard that decides which host and which path the text of an `http` or
`https` URL means: control characters and spaces are stripped at its ends and tabs and newlines
everywhere, a backslash is a slash, the path ends at `?` or `#`, and a segment that spells `.` or
`..` — also as `%2e` — is resolved.  The parser of the host and the set of bytes a path is encoded
with are parameters.
-/

universe u

namespace Url

open List Text

/-! ## Bytes -/

def isStripped (b : UInt8) : Bool := decide (b.toNat ≤ 32)

def isIgnored (b : UInt8) : Bool := b.toNat == 9 || b.toNat == 10 || b.toNat == 13

def slash : UInt8 := '/'.toUInt8

def isSlash (b : UInt8) : Bool := b == slash || b == '\\'.toUInt8

def endsPath (b : UInt8) : Bool := b == '?'.toUInt8 || b == '#'.toUInt8

/-! ## Paths -/

def isDot (segment : Text) : Bool :=
  [ascii ".", ascii "%2e"].contains (segment.map lower)

def isDotDot (segment : Text) : Bool :=
  [ascii "..", ascii ".%2e", ascii "%2e.", ascii "%2e%2e"].contains (segment.map lower)

/-- The walk over the segments of a path.  A `..` goes one level up; where the last segment is a
dot segment, the path ends in an empty one. -/
def walk {σ : Type u} (push : σ → Text → σ) (pop : σ → σ) : σ → List Text → σ
  | s, [] => s
  | s, [segment] =>
    if isDotDot segment then push (pop s) []
    else if isDot segment then push s []
    else push s segment
  | s, segment :: next :: rest =>
    walk push pop
      (if isDotDot segment then pop s else if isDot segment then s else push s segment)
      (next :: rest)

def resolve (path : List Text) (segments : List Text) : List Text :=
  walk (fun path segment => path ++ [segment]) List.dropLast path segments

def untilEnd (t : Text) : Text := t.takeWhile fun b => !endsPath b

def segmentsOf (t : Text) : List Text := t.splitOnP isSlash

theorem segmentsOf_ne_nil (t : Text) : segmentsOf t ≠ [] := splitOnP_ne_nil isSlash t

def joinPath (path : List Text) : Text := path.flatMap (slash :: ·)

/-! ## The parser -/

inductive Scheme
  | http
  | https
deriving DecidableEq

def Scheme.text : Scheme → Text
  | .http => ascii "http"
  | .https => ascii "https"

structure Parsed (Host : Type u) where
  scheme : Scheme
  host : Host
  path : List Text
deriving DecidableEq

structure Parser (Host : Type u) where
  parseHost : Text → Option Host
  encodes : UInt8 → Bool

def clean (t : Text) : Text :=
  ((t.dropWhile isStripped).rdropWhile isStripped).filter fun b => !isIgnored b

def scheme? (t : Text) : Option (Scheme × Text) :=
  match t.span fun b => b != ':'.toUInt8 with
  | (_, []) => none
  | (name, _ :: rest) =>
    if name.map lower = Scheme.http.text then some (.http, rest)
    else if name.map lower = Scheme.https.text then some (.https, rest)
    else none

def Parser.parse {Host : Type u} (P : Parser Host) (t : Text) : Option (Parsed Host) :=
  (scheme? (clean t)).bind fun (scheme, rest) =>
    match (rest.dropWhile isSlash).span fun b => !(isSlash b || endsPath b) with
    | ([], _) => none
    | (authority, rest) =>
      (P.parseHost authority).map fun host =>
        { scheme := scheme
          host := host
          path := (resolve [] (segmentsOf ((untilEnd rest).drop 1))).map
            (percentEncode P.encodes) }

/-! ## Walks -/

section Walk

variable {σ τ : Type u} (push : σ → Text → σ) (pop : σ → σ) (push' : τ → Text → τ) (pop' : τ → τ)

theorem walk_hom {f : σ → τ} (hp : ∀ s segment, f (push s segment) = push' (f s) segment)
    (hpo : ∀ s, f (pop s) = pop' (f s)) (s : σ) (segments : List Text) :
    f (walk push pop s segments) = walk push' pop' (f s) segments := by
  fun_induction walk push pop s segments with
  | case1 s => rfl
  | case2 s segment h => rw [walk, if_pos h, hp, hpo]
  | case3 s segment h h' => rw [walk, if_neg h, if_pos h', hp]
  | case4 s segment h h' => rw [walk, if_neg h, if_neg h', hp]
  | case5 s segment next rest ih =>
    rw [ih, walk]
    congr 1
    split_ifs
    · exact hpo s
    · rfl
    · exact hp s segment

variable {segments : List Text}

theorem walk_append {base : List Text} (hba : ∀ segment ∈ base,
    isDotDot segment = false ∧ isDot segment = false) (s : σ) (hne : segments ≠ []) :
    walk push pop s (base ++ segments) = walk push pop (base.foldl push s) segments := by
  induction base generalizing s with
  | nil => rfl
  | cons segment base ih =>
    obtain ⟨h, h'⟩ := hba segment (by simp)
    obtain ⟨next, rest, hre⟩ := exists_cons_of_ne_nil
      (show base ++ segments ≠ [] by simp [hne])
    have ih := ih (fun segment hm => hba segment (by simp [hm])) (push s segment)
    rw [cons_append, hre, walk, ← hre, foldl_cons]
    simp only [h, h', Bool.false_eq_true, if_false]
    exact ih

theorem walk_invariant {I : σ → Prop} {q : Text → Prop}
    (hp : ∀ s segment, I s → q segment → I (push s segment)) (hpo : ∀ s, I s → I (pop s))
    (hn : q []) {s : σ} (hs : I s) (hse : ∀ segment ∈ segments, q segment) :
    I (walk push pop s segments) := by
  fun_induction walk push pop s segments with
  | case1 s => exact hs
  | case2 s segment h => exact hp _ _ (hpo s hs) hn
  | case3 s segment h h' => exact hp _ _ hs hn
  | case4 s segment h h' => exact hp _ _ hs (hse segment (by simp))
  | case5 s segment next rest ih =>
    refine ih ?_ fun segment hm => hse segment (mem_cons_of_mem _ hm)
    split_ifs
    · exact hpo s hs
    · exact hs
    · exact hp s segment hs (hse segment mem_cons_self)

end Walk

/-! ## A text by itself -/

structure Climb where
  up : Nat
  down : List Text
deriving DecidableEq

def Climb.push (c : Climb) (segment : Text) : Climb := { c with down := c.down ++ [segment] }

def Climb.pop (c : Climb) : Climb :=
  if c.down = [] then { c with up := c.up + 1 } else { c with down := c.down.dropLast }

def cleanEnd (t : Text) : Text :=
  untilEnd ((t.rdropWhile isStripped).filter fun b => !isIgnored b)

def climbOf (t : Text) : Climb := walk Climb.push Climb.pop ⟨0, []⟩ (segmentsOf (cleanEnd t))

def Climb.from (c : Climb) (base : List Text) : List Text :=
  base.take (base.length - c.up) ++ c.down

theorem Climb.from_push (base : List Text) (c : Climb) (segment : Text) :
    (c.push segment).from base = c.from base ++ [segment] := by
  rw [Climb.from, Climb.from, Climb.push, append_assoc]

theorem Climb.from_pop (base : List Text) (c : Climb) :
    c.pop.from base = (c.from base).dropLast := by
  rw [Climb.from, Climb.from, Climb.pop]
  split
  next h =>
    rw [h, append_nil, append_nil, dropLast_eq_take, take_take, length_take]
    congr 1
    show base.length - (c.up + 1) = _
    omega
  next h =>
    rw [dropLast_append_of_ne_nil h]

theorem resolve_eq_climb (base : List Text) (t : Text) :
    resolve base (segmentsOf (cleanEnd t)) = (climbOf t).from base := by
  have h := walk_hom Climb.push Climb.pop (fun path segment => path ++ [segment]) dropLast
    (f := fun c => c.from base) (Climb.from_push base) (Climb.from_pop base) ⟨0, []⟩
    (segmentsOf (cleanEnd t))
  have hst : Climb.from ⟨0, []⟩ base = base := by simp [Climb.from]
  rw [hst] at h
  exact h.symm

/-! ## Plain bytes

The bytes of which nothing in a URL is made but names: what they make is read as it stands. -/

def isName (b : UInt8) : Bool :=
  decide (48 ≤ b.toNat ∧ b.toNat ≤ 57 ∨ 65 ≤ b.toNat ∧ b.toNat ≤ 90 ∨
    97 ≤ b.toNat ∧ b.toNat ≤ 122 ∨ b.toNat = 45 ∨ b.toNat = 95)

def isHostByte (b : UInt8) : Bool :=
  decide (48 ≤ b.toNat ∧ b.toNat ≤ 58 ∨ 65 ≤ b.toNat ∧ b.toNat ≤ 90 ∨
    97 ≤ b.toNat ∧ b.toNat ≤ 122 ∨ b.toNat = 45 ∨ b.toNat = 46)

def isPlain (b : UInt8) : Bool := isName b || b == slash

theorem eq_toUInt8_iff (b : UInt8) (c : Char) : b = c.toUInt8 ↔ b.toNat = c.toUInt8.toNat :=
  UInt8.toNat_inj.symm

variable {b : UInt8} {p encodes : UInt8 → Bool} {segment t host body : Text} {Host : Type u}
  {scheme : Scheme}

theorem isPlain_bounds (h : isPlain b = true) :
    32 < b.toNat ∧ b.toNat ≠ 63 ∧ b.toNat ≠ 35 ∧ b.toNat ≠ 92 ∧ b.toNat ≠ 46 ∧ b.toNat ≠ 37 := by
  rw [isPlain, Bool.or_eq_true, isName, decide_eq_true_eq, beq_iff_eq, slash, eq_toUInt8_iff] at h
  have hsl : '/'.toUInt8.toNat = 47 := rfl
  omega

theorem isHostByte_bounds (h : isHostByte b = true) :
    32 < b.toNat ∧ b.toNat ≠ 63 ∧ b.toNat ≠ 35 ∧ b.toNat ≠ 92 ∧ b.toNat ≠ 47 := by
  rw [isHostByte, decide_eq_true_eq] at h
  omega

theorem isStripped_eq_false (h : 32 < b.toNat) : isStripped b = false :=
  decide_eq_false (by omega)

theorem isIgnored_eq_false (h : 32 < b.toNat) : isIgnored b = false := by
  rw [isIgnored, Bool.or_eq_false_iff, Bool.or_eq_false_iff, beq_eq_false_iff_ne,
    beq_eq_false_iff_ne, beq_eq_false_iff_ne]
  omega

theorem endsPath_eq_false (h : b.toNat ≠ 63) (h' : b.toNat ≠ 35) : endsPath b = false := by
  rw [endsPath, Bool.or_eq_false_iff, beq_eq_false_iff_ne, beq_eq_false_iff_ne, Ne, Ne,
    eq_toUInt8_iff, eq_toUInt8_iff]
  exact ⟨h, h'⟩

theorem isSlash_eq_false (h : b.toNat ≠ 47) (h' : b.toNat ≠ 92) : isSlash b = false := by
  rw [isSlash, Bool.or_eq_false_iff, beq_eq_false_iff_ne, beq_eq_false_iff_ne, Ne, Ne, slash,
    eq_toUInt8_iff, eq_toUInt8_iff]
  exact ⟨h, h'⟩

/-! ## Segments -/

theorem mem_splitOnP (h : segment ∈ t.splitOnP p) : ∀ b ∈ segment, b ∈ t ∧ p b = false := by
  induction t generalizing segment with
  | nil =>
    rw [splitOnP_nil, mem_singleton] at h
    simp [h]
  | cons x t ih =>
    rw [splitOnP_cons_eq_if_modifyHead] at h
    intro b hb
    split at h
    · rcases mem_cons.1 h with rfl | h
      · cases hb
      · exact (ih h b hb).imp (mem_cons_of_mem x) id
    next hx =>
      rw [Bool.not_eq_true] at hx
      obtain ⟨first, rest, hf⟩ := exists_cons_of_ne_nil (splitOnP_ne_nil p t)
      rw [hf, modifyHead_cons] at h
      rcases mem_cons.1 h with rfl | h
      · rcases mem_cons.1 hb with rfl | hb
        · exact ⟨mem_cons_self, hx⟩
        · exact (ih (hf ▸ mem_cons_self) b hb).imp (mem_cons_of_mem x) id
      · exact (ih (hf ▸ mem_cons_of_mem first h) b hb).imp (mem_cons_of_mem x) id

theorem slash_notMem (h : segment ∈ segmentsOf t) : slash ∉ segment := by
  intro hm
  have hsl := (mem_splitOnP h slash hm).2
  cases hsl

theorem joinPath_segmentsOf (h : ∀ b ∈ t, b.toNat ≠ 92) : joinPath (segmentsOf t) = slash :: t := by
  induction t with
  | nil => rfl
  | cons x t ih =>
    have ih := ih fun b hb => h b (mem_cons_of_mem x hb)
    rw [segmentsOf] at ih
    rw [segmentsOf, splitOnP_cons_eq_if_modifyHead]
    by_cases hx : isSlash x = true
    · have hxs : x = slash := by
        rw [isSlash, Bool.or_eq_true, beq_iff_eq, beq_iff_eq] at hx
        refine hx.resolve_right fun hba => h x mem_cons_self ?_
        rw [hba]
        rfl
      rw [if_pos hx, joinPath, flatMap_cons, ← joinPath, ih, hxs]
      rfl
    · obtain ⟨first, rest, hf⟩ := exists_cons_of_ne_nil (splitOnP_ne_nil isSlash t)
      rw [hf, joinPath, flatMap_cons, cons_append, cons.injEq] at ih
      rw [if_neg hx, hf, modifyHead_cons, joinPath, flatMap_cons, ← ih.2]
      rfl

theorem exists_of_isDot (h : isDotDot segment = true ∨ isDot segment = true) :
    ∃ b ∈ segment, b.toNat = 46 ∨ b.toNat = 37 := by
  have hsp : ∃ b rest, segment.map lower = b :: rest ∧ (b = 46 ∨ b = 37) := by
    simp only [isDotDot, isDot, contains_iff_mem, mem_cons, not_mem_nil, or_false] at h
    rcases h with (h | h | h | h) | (h | h)
    · exact ⟨46, _, h, .inl rfl⟩
    · exact ⟨46, _, h, .inl rfl⟩
    · exact ⟨37, _, h, .inr rfl⟩
    · exact ⟨37, _, h, .inr rfl⟩
    · exact ⟨46, _, h, .inl rfl⟩
    · exact ⟨37, _, h, .inr rfl⟩
  obtain ⟨b, rest, hm, hb⟩ := hsp
  obtain ⟨x, xs, rfl, hx, -⟩ := map_eq_cons_iff.1 hm
  refine ⟨x, mem_cons_self, ?_⟩
  rcases hb with rfl | rfl
  · exact .inl (congrArg UInt8.toNat (eq_of_lower_eq (by decide) hx))
  · exact .inr (congrArg UInt8.toNat (eq_of_lower_eq (by decide) hx))

theorem not_isDot_of_plain (h : ∀ b ∈ t, isPlain b = true) :
    ∀ segment ∈ segmentsOf t, isDotDot segment = false ∧ isDot segment = false := by
  intro segment hm
  by_contra hd
  rw [not_and_or, Bool.not_eq_false, Bool.not_eq_false] at hd
  obtain ⟨b, hb, hby⟩ := exists_of_isDot hd
  have hbo := isPlain_bounds (h b (mem_splitOnP hm b hb).1)
  omega

/-! ## Encoded names -/

theorem percentEncode_eq_self (h : ∀ b ∈ t, encodes b = false) : percentEncode encodes t = t := by
  induction t with
  | nil => rfl
  | cons b t ih =>
    rw [percentEncode, flatMap_cons, ← percentEncode,
      ih fun x hx => h x (mem_cons_of_mem b hx), h b mem_cons_self]
    rfl

theorem percentEncode_eq_iff {name : Text} (hn : ∀ b ∈ name, encodes b = false ∧ b.toNat ≠ 37) :
    percentEncode encodes t = name ↔ t = name := by
  refine ⟨fun h => ?_, fun h => ?_⟩
  · rw [← h, percentEncode_eq_self]
    intro b hb
    by_contra hen
    rw [Bool.not_eq_false] at hen
    have hp : '%'.toUInt8 ∈ name := by
      rw [← h, percentEncode, mem_flatMap]
      exact ⟨b, hb, by simp [hen]⟩
    exact (hn _ hp).2 rfl
  · rw [h]
    exact percentEncode_eq_self fun b hb => (hn b hb).1

theorem isName_hexDigit {val : Nat} (h : val < 16) : isName (hexDigit val) = true := by
  have ha : ∀ n : Fin 16, isName (hexDigit n) = true := by decide
  exact ha ⟨val, h⟩

theorem notMem_percentEncode {c : UInt8} (hn : isName c = false) (hp : c ≠ '%'.toUInt8)
    (h : c ∉ t) : c ∉ percentEncode encodes t := by
  rw [percentEncode, mem_flatMap]
  rintro ⟨b, hb, hm⟩
  have hlt : b.toNat < 256 := b.toNat_lt
  have hd : ∀ value, value < 16 → c ≠ hexDigit value := by
    rintro value hv rfl
    rw [isName_hexDigit hv] at hn
    cases hn
  split at hm
  · simp only [mem_cons, not_mem_nil, or_false] at hm
    rcases hm with hm | hm | hm
    · exact hp hm
    · exact hd _ (by omega) hm
    · exact hd _ (by omega) hm
  · rw [mem_singleton] at hm
    exact h (hm ▸ hb)

/-! ## Paths that start with a base -/

theorem append_slash_isPrefix_iff {a c x y : Text} (ha : slash ∉ a) (hc : slash ∉ c)
    (hy : y = [] ∨ ∃ z, y = slash :: z) :
    a ++ slash :: x <+: c ++ y ↔ a = c ∧ slash :: x <+: y := by
  induction a generalizing c with
  | nil =>
    cases c with
    | nil => simp
    | cons b c =>
      rw [nil_append, cons_append, cons_prefix_cons]
      refine ⟨fun h => ?_, fun h => absurd h.1 (by simp)⟩
      exact absurd (h.1 ▸ mem_cons_self) hc
  | cons b a ih =>
    rw [mem_cons, not_or] at ha
    cases c with
    | nil =>
      rw [nil_append, cons_append]
      refine ⟨fun h => ?_, fun h => absurd h.1 (by simp)⟩
      rcases hy with rfl | ⟨z, rfl⟩
      · exact absurd (prefix_nil.1 h) (by simp)
      · exact absurd (cons_prefix_cons.1 h).1.symm ha.1
    | cons b' c =>
      rw [mem_cons, not_or] at hc
      rw [cons_append, cons_append, cons_prefix_cons, ih ha.2 hc.2, cons.injEq, and_assoc]

theorem joinPath_nil_or (path : List Text) :
    joinPath path = [] ∨ ∃ z, joinPath path = slash :: z := by
  cases path with
  | nil => exact .inl rfl
  | cons segment path => exact .inr ⟨_, rfl⟩

/-- **A path starts with a base** when its first segments are those of the base and there is one
more. -/
theorem joinPath_isPrefix_iff {base path : List Text} (hba : ∀ segment ∈ base, slash ∉ segment)
    (hp : ∀ segment ∈ path, slash ∉ segment) :
    joinPath base ++ [slash] <+: joinPath path ↔ base <+: path ∧ base.length < path.length := by
  induction base generalizing path with
  | nil =>
    cases path with
    | nil => simp [joinPath]
    | cons segment path => simp [joinPath]
  | cons a base ih =>
    cases path with
    | nil => simp [joinPath]
    | cons c path =>
      have ih := ih (fun segment h => hba segment (mem_cons_of_mem a h))
        (fun segment h => hp segment (mem_cons_of_mem c h))
      have hsp : joinPath (a :: base) ++ [slash]
          = slash :: (a ++ (joinPath base ++ [slash])) := by simp [joinPath]
      obtain ⟨x, hx⟩ : ∃ x, joinPath base ++ [slash] = slash :: x := by
        rcases joinPath_nil_or base with h | ⟨z, h⟩
        · exact ⟨[], by rw [h]; rfl⟩
        · exact ⟨z ++ [slash], by rw [h]; rfl⟩
      rw [hsp, show joinPath (c :: path) = slash :: (c ++ joinPath path) from rfl,
        cons_prefix_cons, hx,
        append_slash_isPrefix_iff (hba a mem_cons_self) (hp c mem_cons_self)
          (joinPath_nil_or path), ← hx, ih, cons_prefix_cons, length_cons,
        length_cons]
      refine ⟨fun h => ⟨⟨h.2.1, h.2.2.1⟩, by omega⟩, fun h => ⟨rfl, h.1.1, h.1.2, by omega⟩⟩

/-! ## A base and a text -/

theorem rdropWhile_append {base : Text} (h : ∀ b ∈ base, p b = false) (t : Text) :
    (base ++ t).rdropWhile p = base ++ t.rdropWhile p := by
  induction t using reverseRecOn with
  | nil =>
    rw [append_nil, rdropWhile_nil, append_nil, rdropWhile_eq_self_iff]
    intro hl
    simp [h _ (getLast_mem hl)]
  | append_singleton t b ih =>
    rw [← append_assoc]
    by_cases hb : p b = true
    · rw [rdropWhile_concat_pos _ _ _ hb, rdropWhile_concat_pos _ _ _ hb, ih]
    · rw [rdropWhile_concat_neg _ _ _ hb, rdropWhile_concat_neg _ _ _ hb, append_assoc]

theorem clean_append {base : Text} (hne : base ≠ []) (h : ∀ b ∈ base, 32 < b.toNat) (t : Text) :
    clean (base ++ t) = base ++ (t.rdropWhile isStripped).filter fun b => !isIgnored b := by
  have hst : (base ++ t).dropWhile isStripped = base ++ t := by
    obtain ⟨b, rest, rfl⟩ := exists_cons_of_ne_nil hne
    rw [cons_append, dropWhile_cons_of_neg]
    simp [isStripped_eq_false (h b mem_cons_self)]
  have hk : base.filter (fun b => !isIgnored b) = base := by
    rw [filter_eq_self]
    intro b hb
    rw [isIgnored_eq_false (h b hb)]
    rfl
  rw [clean, hst, rdropWhile_append fun b hb => isStripped_eq_false (h b hb), filter_append, hk]

def hostUrl (scheme : Scheme) (host : Text) : Text := scheme.text ++ ascii "://" ++ host

theorem hostUrl_visible (scheme : Scheme) (hhost : ∀ b ∈ host, isHostByte b = true) :
    ∀ b ∈ hostUrl scheme host, 32 < b.toNat := by
  intro b hb
  have hsc : ∀ b ∈ scheme.text ++ ascii "://", 32 < b.toNat :=
    all_iff_forall_prop.1 (by cases scheme <;> decide)
  rcases mem_append.1 hb with hb | hb
  · exact hsc b hb
  · exact (isHostByte_bounds (hhost b hb)).1

theorem hostUrl_ne_nil (scheme : Scheme) (host : Text) : hostUrl scheme host ≠ [] := by
  cases scheme <;> simp [hostUrl, Scheme.text, ascii]

theorem scheme?_hostUrl (scheme : Scheme) (host rest : Text) :
    scheme? (hostUrl scheme host ++ rest) = some (scheme, slash :: slash :: (host ++ rest)) := by
  rw [hostUrl, append_assoc]
  cases scheme <;> rfl

theorem span_authority {rest : Text} (hhost : ∀ b ∈ host, isHostByte b = true)
    (hre : rest = [] ∨ ∃ t, rest = slash :: t) :
    (host ++ rest).span (fun b => !(isSlash b || endsPath b)) = (host, rest) := by
  have hk : ∀ b ∈ host, (!(isSlash b || endsPath b)) = true := by
    intro b hb
    obtain ⟨-, h63, h35, h92, h47⟩ := isHostByte_bounds (hhost b hb)
    rw [isSlash_eq_false h47 h92, endsPath_eq_false h63 h35]
    rfl
  rw [span_eq_takeWhile_dropWhile, takeWhile_append_of_pos hk, dropWhile_append_of_pos hk]
  rcases hre with rfl | ⟨t, rfl⟩
  · simp
  · rw [takeWhile_cons_of_neg (by decide), dropWhile_cons_of_neg (by decide), append_nil]

theorem Parser.parse_of_clean (P : Parser Host) {rest : Text} (hne : host ≠ [])
    (hhost : ∀ b ∈ host, isHostByte b = true) (hre : rest = [] ∨ ∃ t, rest = slash :: t)
    (hcl : clean t = hostUrl scheme host ++ rest) :
    P.parse t = (P.parseHost host).map fun h =>
      { scheme := scheme
        host := h
        path := (resolve [] (segmentsOf ((untilEnd rest).drop 1))).map
          (percentEncode P.encodes) } := by
  obtain ⟨b, name, rfl⟩ := exists_cons_of_ne_nil hne
  obtain ⟨-, -, -, h92, h47⟩ := isHostByte_bounds (hhost b mem_cons_self)
  have hsl : (slash :: slash :: (b :: name ++ rest)).dropWhile isSlash
      = b :: name ++ rest := by
    rw [dropWhile_cons_of_pos (by decide), dropWhile_cons_of_pos (by decide),
      cons_append, dropWhile_cons_of_neg (by simp [isSlash_eq_false h47 h92])]
  rw [Parser.parse, hcl, scheme?_hostUrl, Option.bind_some]
  simp only [hsl, span_authority hhost hre]

theorem Parser.parse_host (P : Parser Host) (hne : host ≠ [])
    (hhost : ∀ b ∈ host, isHostByte b = true) :
    P.parse (hostUrl scheme host) = (P.parseHost host).map fun h =>
      { scheme := scheme, host := h, path := [[]] } := by
  have hcl := clean_append (hostUrl_ne_nil scheme host) (hostUrl_visible scheme hhost) []
  rw [append_nil, rdropWhile_nil, filter_nil] at hcl
  exact P.parse_of_clean hne hhost (.inl rfl) hcl

theorem untilEnd_append (hbo : ∀ b ∈ body, isPlain b = true) (t : Text) :
    untilEnd (slash :: (body ++ slash :: t)) = slash :: (body ++ slash :: untilEnd t) := by
  have hk : ∀ b ∈ body, (!endsPath b) = true := by
    intro b hb
    obtain ⟨-, h63, h35, -⟩ := isPlain_bounds (hbo b hb)
    rw [endsPath_eq_false h63 h35]
    rfl
  rw [untilEnd, takeWhile_cons_of_pos (by decide), takeWhile_append_of_pos hk,
    takeWhile_cons_of_pos (by decide), untilEnd]

theorem foldl_push (path base : List Text) :
    base.foldl (fun path segment => path ++ [segment]) path = path ++ base := by
  induction base generalizing path with
  | nil => rw [foldl_nil, append_nil]
  | cons segment base ih => rw [foldl_cons, ih, append_assoc, singleton_append]

theorem resolve_append (hbo : ∀ b ∈ body, isPlain b = true) (t : Text) :
    resolve [] (segmentsOf (body ++ slash :: cleanEnd t)) = (climbOf t).from (segmentsOf body) := by
  rw [segmentsOf, splitOnP_append_cons _ _ (by decide), ← segmentsOf, ← segmentsOf, resolve,
    walk_append _ _ (not_isDot_of_plain hbo) _ (segmentsOf_ne_nil _), foldl_push,
    nil_append, ← resolve, resolve_eq_climb]

/-- **A URL made of a base and a text** has the host of the base; its path is the base, less the
levels the text climbs, and what the text names after that. -/
theorem Parser.parse_append (P : Parser Host) (hne : host ≠ [])
    (hhost : ∀ b ∈ host, isHostByte b = true) (hbo : ∀ b ∈ body, isPlain b = true) (t : Text) :
    P.parse (hostUrl scheme host ++ slash :: (body ++ slash :: t)) = (P.parseHost host).map fun h =>
        { scheme := scheme
          host := h
          path := ((climbOf t).from (segmentsOf body)).map (percentEncode P.encodes) } := by
  have hv : ∀ b ∈ hostUrl scheme host ++ slash :: (body ++ [slash]), 32 < b.toNat := by
    intro b hb
    simp only [mem_append, mem_cons, not_mem_nil, or_false] at hb
    rcases hb with hb | rfl | hb | rfl
    · exact hostUrl_visible scheme hhost b hb
    · decide
    · exact (isPlain_bounds (hbo b hb)).1
    · decide
  have hj : ∀ x : Text, hostUrl scheme host ++ slash :: (body ++ [slash]) ++ x
      = hostUrl scheme host ++ slash :: (body ++ slash :: x) := by simp
  have hcl := clean_append (by simp) hv t
  rw [hj, hj] at hcl
  rw [P.parse_of_clean hne hhost (.inr ⟨_, rfl⟩) hcl, untilEnd_append hbo,
    drop_succ_cons, drop_zero, ← cleanEnd, resolve_append hbo]

/-- A text put after a base stays below it, or climbs above and comes back through the names of
the base. -/
def Climb.Stays (c : Climb) (base : List Text) : Prop :=
  base.drop (base.length - c.up) <+: c.down ∧ min c.up base.length < c.down.length

instance (c : Climb) (base : List Text) : Decidable (c.Stays base) :=
  inferInstanceAs (Decidable (_ ∧ _))

theorem isPrefix_take_append_iff (base path : List Text) (n : Nat) :
    base <+: base.take n ++ path ↔ base.drop n <+: path := by
  conv_lhs =>
    arg 1
    rw [← take_append_drop n base]
  exact prefix_append_right_inj _

theorem map_isPrefix_iff {f : Text → Text} {base path : List Text}
    (h : ∀ name ∈ base, ∀ t, f t = name ↔ t = name) : base <+: path.map f ↔ base <+: path := by
  induction base generalizing path with
  | nil => simp
  | cons name base ih =>
    cases path with
    | nil => simp
    | cons t path =>
      rw [map_cons, cons_prefix_cons, cons_prefix_cons,
        ih fun name hn => h name (mem_cons_of_mem _ hn), eq_comm,
        h name mem_cons_self, eq_comm]

/-- **The path of a URL made of a base and a text starts with the base** exactly when the text
stays. -/
theorem joinPath_climb_iff (hen : ∀ b, isName b = true →
    encodes b = false) (hbo : ∀ b ∈ body, isPlain b = true) (t : Text) :
    slash :: (body ++ [slash]) <+:
        joinPath (((climbOf t).from (segmentsOf body)).map (percentEncode encodes)) ↔
      (climbOf t).Stays (segmentsOf body) := by
  have hn : ∀ name ∈ segmentsOf body, ∀ b ∈ name, encodes b = false ∧ b.toNat ≠ 37 := by
    intro name hm b hb
    obtain ⟨hin, hsep⟩ := mem_splitOnP hm b hb
    have hpl := hbo b hin
    refine ⟨hen b ?_, (isPlain_bounds hpl).2.2.2.2.2⟩
    rw [isPlain, Bool.or_eq_true, beq_iff_eq] at hpl
    refine hpl.resolve_right fun hsl => ?_
    rw [hsl] at hsep
    cases hsep
  have hse : (segmentsOf body).map (percentEncode encodes) = segmentsOf body := by
    refine (map_congr_left fun name hm => ?_).trans (map_id _)
    exact percentEncode_eq_self fun b hb => (hn name hm b hb).1
  have hp : ∀ segment ∈ (climbOf t).from (segmentsOf body), slash ∉ segment := by
    rw [← resolve_eq_climb]
    refine walk_invariant _ _ (I := fun path => ∀ segment ∈ path, slash ∉ segment)
      (q := fun segment => slash ∉ segment) ?_ ?_ (by simp) (fun _ => slash_notMem)
      fun _ => slash_notMem
    · intro path segment hp hseg s hs
      rcases mem_append.1 hs with hs | hs
      · exact hp s hs
      · rw [mem_singleton.1 hs]
        exact hseg
    · exact fun path hp s hs => hp s ((dropLast_sublist path).subset hs)
  have hma : ((climbOf t).from (segmentsOf body)).map (percentEncode encodes)
      = (segmentsOf body).take ((segmentsOf body).length - (climbOf t).up)
        ++ (climbOf t).down.map (percentEncode encodes) := by
    rw [Climb.from, map_append, map_take, hse]
  rw [← cons_append, ← joinPath_segmentsOf fun b hb => (isPlain_bounds (hbo b hb)).2.2.2.1,
    joinPath_isPrefix_iff (fun _ => slash_notMem)]
  · rw [hma, isPrefix_take_append_iff, map_isPrefix_iff fun name hm s =>
        percentEncode_eq_iff (hn name (mem_of_mem_drop hm)), Climb.Stays,
      length_append, length_take, length_map]
    refine and_congr_right fun _ => ?_
    omega
  · intro segment hm
    obtain ⟨s, hs, rfl⟩ := mem_map.1 hm
    exact notMem_percentEncode (by decide) (by decide) (hp s hs)

end Url
