import OpenWorkersRunner.Services.Storage

/-!
# Storage bindings are confined, as far as their text says so

A binding is confined when every URL it requests has the host of the endpoint and a path below
`/{bucket}/{prefix}/`, as the HTTP client reads the URL.  `sanitize_path` looks for `..` in the text
it decoded; the client removes tabs and newlines after that, and reads `%2e` as a dot.  So a text
can pass and still climb: `.⇥./x`, or eleven levels of `%2e%2e` (`storage_escapes`).
-/

universe u

namespace OpenWorkersRunner.Storage

open List Option Text Url

/-- A configuration of plain names: an endpoint `scheme://host`, and letters, digits, `-`, `_` and
slashes in the bucket and the prefix. -/
structure StorageConfig.Plain (config : StorageConfig) : Prop where
  endpoint : ∃ scheme host, config.endpoint = hostUrl scheme host ∧ host ≠ [] ∧
    ∀ b ∈ host, isHostByte b = true
  bucket : ∀ b ∈ config.bucket, isPlain b = true
  keyPrefix : ∀ keyPrefix, config.keyPrefix = some keyPrefix → ∀ b ∈ keyPrefix, isPlain b = true

/-- `{bucket}/{prefix}`, or `{bucket}` when there is no prefix; the slashes at the end of the prefix
do not count. -/
def StorageConfig.body (config : StorageConfig) : Text :=
  match config.keyPrefix with
  | some keyPrefix => config.bucket ++ slash :: trimEnd keyPrefix slash
  | none => config.bucket

def StorageConfig.guestText (config : StorageConfig) (path sanitized : Text) : Text :=
  match config.keyPrefix with
  | some _ => sanitized
  | none => trimStart path slash

/-- **Confinement**: read by the parser, the URL has the scheme and the host of the endpoint and a
path that starts with `/{bucket}/{prefix}/`. -/
def Confined {Host : Type u} (P : Parser Host) (config : StorageConfig) (url : Text) : Prop :=
  ∃ endpoint parsed, P.parse config.endpoint = some endpoint ∧ P.parse url = some parsed ∧
    parsed.scheme = endpoint.scheme ∧ parsed.host = endpoint.host ∧
    slash :: (config.body ++ [slash]) <+: joinPath parsed.path

/-! ## Exactly when -/

variable {config : StorageConfig} {Host : Type u} {P : Parser Host} {s : Text}

theorem StorageConfig.Plain.body (h : config.Plain) : ∀ b ∈ config.body, isPlain b = true := by
  intro b hb
  rw [StorageConfig.body] at hb
  split at hb
  next pre hst =>
    rcases mem_append.1 hb with hb | hb
    · exact h.bucket b hb
    · rcases mem_cons.1 hb with rfl | hb
      · rfl
      · exact h.keyPrefix pre hst b (( rdropWhile_prefix _ _).subset hb)
  · exact h.bucket b hb

theorem confined_iff (hP : ∀ b, isName b = true → P.encodes b = false) (hpl : config.Plain)
    (hparse : ∃ endpoint, P.parse config.endpoint = some endpoint) (t : Text) :
    Confined P config (config.endpoint ++ slash :: (config.body ++ slash :: t)) ↔
      (climbOf t).Stays (segmentsOf config.body) := by
  obtain ⟨scheme, host, hen, hne, hhost⟩ := hpl.endpoint
  obtain ⟨endpoint, hparse⟩ := hparse
  rw [← joinPath_climb_iff hP hpl.body]
  rw [hen, P.parse_host hne hhost] at hparse
  obtain ⟨h, hh, -⟩ := map_eq_some_iff.1 hparse
  have ho : P.parse config.endpoint = some { scheme := scheme, host := h, path := [[]] } := by
    rw [hen, P.parse_host hne hhost, hh, map_some]
  have hu : P.parse (config.endpoint ++ slash :: (config.body ++ slash :: t)) = some
      { scheme := scheme
        host := h
        path := ((climbOf t).from (segmentsOf config.body)).map (percentEncode P.encodes) } := by
    rw [hen, P.parse_append hne hhost hpl.body, hh, map_some]
  rw [Confined, ho, hu]
  refine ⟨?_, fun hpa => ⟨_, _, rfl, rfl, rfl, rfl, hpa⟩⟩
  rintro ⟨e, url, -, hp, -, -, hpa⟩
  rw [← some.inj hp] at hpa
  exact hpa

theorem buildS3Url_eq (P : Parser Host) (config : StorageConfig) (urlOrPath url : Text) :
    buildS3Url P config urlOrPath = .ok url ↔ ∃ s, sanitizePath (requestPath P urlOrPath) = some s ∧
        url = config.endpoint ++ slash ::
          (config.body ++ slash :: config.guestText (requestPath P urlOrPath) s) := by
  rw [buildS3Url]
  cases hs : sanitizePath (requestPath P urlOrPath) with
  | none => simp
  | some s =>
    cases hst : config.keyPrefix with
    | none =>
      simp [StorageConfig.body, StorageConfig.guestText, StorageConfig.urlOf, hst, eq_comm]
    | some pre =>
      simp [StorageConfig.body, StorageConfig.guestText, StorageConfig.urlOf, hst, eq_comm]

theorem operationUrl_eq (hparse : ∃ endpoint, P.parse config.endpoint = some endpoint)
    (op : StorageOp) (url : Text) :
    operationUrl P config op = .ok url ↔ ∃ s, sanitizePath op.key = some s ∧
        url = config.endpoint ++ slash :: (config.body ++ slash :: s) := by
  obtain ⟨endpoint, hparse⟩ := hparse
  simp only [operationUrl, hparse, buildFullKey]
  cases hs : sanitizePath op.key with
  | none => simp [Except.map]
  | some s =>
    cases hst : config.keyPrefix with
    | none => simp [Except.map, StorageConfig.body, StorageConfig.urlOf, hst, eq_comm]
    | some pre => simp [Except.map, StorageConfig.body, StorageConfig.urlOf, hst, eq_comm]

/-- **When a binding is confined.**  A request through `build_s3_url`, and an operation on an
object, is confined exactly when it is refused or the text that goes into the URL stays. -/
theorem storage_confined {Host : Type u} (P : Parser Host)
    (hP : ∀ b, isName b = true → P.encodes b = false) (config : StorageConfig)
    (hplain : config.Plain) (hparse : ∃ endpoint, P.parse config.endpoint = some endpoint) :
    (∀ urlOrPath, (∀ url, buildS3Url P config urlOrPath = .ok url → Confined P config url) ↔
        ∀ s, sanitizePath (requestPath P urlOrPath) = some s →
          (climbOf (config.guestText (requestPath P urlOrPath) s)).Stays
            (segmentsOf config.body)) ∧
    ∀ op, (∀ url, operationUrl P config op = .ok url → Confined P config url) ↔
        ∀ s, sanitizePath op.key = some s → (climbOf s).Stays (segmentsOf config.body) := by
  have hiff := confined_iff hP hplain hparse
  refine ⟨fun urlOrPath => ⟨fun h s hs => ?_, fun h url hurl => ?_⟩,
    fun op => ⟨fun h s hs => ?_, fun h url hurl => ?_⟩⟩
  · exact (hiff _).1 (h _ ((buildS3Url_eq P config urlOrPath _).2 ⟨s, hs, rfl⟩))
  · obtain ⟨s, hs, rfl⟩ := (buildS3Url_eq P config urlOrPath url).1 hurl
    exact (hiff _).2 (h s hs)
  · exact (hiff _).1 (h _ ((operationUrl_eq hparse op _).2 ⟨s, hs, rfl⟩))
  · obtain ⟨s, hs, rfl⟩ := (operationUrl_eq hparse op url).1 hurl
    exact (hiff _).2 (h s hs)

/-! ## Where it fails -/

/-- A parser that takes a host as it stands, with the set of bytes that the standard encodes in a
path. -/
def plainParser : Parser Text where
  parseHost := some
  encodes := fun b =>
    decide (b.toNat ≤ 32 ∨ 126 < b.toNat) || (ascii "\"#<>?^\x60\x7b\x7d").contains b

theorem plainParser_encodes (b : UInt8) (h : isName b = true) : plainParser.encodes b = false := by
  rw [isName, decide_eq_true_eq] at h
  simp only [plainParser, Bool.or_eq_false_iff, decide_eq_false_iff_not]
  refine ⟨by omega, ?_⟩
  by_contra hm
  rw [Bool.not_eq_false, contains_iff_mem] at hm
  have hbs : ∀ x ∈ ascii "\"#<>?^\x60\x7b\x7d",
      x.toNat ∈ [34, 35, 60, 62, 63, 94, 96, 123, 125] := all_iff_forall_prop.1 (by decide)
  have hb := hbs b hm
  simp only [mem_cons, not_mem_nil, or_false] at hb
  omega

def exampleConfig (keyPrefix : Option String) : StorageConfig where
  endpoint := ascii "https://s3.example.com"
  bucket := ascii "my-bucket"
  keyPrefix := keyPrefix.map ascii

theorem exampleConfig_plain (pre : Option String)
    (h : ∀ p, pre = some p → ∀ b ∈ ascii p, isPlain b = true) :
    (exampleConfig pre).Plain := by
  have hen : ascii "https://s3.example.com" = hostUrl .https (ascii "s3.example.com") := by
    decide
  have hhost : ∀ b ∈ ascii "s3.example.com", isHostByte b = true := all_eq_true.1 (by decide)
  have hbu : ∀ b ∈ ascii "my-bucket", isPlain b = true := all_eq_true.1 (by decide)
  refine ⟨⟨.https, ascii "s3.example.com", hen, by decide, hhost⟩, hbu, ?_⟩
  intro p hp
  obtain ⟨q, hq, rfl⟩ := map_eq_some_iff.1 hp
  exact h q hq

theorem storage_confined_file :
    Confined plainParser (exampleConfig (some "assets/"))
        (ascii "https://s3.example.com/my-bucket/assets/css/main.css") ∧
      Confined plainParser (exampleConfig none)
        (ascii "https://s3.example.com/my-bucket/hello world.txt") := by
  have hpl : (exampleConfig (some "assets/")).Plain :=
    exampleConfig_plain _ (by rintro p ⟨⟩; exact List.all_eq_true.1 (by decide))
  have hpl' : (exampleConfig none).Plain := exampleConfig_plain _ (by rintro p ⟨⟩)
  have hfetch : sanitizePath (requestPath plainParser (ascii "/css/./main.css"))
      = some (ascii "css/main.css") := by decide
  have hget : sanitizePath (ascii "/hello%20world.txt") = some (ascii "hello world.txt") := by
    decide
  refine ⟨?_, ?_⟩
  · refine ((storage_confined plainParser plainParser_encodes _ hpl ⟨_, rfl⟩).1
      (ascii "/css/./main.css")).2 (fun s hs => ?_) _ (by decide)
    rw [← Option.mem_unique hfetch hs]
    decide
  · refine ((storage_confined plainParser plainParser_encodes _ hpl' ⟨_, rfl⟩).2
      (.get (ascii "/hello%20world.txt"))).2 (fun s hs => ?_) _ (by decide)
    rw [← Option.mem_unique hget hs]
    decide

theorem storage_escapes :
    ¬ ∀ P : Parser Text, (∀ b, isName b = true → P.encodes b = false) →
      ∀ config : StorageConfig, config.Plain →
        (∃ endpoint, P.parse config.endpoint = some endpoint) →
        (∀ urlOrPath url, buildS3Url P config urlOrPath = .ok url → Confined P config url) ∧
          ∀ op url, operationUrl P config op = .ok url → Confined P config url := by
  intro h
  have hpl : (exampleConfig none).Plain := exampleConfig_plain _ (by rintro p ⟨⟩)
  obtain ⟨endpoint, parsed, -, hparse, -, -, hpath⟩ :=
    (h plainParser plainParser_encodes _ hpl ⟨_, rfl⟩).1 (ascii "/.\t./other-bucket/secret")
      (ascii "https://s3.example.com/my-bucket/.\t./other-bucket/secret") (by decide)
  have hread : plainParser.parse (ascii "https://s3.example.com/my-bucket/.\t./other-bucket/secret")
      = some ⟨.https, ascii "s3.example.com", [ascii "other-bucket", ascii "secret"]⟩ := by
    decide
  rw [← Option.mem_unique hread hparse] at hpath
  exact absurd hpath (by decide)

example : operationUrl plainParser (exampleConfig (some "safe"))
      (.get (ascii "%252525252525252525252e%252525252525252525252e/secret"))
    = .ok (ascii "https://s3.example.com/my-bucket/safe/%2e%2e/secret") ∧
    plainParser.parse (ascii "https://s3.example.com/my-bucket/safe/%2e%2e/secret")
      = some ⟨.https, ascii "s3.example.com", [ascii "my-bucket", ascii "secret"]⟩ := by
  decide

end OpenWorkersRunner.Storage
