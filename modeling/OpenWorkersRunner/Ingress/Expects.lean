import OpenWorkersRunner.Ingress.Domains
import OpenWorkersRunner.Ingress.Vars

/-!
# The `expect`s of `prepare`

`prepare` expects five things: that the path and the query of a target are a target, and that a
client address, a host, a label of a host and the name of the API worker are header values.
-/

namespace OpenWorkersRunner.Ingress

open List Option Text

/-- What is used of the other crates: `HeaderValue::from_str` takes visible ASCII, an address is
written in it, and the host of an authority has no other bytes than the authority. -/
structure Crates.Lawful {Addr Net Uuid : Type} (K : Crates Addr Net Uuid) : Prop where
  visible : ∀ b, isVisible b = true → K.headerByte b = true
  addr : ∀ a, (K.addrText a).all isVisible = true
  host : ∀ t host, K.authorities.parse t = some host → t.all isVisible = true →
    host.all isVisible = true

/-! ## Visible texts -/

theorem isVisible_lower {b : UInt8} (h : isVisible b = true) : isVisible (lower b) = true := by
  rw [lower]
  split
  next hca =>
    have ha : (32 : UInt8).toNat = 32 := rfl
    have hv : (b + 32).toNat = b.toNat + 32 := by
      rw [UInt8.toNat_add, ha]
      omega
    simp only [isVisible, hv, Bool.or_eq_true, Bool.and_eq_true, decide_eq_true_eq]
    omega
  · exact h

theorem visible_normalHost {t : Text} (h : t.all isVisible = true) :
    (normalHost t).all isVisible = true := by
  rw [List.all_eq_true] at h ⊢
  intro b hb
  obtain ⟨c, hc, rfl⟩ := List.mem_map.1 hb
  exact isVisible_lower (h c (( List.rdropWhile_prefix _ _).subset hc))

theorem visible_of_workerRoute {Uuid : Type} {parseUuid : Text → Option Uuid}
    {host hdr name : Text} {domains : List Text}
    (h : workerRoute parseUuid host domains = some (hdr, name))
    (hhost : host.all isVisible = true) : name.all isVisible = true := by
  rw [workerRoute] at h
  split at h
  · cases h
  next found hf =>
    obtain ⟨-, h⟩ := ite_none_left_eq_some.1 h
    have hn : found = name := by
      split at h
      · exact congrArg Prod.snd (some.inj h)
      · exact congrArg Prod.snd (some.inj h)
    obtain ⟨d, -, hu⟩ := under_of_nameUnder hf
    rw [Under] at hu
    rw [hu, all_append, Bool.and_eq_true] at hhost
    exact hn ▸ hhost.1

section Expects

variable {Addr Net Uuid : Type} {K : Crates Addr Net Uuid} {config : Config Net}

theorem visible_of_host (hK : K.Lawful) {hheaders : Headers} {name : Text}
    (h : host K.authorities hheaders = some name) : name.all isVisible = true := by
  obtain ⟨val, -, h⟩ := bind_eq_some_iff.1 h
  obtain ⟨url, hp, h⟩ := bind_eq_some_iff.1 h
  obtain ⟨t, ht, hparse⟩ := bind_eq_some_iff.1 hp
  obtain ⟨hv, hva⟩ := ite_none_right_eq_some.1 ht
  obtain ⟨-, hn⟩ := ite_none_left_eq_some.1 h
  cases hva
  cases hn
  exact visible_normalHost (hK.host _ _ hparse hv)

theorem headerValue_of_visible (hK : K.Lawful) {value : Text} (h : value.all isVisible = true) :
    headerValue K.headerByte value = some value := by
  refine if_pos (all_eq_true.2 fun b hb => ?_)
  exact hK.visible b (all_eq_true.1 h b hb)

/-! ## The stages -/

variable {req : Request}

theorem atOrigin_isSome_iff {t : Text}
    (ht : Uri.parse K.authorities K.pathByte K.queryByte t = some req.uri) :
    (req.atOrigin K).isSome = true ↔ ¬ req.uri.QueryOnly := by
  rw [Request.atOrigin]
  cases ha : req.uri.authority with
  | none =>
    refine iff_of_true rfl ?_
    rintro ⟨hso, -⟩
    rw [ha] at hso
    cases hso
  | some authority =>
    have hso : req.uri.authority.isSome = true := by rw [ha]; rfl
    rw [isSome_map]
    exact Uri.parse_text_isSome_iff ht hso

theorem stamp_isSome (hK : K.Lawful) (id : Text) (hheaders : Headers) (peer : Peer Addr)
    (tls : Bool) : (stamp K config id hheaders peer tls).isSome = true := by
  simp only [stamp]
  split
  · rw [headerValue_of_visible hK (hK.addr _)]
    rfl
  · rfl

variable (K config) in
/-- The path of a dashboard host that goes to the API worker. -/
def toApiWorker (host path : Text) : Bool :=
  !scannerProbe path && config.dashboardHosts.contains host &&
    (logsRoute K.parseUuid path).isNone && path != ascii "/api/health/latency/proxy"

variable (K config) in
/-- The request goes to the API worker, which its target and its Host header decide. -/
def Request.forApiWorker (req : Request) : Bool :=
  (req.atOrigin K).any fun req =>
    (host K.authorities req.headers).any fun host => toApiWorker K config host req.uri.path

theorem dispatch_isSome_iff (hK : K.Lawful) {host : Text} (hhost : host.all isVisible = true)
    (req : Request) : (dispatch K config host req).isSome = true ↔
      (toApiWorker K config host req.uri.path = true →
        config.apiWorker.all K.headerByte = true) := by
  rw [dispatch]
  split
  next hpr => simp [toApiWorker, hpr]
  next hpr =>
  split
  next hda =>
    split
    next hlo => simp [toApiWorker, hlo]
    next hlo =>
    split
    next hla => simp [toApiWorker, hla]
    next hla =>
      have hto : toApiWorker K config host req.uri.path = true := by
        simp [toApiWorker, hpr, hlo, hla, contains_iff_mem.1 hda]
      rw [isSome_map, headerValue, hto]
      simp
  next hda =>
    refine iff_of_true ?_ (by simp_all [toApiWorker])
    split
    next hro =>
      rw [headerValue_of_visible hK (visible_of_workerRoute hro hhost)]
      rfl
    · rfl

theorem prepare_isSome_of_atOrigin (hK : K.Lawful) {origin : Request}
    (ho : req.atOrigin K = some origin) (id : Text) (peer : Peer Addr) (tls : Bool) :
    (prepare K config id req peer tls).isSome = true ↔
      (req.forApiWorker K config = true → config.apiWorker.all K.headerByte = true) := by
  have hstamp : (stamp K config id origin.headers peer tls).isSome = true :=
    stamp_isSome hK id origin.headers peer tls
  obtain ⟨hd, hst⟩ := isSome_iff_exists.1 hstamp
  have hre : req.forApiWorker K config =
      (host K.authorities hd).any fun host => toApiWorker K config host origin.uri.path := by
    rw [Request.forApiWorker, ho, any_some, host_stamp hst]
  rw [hre, prepare, ho, bind_some, hst, bind_some]
  split
  next hno => simp [hno]
  next host hhost =>
    have hv := visible_of_host hK hhost
    rw [headerValue_of_visible hK hv, bind_some, hhost, any_some]
    exact dispatch_isSome_iff hK hv _

theorem prepare_eq_none (ho : req.atOrigin K = none) (id : Text) (peer : Peer Addr)
    (tls : Bool) : prepare K config id req peer tls = none := by
  rw [prepare, ho]
  rfl

/-- **When `prepare` panics.**  Under an accepted configuration, `prepare` answers a request exactly
when its target is not an absolute one with a query and no path and, if the request goes to the API
worker, the name of that is a header value: for every target, all headers and every peer. -/
theorem prepare_isSome_iff {SockAddr Tls : Type} {S : System SockAddr Net Tls}
    {var : Var → Option Text} {settings : Settings SockAddr Net Tls} (hK : K.Lawful)
    (hvars : fromVars S var = .ok settings) {req : Request} {t : Text}
    (ht : Uri.parse K.authorities K.pathByte K.queryByte t = some req.uri) (id : Text)
    (peer : Peer Addr) (tls : Bool) :
    (prepare K settings.toConfig id req peer tls).isSome = true ↔
      ¬ req.uri.QueryOnly ∧ (req.forApiWorker K settings.toConfig = true →
        ∀ name, var .apiWorkerName = some name → name.all K.headerByte = true) := by
  have hapi : settings.apiWorker.all K.headerByte = true ↔
      ∀ name, var .apiWorkerName = some name → name.all K.headerByte = true := by
    rw [(reads_of_fromVars hvars).apiWorker]
    cases hvar : var .apiWorkerName with
    | some name => simp
    | none =>
      have hdef : (ascii "openworkers-api").all isVisible = true := by decide
      refine iff_of_true ?_ nofun
      exact List.all_eq_true.mpr fun b hb => hK.visible b (List.all_eq_true.mp hdef b hb)
  rw [← atOrigin_isSome_iff ht, ← hapi]
  cases hor : req.atOrigin K with
  | none =>
    rw [prepare_eq_none hor]
    simp
  | some origin =>
    rw [prepare_isSome_of_atOrigin hK hor]
    simp

end Expects

def tinySystem : System Unit Unit Unit where
  parseSockAddr _ := some ()
  parseUsize _ := some 1
  parseU16 _ := some 1
  parseNet _ := some ()
  parseAddrNet _ := some ()
  headerName := some
  parallelism := none
  readToString _ := .error (ascii "No such file or directory")
  tlsConfig _ _ _ := .ok ()

theorem visible_lenientHost {t : Text} (h : t.all isVisible = true) :
    (lenientHost t).all isVisible = true := by
  rw [List.all_eq_true] at h
  have hre : ∀ b ∈ t.rtakeWhile (· != atSign), isVisible b = true := fun b hb =>
    h b ((rtakeWhile_suffix _ _).subset hb)
  rw [lenientHost, List.all_eq_true]
  intro b hb
  split at hb
  · rcases mem_append.1 hb with hb | hb
    · exact hre b (( List.takeWhile_prefix _).subset hb)
    · rw [mem_singleton.1 hb]
      decide
  · exact hre b (( List.takeWhile_prefix _).subset hb)

theorem tinyCrates_lawful : tinyCrates.Lawful where
  visible _ h := h
  addr _ := show (ascii "192.0.2.1").all isVisible = true by decide
  host t _ h hv := some.inj h ▸ visible_lenientHost hv

def tinySettings (apiWorker : Option Text) : Settings Unit Unit Unit where
  dashboardHosts := items defaultDashboardHosts
  apiWorker := apiWorker.getD (ascii "openworkers-api")
  workerDomains := items []
  allowlist := none
  clientIpHeader := none
  internalPort := 8080
  httpAddr := ()
  httpsAddr := .tcp ()
  listeners := 4
  tls := none
  clientCert := none

theorem fromVars_tinySettings (apiWorker : Option Text) :
    fromVars tinySystem (fun v => if v = .apiWorkerName then apiWorker else none) =
      .ok (tinySettings apiWorker) := rfl

def requestTo (uri : Uri) : Request := ⟨ascii "GET", uri, .ofLines [], none⟩

theorem prepare_isSome_iff_path :
    (prepare tinyCrates (tinySettings none).toConfig (ascii "1")
      (requestTo ⟨some (ascii "host"), some (ascii "/a", some (ascii "x"))⟩) .unix
      true).isSome = true := by
  have ht : Uri.parse tinyCrates.authorities tinyCrates.pathByte tinyCrates.queryByte
      (ascii "http://host/a?x") =
      some ⟨some (ascii "host"), some (ascii "/a", some (ascii "x"))⟩ := by decide
  refine (prepare_isSome_iff tinyCrates_lawful (fromVars_tinySettings none) ht _ _ _).mpr
    ⟨?_, fun _ _ hname => by cases hname⟩
  rintro ⟨-, query, hquery⟩
  cases hquery

theorem prepare_panics_on_query_without_path :
    (∃ uri, Uri.parse tinyCrates.authorities tinyCrates.pathByte tinyCrates.queryByte
        (ascii "http://host?x") = some uri ∧
      ∀ (config : Config Unit) (id method : Text) (headers : Headers) (limit : Option Nat)
        (peer : Peer Unit) (tls : Bool),
        prepare tinyCrates config id ⟨method, uri, headers, limit⟩ peer tls = none) ∧
    fromVars tinySystem (fun v => if v = .apiWorkerName then some (ascii "api\n") else none) =
      .ok (tinySettings (some (ascii "api\n"))) ∧
    prepare tinyCrates (tinySettings (some (ascii "api\n"))).toConfig (ascii "1")
      (requestOf [(hostHeader, ascii "dash.openworkers.com")]) .unix true = none := by
  refine ⟨⟨⟨some (ascii "host"), some ([], some (ascii "x"))⟩, by decide, ?_⟩,
    fromVars_tinySettings _, ?_⟩
  · intro config id method headers limit peer tls
    exact prepare_eq_none rfl id peer tls
  · exact isNone_iff_eq_none.mp (by decide +kernel)

end OpenWorkersRunner.Ingress
