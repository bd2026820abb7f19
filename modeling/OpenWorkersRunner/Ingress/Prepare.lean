import OpenWorkersRunner.Ingress.Targets

/-!
# What a public request may ask for (`ingress::prepare`)

`prepare` replaces the headers that only the runner sets, and gives the route of a public request.
The model follows it statement by statement: the host in the target takes the place of the Host
header (`Request.atOrigin`), what an allowlisted proxy says about the client is read
(`forwardedByProxy`), the headers of the runner are removed and set again (`stamp`), and the host
and the path decide the route (`dispatch`).  Each of them gives nothing where an `expect` of the
source meets an error, which is a panic.
-/

namespace OpenWorkersRunner.Ingress

open Text

/-! ## Paths -/

def probedDotFiles : List Text :=
  ["env", "git", "svn", "hg", "ssh", "aws", "htpasswd", "htaccess", "ds_store"].map ascii

def probedKeys : List Text := ["rsa", "dsa", "ecdsa", "ed25519"].map ascii

def isKey (name : Text) : Bool :=
  ((ascii "id_").isPrefixOf? name).any fun name =>
    probedKeys.contains (((ascii ".pub").isSuffixOf? name).getD name)

def isDotFile (segment : Text) : Bool :=
  (List.isPrefixOf? [dot] segment).any fun name =>
    probedDotFiles.contains (name.takeWhile (· != dot))

def isPhp (segment : Text) : Bool :=
  segment.contains dot &&
    let extension := segment.rtakeWhile (· != dot)
    extension == ascii "phtml" ||
      ((ascii "php").isPrefixOf? extension).any fun version =>
        decide (version.length ≤ 1) && version.all isDigit

/-- `scanner_probe`.  A byte that is not UTF-8 is decoded to a character that no test asks for, so
the tests are tests of the bytes. -/
def scannerProbe (path : Text) : Bool :=
  let segments := (((percentDecode path).map lower).splitOn '/'.toUInt8).filter fun segment =>
    !segment.isEmpty
  segments == [ascii "etc", ascii "passwd"] || segments == [ascii "etc", ascii "shadow"] ||
    segments.getLast?.any isKey || segments.any fun segment => isDotFile segment || isPhp segment

inductive Stream
  | sse
  | webSocket
deriving DecidableEq

/-- `logs::route`. -/
def logsRoute {Uuid : Type} (parseUuid : Text → Option Uuid) (path : Text) :
    Option (Uuid × Stream) :=
  ((ascii "/api/v1/workers/").isPrefixOf? path).bind fun rest =>
    match rest.span (· != '/'.toUInt8) with
    | (_, []) => none
    | (id, _ :: endpoint) =>
      if endpoint = ascii "logs" then (parseUuid id).map (·, .sse)
      else if endpoint = ascii "ws-logs" then (parseUuid id).map (·, .webSocket)
      else none

/-- `worker_upload`. -/
def workerUpload (path : Text) : Bool :=
  (((ascii "/api/v1/workers/").isPrefixOf? path).bind fun rest =>
    (ascii "/upload").isSuffixOf? rest).any fun id => !id.isEmpty && !id.contains '/'.toUInt8

/-! ## Requests -/

structure Request where
  method : Text
  uri : Uri
  headers : Headers
  bodyLimit : Option Nat

inductive Peer (Addr : Type)
  | tcp (addr : Addr) (port : Nat)
  | unix

/-- `Peer::ip`. -/
def Peer.ip {Addr : Type} : Peer Addr → Option Addr
  | .tcp addr _ => some addr
  | .unix => none

inductive Route (Uuid : Type)
  | worker
  | logs (worker : Uuid) (stream : Stream)
  | latency
  | probe
  | badHost
deriving DecidableEq

structure Config (Net : Type) where
  dashboardHosts : List Text
  apiWorker : Text
  workerDomains : List Text
  allowlist : Option (List Net)
  clientIpHeader : Option Text

/-- What the runner uses of other crates: the parsers of targets, header values, UUIDs and
addresses, and the arithmetic of networks. -/
structure Crates (Addr Net Uuid : Type) where
  authorities : AuthorityParser
  pathByte : UInt8 → Bool
  queryByte : UInt8 → Bool
  headerByte : UInt8 → Bool
  parseUuid : Text → Option Uuid
  parseAddr : Text → Option Addr
  canonical : Addr → Addr
  addrText : Addr → Text
  contains : Net → Addr → Bool

/-! ## The headers of the runner -/

def xRequestId : Text := ascii "x-request-id"

def xForwardedHost : Text := ascii "x-forwarded-host"

def xForwardedProto : Text := ascii "x-forwarded-proto"

def runnerHeaders : List Text :=
  [xWorkerId, xWorkerName, ascii "x-openworkers-internal", ascii "x-openworkers-depth", xRequestId,
    ascii "forwarded", ascii "x-forwarded-for", xForwardedHost, ascii "x-forwarded-port",
    xForwardedProto, ascii "x-real-ip", ascii "cf-connecting-ip"]

section Prepare

variable {Addr Net Uuid : Type} (K : Crates Addr Net Uuid) (config : Config Net)

structure Forwarded (Addr : Type) where
  client : Option Addr
  https : Option Bool

/-- `Config::allows`. -/
def Config.allows (addr : Addr) : Bool :=
  config.allowlist.all fun networks => networks.any fun network =>
    K.contains network (K.canonical addr)

def Peer.trusted : Peer Addr → Bool
  | .tcp addr _ => config.allows K addr
  | .unix => true

/-- `forwarded_by_proxy`. -/
def forwardedByProxy (headers : Headers) (peer : Peer Addr) : Forwarded Addr :=
  match config.clientIpHeader with
  | none => ⟨none, none⟩
  | some header =>
    if peer.trusted K config then
      { client := ((headers.get header).bind toStr).bind fun value => K.parseAddr (trim value)
        https :=
          if headers.get xForwardedProto = some (ascii "https") then some true
          else if headers.get xForwardedProto = some (ascii "http") then some false
          else none }
    else ⟨none, none⟩

def stamp (id : Text) (headers : Headers) (peer : Peer Addr) (tls : Bool) : Option Headers :=
  let forwarded := forwardedByProxy K config headers peer
  let scheme := if forwarded.https.getD tls then ascii "https" else ascii "http"
  let headers := ((headers.removeAll runnerHeaders).insert xRequestId id).insert xForwardedProto
    scheme
  match forwarded.client.or peer.ip with
  | some client =>
    (headerValue K.headerByte (K.addrText (K.canonical client))).map fun client =>
      ((headers.insert (ascii "x-real-ip") client).insert (ascii "x-forwarded-for") client).insert
        (ascii "cf-connecting-ip") client
  | none => some headers

/-- The request, with the host that its target names in the Host header.  The path and the query
of the target are read again as a target of their own. -/
def Request.atOrigin (req : Request) : Option Request :=
  match req.uri.authority with
  | none => some req
  | some authority =>
    (Uri.parse K.authorities K.pathByte K.queryByte (Uri.text req.uri.pathAndQuery)).map fun uri =>
      { req with
        headers :=
          match headerValue K.headerByte authority with
          | some value => req.headers.insert hostHeader value
          | none => req.headers
        uri := uri }

def uploadMaxBodyBytes : Nat := 30 * 1024 * 1024

/-- What `prepare` does once it knows the host: the route, and the request with its routing
header. -/
def dispatch (host : Text) (req : Request) : Option (Route Uuid × Request) :=
  if scannerProbe req.uri.path then some (.probe, req)
  else if config.dashboardHosts.contains host then
    match logsRoute K.parseUuid req.uri.path with
    | some (worker, stream) => some (.logs worker stream, req)
    | none =>
      if req.uri.path = ascii "/api/health/latency/proxy" then some (.latency, req)
      else
        (headerValue K.headerByte config.apiWorker).map fun apiWorker =>
          (.worker, { req with
              headers := req.headers.insert xWorkerName apiWorker
              bodyLimit :=
                if workerUpload req.uri.path then some uploadMaxBodyBytes else req.bodyLimit })
  else
    match workerRoute K.parseUuid host config.workerDomains with
    | some (header, name) =>
      (headerValue K.headerByte name).map fun name =>
        (.worker, { req with headers := req.headers.insert header name })
    | none => some (.worker, req)

def prepare (id : Text) (req : Request) (peer : Peer Addr) (tls : Bool) :
    Option (Route Uuid × Request) :=
  (req.atOrigin K).bind fun req =>
    (stamp K config id req.headers peer tls).bind fun headers =>
      match host K.authorities headers with
      | none => some (.badHost, { req with headers := headers })
      | some host =>
        (headerValue K.headerByte host).bind fun value =>
          dispatch K config host { req with headers := headers.insert xForwardedHost value }

/-! ## Two runs -/

def hidden : Set Text := {xRequestId, hostHeader}

structure Alike (req₁ req₂ : Request) : Prop where
  method : req₁.method = req₂.method
  uri : req₁.uri = req₂.uri
  bodyLimit : req₁.bodyLimit = req₂.bodyLimit
  headers : req₁.headers.AgreeOff hidden req₂.headers

/-- Two requests that differ in the headers of the runner, and in how they spell the host, only. -/
structure SameButSpelling (P : AuthorityParser) (req₁ req₂ : Request) : Prop where
  method : req₁.method = req₂.method
  uri : req₁.uri = req₂.uri
  bodyLimit : req₁.bodyLimit = req₂.bodyLimit
  headers : req₁.headers.AgreeOff ({name | name ∈ runnerHeaders} ∪ {hostHeader}) req₂.headers
  host : req₁.headers.get hostHeader = req₂.headers.get hostHeader ∨
    ∃ value₁ value₂, req₁.headers.get hostHeader = some value₁ ∧
      req₂.headers.get hostHeader = some value₂ ∧ SameHost P value₁ value₂

variable {K config}

variable {req₁ req₂ : Request} {peer : Peer Addr}

theorem SameButSpelling.host_eq {P : AuthorityParser} (h : SameButSpelling P req₁ req₂) :
    Ingress.host P req₁.headers = Ingress.host P req₂.headers := by
  rcases h.host with heq | ⟨value1, value2, h1, h2, hsa⟩
  · rw [Ingress.host, heq, Ingress.host]
  · rw [Ingress.host, h1, Ingress.host, h2]
    exact hsa.hostOf_eq

theorem SameButSpelling.atOrigin (h : SameButSpelling K.authorities req₁ req₂) :
    Option.Rel (SameButSpelling K.authorities) (req₁.atOrigin K) (req₂.atOrigin K) := by
  rw [Request.atOrigin, Request.atOrigin, ← h.uri]
  cases req₁.uri.authority with
  | none => exact .some h
  | some authority =>
    cases Uri.parse K.authorities K.pathByte K.queryByte (Uri.text req₁.uri.pathAndQuery) with
    | none => exact .none
    | some uri =>
      simp only [Option.map_some]
      cases headerValue K.headerByte authority with
      | none => exact .some ⟨h.method, rfl, h.bodyLimit, h.headers, h.host⟩
      | some value =>
        have hhost (headers : Headers) :
            (headers.insert hostHeader value).get hostHeader = some value := by
          simp [Headers.get]
        refine .some ⟨h.method, rfl, h.bodyLimit, h.headers.insert _ _, .inl ?_⟩
        rw [hhost, hhost]

theorem rel_bind {α β : Type} {R : α → α → Prop} {S : β → β → Prop} {x y : Option α}
    {f g : α → Option β} (h : Option.Rel R x y)
    (hn : ∀ a b, x = some a → y = some b → R a b → Option.Rel S (f a) (g b)) :
    Option.Rel S (x.bind f) (y.bind g) := by
  cases h with
  | none => exact .none
  | some h => exact hn _ _ rfl rfl h

theorem forwardedByProxy_untrusted
    (h : config.clientIpHeader = none ∨ peer.trusted K config = false) (hheaders : Headers) :
    forwardedByProxy K config hheaders peer = ⟨none, none⟩ := by
  rcases h with h | h
  · rw [forwardedByProxy, h]
  · rw [forwardedByProxy]
    split
    · rfl
    · simp [h]

theorem agreeOff_stamp {headers1 headers2 : Headers}
    (hp : config.clientIpHeader = none ∨ peer.trusted K config = false) (id1 id2 : Text)
    (tls : Bool) (h : headers1.AgreeOff ({name | name ∈ runnerHeaders} ∪ {hostHeader}) headers2) :
    Option.Rel (Headers.AgreeOff hidden) (stamp K config id1 headers1 peer tls)
      (stamp K config id2 headers2 peer tls) := by
  have hre : (headers1.removeAll runnerHeaders).AgreeOff hidden
      (headers2.removeAll runnerHeaders) := by
    apply Headers.AgreeOff.removeAll
    intro name hn
    exact h name fun hm => hn (hm.imp_right .inr)
  have hm : xRequestId ∈ hidden := .inl rfl
  have hid := hre.insert_hidden hm id1 id2
  simp only [stamp, forwardedByProxy_untrusted hp]
  cases peer.ip with
  | none => exact .some (hid.insert _ _)
  | some client =>
    simp only [Option.none_or]
    cases headerValue K.headerByte (K.addrText (K.canonical client)) with
    | none => exact .none
    | some client => exact .some ((((hid.insert _ _).insert _ _).insert _ _).insert _ _)

theorem host_stamp {id : Text} {headers stamped : Headers} {tls : Bool}
    (h : stamp K config id headers peer tls = some stamped) :
    host K.authorities stamped = host K.authorities headers := by
  have hre : headers.removeAll runnerHeaders hostHeader = headers hostHeader :=
    headers.removeAll_of_not_mem (by decide)
  have hk : stamped hostHeader = headers hostHeader := by
    simp only [stamp] at h
    split at h
    · obtain ⟨client, -, rfl⟩ := Option.map_eq_some_iff.1 h
      simp (disch := decide) only [Headers.insert_of_ne, hre]
    · cases h
      simp (disch := decide) only [Headers.insert_of_ne, hre]
  rw [host, Headers.get, hk, host, Headers.get]

def SameOutcome : Option (Route Uuid × Request) → Option (Route Uuid × Request) → Prop :=
  Option.Rel fun p₁ p₂ => p₁.1 = p₂.1 ∧ Alike p₁.2 p₂.2

theorem dispatch_alike (h : Alike req₁ req₂) (host : Text) :
    SameOutcome (dispatch K config host req₁) (dispatch K config host req₂) := by
  rw [dispatch, dispatch, h.uri]
  split
  · exact .some ⟨rfl, h⟩
  split
  · split
    · exact .some ⟨rfl, h⟩
    split
    · exact .some ⟨rfl, h⟩
    cases headerValue K.headerByte config.apiWorker with
    | none => exact .none
    | some apiWorker =>
      refine .some ⟨rfl, h.method, rfl, ?_, h.headers.insert _ _⟩
      rw [h.bodyLimit]
  · split
    next hdr name _ =>
      cases headerValue K.headerByte name with
      | none => exact .none
      | some name => exact .some ⟨rfl, h.method, rfl, h.bodyLimit, h.headers.insert _ _⟩
    · exact .some ⟨rfl, h⟩

/-- **What a client writes in the headers of the runner, and how it spells the host, decides
nothing.**  Where no header gives the client address, or the peer is not one that may give it, two
requests that differ in these only get the same route, and the same values of every header but the
request id and the Host header. -/
theorem prepare_noninterfering {peer : Peer Addr} {req₁ req₂ : Request}
    (hproxy : config.clientIpHeader = none ∨ peer.trusted K config = false)
    (h : SameButSpelling K.authorities req₁ req₂) (id₁ id₂ : Text) (tls : Bool) :
    SameOutcome (prepare K config id₁ req₁ peer tls) (prepare K config id₂ req₂ peer tls) := by
  refine rel_bind h.atOrigin fun req₁ req₂ _ _ hor => ?_
  refine rel_bind (agreeOff_stamp hproxy id₁ id₂ tls hor.headers) ?_
  intro headers₁ headers₂ h₁ h₂ hstamp
  rw [host_stamp h₁, host_stamp h₂, hor.host_eq]
  cases Ingress.host K.authorities req₂.headers with
  | none => exact .some ⟨rfl, hor.method, hor.uri, hor.bodyLimit, hstamp⟩
  | some host =>
    show Option.Rel _ (Option.bind _ _) (Option.bind _ _)
    cases headerValue K.headerByte host with
    | none => exact .none
    | some value =>
      apply dispatch_alike
      exact ⟨hor.method, hor.uri, hor.bodyLimit, hstamp.insert xForwardedHost value⟩

end Prepare

def tinyCrates : Crates Unit Unit Unit where
  authorities := .lenient
  pathByte _ := true
  queryByte _ := true
  headerByte := isVisible
  parseUuid _ := none
  parseAddr _ := some ()
  canonical _ := ()
  addrText _ := ascii "192.0.2.1"
  contains _ _ := true

def oneDomain : Config Unit where
  dashboardHosts := [ascii "dash.workers.rocks"]
  apiWorker := ascii "openworkers-api"
  workerDomains := [ascii "workers.rocks"]
  allowlist := none
  clientIpHeader := none

def requestOf (lines : List (Text × Text)) : Request where
  method := ascii "GET"
  uri := ⟨none, some (ascii "/", none)⟩
  headers := .ofLines lines
  bodyLimit := none

def forged : Request :=
  requestOf [(hostHeader, ascii "App.Workers.Rocks.:8443"), (xWorkerId, ascii "7"),
    (xWorkerId, ascii "8"), (ascii "accept", ascii "*/*")]

def plain : Request :=
  requestOf [(ascii "accept", ascii "*/*"), (hostHeader, ascii "app.workers.rocks")]

def forgedAuthority : Authority where
  userinfo := none
  host := ascii "App.Workers.Rocks."
  dots := 0
  port := some (ascii "8443")
  isHost := .name (by decide) (by decide) (by decide)
  digits := by decide

def plainAuthority : Authority where
  userinfo := none
  host := ascii "app.workers.rocks"
  dots := 0
  port := none
  isHost := .name (by decide) (by decide) (by decide)
  digits := by decide

theorem sameHost_forged :
    SameHost .lenient (ascii "App.Workers.Rocks.:8443") (ascii "app.workers.rocks") where
  parses₁ := by decide
  parses₂ := by decide
  written := ⟨forgedAuthority, plainAuthority, by decide, by decide, by decide⟩

theorem sameButSpelling_forged : SameButSpelling tinyCrates.authorities forged plain where
  method := rfl
  uri := rfl
  bodyLimit := rfl
  headers := by
    intro name hn
    have hid : xWorkerId ≠ name := fun heq => hn (.inl (heq ▸ List.mem_cons_self))
    have hhost : hostHeader ≠ name := fun heq => hn (.inr heq.symm)
    by_cases ha : ascii "accept" = name
    · simp [forged, plain, requestOf, Headers.ofLines, hid, hhost, ha]
    · simp [forged, plain, requestOf, Headers.ofLines, hid, hhost, ha]
  host := .inr ⟨_, _, by decide, by decide, sameHost_forged⟩

theorem prepare_noninterfering_forged :
    SameOutcome (prepare tinyCrates oneDomain (ascii "1") forged (.tcp () 4000) true)
      (prepare tinyCrates oneDomain (ascii "2") plain (.tcp () 4000) true) :=
  prepare_noninterfering (.inl rfl) sameButSpelling_forged _ _ _

end OpenWorkersRunner.Ingress
