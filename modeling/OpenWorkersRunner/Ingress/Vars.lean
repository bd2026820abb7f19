import OpenWorkersRunner.Ingress.Prepare

/-!
# The configuration of the public listeners (`ingress::Config::from_vars`)

`fromVars` reads the variables one after the other, and stops at the first that is wrong, with its
message.  The parsers, the files and the TLS configuration are those of other crates and of the
system, and parameters.
-/

namespace OpenWorkersRunner.Ingress

open Text

inductive Var
  | httpListeners
  | inboundAllowlistFile
  | clientIpHeader
  | httpsAddr
  | httpsSocket
  | httpsClientCaFile
  | httpsClientCertMode
  | httpTlsCertificate
  | httpTlsKey
  | internalPort
  | httpAddr
  | dashboardHosts
  | apiWorkerName
  | workerDomains
deriving DecidableEq

inductive HttpsAddr (SockAddr : Type)
  | tcp (addr : SockAddr)
  | unix (path : Text)

inductive ClientCertMode
  | require
  | log
deriving DecidableEq

structure System (SockAddr Net Tls : Type) where
  parseSockAddr : Text → Option SockAddr
  parseUsize : Text → Option Nat
  parseU16 : Text → Option Nat
  parseNet : Text → Option Net
  parseAddrNet : Text → Option Net
  headerName : Text → Option Text
  parallelism : Option {n : Nat // 0 < n}
  readToString : Text → Except Text Text
  tlsConfig : Text → Text → Option Text → Except Text Tls

structure Settings (SockAddr Net Tls : Type) extends Config Net where
  internalPort : Nat
  httpAddr : SockAddr
  httpsAddr : HttpsAddr SockAddr
  listeners : Nat
  tls : Option Tls
  clientCert : Option ClientCertMode

/-- `DEFAULT_INTERNAL_PORT`. -/
def defaultInternalPort : Nat := 8080

def defaultDashboardHosts : Text :=
  ascii "dash.openworkers.com,dash.openworkers.dev,dash.dev.localhost,dash.dev.kube"

/-- `str::lines`. -/
def lines (t : Text) : List Text :=
  let parts := t.splitOn '\n'.toUInt8
  let ended := parts.dropLast.map fun line => (List.isSuffixOf? ['\r'.toUInt8] line).getD line
  ended ++ (parts.getLast?.filter fun last => !last.isEmpty).toList

section FromVars

variable {SockAddr Net Tls : Type} (S : System SockAddr Net Tls) (var : Var → Option Text)

def allowlistLine (line : Text) (index : Nat) : Option (Except Text Net) :=
  let value := trim (line.takeWhile (· != '#'.toUInt8))
  if value = [] then none
  else
    match (S.parseNet value).or (S.parseAddrNet value) with
    | some network => some (.ok network)
    | none =>
      some (.error (ascii "allowlist line " ++ ascii (toString (index + 1)) ++
        ascii ": not an address: " ++ value))

/-- `parse_allowlist`. -/
def parseAllowlist (t : Text) : Except Text (List Net) :=
  ((lines t).zipIdx.filterMap fun line => allowlistLine S line.1 line.2).mapM id

def readAddr (v : Var) (name default : Text) : Except Text SockAddr :=
  let value := (var v).getD default
  match S.parseSockAddr value with
  | some addr => .ok addr
  | none => .error (name ++ ascii " is not an address: " ++ value)

/-- `HTTP_LISTENERS`. -/
def readListeners : Except Text Nat :=
  match var .httpListeners with
  | some value =>
    match S.parseUsize value with
    | some count =>
      if count > 0 then .ok count
      else .error (ascii "HTTP_LISTENERS is not a positive count: " ++ value)
    | none => .error (ascii "HTTP_LISTENERS is not a positive count: " ++ value)
  | none => .ok ((S.parallelism.map Subtype.val).getD 4)

/-- `INBOUND_ALLOWLIST_FILE`. -/
def readAllowlist : Except Text (Option (List Net)) :=
  match var .inboundAllowlistFile with
  | some path =>
    match S.readToString path with
    | .ok text => (parseAllowlist S text).map some
    | .error error => .error (ascii "INBOUND_ALLOWLIST_FILE " ++ path ++ ascii ": " ++ error)
  | none => .ok none

def readClientIpHeader (allowlist : Option (List Net)) : Except Text (Option Text) :=
  match var .clientIpHeader with
  | some name =>
    if allowlist.isNone then .error (ascii "CLIENT_IP_HEADER needs INBOUND_ALLOWLIST_FILE")
    else
      match S.headerName name with
      | some header => .ok (some header)
      | none => .error (ascii "CLIENT_IP_HEADER is not a header name: " ++ name)
  | none => .ok none

/-- `HTTPS_ADDR` and `HTTPS_SOCKET`. -/
def readHttpsAddr : Except Text (HttpsAddr SockAddr) :=
  match var .httpsAddr, var .httpsSocket with
  | some _, some _ => .error (ascii "set HTTPS_ADDR or HTTPS_SOCKET, not both")
  | none, some path => .ok (.unix path)
  | _, none => (readAddr S var .httpsAddr (ascii "HTTPS_ADDR") (ascii "0.0.0.0:8443")).map .tcp

/-- `HTTPS_CLIENT_CERT_MODE`. -/
def readClientCert : Except Text (Option ClientCertMode) :=
  match var .httpsClientCaFile, var .httpsClientCertMode with
  | none, none => .ok none
  | none, some _ => .error (ascii "HTTPS_CLIENT_CERT_MODE needs HTTPS_CLIENT_CA_FILE")
  | some _, none => .ok (some .require)
  | some _, some mode =>
    if mode = ascii "require" then .ok (some .require)
    else if mode = ascii "log" then .ok (some .log)
    else .error (ascii "HTTPS_CLIENT_CERT_MODE is require or log, not " ++ mode)

/-- `HTTP_TLS_CERTIFICATE` and `HTTP_TLS_KEY`. -/
def readTls : Except Text (Option Tls) :=
  match var .httpTlsCertificate, var .httpTlsKey with
  | none, none =>
    if (var .httpsClientCaFile).isSome then
      .error (ascii "HTTPS_CLIENT_CA_FILE needs HTTP_TLS_CERTIFICATE and HTTP_TLS_KEY")
    else .ok none
  | some certificate, some key =>
    (S.tlsConfig certificate key (var .httpsClientCaFile)).map some
  | _, _ => .error (ascii "set both HTTP_TLS_CERTIFICATE and HTTP_TLS_KEY, or neither")

def checkSocket : HttpsAddr SockAddr → Option Tls → Except Text Unit
  | .unix _, none =>
    .error (ascii "HTTPS_SOCKET needs HTTP_TLS_CERTIFICATE and HTTP_TLS_KEY")
  | _, _ => .ok ()

/-- `INTERNAL_PORT`. -/
def readInternalPort : Except Text Nat :=
  match var .internalPort with
  | some value =>
    match S.parseU16 value with
    | some port =>
      if port > 0 then .ok port else .error (ascii "INTERNAL_PORT is not a port: " ++ value)
    | none => .error (ascii "INTERNAL_PORT is not a port: " ++ value)
  | none => .ok defaultInternalPort

/-- `Config::from_vars`. -/
def fromVars : Except Text (Settings SockAddr Net Tls) := do
  let listeners ← readListeners S var
  let allowlist ← readAllowlist S var
  let clientIpHeader ← readClientIpHeader S var allowlist
  let httpsAddr ← readHttpsAddr S var
  let clientCert ← readClientCert var
  let tls ← readTls S var
  checkSocket httpsAddr tls
  let internalPort ← readInternalPort S var
  let httpAddr ← readAddr S var .httpAddr (ascii "HTTP_ADDR") (ascii "0.0.0.0:8081")
  return {
    internalPort, httpAddr, httpsAddr, listeners
    dashboardHosts := list (var .dashboardHosts) defaultDashboardHosts
    apiWorker := (var .apiWorkerName).getD (ascii "openworkers-api")
    workerDomains := list (var .workerDomains) []
    allowlist, clientIpHeader, tls, clientCert }

/-! ## What an accepted configuration is -/

structure Reads (s : Settings SockAddr Net Tls) : Prop where
  listeners : readListeners S var = .ok s.listeners
  allowlist : readAllowlist S var = .ok s.allowlist
  clientIpHeader : readClientIpHeader S var s.allowlist = .ok s.clientIpHeader
  httpsAddr : readHttpsAddr S var = .ok s.httpsAddr
  clientCert : readClientCert var = .ok s.clientCert
  tls : readTls S var = .ok s.tls
  socket : checkSocket s.httpsAddr s.tls = .ok ()
  internalPort : readInternalPort S var = .ok s.internalPort
  httpAddr : readAddr S var .httpAddr (ascii "HTTP_ADDR") (ascii "0.0.0.0:8081") = .ok s.httpAddr
  dashboardHosts : s.dashboardHosts = list (var .dashboardHosts) defaultDashboardHosts
  apiWorker : s.apiWorker = (var .apiWorkerName).getD (ascii "openworkers-api")
  workerDomains : s.workerDomains = list (var .workerDomains) []

variable {S var}

theorem exists_of_bind_ok {ε α β : Type} {x : Except ε α} {f : α → Except ε β} {b : β}
    (h : (x >>= f) = .ok b) : ∃ a, x = .ok a ∧ f a = .ok b := by
  cases x with
  | error e => cases h
  | ok a => exact ⟨a, rfl, h⟩

theorem reads_of_fromVars {s : Settings SockAddr Net Tls} (h : fromVars S var = .ok s) :
    Reads S var s := by
  rw [fromVars] at h
  obtain ⟨listeners, hl, h⟩ := exists_of_bind_ok h
  obtain ⟨allowlist, ha, h⟩ := exists_of_bind_ok h
  obtain ⟨clientIpHeader, hhe, h⟩ := exists_of_bind_ok h
  obtain ⟨httpsAddr, hh, h⟩ := exists_of_bind_ok h
  obtain ⟨clientCert, hce, h⟩ := exists_of_bind_ok h
  obtain ⟨tls, ht, h⟩ := exists_of_bind_ok h
  obtain ⟨_, hso, h⟩ := exists_of_bind_ok h
  obtain ⟨internalPort, hp, h⟩ := exists_of_bind_ok h
  obtain ⟨httpAddr, hht, h⟩ := exists_of_bind_ok h
  cases h
  exact ⟨hl, ha, hhe, hh, hce, ht, hso, hp, hht, rfl, rfl, rfl⟩

end FromVars

end OpenWorkersRunner.Ingress
