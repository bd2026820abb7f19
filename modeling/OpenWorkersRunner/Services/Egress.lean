import OpenWorkersRunner.Services.Fetch
import OpenWorkersRunner.Services.NetGuard

/-!
# Where a `fetch` goes (`ops.rs`, `services/fetch.rs`, `services/net_guard.rs`)

The `fetch` of a guest is routed to the runner itself, or goes out under the guard, which judges an
address in the URL before, and one that a name resolves to in the client.  The internal listener, on
`127.0.0.1`, serves the workers and the administration of the runner (`main.rs`).
-/

namespace OpenWorkersRunner.Egress

open Fetch Ingress NetGuard Text

inductive Host
  | ip (ip : IpAddr)
  | domain (name : Text)

/-- `Url::parse` with `host`, `lookup_host`, and the texts of addresses. -/
structure Net where
  host : Text → Except String (Option Host)
  lookup : Text → Except String (List IpAddr)
  text : IpAddr → String

inductive EgressPolicy
  | unrestricted
  | publicOnly
deriving DecidableEq

variable (net : Net)

def blockedMsg (ip : IpAddr) : String :=
  "fetch to non-public address is not allowed: " ++ net.text ip

def guardUrlHost (allowPrivate : Bool) (url : Text) : Except String Unit :=
  if allowPrivate then .ok ()
  else
    match net.host url with
    | .error e => .error ("invalid URL: " ++ e)
    | .ok (some (.ip ip)) => if ipIsPublic ip then .ok () else .error (blockedMsg net ip)
    | .ok (some (.domain _)) => .ok ()
    | .ok none => .error "URL has no host"

/-- `FilteringResolver`. -/
def resolve (name : Text) : Except String (List IpAddr) :=
  match net.lookup name with
  | .error e => .error e
  | .ok addrs =>
    match addrs.find? fun ip => !ipIsPublic ip with
    | some ip => .error (blockedMsg net ip)
    | none => .ok addrs

/-- Of the client of a policy: the addresses to one of which it connects. -/
def connect (policy : EgressPolicy) (url : Text) : Except String (List IpAddr) :=
  match net.host url, policy with
  | .error e, _ => .error e
  | .ok none, _ => .error "builder error"
  | .ok (some (.ip ip)), _ => .ok [ip]
  | .ok (some (.domain name)), .unrestricted => net.lookup name
  | .ok (some (.domain name)), .publicOnly => resolve net name

/-- What `do_fetch` asks of a request before it builds one. -/
def admits (allowPrivate : Bool) (url : Text) (options : Bool) (policy : EgressPolicy) :
    Except String Unit := do
  if policy = .publicOnly then guardUrlHost net allowPrivate url
  if options then throw "OPTIONS method not yet supported"

/-- `do_fetch`, up to the connection. -/
def doFetch (allowPrivate : Bool) (request : HttpRequest) (policy : EgressPolicy) :
    Except String (List IpAddr) := do
  admits net allowPrivate request.url (request.method = ascii "OPTIONS") policy
  (connect net policy request.url).mapError ("Request failed: " ++ ·)

/-- `handle_fetch`: the request that is sent, and where. -/
def handleFetch (allowPrivate : Bool) (P : UrlParser) (domains : List Text) (port : ℕ) (id : Text)
    (request : HttpRequest) (depth : ℕ) : HttpRequest × Except String (List IpAddr) :=
  match tryInternalWorkerRoute P domains port id request depth with
  | some internal => (internal, doFetch net allowPrivate internal .unrestricted)
  | none => (request, doFetch net allowPrivate request .publicOnly)

/-- `headers` are the names of the headers received, in lower case. -/
def adminAllowed (internal : Bool) (peer : Peer IpAddr) (headers : List Text) : Bool :=
  internal &&
    (match peer.ip with
      | some (.v4 ip) => ip.isLoopback
      | some (.v6 ip) => ip.isLoopback
      | none => false) &&
    !headers.contains internalRouteHeader

variable {net} {url name : Text} {request sent : HttpRequest} {ips : List IpAddr}

theorem public_of_connect (hg : guardUrlHost net false url = .ok ())
    (h : connect net .publicOnly url = .ok ips) : ∀ ip ∈ ips, ipIsPublic ip = true := by
  simp only [guardUrlHost, connect, resolve] at hg h
  grind

theorem connect_of_doFetch {allowPrivate : Bool}
    (h : doFetch net allowPrivate request .publicOnly = .ok ips) :
    guardUrlHost net allowPrivate request.url = .ok () ∧
      connect net .publicOnly request.url = .ok ips := by
  simp only [doFetch, admits, if_true, bind, Except.bind] at h
  split at h
  · cases h
  next hg =>
    split at hg
    · cases hg
    next hu =>
      refine ⟨hu, ?_⟩
      cases hc : connect net .publicOnly request.url <;> simp_all [Except.mapError]

theorem headers_of_route {P : UrlParser} {domains : List Text} {port depth : ℕ} {id : Text}
    (h : tryInternalWorkerRoute P domains port id request depth = some sent) :
    sent.headers internalRouteHeader ≠ none := by
  simp only [tryInternalWorkerRoute, Option.bind_eq_some_iff] at h
  obtain ⟨_, -, _, -, _, -, h⟩ := h
  split at h <;> cases h
  have hne : internalRouteHeader ≠ callDepthHeader := by decide
  simp [selfRouted, GuestHeaders.insert, hne]

/-- **A guest's `fetch` cannot administer the runner.**  If what it sends were allowed to, it is
sent to a public address, and not to the listener. -/
theorem fetch_not_admin {P : UrlParser} {domains headers : List Text} {port depth : ℕ} {id : Text}
    {internal : Bool} {peer : Peer IpAddr}
    (h : handleFetch net false P domains port id request depth = (sent, .ok ips))
    (hh : ∀ name, sent.headers name ≠ none → name.map lower ∈ headers)
    (ha : adminAllowed internal peer headers = true) : ∀ ip ∈ ips, ipIsPublic ip = true := by
  rw [handleFetch] at h
  split at h
  next routed hr =>
    -- the mark of the runner is among the headers
    obtain ⟨rfl, -⟩ := Prod.mk.inj h
    have hm : internalRouteHeader ∈ headers := hh internalRouteHeader (headers_of_route hr)
    simp [adminAllowed, hm] at ha
  · obtain ⟨hg, hc⟩ := connect_of_doFetch (Prod.mk.inj h).2
    exact public_of_connect hg hc

def oneAddress (host : Host) (ip : IpAddr) : Net :=
  ⟨fun _ => .ok (some host), fun _ => .ok [ip], fun _ => ""⟩

theorem fetch_not_admin_out :
    adminAllowed true (.tcp (.v4 ⟨127, 0, 0, 1⟩) 80) [] = true ∧
      ∀ ip ∈ [IpAddr.v4 ⟨8, 8, 8, 8⟩], ipIsPublic ip = true := by
  have h : handleFetch (oneAddress (.domain (ascii "dns.google")) (.v4 ⟨8, 8, 8, 8⟩)) false knowsApp
      [] 8080 [] (bareRequest (ascii "https://dns.google/")) 0 =
    (bareRequest (ascii "https://dns.google/"), .ok [.v4 ⟨8, 8, 8, 8⟩]) := rfl
  have ha : adminAllowed true (.tcp (.v4 ⟨127, 0, 0, 1⟩) 80) [] = true := rfl
  exact ⟨ha, fetch_not_admin h (fun _ hn => absurd rfl hn) ha⟩

end OpenWorkersRunner.Egress
