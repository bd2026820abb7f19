import OpenWorkersRunner.Ingress.Prepare

/-!
# The requests a runner routes to itself (`services/fetch.rs`)

A worker calls another worker through its host, or through a service binding; the runner then sends
the request to its own internal listener, with a routing header.

The parser of URLs is a parameter, of which only the case of its hosts is used.
-/

namespace OpenWorkersRunner.Fetch

open Function Ingress List Option Text

/-! ## Requests -/

abbrev GuestHeaders := Text → Option Text

inductive RequestBody
  | none
  | bytes (bytes : List UInt8)
  | stream
deriving DecidableEq

structure HttpRequest where
  url : Text
  method : Text
  headers : GuestHeaders
  body : RequestBody

structure ParsedUrl where
  scheme : Text
  host : Option Text
  path : Text
  query : Option Text
deriving DecidableEq

def ParsedUrl.isHttp (url : ParsedUrl) : Bool :=
  url.scheme == ascii "http" || url.scheme == ascii "https"

def ParsedUrl.pathAndQuery (url : ParsedUrl) : Text :=
  match url.query with
  | some query => url.path ++ '?'.toUInt8 :: query
  | none => url.path

structure UrlParser where
  parse : Text → Option ParsedUrl
  host_lower : ∀ (text : Text) (url : ParsedUrl) (host : Text), parse text = some url →
    url.isHttp → url.host = some host → host.map lower = host

def internalRouteHeader : Text := ascii "x-openworkers-internal"

def callDepthHeader : Text := ascii "x-openworkers-depth"

/-- `runner_url`. -/
def runnerUrl (port : Nat) : Text := ascii "http://127.0.0.1:" ++ ascii (toString port)

def GuestHeaders.insert (headers : GuestHeaders) (name value : Text) : GuestHeaders :=
  Function.update headers name (some value)

/-- A request that the runner routes to itself: the guest's headers, and over them those of the
runner, with its routing header first. -/
def selfRouted (request : HttpRequest) (url header name id : Text) (depth : Nat) : HttpRequest :=
  { request with
    url := url
    headers :=
      (((request.headers.insert header name).insert xRequestId id).insert internalRouteHeader
        (ascii "1")).insert callDepthHeader (ascii (toString depth)) }

def ownHeaders : List Text := [xRequestId, internalRouteHeader, callDepthHeader]

theorem headers_selfRouted (req : HttpRequest) (url hdr name id : Text) (depth : Nat)
    {other : Text} (h : other ∉ ownHeaders) :
    (selfRouted req url hdr name id depth).headers other =
      if other = hdr then some name else req.headers other := by
  simp only [ownHeaders, mem_cons, not_mem_nil, or_false, not_or] at h
  simp only [selfRouted, GuestHeaders.insert, update_of_ne h.2.2,
    update_of_ne h.2.1, update_of_ne h.1, update_apply]

def workerDomains (var : Option Text) : List Text := (var.map items).getD []

def internalName (host : Text) (domains : List Text) : Option Text :=
  domains.findSome? fun domain => (dot :: domain).isSuffixOf? host

def tryInternalWorkerRoute (P : UrlParser) (domains : List Text) (port : Nat) (id : Text)
    (request : HttpRequest) (depth : Nat) : Option HttpRequest :=
  (P.parse request.url).bind fun url =>
    url.host.bind fun host =>
      (internalName host domains).bind fun name =>
        if request.body = .stream then none
        else
          some (selfRouted request (runnerUrl port ++ url.pathAndQuery) xWorkerName name id depth)

def bindingRequest (P : UrlParser) (port : Nat) (id : Text) (worker : Text)
    (request : HttpRequest) (depth : Nat) : HttpRequest :=
  let pathAndQuery :=
    match P.parse request.url with
    | some url => url.pathAndQuery
    | none =>
      if request.url.head? = some '/'.toUInt8 then request.url else '/'.toUInt8 :: request.url
  selfRouted request (runnerUrl port ++ pathAndQuery) xWorkerId worker id depth

/-! ## Public and internal routing -/

/-- `worker_domains` of the public side, from the same variable; an empty one counts as unset. -/
def publicDomains (var : Option Text) : List Text :=
  Ingress.list (var.filter fun value => !value.isEmpty) []

theorem publicDomains_eq (var : Option Text) : publicDomains var = workerDomains var := by
  match var with
  | none => rfl
  | some [] => rfl
  | some (_ :: _) => rfl

def publicRoute {Uuid : Type} (parseUuid : Text → Option Uuid) (domains : List Text)
    (host : Text) : Option (Text × Text) :=
  if normalHost host = [] then none else workerRoute parseUuid (normalHost host) domains

theorem nameUnder_eq_internalName (host : Text) (domains : List Text) :
    nameUnder host domains = internalName host domains := by
  have hp : ∀ dom : Text, ((dom.isSuffixOf? host).bind fun rest => isSuffixOf? [dot] rest) =
        (dot :: dom).isSuffixOf? host := by
    intro dom
    ext name
    simp only [bind_eq_some_iff, isSuffixOf?_eq_some_iff_append_eq]
    constructor
    · rintro ⟨rest, rfl, rfl⟩
      simp
    · rintro rfl
      exact ⟨name ++ [dot], by simp, rfl⟩
  simp only [nameUnder, internalName, hp]

variable {host name : Text} {Uuid : Type}

theorem internalName_of_dot_suffix {val : Text} (h : [dot] <:+ host) :
    internalName host (items val) = none := by
  rw [internalName, findSome?_eq_none_iff]
  intro dom hdo
  rw [eq_none_iff_forall_ne_some]
  intro name hn
  have hd := isDomain_of_mem_items hdo
  have hsu : dom <:+ host :=
    ⟨name ++ [dot], by simpa using isSuffixOf?_eq_some_iff_append_eq.1 hn⟩
  -- Of two suffixes of one text, the shorter is a suffix of the longer.
  apply hd.undotted
  refine suffix_of_suffix_length_le h hsu ?_
  exact length_pos_iff.2 hd.ne_nil

theorem normalHost_of_undotted (hlo : host.map lower = host) (h : ¬ [dot] <:+ host) :
    normalHost host = host := by
  have ht : trimEnd host dot = host := by
    rw [trimEnd, rdropWhile_eq_self_iff]
    intro hne hl
    apply h
    refine ⟨host.dropLast, ?_⟩
    rw [← eq_of_beq hl]
    exact dropLast_append_getLast hne
  rw [normalHost, ht, hlo]

/-- The hosts that both sides treat alike: under no worker domain, or with a single label that is
no UUID and no final dot, or with another name and a final dot. -/
def TreatedAlike {Uuid : Type} (parseUuid : Text → Option Uuid) (domains : List Text)
    (host : Text) : Prop :=
  ∀ name, nameUnder (normalHost host) domains = some name →
    if name = [] ∨ dot ∈ name then [dot] <:+ host
    else parseUuid name = none ∧ ¬ [dot] <:+ host

theorem publicRoute_eq (parseUuid : Text → Option Uuid) (domains : List Text) (host : Text) :
    publicRoute parseUuid domains host = workerRoute parseUuid (normalHost host) domains := by
  rw [publicRoute]
  split
  next hem =>
    have hn : nameUnder [] domains = none := by
      rw [nameUnder_eq_internalName, internalName, findSome?_eq_none_iff]
      intro dom _
      rw [eq_none_iff_forall_ne_some]
      intro name hna
      simp [isSuffixOf?_eq_some_iff_append_eq] at hna
    rw [hem, workerRoute, hn]
  · rfl

theorem treatedAlike_iff {parseUuid : Text → Option Uuid} {domains : List Text}
    (hn : nameUnder (normalHost host) domains = some name) :
    TreatedAlike parseUuid domains host ↔ if name = [] ∨ dot ∈ name then [dot] <:+ host
      else parseUuid name = none ∧ ¬ [dot] <:+ host := by
  simp only [TreatedAlike, hn, some.injEq, forall_eq']

theorem internalName_eq_publicRoute_iff (parseUuid : Text → Option Uuid) (val : Text)
    (hlo : host.map lower = host) :
    (internalName host (items val)).map (xWorkerName, ·) = publicRoute parseUuid (items val) host ↔
      TreatedAlike parseUuid (items val) host := by
  -- Without a final dot, both sides find one name; with one, the internal side finds none.
  have hin : internalName host (items val) =
      if [dot] <:+ host then none else nameUnder (normalHost host) (items val) := by
    split
    · exact internalName_of_dot_suffix ‹_›
    · rw [normalHost_of_undotted hlo ‹_›, nameUnder_eq_internalName]
  rw [hin, publicRoute_eq, workerRoute]
  cases hn : nameUnder (normalHost host) (items val) with
  | none => simp [TreatedAlike, hn]
  | some name =>
    have hne : xWorkerName ≠ xWorkerId := by decide
    rw [treatedAlike_iff hn]
    by_cases hd : [dot] <:+ host <;> by_cases hl : name = [] ∨ dot ∈ name
    · simp only [hd, if_true, if_pos hl, map_none]
    · simp only [hd, if_true, if_neg hl, not_true_eq_false, and_false, iff_false]
      split <;> simp
    · simp [hd, if_pos hl]
    · simp only [hd, if_false, if_neg hl, not_false_eq_true, and_true]
      cases hu : parseUuid name <;> simp [hne]

theorem tryInternalWorkerRoute_eq {P : UrlParser} {url : ParsedUrl} {req : HttpRequest}
    (hparse : P.parse req.url = some url) (hhost : url.host = some host)
    (hbo : req.body ≠ .stream) (domains : List Text) (port : Nat) (id : Text) (depth : Nat) :
    tryInternalWorkerRoute P domains port id req depth =
      ((internalName host domains).map (xWorkerName, ·)).map fun route =>
        selfRouted req (runnerUrl port ++ url.pathAndQuery) route.1 route.2 id depth := by
  simp only [tryInternalWorkerRoute, hparse, hhost, bind_some, if_neg hbo, Option.map_map]
  cases internalName host domains <;> rfl

theorem selfRouted_inj {req : HttpRequest} {url hdr value id : Text} {depth : Nat}
    (hba : ∀ other, req.headers other = none)
    (h : selfRouted req url xWorkerName name id depth =
      selfRouted req url hdr value id depth) : xWorkerName = hdr ∧ name = value := by
  have hv := congrFun (congrArg HttpRequest.headers h) xWorkerName
  have ho : xWorkerName ∉ ownHeaders := by decide
  rw [headers_selfRouted _ _ _ _ _ _ ho, if_pos rfl, headers_selfRouted _ _ _ _ _ _ ho] at hv
  split at hv
  · exact ⟨‹_›, some.inj hv⟩
  · rw [hba] at hv
    cases hv

/-- **Public and internal routing agree on the hosts they treat alike, and on no others.**  The
internal side makes of every request to a URL what it would with the routing header of the public
side, exactly when the host of the URL is under no worker domain, has a single label that is no UUID
and no final dot, or has an empty or multi-label name and a final dot. -/
theorem routing_agrees_iff {Uuid : Type} (P : UrlParser) (parseUuid : Text → Option Uuid)
    (var : Option Text) {text host : Text} {url : ParsedUrl} (hparse : P.parse text = some url)
    (hhttp : url.isHttp) (hhost : url.host = some host) :
    (∀ (port depth : Nat) (id : Text) (request : HttpRequest), request.url = text →
        request.body ≠ .stream →
        tryInternalWorkerRoute P (workerDomains var) port id request depth =
          (publicRoute parseUuid (publicDomains var) host).map fun route =>
            selfRouted request (runnerUrl port ++ url.pathAndQuery) route.1 route.2 id depth) ↔
      TreatedAlike parseUuid (publicDomains var) host := by
  have hdom : workerDomains var = items (var.getD []) := by cases var <;> rfl
  rw [publicDomains_eq, hdom,
    ← internalName_eq_publicRoute_iff parseUuid _ (P.host_lower text url host hparse hhttp hhost)]
  constructor
  · -- A guest without headers shows the routing header itself.
    intro h
    have hbare := h 0 0 [] ⟨text, [], fun _ => none, .none⟩ rfl (by simp)
    rw [tryInternalWorkerRoute_eq hparse hhost (by simp)] at hbare
    cases hroute : publicRoute parseUuid (items (var.getD [])) host with
    | none => simpa [hroute] using hbare
    | some route =>
      cases hint : internalName host (items (var.getD [])) with
      | none => simp [hroute, hint] at hbare
      | some name =>
        rw [hroute, hint] at hbare
        obtain ⟨hhead, hval⟩ := selfRouted_inj (fun _ => rfl) (Option.some.inj hbare)
        exact congrArg some (Prod.ext hhead hval)
  · rintro h port depth id request rfl hbody
    rw [tryInternalWorkerRoute_eq hparse hhost hbody, h]

def UrlParser.knowing (url : ParsedUrl) (h : ∀ host ∈ url.host, host.map lower = host)
    (text : Text) : UrlParser where
  parse other := if other = text then some url else none
  host_lower other found host hparse _ hhost := by
    split at hparse
    · rw [← Option.some.inj hparse] at hhost
      exact h host hhost
    · cases hparse

def knowsApp : UrlParser :=
  .knowing ⟨ascii "https", some (ascii "app.workers.rocks"), ascii "/", none⟩ (by decide)
    (ascii "https://app.workers.rocks/")

theorem routing_agrees_iff_app :
    (∀ (port depth : Nat) (id : Text) (request : HttpRequest),
        request.url = ascii "https://app.workers.rocks/" → request.body ≠ .stream →
        tryInternalWorkerRoute knowsApp (workerDomains (ascii "workers.rocks")) port id request
            depth =
          (publicRoute (fun _ => (none : Option Unit)) (publicDomains (ascii "workers.rocks"))
            (ascii "app.workers.rocks")).map fun route =>
            selfRouted request (runnerUrl port ++ ascii "/") route.1 route.2 id depth) ∧
      TreatedAlike (fun _ => (none : Option Unit)) (publicDomains (ascii "workers.rocks"))
        (ascii "app.workers.rocks") := by
  have hname : nameUnder (normalHost (ascii "app.workers.rocks"))
      (publicDomains (ascii "workers.rocks")) = some (ascii "app") := by decide
  have halike : TreatedAlike (fun _ => (none : Option Unit))
      (publicDomains (ascii "workers.rocks")) (ascii "app.workers.rocks") :=
    (treatedAlike_iff hname).mpr (by decide)
  have hparse : knowsApp.parse (ascii "https://app.workers.rocks/") =
      some ⟨ascii "https", some (ascii "app.workers.rocks"), ascii "/", none⟩ := rfl
  exact ⟨(routing_agrees_iff knowsApp _ _ hparse (by decide) rfl).mpr halike, halike⟩

def someUuid : Text := ascii "0192f7a8-52d0-7c3e-9e1b-2f6d4c8a7b10"

def knowsUuidHost : UrlParser :=
  .knowing ⟨ascii "https", some (someUuid ++ ascii ".workers.rocks"), ascii "/", none⟩ (by decide)
    (ascii "https://" ++ someUuid ++ ascii ".workers.rocks/")

def bareRequest (url : Text) : HttpRequest := ⟨url, ascii "GET", fun _ => none, .none⟩

theorem uuid_routed_as_name :
    ¬ (tryInternalWorkerRoute knowsUuidHost (workerDomains (ascii "workers.rocks")) 8080 []
          (bareRequest (ascii "https://" ++ someUuid ++ ascii ".workers.rocks/")) 1 =
        (publicRoute (fun name => if name = someUuid then some () else none)
          (publicDomains (ascii "workers.rocks")) (someUuid ++ ascii ".workers.rocks")).map
          fun route =>
            selfRouted (bareRequest (ascii "https://" ++ someUuid ++ ascii ".workers.rocks/"))
              (runnerUrl 8080 ++ ascii "/") route.1 route.2 [] 1) := by
  intro h
  have hid := congrArg (Option.map fun request => request.headers xWorkerId) h
  exact absurd hid (by decide)

/-! ## The target of a self-routed request -/

def routingHeaders : List Text := [xWorkerId, xWorkerName, internalRouteHeader, callDepthHeader]

/-- Two header maps that give the routing headers, in every spelling of their names, the same
values.  The receiver takes every spelling for the header. -/
def SameRouting (headers₁ headers₂ : GuestHeaders) : Prop :=
  ∀ name : Text, name.map lower ∈ routingHeaders → headers₁ name = headers₂ name

def SameLeft (header : Text) (headers₁ headers₂ : GuestHeaders) : Prop :=
  ∀ name : Text, name.map lower ∈ routingHeaders → name ∉ header :: ownHeaders →
    headers₁ name = headers₂ name

theorem sameRouting_selfRouted_iff (request1 request2 : HttpRequest)
    (url1 url2 hdr name id1 id2 : Text) (depth : Nat) :
    SameRouting (selfRouted request1 url1 hdr name id1 depth).headers
        (selfRouted request2 url2 hdr name id2 depth).headers ↔
      SameLeft hdr request1.headers request2.headers := by
  refine forall_congr' fun other => imp_congr_right fun hro => ?_
  by_cases ho : other ∈ ownHeaders
  · have hsa : (selfRouted request1 url1 hdr name id1 depth).headers other =
        (selfRouted request2 url2 hdr name id2 depth).headers other := by
      simp only [ownHeaders, mem_cons, not_mem_nil, or_false] at ho
      rcases ho with rfl | rfl | rfl
      · exact absurd hro (by decide)
      · have hne : internalRouteHeader ≠ callDepthHeader := by decide
        simp [selfRouted, GuestHeaders.insert, hne]
      · simp [selfRouted, GuestHeaders.insert]
    simp [hsa, ho]
  · rw [headers_selfRouted _ _ _ _ _ _ ho, headers_selfRouted _ _ _ _ _ _ ho]
    by_cases hh : other = hdr <;> simp [hh, ho]

def SameTarget : Option HttpRequest → Option HttpRequest → Prop :=
  Option.Rel fun request₁ request₂ => SameRouting request₁.headers request₂.headers

/-- **A guest's headers choose the target where the runner does not overwrite them.**  Of two calls
that differ in the headers of the guest only, those through a host have the same routing headers
exactly when the host is not routed, or the guests agree on them off `x-worker-name`, the mark and
the depth; and those through a service binding exactly when the guests agree off `x-worker-id`, the
mark and the depth. -/
theorem self_routed_target_iff (P : UrlParser) (domains : List Text) (port depth : Nat)
    (id₁ id₂ worker : Text) (request : HttpRequest) (headers₁ headers₂ : GuestHeaders) :
    (SameTarget
        (tryInternalWorkerRoute P domains port id₁ { request with headers := headers₁ } depth)
        (tryInternalWorkerRoute P domains port id₂ { request with headers := headers₂ } depth) ↔
      tryInternalWorkerRoute P domains port id₁ request depth = none ∨
        SameLeft xWorkerName headers₁ headers₂) ∧
    (SameRouting
        (bindingRequest P port id₁ worker { request with headers := headers₁ } depth).headers
        (bindingRequest P port id₂ worker { request with headers := headers₂ } depth).headers ↔
      SameLeft xWorkerId headers₁ headers₂) := by
  refine ⟨?_, sameRouting_selfRouted_iff ..⟩
  -- Whether a request is routed does not depend on its headers.
  simp only [tryInternalWorkerRoute]
  cases P.parse request.url with
  | none => simp [SameTarget]
  | some url =>
    cases hhost : url.host with
    | none => simp [SameTarget, hhost]
    | some host =>
      cases hname : internalName host domains with
      | none => simp [SameTarget, hhost, hname]
      | some name =>
        by_cases hbody : request.body = .stream
        · simp [SameTarget, hbody]
        · simp only [bind_some, hhost, hname, if_neg hbody, reduceCtorEq, false_or]
          simp only [SameTarget, rel_some_some]
          exact sameRouting_selfRouted_iff ..

theorem SameTarget.headers_eq {request1 request2 : Option HttpRequest}
    (h : SameTarget request1 request2) (hn : name.map lower ∈ routingHeaders) :
    (request1.map fun request => request.headers name) =
      request2.map fun request => request.headers name := by
  cases h with
  | none => rfl
  | some hsa => exact congrArg some (hsa name hn)

def guestNaming (header : Text) : GuestHeaders :=
  fun name => if name = header then some (ascii "victim") else none

theorem guest_adds_target :
    (¬ SameTarget
      (tryInternalWorkerRoute knowsApp (workerDomains (ascii "workers.rocks")) 8080 []
        (bareRequest (ascii "https://app.workers.rocks/")) 1)
      (tryInternalWorkerRoute knowsApp (workerDomains (ascii "workers.rocks")) 8080 []
        { bareRequest (ascii "https://app.workers.rocks/") with
          headers := guestNaming xWorkerId } 1)) ∧
    ¬ SameRouting
      (bindingRequest knowsApp 8080 [] someUuid (bareRequest (ascii "/")) 1).headers
      (bindingRequest knowsApp 8080 [] someUuid
        { bareRequest (ascii "/") with headers := guestNaming xWorkerName } 1).headers := by
  constructor
  · intro h
    exact absurd (h.headers_eq (show xWorkerId.map lower ∈ routingHeaders by decide)) (by decide)
  · intro h
    exact absurd (h xWorkerName (by decide)) (by decide)

end OpenWorkersRunner.Fetch
