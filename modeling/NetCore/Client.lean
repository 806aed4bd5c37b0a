import NetCore.Exec

/-!
# Building a client

`buildHttpClient` parses the resolved URL, resolves its host once and pins the
client to one of the addresses.  The source writes the address policy twice, as
a search in the builder and as `validate_resolved_address`; `pickAddress_ok`
says they pick alike.  What the network answers during a build is a `BuildAnswer`.
-/

namespace NetCore

/-- `mcpg_plugin_protocol::security`, and the text of an address. -/
structure SecurityApi where
  Ip : Type
  isPrivateAddress : Ip → Bool
  ipText : Ip → String
  privateRangesDoc : String

structure SocketAddr (Ip : Type) where
  ip : Ip
  port : UInt16
deriving DecidableEq, Repr

def validateResolvedAddress (S : SecurityApi) (addr : SocketAddr S.Ip) (host : String)
    (allowPrivate : Bool) : Except String Unit :=
  if allowPrivate then .ok ()
  else if S.isPrivateAddress addr.ip then
    let ip := S.ipText addr.ip
    .error (s!"DNS rebinding guard: host '{host}' resolved to private address {ip} " ++
      "(set server.allow_private_backends=true for container-network deployments). " ++
      S.privateRangesDoc)
  else .ok ()

/-- A `reqwest::Client`, as its builder was told; it follows no redirects. -/
structure Client (Ip : Type) where
  timeout : Duration
  /-- the host and the address it is pinned to -/
  resolve : String × SocketAddr Ip
  defaultHeaders : HeaderMap

/-- What the outside answers while a client is built: the addresses
`lookup_host` finds, and whether `reqwest`'s own `build` succeeds. -/
structure BuildAnswer (Ip : Type) where
  lookupHost : Option (List (SocketAddr Ip))
  clientBuilt : Bool

/-- The address to pin, of those the host resolved to. -/
def pickAddress (S : SecurityApi) (host : String) (allowPrivateBackends : Bool)
    (pairs : List (SocketAddr S.Ip)) : Except String (SocketAddr S.Ip) :=
  match pairs with
  | [] => .error s!"DNS resolution returned no addresses for {host}"
  | first :: _ =>
    if allowPrivateBackends then .ok first
    else
      match pairs.find? fun a => !S.isPrivateAddress a.ip with
      | some a => .ok a
      | none =>
        let ips := ", ".intercalate (pairs.map fun a => S.ipText a.ip)
        .error (s!"DNS rebinding guard: host '{host}' resolved only to private addresses " ++
          s!"({ips})")

def buildHttpClient (U : UrlApi) (H : HeaderApi) (S : SecurityApi) (profile : HttpRequestProfile)
    (resolvedUrl : String) (resolvedHeaders : SortedMap String String)
    (answer : BuildAnswer S.Ip) : Except String (Client S.Ip) := do
  let url ← (U.parse resolvedUrl).mapError fun _ => "resolved URL failed to parse"
  let host ← okOr (U.hostStr url) "URL has no host"
  let port ← okOr (U.portOrKnownDefault url) "URL has no port and no default for the scheme"
  let pairs ← okOr answer.lookupHost s!"DNS resolution failed for {host}:{port}"
  let resolved ← pickAddress S host profile.allowPrivateBackends pairs
  let defaultHeaders ← buildDefaultHeaders H resolvedHeaders (profile.method = .post)
  if answer.clientBuilt then .ok ⟨profile.timeout, (host, resolved), defaultHeaders⟩
  else .error "reqwest client build failed"

/-- The host of a URL that parses and has one. -/
def hostOf (U : UrlApi) (url : String) : Option String :=
  match U.parse url with
  | .ok url => U.hostStr url
  | .error _ => none

/-- The first address the check accepts. -/
def firstAccepted (S : SecurityApi) (host : String) (allowPrivate : Bool)
    (addrs : List (SocketAddr S.Ip)) : Option (SocketAddr S.Ip) :=
  addrs.find? fun a => (validateResolvedAddress S a host allowPrivate).toBool

variable {U : UrlApi} {H : HeaderApi} {S : SecurityApi} {profile : HttpRequestProfile}

theorem validateResolvedAddress_toBool (a : SocketAddr S.Ip) (host : String) (allow : Bool) :
    (validateResolvedAddress S a host allow).toBool = (allow || !S.isPrivateAddress a.ip) := by
  unfold validateResolvedAddress
  cases allow with
  | true => rfl
  | false =>
    rw [if_neg (by simp)]
    cases h : S.isPrivateAddress a.ip with
    | true => rfl
    | false => rfl

/-- **One policy.**  The builder picks the first address the check accepts. -/
theorem pickAddress_ok (host : String) (allow : Bool) (addrs : List (SocketAddr S.Ip))
    (addr : SocketAddr S.Ip) :
    pickAddress S host allow addrs = .ok addr ↔ firstAccepted S host allow addrs = some addr := by
  unfold pickAddress firstAccepted
  simp only [validateResolvedAddress_toBool]
  cases addrs with
  | nil => simp
  | cons first rest =>
    cases allow with
    | true => simp
    | false =>
      simp only [Bool.false_eq_true, if_false, Bool.false_or]
      cases (first :: rest).find? fun a => !S.isPrivateAddress a.ip with
      | some a => simp
      | none => simp

/-- What a build that succeeds has pinned. -/
theorem buildHttpClient_ok {resolvedUrl : String} {headers : SortedMap String String}
    {answer : BuildAnswer S.Ip} {client : Client S.Ip}
    (h : buildHttpClient U H S profile resolvedUrl headers answer = .ok client) :
    ∃ host addrs addr, hostOf U resolvedUrl = some host ∧ answer.lookupHost = some addrs ∧
      firstAccepted S host profile.allowPrivateBackends addrs = some addr ∧
      client.resolve = (host, addr) := by
  unfold buildHttpClient at h
  obtain ⟨url, hurl, h⟩ := bind_ok h
  obtain ⟨host, hhost, h⟩ := bind_ok h
  obtain ⟨port, -, h⟩ := bind_ok h
  obtain ⟨addrs, haddrs, h⟩ := bind_ok h
  obtain ⟨addr, haddr, h⟩ := bind_ok h
  obtain ⟨defaultHeaders, -, h⟩ := bind_ok h
  refine ⟨host, addrs, addr, ?_, okOr_ok haddrs, (pickAddress_ok _ _ _ _).1 haddr, ?_⟩
  · unfold hostOf
    rw [mapError_ok hurl]
    exact okOr_ok hhost
  · split at h
    · cases h
      rfl
    · cases h

/-- The headers a client that is built adds to its requests. -/
theorem buildHttpClient_defaultHeaders {resolvedUrl : String} {headers : SortedMap String String}
    {answer : BuildAnswer S.Ip} {client : Client S.Ip}
    (h : buildHttpClient U H S profile resolvedUrl headers answer = .ok client) :
    buildDefaultHeaders H headers (profile.method = .post) = .ok client.defaultHeaders := by
  unfold buildHttpClient at h
  obtain ⟨url, -, h⟩ := bind_ok h
  obtain ⟨host, -, h⟩ := bind_ok h
  obtain ⟨port, -, h⟩ := bind_ok h
  obtain ⟨addrs, -, h⟩ := bind_ok h
  obtain ⟨addr, -, h⟩ := bind_ok h
  obtain ⟨defaultHeaders, hdefault, h⟩ := bind_ok h
  split at h
  · cases h
    exact hdefault
  · cases h

/-- Without an accepted address the build fails. -/
theorem buildHttpClient_refuses {resolvedUrl : String} (headers : SortedMap String String)
    (answer : BuildAnswer S.Ip)
    (hn : ∀ host addrs, hostOf U resolvedUrl = some host → answer.lookupHost = some addrs →
      firstAccepted S host profile.allowPrivateBackends addrs = none) :
    ∃ e, buildHttpClient U H S profile resolvedUrl headers answer = .error e := by
  cases hb : buildHttpClient U H S profile resolvedUrl headers answer with
  | error e => exact ⟨e, rfl⟩
  | ok client =>
    obtain ⟨host, addrs, addr, hhost, haddrs, haddr, -⟩ := buildHttpClient_ok hb
    rw [hn host addrs hhost haddrs] at haddr
    cases haddr

/-- An accepted address is not private, unless private ones are allowed. -/
theorem firstAccepted_public {host : String} {addrs : List (SocketAddr S.Ip)}
    {addr : SocketAddr S.Ip} (h : firstAccepted S host false addrs = some addr) :
    addr ∈ addrs ∧ S.isPrivateAddress addr.ip = false := by
  unfold firstAccepted at h
  have hok := List.find?_some h
  rw [validateResolvedAddress_toBool, Bool.false_or, Bool.not_eq_true'] at hok
  exact ⟨List.mem_of_find?_eq_some h, hok⟩

/-! ## A plain instance -/

structure Ipv4 where
  a : UInt8
  b : UInt8
  c : UInt8
  d : UInt8
deriving DecidableEq, Repr

/-- Enough of the policy to run the model: the private ranges of IPv4. -/
def plainSecurityApi : SecurityApi where
  Ip := Ipv4
  isPrivateAddress ip :=
    ip.a == 0 || ip.a == 10 || ip.a == 127 || (ip.a == 169 && ip.b == 254) ||
    (ip.a == 172 && ip.b &&& 0xF0 == 16) || (ip.a == 192 && ip.b == 168) ||
    (ip.a == 100 && ip.b &&& 0xC0 == 64)
  ipText ip := s!"{ip.a}.{ip.b}.{ip.c}.{ip.d}"
  privateRangesDoc := "Private ranges are loopback, RFC 1918, link-local and CGNAT."

/-- The host resolves to a private address and then a public one. -/
def mixedAnswer : BuildAnswer Ipv4 :=
  ⟨some [⟨⟨10, 0, 0, 7⟩, 443⟩, ⟨⟨93, 184, 216, 34⟩, 443⟩], true⟩

example : pickAddress plainSecurityApi "api.test" false [⟨⟨10, 0, 0, 7⟩, 443⟩] =
    .error ("DNS rebinding guard: host 'api.test' resolved only to private addresses " ++
      "(10.0.0.7)") := rfl

end NetCore
