import NetCore.Client
import NetCore.CredRefs
import NetCore.Digest

/-!
# One profile and what a call resolves to

`NetworkProfileRuntime` holds the raw URL and headers of a profile, and their
compiled templates.  `resolveBundle` is `resolve_client` up to the registry: the
resolved URL and headers, which give the digest, and the credential keys, which
are collected from the raw texts and so are the same for every call
(`credKeys`).  The template engine and the host are parameters.
-/

namespace NetCore

open Text

/-- `mcpg_expr`. -/
structure ExprApi where
  ExprContext : Type
  /-- `DynamicValue<String>` -/
  DynamicValue : Type
  parse : String → Except String DynamicValue
  credRefs : DynamicValue → List String
  resolveWithCredentials : DynamicValue → ExprContext → (String → Option String) →
    Except String String
  validateHeaderValue : String → String → Except String Unit

inductive BackendHostError
  | backend (cause : String)
  | other (display : String)
deriving DecidableEq, Repr

def BackendHostError.text : BackendHostError → String
  | .backend cause => cause
  | .other display => s!"credential resolution: {display}"

structure NetworkProfileRuntime (X : ExprApi) where
  profile : HttpRequestProfile
  rawUrl : String
  rawHeaders : SortedMap String String
  hasCredRefs : Bool
  compiledUrl : X.DynamicValue
  compiledHeaders : SortedMap String X.DynamicValue
  secretRefs : List String

variable {X : ExprApi}

def NetworkProfileRuntime.register (X : ExprApi) (rawUrl : String)
    (rawHeaders : SortedMap String String) (profile : HttpRequestProfile)
    (secretRefs : List String) : Except String (NetworkProfileRuntime X) := do
  let contains := fun s : String => (findStr credMarker s.toList).isSome
  let compiledUrl ← (X.parse rawUrl).mapError fun e => s!"url expression: {e}"
  let compiledHeaders ← rawHeaders.traverse fun name value =>
    (X.parse value).mapError fun e => s!"header '{name}' expression: {e}"
  return {
    profile := profile
    rawUrl := rawUrl
    rawHeaders := rawHeaders
    hasCredRefs := contains rawUrl || rawHeaders.values.any contains
    compiledUrl := compiledUrl
    compiledHeaders := compiledHeaders
    secretRefs := secretRefs }

/-! ## Credential keys -/

/-- The pairs of one raw text; the scanner never faults (`collectCredRefs_ok`). -/
def credRefsIn (s : String) : List (String × String) :=
  match collectCredRefs s with
  | .ok (some refs) => refs
  | _ => []

/-- `dedup`: of equal neighbours the first stays. -/
def dedup {α : Type} [DecidableEq α] : List α → List α
  | [] => []
  | [a] => [a]
  | a :: b :: l => if a = b then dedup (b :: l) else a :: dedup (b :: l)

/-- The order of `sort` on pairs. -/
def pairLe (a b : String × String) : Bool := a.1 < b.1 || (a.1 == b.1 && a.2 ≤ b.2)

namespace NetworkProfileRuntime

def rawValues (rt : NetworkProfileRuntime X) : List String := rt.rawUrl :: rt.rawHeaders.values

def credKeys (rt : NetworkProfileRuntime X) : List (String × String) :=
  dedup ((rt.rawValues.flatMap credRefsIn).insertionSort fun a b => pairLe a b)

/-- `operator_has_header`: the raw names, in any case. -/
def operatorHasHeader (rt : NetworkProfileRuntime X) (name : String) : Bool :=
  rt.rawHeaders.keys.any fun k => eqIgnoreAsciiCase k name

/-- The references of the templates, which go to the host in one call. -/
def credUris (rt : NetworkProfileRuntime X) : List String :=
  X.credRefs rt.compiledUrl ++ rt.compiledHeaders.values.flatMap X.credRefs

end NetworkProfileRuntime

theorem mem_dedup {α : Type} [DecidableEq α] (l : List α) (x : α) : x ∈ dedup l ↔ x ∈ l := by
  induction l using dedup.induct with
  | case1 => rfl
  | case2 a => rfl
  | case3 a l ih =>
    rw [dedup, if_pos rfl, ih]
    simp
  | case4 a b l hne ih =>
    simp only [dedup, if_neg hne, List.mem_cons, ih]

theorem mem_credKeys (rt : NetworkProfileRuntime X) (k : String × String) :
    k ∈ rt.credKeys ↔ ∃ s ∈ rt.rawValues, k ∈ credRefsIn s := by
  unfold NetworkProfileRuntime.credKeys
  rw [mem_dedup, List.mem_insertionSort, List.mem_flatMap]

/-! ## Resolving one call -/

/-- What a call resolved to: the client is built from the URL and the headers,
and evicted by the keys. -/
structure Bundle where
  url : String
  headers : SortedMap String String
  credKeys : List (String × String)

def Bundle.pairs (b : Bundle) : List (String × String) := digestPairs b.url b.headers.entries

/-- The values the host resolved, by reference. -/
def credMapOf (snapshot : Value) (uri : String) : Option String :=
  match snapshot with
  | .object fields =>
    fields.findSome? fun kv =>
      match kv with
      | (k, .string s) => if k = uri then some s else none
      | _ => none
  | _ => none

/-- The host is asked only if the profile has references; `answer` is what it
makes of them. -/
def credentialMap (rt : NetworkProfileRuntime X) (answer : Except BackendHostError Value) :
    Except String (String → Option String) :=
  if rt.credUris = [] then .ok fun _ => none
  else (answer.mapError BackendHostError.text).map credMapOf

/-- `resolve_client` up to the registry. -/
def resolveBundle (rt : NetworkProfileRuntime X) (exprCtx : X.ExprContext)
    (answer : Except BackendHostError Value) : Except String Bundle := do
  let credMap ← credentialMap rt answer
  let resolvedUrl ← (X.resolveWithCredentials rt.compiledUrl exprCtx credMap).mapError
    fun e => s!"evaluating URL expression: {e}"
  let resolvedHeaders ← rt.compiledHeaders.traverse fun name expr => do
    let value ← (X.resolveWithCredentials expr exprCtx credMap).mapError
      fun e => s!"evaluating header '{name}' expression: {e}"
    let _ ← (X.validateHeaderValue name value).mapError fun e => s!"header '{name}': {e}"
    return value
  return ⟨resolvedUrl, resolvedHeaders, rt.credKeys⟩

/-- `resolve_static_client` up to the registry. -/
def staticBundle (rt : NetworkProfileRuntime X) : Bundle := ⟨rt.profile.url, .empty, []⟩

/-- Every call of a profile has the header names of the profile, values the
engine validated, and the keys of the profile. -/
theorem resolveBundle_ok {rt : NetworkProfileRuntime X} {exprCtx : X.ExprContext}
    {answer : Except BackendHostError Value} {b : Bundle}
    (h : resolveBundle rt exprCtx answer = .ok b) :
    b.headers.keys = rt.compiledHeaders.keys ∧
      (∀ kv ∈ b.headers.entries, X.validateHeaderValue kv.1 kv.2 = .ok ()) ∧
      b.credKeys = rt.credKeys := by
  unfold resolveBundle at h
  obtain ⟨credMap, -, h⟩ := bind_ok h
  obtain ⟨resolvedUrl, -, h⟩ := bind_ok h
  obtain ⟨resolvedHeaders, hheaders, h⟩ := bind_ok h
  cases h
  refine ⟨SortedMap.traverse_keys hheaders, ?_, rfl⟩
  intro kv hkv
  obtain ⟨expr, -, hkv'⟩ := SortedMap.traverse_mem hheaders kv hkv
  obtain ⟨value, -, hkv'⟩ := bind_ok hkv'
  obtain ⟨u, hvalid, hkv'⟩ := bind_ok hkv'
  cases hkv'
  exact mapError_ok hvalid

/-! ## A plain instance

Templates of literal text and `${cred://…}` segments, without expressions. -/

inductive Piece
  | literal (text : List Char)
  | credential (uri : String)
deriving DecidableEq, Repr

/-- What follows a `$`: a segment and the text after it, or plain text. -/
def Piece.afterDollar : List Char → List Piece
  | '{' :: body =>
    match splitOnce '}' body with
    | some (uri, rest) => [.credential (String.ofList uri), .literal rest]
    | none => [.literal ('$' :: '{' :: body)]
  | text => [.literal ('$' :: text)]

def Piece.parse (s : String) : List Piece :=
  match s.toList.splitOn '$' with
  | first :: rest => .literal first :: rest.flatMap afterDollar
  | [] => []

def Piece.render (lookup : String → Option String) : Piece → Except String (List Char)
  | .literal text => .ok text
  | .credential uri => (okOr (lookup uri) s!"credential '{uri}' is not resolved").map String.toList

def Piece.renderAll (lookup : String → Option String) : List Piece → Except String (List Char)
  | [] => .ok []
  | p :: ps => do return (← p.render lookup) ++ (← renderAll lookup ps)

def plainExprApi : ExprApi where
  ExprContext := Unit
  DynamicValue := List Piece
  parse s := .ok (Piece.parse s)
  credRefs ps := ps.filterMap fun
    | .credential uri => some uri
    | .literal _ => none
  resolveWithCredentials ps _ lookup := (Piece.renderAll lookup ps).map String.ofList
  validateHeaderValue _ value :=
    if value.toList.all fun c => 32 ≤ c.toNat && c.toNat ≠ 127 || c == '\t' then .ok ()
    else .error "control character in header value"

/-- A profile whose one header holds a credential. -/
def bearerRuntime : NetworkProfileRuntime plainExprApi :=
  (NetworkProfileRuntime.register plainExprApi "https://api.test/hook"
    ⟨[("authorization", "Bearer ${cred://oauth/api}")], List.pairwise_singleton _ _⟩
    ⟨"https://api.test/hook", .post, true, 65536, .fromSecs 30, false⟩
    []).toOption.get rfl

/-- What the host makes of the reference of `bearerRuntime`. -/
def bearerAnswer (token : String) : Except BackendHostError Value :=
  .ok (.object [("cred://oauth/api", .string token)])

example : (resolveBundle bearerRuntime () (bearerAnswer "t1")).map Bundle.pairs =
    .ok [("url", "https://api.test/hook"), ("hdr:authorization", "Bearer t1")] := by decide

end NetCore
