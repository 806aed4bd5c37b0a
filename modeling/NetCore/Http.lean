import NetCore.Lib.Percent
import NetCore.Lib.SortedMap
import NetCore.Lib.Text
import NetCore.Types

/-!
# What the code uses of `url`, `http` and `reqwest`

The three crates are not part of this repository.  What they compute is a field
of `UrlApi`, `HeaderApi` or `ReqwestApi`; what they only hold (a header map, a
request under construction, a response) is a data type here, with the
documented effect of each method the code calls on it.
-/

namespace NetCore

open Text

/-! ## URLs -/

structure UrlApi where
  Url : Type
  /-- an error is its `Display` text -/
  parse : String → Except String Url
  hostStr : Url → Option String
  portOrKnownDefault : Url → Option UInt16
  query : Url → Option String
  setQuery : Url → Option String → Url
  asStr : Url → String
  /-- the `Authorization` text reqwest makes of the userinfo of a URL, if there is any -/
  basicAuth : Url → Option String
  /-- `set_username("")` and `set_password(None)` -/
  withoutUserinfo : Url → Url
  hostStr_withoutUserinfo : ∀ url, hostStr (withoutUserinfo url) = hostStr url

/-! ## Headers -/

/-- The bytes of a `HeaderValue`. -/
abbrev HeaderValue := List UInt8

def HeaderValue.fromStatic (s : String) : HeaderValue := s.toUTF8.data.toList

structure HeaderApi where
  /-- `HeaderName::from_bytes`: the name in lower case, or the error's text -/
  headerName : String → Except String String
  /-- `HeaderValue::from_str` -/
  headerValue : String → Except String HeaderValue
  /-- `HeaderValue::to_str().ok()` -/
  toStr : HeaderValue → Option String

/-- A multimap from names in lower case to values. -/
abbrev HeaderMap := List (String × HeaderValue)

namespace HeaderMap

def get (m : HeaderMap) (name : String) : Option HeaderValue :=
  (m.find? fun h => h.1 == name).map Prod.snd

def containsKey (m : HeaderMap) (name : String) : Bool := m.any fun h => h.1 == name

/-- `insert`: the values the name had are gone. -/
def insert (m : HeaderMap) (name : String) (value : HeaderValue) : HeaderMap :=
  m.filter (fun h => h.1 != name) ++ [(name, value)]

/-- `append`: the values the name had stay. -/
def append (m : HeaderMap) (name : String) (value : HeaderValue) : HeaderMap := m ++ [(name, value)]

/-- Every name of `src` has the values of `src`. -/
def replaceBy (m src : HeaderMap) : HeaderMap :=
  m.filter (fun h => !containsKey src h.1) ++ src

/-- A default is added only where the name has no value yet. -/
def withDefaults (m defaults : HeaderMap) : HeaderMap :=
  defaults.foldl (fun m h => if containsKey m h.1 then m else m ++ [h]) m

end HeaderMap

/-! ## Requests and responses -/

inductive Method
  | POST
  | GET
deriving DecidableEq, Repr

/-- A `RequestBuilder`: what has been set on the request so far. -/
structure Request (Url : Type) where
  method : Method
  url : Url
  headers : HeaderMap
  /-- the value whose JSON text is the body -/
  body : Option Value

namespace Request

/-- `client.request`: userinfo moves from the URL into a header. -/
def new (U : UrlApi) (method : Method) (url : U.Url) : Request U.Url :=
  match U.basicAuth url with
  | some text =>
    ⟨method, U.withoutUserinfo url, [("authorization", HeaderValue.fromStatic text)], none⟩
  | none => ⟨method, url, [], none⟩

variable {Url : Type}

/-- `.headers` replaces what the request had under these names. -/
def withHeaders (r : Request Url) (map : HeaderMap) : Request Url :=
  { r with headers := r.headers.replaceBy map }

/-- `.header` appends. -/
def withHeader (r : Request Url) (name : String) (value : HeaderValue) : Request Url :=
  { r with headers := r.headers.append name value }

/-- `.json`: the body, and its content type unless there is one. -/
def json (r : Request Url) (value : Value) : Request Url where
  method := r.method
  url := r.url
  headers :=
    if r.headers.containsKey "content-type" then r.headers
    else r.headers.insert "content-type" (HeaderValue.fromStatic "application/json")
  body := some value

end Request

/-- A `reqwest::Error`. -/
structure ReqwestError (Url : Type) where
  detail : String
  url : Option Url
deriving DecidableEq, Repr

def ReqwestError.withoutUrl {Url : Type} (e : ReqwestError Url) : ReqwestError Url :=
  { e with url := none }

/-- The `Display` of a `reqwest::Error`. -/
structure ReqwestApi (Url : Type) where
  display : ReqwestError Url → String

abbrev Bytes := List UInt8

/-- What `bytes_stream()` yields, up to its end. -/
abbrev BodyStream (Url : Type) := List (Except (ReqwestError Url) Bytes)

structure Response (Url : Type) where
  status : UInt16
  headers : HeaderMap
  body : BodyStream Url

/-! ## A plain instance

Enough of the three crates to run the model: `https` URLs, ASCII headers. -/

structure PlainUrl where
  userinfo : Option String
  host : String
  path : String
  query : Option String
deriving DecidableEq, Repr

def PlainUrl.parse (s : String) : Except String PlainUrl :=
  if "https://".toList.isPrefixOf s.toList then
    let rest := s.toList.drop 8
    let authority := rest.takeWhile fun c => c != '/' && c != '?'
    let tail := rest.drop authority.length
    let (path, query) := (splitOnce '?' tail).elim (tail, none) fun x => (x.1, some x.2)
    let (userinfo, host) :=
      (splitOnce '@' authority).elim (none, authority) fun x => (some x.1, x.2)
    if host = [] then .error "empty host"
    else .ok ⟨userinfo.map String.ofList, String.ofList host, String.ofList path,
      query.map String.ofList⟩
  else .error "relative URL without a base"

def PlainUrl.asStr (u : PlainUrl) : String :=
  "https://" ++ (u.userinfo.elim "" fun i => i ++ "@") ++ u.host ++ u.path ++
    u.query.elim "" fun q => "?" ++ q

def base64Digit (n : Nat) : Char :=
  Char.ofNat (if n < 26 then n + 65 else if n < 52 then n + 71 else if n < 62 then n - 4
    else if n = 62 then 43 else 47)

def base64 : List UInt8 → List Char
  | a :: b :: c :: rest =>
    base64Digit (a.toNat / 4) :: base64Digit (a.toNat % 4 * 16 + b.toNat / 16) ::
      base64Digit (b.toNat % 16 * 4 + c.toNat / 64) :: base64Digit (c.toNat % 64) :: base64 rest
  | [a, b] =>
    [base64Digit (a.toNat / 4), base64Digit (a.toNat % 4 * 16 + b.toNat / 16),
      base64Digit (b.toNat % 16 * 4), '=']
  | [a] => [base64Digit (a.toNat / 4), base64Digit (a.toNat % 4 * 16), '=', '=']
  | [] => []

/-- The user name, and the password unless it is empty, joined by a colon. -/
def PlainUrl.basicAuth (u : PlainUrl) : Option String :=
  u.userinfo.bind fun userinfo =>
    let (username, password) :=
      (splitOnce ':' userinfo.toList).elim (userinfo.toList, []) fun x => (x.1, x.2)
    if username = [] ∧ password = [] then none
    else some (String.ofList ("Basic ".toList ++
      base64 (Percent.decode username ++ 58 :: Percent.decode password)))

def plainUrlApi : UrlApi where
  Url := PlainUrl
  parse := PlainUrl.parse
  hostStr u := some u.host
  portOrKnownDefault _ := some 443
  query := PlainUrl.query
  setQuery u q := { u with query := q }
  asStr := PlainUrl.asStr
  basicAuth := PlainUrl.basicAuth
  withoutUserinfo u := { u with userinfo := none }
  hostStr_withoutUserinfo _ := rfl

def plainHeaderApi : HeaderApi where
  headerName s :=
    if s ≠ "" ∧ s.toList.all fun c => c.isAlphanum || c == '-' || c == '_' then
      .ok (toAsciiLowercase s)
    else .error "invalid HTTP header name"
  headerValue s :=
    if s.toList.all fun c => 32 ≤ c.toNat && c.toNat < 127 || c == '\t' then
      .ok (s.toList.map fun c => UInt8.ofNat c.toNat)
    else .error "failed to parse header value"
  toStr v :=
    if v.all fun b => 32 ≤ b.toNat && b.toNat < 127 || b == 9 then
      some (String.ofList (v.map fun b => Char.ofNat b.toNat))
    else none

def plainReqwestApi : ReqwestApi PlainUrl where
  display e := e.detail ++ e.url.elim "" fun u => s!" for url ({u.asStr})"

example : PlainUrl.parse "https://u:p@h.test/a?b=c" =
    .ok ⟨some "u:p", "h.test", "/a", some "b=c"⟩ := by decide

example : PlainUrl.basicAuth ⟨some "u:p%40", "h.test", "/a", none⟩ = some "Basic dTpwQA==" := by
  decide

end NetCore
