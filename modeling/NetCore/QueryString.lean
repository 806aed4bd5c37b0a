import Mathlib.Data.List.Dedup
import Mathlib.Data.List.Sort
import NetCore.Exec
import NetCore.Lib.Percent

/-!
# The query string of a call

`build_query_string` writes the arguments of a GET call as encoded pairs, by
ascending key; `with_query_string` puts them behind the query the URL already has.
Read back, the merged query has the old pairs and then the new ones
(`query_roundtrip`): nothing in a key or a value can end a pair or start one.

The keys are compared as `str` is, byte by byte.
-/

namespace NetCore

open Percent

/-- `serde_json`'s texts. -/
structure SerializerApi where
  /-- the `Display` of a number -/
  numberText : Number → String
  /-- `serde_json::to_string`; an error is its `Display` text -/
  toString : Value → Except String String

/-- `str::bytes`. -/
def strBytes (s : String) : Bytes := s.toUTF8.data.toList

/-- The order of `str`. -/
def byteLe (a b : String) : Prop := strBytes a ≤ strBytes b

instance (a b : String) : Decidable (byteLe a b) :=
  inferInstanceAs (Decidable (strBytes a ≤ strBytes b))

/-- `byte.is_ascii_alphanumeric() || matches!(byte, b'-' | b'_' | b'.' | b'~')` -/
def isUnreserved (byte : UInt8) : Bool :=
  (48 ≤ byte && byte ≤ 57) || (65 ≤ byte && byte ≤ 90) || (97 ≤ byte && byte ≤ 122) ||
    [45, 95, 46, 126].contains byte

def percentEncode (value : String) : String := String.ofList (encode isUnreserved (strBytes value))

def queryValueString (J : SerializerApi) : Value → Except String String
  | .null => .ok "null"
  | .bool b => .ok (if b then "true" else "false")
  | .number n => .ok (J.numberText n)
  | .string s => .ok s
  | value => J.toString value

/-- The keys of an object, each once. -/
def objectKeys (object : List (String × Value)) : List String := (object.map Prod.fst).dedup

/-- `Map::get`. -/
def objectGet (object : List (String × Value)) (key : String) : Option Value := object.lookup key

def queryPair (J : SerializerApi) (key : String) (value : Value) : Except String String := do
  let text ← queryValueString J value
  return s!"{percentEncode key}={percentEncode text}"

/-- The body of the loop over the keys: the pairs of one value. -/
def valuePairs (J : SerializerApi) (key : String) : Value → Except String (List String)
  | .array items => items.mapM (queryPair J key)
  | value => do return [← queryPair J key value]

def keyPairs (J : SerializerApi) (object : List (String × Value)) (key : String) :
    Except String (List String) :=
  -- `expect`: a key of the object is there
  valuePairs J key ((objectGet object key).getD .null)

def buildQueryString (J : SerializerApi) : Value → Except String String
  | .object object => do
    let keys := (objectKeys object).insertionSort byteLe
    let pairs ← keys.mapM (keyPairs J object)
    return "&".intercalate pairs.flatten
  | _ => .error "HTTP query call arguments must be a JSON object"

/-! ## What a query says -/

/-- The pairs of a URL's query. -/
def queryPairs (query : Option String) : List Pair := pairs ((query.getD "").toList)

/-- The text of a value: a string itself, else its JSON text. -/
def valueText (J : SerializerApi) : Value → String
  | .string s => s
  | value => (J.toString value).toOption.getD ""

/-- The pairs an object's entry stands for. -/
def entryPairs (J : SerializerApi) (key : String) : Value → List Pair
  | .array items => items.map fun item => (strBytes key, strBytes (valueText J item))
  | value => [(strBytes key, strBytes (valueText J value))]

/-- What the proofs use of `serde_json`: every value has a JSON text, and that of a
null, a boolean and a number is the one given here. -/
structure SerializerLaws (J : SerializerApi) : Prop where
  total : ∀ v, ∃ s, J.toString v = .ok s
  null : J.toString .null = .ok "null"
  bool : ∀ b, J.toString (.bool b) = .ok (if b then "true" else "false")
  number : ∀ n, J.toString (.number n) = .ok (J.numberText n)

/-- What the proofs use of `Url::set_query`.  A URL's query is in serialized form;
the unreserved letters, `%`, `&` and `=` are; and a query in serialized form is set
as it is. -/
structure QueryLaws (U : UrlApi) where
  serialized : U.Url → Char → Prop
  query : ∀ {url q}, U.query url = some q → ∀ c ∈ q.toList, serialized url c
  letter : ∀ url c, c.isAlphanum = true ∨ c ∈ ['-', '_', '.', '~', '%', '&', '='] →
    serialized url c
  setQuery : ∀ {url q}, (∀ c ∈ q.toList, serialized url c) →
    U.query (U.setQuery url (some q)) = some q

/-! ## The pairs -/

theorem isUnreserved_separated : Separated isUnreserved where
  safe := by
    have hall : ∀ n, n < 256 → isUnreserved (UInt8.ofNat n) = true → n < 128 ∧ n ≠ 37 := by
      decide +kernel
    intro b hb
    exact hall b.toNat b.toNat_lt (by rw [UInt8.ofNat_toNat]; exact hb)
  ampersand := by decide
  equals := by decide

variable {J : SerializerApi}

/-- Other values than strings have their JSON text. -/
theorem valueText_eq {value : Value} {text : String} (h : J.toString value = .ok text)
    (hstring : ∀ s, value ≠ .string s) : valueText J value = text := by
  cases value with
  | string s => exact absurd rfl (hstring s)
  | null | bool b | number n | array items | object fields =>
    show (J.toString _).toOption.getD "" = text
    rw [h]
    rfl

theorem queryValueString_ok (hJ : SerializerLaws J) (value : Value) :
    queryValueString J value = .ok (valueText J value) := by
  cases value with
  | null =>
    rw [valueText_eq hJ.null nofun]
    rfl
  | bool b =>
    rw [valueText_eq (hJ.bool b) nofun]
    rfl
  | number n =>
    rw [valueText_eq (hJ.number n) nofun]
    rfl
  | string s => rfl
  | array items =>
    obtain ⟨text, htext⟩ := hJ.total (.array items)
    rw [valueText_eq htext nofun]
    exact htext
  | object fields =>
    obtain ⟨text, htext⟩ := hJ.total (.object fields)
    rw [valueText_eq htext nofun]
    exact htext

theorem queryPair_ok (hJ : SerializerLaws J) (key : String) (value : Value) :
    queryPair J key value =
      .ok (String.ofList (encodePair isUnreserved (strBytes key, strBytes (valueText J value)))) := by
  unfold queryPair
  rw [queryValueString_ok hJ]
  show Except.ok (percentEncode key ++ "=" ++ percentEncode (valueText J value)) = _
  congr 1
  apply String.toList_inj.1
  simp [percentEncode, encodePair]

theorem mapM_ok {α β : Type} {f : α → Except String β} {g : α → β} (l : List α)
    (h : ∀ a, f a = .ok (g a)) : l.mapM f = .ok (l.map g) := by
  have hf : f = fun a => pure (g a) := funext h
  rw [hf, List.mapM_pure]
  rfl

theorem valuePairs_ok (hJ : SerializerLaws J) (key : String) (value : Value) :
    valuePairs J key value =
      .ok ((entryPairs J key value).map fun p => String.ofList (encodePair isUnreserved p)) := by
  cases value with
  | array items =>
    show items.mapM (queryPair J key) = _
    rw [mapM_ok items (queryPair_ok hJ key)]
    simp [entryPairs]
  | null | bool b | number n | string s | object fields =>
    simp only [valuePairs, queryPair_ok hJ]
    rfl

/-- The pairs of an object, under its keys in the order given. -/
def objectPairs (J : SerializerApi) (object : List (String × Value)) (keys : List String) :
    List Pair :=
  keys.flatMap fun key => entryPairs J key ((objectGet object key).getD .null)

/-- The query string is the joined pairs of the object by ascending key. -/
theorem buildQueryString_object (hJ : SerializerLaws J) (object : List (String × Value)) :
    buildQueryString J (.object object) = .ok (String.ofList (join isUnreserved
      (objectPairs J object ((objectKeys object).insertionSort byteLe)))) := by
  have hkeys : ∀ key, keyPairs J object key =
      .ok ((entryPairs J key ((objectGet object key).getD .null)).map
        fun p => String.ofList (encodePair isUnreserved p)) :=
    fun key => valuePairs_ok hJ key _
  show (do
    let pairs ← ((objectKeys object).insertionSort byteLe).mapM (keyPairs J object)
    return "&".intercalate pairs.flatten : Except String String) = _
  rw [mapM_ok _ hkeys]
  show Except.ok _ = _
  congr 1
  apply String.toList_inj.1
  rw [String.toList_intercalate, String.toList_ofList, join, objectPairs]
  simp [List.map_flatMap, ← List.flatMap_def, Function.comp_def]

theorem buildQueryString_error (args : Value) (h : ¬ ∃ object, args = .object object) :
    buildQueryString J args = .error "HTTP query call arguments must be a JSON object" := by
  cases args with
  | object object => exact absurd ⟨object, rfl⟩ h
  | null | bool b | number n | string s | array items => rfl

/-! ## The order of the keys -/

theorem objectKeys_sorted (object : List (String × Value)) :
    ((objectKeys object).insertionSort byteLe).Pairwise byteLe := by
  have htotal : Std.Total byteLe := ⟨fun a b => List.le_total (strBytes a) (strBytes b)⟩
  have htrans : IsTrans String byteLe := ⟨fun _ _ _ => List.le_trans⟩
  exact List.pairwise_insertionSort _ _

theorem mem_objectKeys {object : List (String × Value)} {key : String} :
    key ∈ objectKeys object ↔ ∃ value, objectGet object key = some value := by
  unfold objectKeys objectGet
  rw [List.mem_dedup, ← Option.isSome_iff_exists, List.lookup_isSome_iff]
  simp

/-- The sorted keys ascend strictly: an object has each key once. -/
theorem objectKeys_ascending (object : List (String × Value)) :
    ((objectKeys object).insertionSort byteLe).Pairwise fun a b => strBytes a < strBytes b := by
  have hnodup : ((objectKeys object).insertionSort byteLe).Nodup :=
    (List.perm_insertionSort _ _).nodup_iff.2 (List.nodup_dedup _)
  apply (objectKeys_sorted object).imp₂ _ hnodup
  intro a b hle hne
  by_contra hlt
  exact hne (Text.utf8Bytes_inj (List.le_antisymm hle (List.not_lt.1 hlt)))

/-! ## The round trip -/

/-- The letters of an encoded query. -/
theorem query_letters {ps : List Pair} {c : Char} (h : c ∈ join isUnreserved ps) :
    c.isAlphanum = true ∨ c ∈ ['-', '_', '.', '~', '%', '&', '='] := by
  have hhex : ∀ n, n < 16 → (hexDigit n).isAlphanum = true := by decide
  have hkept : ∀ n, n < 256 → isUnreserved (UInt8.ofNat n) = true →
      (Char.ofNat n).isAlphanum = true ∨ Char.ofNat n ∈ ['-', '_', '.', '~', '%', '&', '='] := by
    decide +kernel
  rcases mem_join h with rfl | rfl | ⟨bytes, hc⟩
  · exact Or.inr (by decide)
  · exact Or.inr (by decide)
  · rcases mem_encode hc with rfl | ⟨n, hn, rfl⟩ | ⟨b, hb, rfl⟩
    · exact Or.inr (by decide)
    · exact Or.inl (hhex n hn)
    · exact hkept b.toNat b.toNat_lt (by rw [UInt8.ofNat_toNat]; exact hb)

variable {U : UrlApi}

theorem setQuery_pairs (hU : QueryLaws U) {url : U.Url} {query : String}
    (h : ∀ c ∈ query.toList, hU.serialized url c) :
    queryPairs (U.query (U.setQuery url (some query))) = pairs query.toList := by
  rw [hU.setQuery h]
  rfl

/-- Encoded pairs go behind the pairs the URL has. -/
theorem withQueryString_pairs (hU : QueryLaws U) (url : U.Url) {query : String} {ps : List Pair}
    (hquery : query.toList = join isUnreserved ps) :
    ∃ url', withQueryString U url query = .ok url' ∧
      queryPairs (U.query url') = queryPairs (U.query url) ++ ps := by
  have hletter : ∀ c ∈ query.toList, hU.serialized url c := by
    intro c hc
    rw [hquery] at hc
    exact hU.letter url c (query_letters hc)
  have halone : queryPairs (U.query (U.setQuery url (some query))) = ps := by
    rw [setQuery_pairs hU hletter, hquery, pairs_join isUnreserved_separated]
  unfold withQueryString
  by_cases hempty : query = ""
  · have hps : ps = [] := by
      have hjoin : join isUnreserved ps = [] := by
        rw [← hquery, hempty]
        rfl
      exact join_eq_nil.1 hjoin
    rw [if_pos hempty]
    exact ⟨url, rfl, by rw [hps, List.append_nil]⟩
  · rw [if_neg hempty]
    refine ⟨_, rfl, ?_⟩
    cases hq : U.query url with
    | none => exact halone
    | some existing =>
      by_cases hexisting : existing = ""
      · subst hexisting
        exact halone
      · have hne : ∀ s : String, s ≠ "" → s.toList ≠ [] := fun s hs h => hs (String.toList_inj.1 h)
        have hmerged : (existing ++ "&" ++ query).toList = existing.toList ++ '&' :: query.toList := by
          simp
        have hser : ∀ c ∈ (existing ++ "&" ++ query).toList, hU.serialized url c := by
          intro c hc
          rw [hmerged, List.mem_append, List.mem_cons] at hc
          rcases hc with hc | rfl | hc
          · exact hU.query hq c hc
          · exact hU.letter url '&' (Or.inr (by decide))
          · exact hletter c hc
        simp only [ne_eq, hexisting, not_false_eq_true, if_true]
        show queryPairs (U.query (U.setQuery url (some (existing ++ "&" ++ query)))) =
          pairs existing.toList ++ ps
        rw [setQuery_pairs hU hser, hmerged, pairs_append (hne _ hexisting) (hne _ hempty), hquery,
          pairs_join isUnreserved_separated]

/-- **The query round trip.**  Building fails exactly for arguments that are no
object.  For an object the merged query reads back as the URL's pairs, then the
object's under its keys in ascending order. -/
theorem query_roundtrip (hU : QueryLaws U) (hJ : SerializerLaws J) (url : U.Url) (args : Value) :
    ((∃ e, buildQueryString J args = .error e) ↔ ¬ ∃ object, args = .object object) ∧
    ∀ object, args = .object object → ∃ keys query url',
      (keys.Pairwise fun a b => strBytes a < strBytes b) ∧
      (∀ key, key ∈ keys ↔ ∃ value, objectGet object key = some value) ∧
      buildQueryString J args = .ok query ∧ withQueryString U url query = .ok url' ∧
      queryPairs (U.query url') = queryPairs (U.query url) ++ objectPairs J object keys := by
  constructor
  · constructor
    · rintro ⟨e, he⟩ ⟨object, rfl⟩
      rw [buildQueryString_object hJ] at he
      cases he
    · intro h
      exact ⟨_, buildQueryString_error args h⟩
  · rintro object rfl
    obtain ⟨url', hurl, hpairs⟩ := withQueryString_pairs hU url String.toList_ofList
    refine ⟨_, _, url', objectKeys_ascending object, ?_, buildQueryString_object hJ object, hurl,
      hpairs⟩
    intro key
    rw [List.mem_insertionSort, mem_objectKeys]

/-! ## A plain instance

JSON texts of values whose strings need no escape and whose numbers are integers. -/

def plainNumberText : Number → String
  | .posInt n => toString n.toNat
  | .negInt n => toString n.toInt
  | .float bits => toString bits.toNat

mutual

def Value.text : Value → String
  | .null => "null"
  | .bool b => if b then "true" else "false"
  | .number n => plainNumberText n
  | .string s => "\"" ++ s ++ "\""
  | .array items => "[" ++ ",".intercalate (textsOf items) ++ "]"
  | .object fields => "\x7b" ++ ",".intercalate (fieldTexts fields) ++ "\x7d"

def textsOf : List Value → List String
  | [] => []
  | item :: items => item.text :: textsOf items

def fieldTexts : List (String × Value) → List String
  | [] => []
  | (key, value) :: fields => ("\"" ++ key ++ "\":" ++ value.text) :: fieldTexts fields

end

def plainSerializerApi : SerializerApi where
  numberText := plainNumberText
  toString value := .ok value.text

theorem plainSerializerApi_laws : SerializerLaws plainSerializerApi where
  total v := ⟨v.text, rfl⟩
  null := by simp [plainSerializerApi, Value.text]
  bool b := by simp [plainSerializerApi, Value.text]
  number n := by simp [plainSerializerApi, Value.text]

def plainUrlApi_queryLaws : QueryLaws plainUrlApi where
  serialized _ _ := True
  query _ _ _ := trivial
  letter _ _ _ := trivial
  setQuery _ := rfl

example : buildQueryString plainSerializerApi
    (.object [("b", .number (.posInt 1)), ("a", .array [.string "x", .string "y z/"])]) =
      .ok "a=x&a=y%20z%2F&b=1" := by
  decide

/-- A URL with a query, and a key and a value with separators in them. -/
theorem query_roundtrip_separators :
    ∃ keys query url', (keys.Pairwise fun a b => strBytes a < strBytes b) ∧
      (∀ key, key ∈ keys ↔
        ∃ value, objectGet [("k&", .string "a=b"), ("c", .array [.array [.null]])] key = some value) ∧
      buildQueryString plainSerializerApi
        (.object [("k&", .string "a=b"), ("c", .array [.array [.null]])]) = .ok query ∧
      withQueryString plainUrlApi ⟨none, "h.test", "/", some "q=0"⟩ query = .ok url' ∧
      queryPairs (plainUrlApi.query url') = queryPairs (some "q=0") ++
        objectPairs plainSerializerApi [("k&", .string "a=b"), ("c", .array [.array [.null]])] keys :=
  (query_roundtrip plainUrlApi_queryLaws plainSerializerApi_laws ⟨none, "h.test", "/", some "q=0"⟩
    (.object [("k&", .string "a=b"), ("c", .array [.array [.null]])])).2 _ rfl

end NetCore
