import NetCore.Lib.Grouped
import NetCore.QueryString

/-!
# When two calls have one query

The arguments of a GET call enter its URL as the texts of their values by key;
the source sorts the keys so that a cache key made of the query is the same each
time.  So the query is a function of the texts alone, whatever the order of the
object, and it is one to one on them (`query_identifies_iff`): two calls share a
query, and a URL, exactly when each key has the same texts in both.  An argument
`null` is not told from the string `null`, nor an empty array from none.
-/

namespace NetCore

open Percent

variable {J : SerializerApi}

/-- The texts of an argument, one for each pair it becomes. -/
def argumentTexts (J : SerializerApi) : Value → List String
  | .array items => items.map (valueText J)
  | value => [valueText J value]

/-- The texts under a key. -/
def keyTexts (J : SerializerApi) (object : List (String × Value)) (key : String) : List String :=
  (objectGet object key).elim [] (argumentTexts J)

theorem strBytes_injective : Function.Injective strBytes := fun _ _ => Text.utf8Bytes_inj

theorem entryPairs_eq (key : String) (value : Value) :
    entryPairs J key value =
      ((argumentTexts J value).map strBytes).map fun v => (strBytes key, v) := by
  cases value with
  | array items => simp [entryPairs, argumentTexts]
  | null | bool b | number n | string s | object fields => rfl

theorem objectPairs_eq (object : List (String × Value)) :
    objectPairs J object ((objectKeys object).insertionSort byteLe) =
      Grouped.rows strBytes (fun key => (keyTexts J object key).map strBytes)
        ((objectKeys object).insertionSort byteLe) := by
  unfold objectPairs Grouped.rows
  rw [List.flatMap_def, List.flatMap_def]
  congr 1
  apply List.map_congr_left
  intro key hkey
  rw [List.mem_insertionSort, mem_objectKeys] at hkey
  obtain ⟨value, hvalue⟩ := hkey
  have htexts : keyTexts J object key = argumentTexts J value := by
    unfold keyTexts
    rw [hvalue]
    rfl
  dsimp only
  rw [htexts, hvalue]
  exact entryPairs_eq key value

theorem keyTexts_key {object : List (String × Value)} {key : String}
    (h : (keyTexts J object key).map strBytes ≠ []) :
    key ∈ (objectKeys object).insertionSort byteLe := by
  rw [List.mem_insertionSort, mem_objectKeys]
  cases hget : objectGet object key with
  | none =>
    rw [keyTexts, hget] at h
    exact absurd rfl h
  | some value => exact ⟨value, rfl⟩

/-- Two objects have the same pairs exactly if each key has the same texts. -/
theorem objectPairs_eq_iff (o o' : List (String × Value)) :
    objectPairs J o ((objectKeys o).insertionSort byteLe) =
        objectPairs J o' ((objectKeys o').insertionSort byteLe) ↔
      ∀ key, keyTexts J o key = keyTexts J o' key := by
  have hasymm : Std.Asymm fun a b => strBytes a < strBytes b :=
    ⟨fun _ _ h => Std.Asymm.asymm (r := ((· < ·) : Bytes → Bytes → Prop)) _ _ h⟩
  rw [objectPairs_eq, objectPairs_eq, Grouped.rows_eq_iff strBytes_injective (objectKeys_ascending o)
    (objectKeys_ascending o') (fun _ => keyTexts_key) (fun _ => keyTexts_key)]
  have hmap : Function.Injective (List.map strBytes) := List.map_injective_iff.2 strBytes_injective
  exact forall_congr' fun key => hmap.eq_iff

variable {U : UrlApi}

/-- **What a query identifies.**  Of two argument objects, at any URL. -/
theorem query_identifies_iff (hU : QueryLaws U) (hJ : SerializerLaws J) (url : U.Url)
    (o o' : List (String × Value)) :
    ∃ query query', buildQueryString J (.object o) = .ok query ∧
      buildQueryString J (.object o') = .ok query' ∧
      (query = query' ↔ ∀ key, keyTexts J o key = keyTexts J o' key) ∧
      (withQueryString U url query = withQueryString U url query' ↔
        ∀ key, keyTexts J o key = keyTexts J o' key) := by
  refine ⟨_, _, buildQueryString_object hJ o, buildQueryString_object hJ o', ?_⟩
  rw [← objectPairs_eq_iff]
  generalize objectPairs J o ((objectKeys o).insertionSort byteLe) = ps
  generalize objectPairs J o' ((objectKeys o').insertionSort byteLe) = ps'
  have hjoin : join isUnreserved ps = join isUnreserved ps' → ps = ps' := by
    intro h
    rw [← pairs_join isUnreserved_separated ps, h, pairs_join isUnreserved_separated]
  constructor
  · rw [String.ofList_inj]
    exact ⟨hjoin, congrArg _⟩
  · constructor
    · intro h
      have htext : ∀ ps, (String.ofList (join isUnreserved ps)).toList = join isUnreserved ps :=
        fun ps => String.toList_ofList
      obtain ⟨merged, hmerged, hpairs⟩ := withQueryString_pairs hU url (htext ps)
      obtain ⟨merged', hmerged', hpairs'⟩ := withQueryString_pairs hU url (htext ps')
      rw [hmerged, hmerged', Except.ok.injEq] at h
      subst h
      exact List.append_cancel_left (hpairs.symm.trans hpairs')
    · intro h
      rw [h]

/-- `null` and an empty array, against the string and nothing; the keys in another order. -/
theorem query_identifies_null :
    ∃ query query',
      buildQueryString plainSerializerApi (.object [("b", .null), ("a", .array [])]) = .ok query ∧
      buildQueryString plainSerializerApi (.object [("b", .string "null")]) = .ok query' ∧
      query = query' := by
  obtain ⟨query, query', h, h', hiff, -⟩ := query_identifies_iff plainUrlApi_queryLaws
    plainSerializerApi_laws ⟨none, "h.test", "/", none⟩ [("b", .null), ("a", .array [])]
    [("b", .string "null")]
  refine ⟨query, query', h, h', hiff.2 fun key => ?_⟩
  unfold keyTexts objectGet
  rw [List.lookup_cons, List.lookup_cons, List.lookup_cons]
  cases key == "b" with
  | true =>
    have htext : valueText plainSerializerApi .null = "null" :=
      valueText_eq plainSerializerApi_laws.null nofun
    show [valueText plainSerializerApi .null] = ["null"]
    rw [htext]
  | false =>
    cases key == "a" with
    | true => rfl
    | false => rfl

end NetCore
