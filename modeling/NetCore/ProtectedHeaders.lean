import NetCore.HeaderMaps

/-!
# Headers an operator cannot set

`build_default_headers` skips protected names, in any case, and takes the others
as they are; a name with white space around it is protected or no header name.  So
the default headers hold a name that should not go upstream only if the list of
protected names misses it.  It misses six hop-by-hop names
(`defaultHeaders_allowed_iff`).
-/

namespace NetCore

open Text HeaderMap

/-- The hop-by-hop names: they are about one connection, not about the message. -/
def hopByHopNames : List String :=
  ["connection", "keep-alive", "proxy-connection", "te", "trailer", "transfer-encoding", "upgrade"]

/-- Hop-by-hop, computed by the client, or of the proxies in front. -/
def isForbiddenName (name : String) : Bool :=
  hopByHopNames.contains name || ["host", "content-length"].contains name ||
  ["forwarded", "via", "x-real-ip", "x-request-id"].contains name ||
  "x-forwarded-".toList.isPrefixOf name.toList

/-- The hop-by-hop names `is_protected_request_header` does not list. -/
def missedNames : List String :=
  ["keep-alive", "proxy-connection", "te", "trailer", "transfer-encoding", "upgrade"]

theorem missed_forbidden : ∀ word ∈ missedNames, isForbiddenName word = true := by decide

theorem missed_unprotected : ∀ word ∈ missedNames, ∀ isJsonCall,
    isProtectedRequestHeader word isJsonCall = false ∧ lowerTrim word = word ∧
      isToken word = true := by
  decide

/-- A forbidden name is protected in every call, or missed. -/
theorem forbidden_cases {name : String} {isJsonCall : Bool}
    (hname : isForbiddenName (lowerTrim name) = true) :
    isProtectedRequestHeader name isJsonCall = true ∨ lowerTrim name ∈ missedNames := by
  simp only [isForbiddenName, hopByHopNames, Bool.or_eq_true, List.contains_eq_mem,
    decide_eq_true_eq, List.mem_cons, List.not_mem_nil, or_false] at hname
  simp only [isProtectedRequestHeader, missedNames, Bool.or_eq_true, Bool.and_eq_true,
    List.contains_eq_mem, decide_eq_true_eq, List.mem_cons, List.not_mem_nil, or_false]
  rcases hname with ((h | h) | h) | h
  · rcases h with h | h
    · exact Or.inl (Or.inl (Or.inl (Or.inl (Or.inr (Or.inl h)))))
    · exact Or.inr h
  · rcases h with h | h
    · exact Or.inl (Or.inl (Or.inl (Or.inl (Or.inl h))))
    · exact Or.inl (Or.inl (Or.inl (Or.inl (Or.inr (Or.inr h)))))
  · exact Or.inl (Or.inr h)
  · exact Or.inl (Or.inl (Or.inr h))

theorem protected_congr {s t : String} (h : lowerTrim s = lowerTrim t) (isJsonCall : Bool) :
    isProtectedRequestHeader s isJsonCall = isProtectedRequestHeader t isJsonCall := by
  unfold isProtectedRequestHeader
  rw [h]

/-- A spelling of a word is protected if the word is. -/
theorem protected_of_lower {name word : String} (hname : toAsciiLowercase name = word)
    (htoken : isToken word = true) (hlower : lowerTrim word = word)
    (isJsonCall : Bool) :
    isProtectedRequestHeader name isJsonCall = isProtectedRequestHeader word isJsonCall := by
  apply protected_congr
  rw [lowerTrim_of_token (token_of_lower hname htoken), hname, hlower]

/-- **Which header maps are clean.**  The default headers hold no forbidden name
exactly if no operator header is one of the missed names, in any case. -/
theorem defaultHeaders_allowed_iff {H : HeaderApi} (hH : HeaderLaws H)
    {headers : SortedMap String String} {isJsonCall : Bool} {map : HeaderMap}
    (h : buildDefaultHeaders H headers isJsonCall = .ok map) :
    (∀ x ∈ map, isForbiddenName x.1 = false) ↔
      ∀ name ∈ headers.keys, toAsciiLowercase name ∉ missedNames := by
  obtain ⟨hmap, htoken⟩ := defaultHeadersLoop_ok hH h
  constructor
  · intro hclean name hname hmissed
    obtain ⟨kv, hkv, rfl⟩ := List.mem_map.1 hname
    obtain ⟨hfree, hsame, hword⟩ := missed_unprotected _ hmissed isJsonCall
    have hunprotected : isProtectedRequestHeader kv.1 isJsonCall = false := by
      rw [protected_of_lower rfl hword hsame, hfree]
    have hin : ∃ x ∈ map, x.1 = toAsciiLowercase kv.1 := by
      rw [hmap]
      apply exists_insertAll
      refine List.mem_map.2 ⟨kv, List.mem_filter.2 ⟨hkv, ?_⟩, rfl⟩
      simp [hunprotected]
    obtain ⟨x, hx, hxname⟩ := hin
    have hforbidden := missed_forbidden _ hmissed
    rw [← hxname, hclean x hx] at hforbidden
    cases hforbidden
  · intro hnames x hx
    rw [← Bool.not_eq_true]
    intro hforbidden
    rw [hmap] at hx
    rcases mem_insertAll hx with hx | hx
    · cases hx
    · obtain ⟨kv, hkv, rfl⟩ := List.mem_map.1 hx
      rw [List.mem_filter, Bool.not_eq_true'] at hkv
      have hlower := lowerTrim_of_token (htoken kv hkv.1 hkv.2)
      rw [← hlower] at hforbidden
      have hcases : isProtectedRequestHeader kv.1 isJsonCall = true ∨
          lowerTrim kv.1 ∈ missedNames := forbidden_cases hforbidden
      rcases hcases with hprotected | hmissed
      · rw [hkv.2] at hprotected
        cases hprotected
      · rw [hlower] at hmissed
        exact hnames kv.1 (List.mem_map.2 ⟨kv, hkv.1, rfl⟩) hmissed

/-- A hop-by-hop header, and one that is none. -/
def chunkedHeaders : SortedMap String String :=
  ⟨[("Transfer-Encoding", "chunked"), ("X-Custom", "ok")], List.pairwise_pair.2 (by decide)⟩

theorem defaultHeaders_allowed_chunked :
    ∃ map, buildDefaultHeaders plainHeaderApi chunkedHeaders true = .ok map ∧
      ¬ ∀ x ∈ map, isForbiddenName x.1 = false := by
  refine ⟨_, rfl, ?_⟩
  decide

theorem defaultHeaders_allowed_iff_chunked :
    ∃ map, buildDefaultHeaders plainHeaderApi chunkedHeaders true = .ok map ∧
      ((∀ x ∈ map, isForbiddenName x.1 = false) ↔
        ∀ name ∈ chunkedHeaders.keys, toAsciiLowercase name ∉ missedNames) := by
  obtain ⟨map, hmap⟩ : ∃ map, buildDefaultHeaders plainHeaderApi chunkedHeaders true = .ok map :=
    ⟨_, rfl⟩
  exact ⟨map, hmap, defaultHeaders_allowed_iff plainHeaderApi_laws hmap⟩

end NetCore
