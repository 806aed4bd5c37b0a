import Mathlib.Data.List.Nodup
import NetCore.Exec
import NetCore.Lib.Percent

/-!
# Header maps

A `HeaderMap` is a list of names and values; what it says of a name is the list of
that name's values (`getAll`).  Each operation has one equation for it.  The two
loops that fill a map insert the entries they do not skip, one by one
(`insertAll`), so the last entry of a name is the one that stays.
-/

namespace NetCore

open Text

namespace HeaderMap

/-- The values of a name, in order. -/
def getAll (m : HeaderMap) (name : String) : List HeaderValue :=
  (m.filter fun h => h.1 == name).map Prod.snd

/-- Inserting one by one. -/
def insertAll (m : HeaderMap) (hs : List (String × HeaderValue)) : HeaderMap :=
  hs.foldl (fun m h => insert m h.1 h.2) m

/-- The value of the last entry with the name. -/
def lastValue (hs : List (String × HeaderValue)) (name : String) : Option HeaderValue :=
  ((hs.filter fun h => h.1 == name).getLast?).map Prod.snd

@[simp] theorem getAll_nil (name : String) : getAll [] name = [] := rfl

@[simp] theorem getAll_append (m : HeaderMap) (n : String) (v : HeaderValue) (name : String) :
    (append m n v).getAll name = m.getAll name ++ if name = n then [v] else [] := by
  unfold getAll append
  rw [List.filter_append, List.map_append]
  congr 1
  by_cases h : n = name
  · simp [h]
  · simp [h, Ne.symm h]

theorem getAll_filter_name (m : HeaderMap) (p : String → Bool) (name : String) :
    getAll (m.filter fun h => p h.1) name = if p name then m.getAll name else [] := by
  unfold getAll
  rw [List.filter_filter]
  by_cases h : p name = true
  · rw [if_pos h]
    congr 1
    apply List.filter_congr
    intro x _
    by_cases hx : x.1 = name
    · simp [hx, h]
    · simp [hx]
  · rw [if_neg h, List.map_eq_nil_iff, List.filter_eq_nil_iff]
    intro x _ hx
    rw [Bool.and_eq_true, beq_iff_eq] at hx
    rw [← hx.1] at h
    exact h hx.2

@[simp] theorem getAll_insert (m : HeaderMap) (n : String) (v : HeaderValue) (name : String) :
    (insert m n v).getAll name = if name = n then [v] else m.getAll name := by
  have happend : insert m n v = append (m.filter fun h => h.1 != n) n v := rfl
  rw [happend, getAll_append, getAll_filter_name m fun x => x != n]
  by_cases h : name = n
  · simp [h]
  · simp [h]

theorem containsKey_iff (m : HeaderMap) (name : String) :
    m.containsKey name = true ↔ m.getAll name ≠ [] := by
  unfold containsKey getAll
  rw [List.any_eq_true, ne_eq, List.map_eq_nil_iff, List.filter_eq_nil_iff]
  simp

/-- The names of the source have its values, the others keep theirs. -/
theorem getAll_replaceBy (m src : HeaderMap) (name : String) :
    (m.replaceBy src).getAll name =
      if src.getAll name = [] then m.getAll name else src.getAll name := by
  have happend : (m.replaceBy src).getAll name =
      getAll (m.filter fun h => !containsKey src h.1) name ++ src.getAll name := by
    unfold getAll replaceBy
    rw [List.filter_append, List.map_append]
  rw [happend, getAll_filter_name m fun x => !containsKey src x]
  by_cases h : src.getAll name = []
  · have hnot : containsKey src name = false := by
      rw [← Bool.not_eq_true, containsKey_iff]
      exact fun hne => hne h
    simp [h, hnot]
  · have hcontains : containsKey src name = true := (containsKey_iff src name).2 h
    simp [h, hcontains]

/-- A name with values keeps them; one without gets the first default. -/
theorem getAll_withDefaults (m defaults : HeaderMap) (name : String) :
    (m.withDefaults defaults).getAll name =
      if m.getAll name = [] then (getAll defaults name).take 1 else m.getAll name := by
  induction defaults generalizing m with
  | nil => simp [withDefaults]
  | cons d defaults ih =>
    have hstep : m.withDefaults (d :: defaults) =
        withDefaults (if containsKey m d.1 then m else append m d.1 d.2) defaults := rfl
    have hcons : getAll (d :: defaults) name =
        (if d.1 = name then [d.2] else []) ++ getAll defaults name := by
      unfold getAll
      by_cases hd : d.1 = name
      · simp [hd]
      · simp [hd]
    rw [hstep, ih, hcons]
    by_cases hd : d.1 = name
    · subst hd
      by_cases hm : m.getAll d.1 = []
      · have hnot : ¬ containsKey m d.1 = true := fun hc => (containsKey_iff m d.1).1 hc hm
        simp [hm, hnot]
      · have hcontains : containsKey m d.1 = true := (containsKey_iff m d.1).2 hm
        simp [hm, hcontains]
    · have hsame : getAll (if containsKey m d.1 then m else append m d.1 d.2) name =
          m.getAll name := by
        split
        · rfl
        · simp [Ne.symm hd]
      rw [hsame, if_neg hd, List.nil_append]

theorem getAll_insertAll (m : HeaderMap) (hs : List (String × HeaderValue)) (name : String) :
    (insertAll m hs).getAll name =
      match lastValue hs name with
      | some v => [v]
      | none => m.getAll name := by
  induction hs generalizing m with
  | nil => rfl
  | cons h hs ih =>
    show (insertAll (insert m h.1 h.2) hs).getAll name = _
    rw [ih, getAll_insert]
    by_cases hname : h.1 = name
    · cases hlast : (hs.filter fun h => h.1 == name).getLast? with
      | none => simp [lastValue, hname, hlast, List.getLast?_cons]
      | some x => simp [lastValue, hname, hlast, List.getLast?_cons]
    · simp [lastValue, hname, Ne.symm hname]

/-- What is in a filled map was inserted. -/
theorem mem_insertAll {m : HeaderMap} {hs : List (String × HeaderValue)}
    {x : String × HeaderValue} (h : x ∈ insertAll m hs) : x ∈ m ∨ x ∈ hs := by
  induction hs generalizing m with
  | nil => exact Or.inl h
  | cons y hs ih =>
    rcases ih h with hm | hhs
    · unfold HeaderMap.insert at hm
      rw [List.mem_append, List.mem_singleton] at hm
      rcases hm with hm | rfl
      · exact Or.inl (List.mem_of_mem_filter hm)
      · exact Or.inr List.mem_cons_self
    · exact Or.inr (List.mem_cons_of_mem _ hhs)

/-- A filled map has every name that was inserted. -/
theorem exists_insertAll {m : HeaderMap} {hs : List (String × HeaderValue)} {n : String}
    {v : HeaderValue} (h : (n, v) ∈ hs) : ∃ x ∈ insertAll m hs, x.1 = n := by
  have hkey : (insertAll m hs).containsKey n = true := by
    rw [containsKey_iff, getAll_insertAll]
    cases hlast : lastValue hs n with
    | some v => simp
    | none =>
      unfold lastValue at hlast
      rw [Option.map_eq_none_iff, List.getLast?_eq_none_iff, List.filter_eq_nil_iff] at hlast
      exact absurd (beq_self_eq_true n) (hlast (n, v) h)
  unfold containsKey at hkey
  rw [List.any_eq_true] at hkey
  obtain ⟨x, hx, hname⟩ := hkey
  exact ⟨x, hx, beq_iff_eq.1 hname⟩

end HeaderMap

/-! ## Names and values -/

/-- What the proofs use of `HeaderName` and `HeaderValue`: a name is its lower case
and holds no white space, a value is its bytes. -/
structure HeaderLaws (H : HeaderApi) : Prop where
  name : ∀ {s n}, H.headerName s = .ok n → n = toAsciiLowercase s
  token : ∀ {s n}, H.headerName s = .ok n → ∀ c ∈ s.toList, isWhitespace c = false
  value : ∀ {s v}, H.headerValue s = .ok v → v = HeaderValue.fromStatic s

/-- A name without white space is not changed by `trim`. -/
theorem lowerTrim_of_token {s : String} (h : ∀ c ∈ s.toList, isWhitespace c = false) :
    lowerTrim s = toAsciiLowercase s := by
  rw [lowerTrim, trim_of_token h, String.ofList_toList]

/-! ## The two loops -/

/-- The entries as header names and values. -/
def asHeaders (entries : List (String × String)) : List (String × HeaderValue) :=
  entries.map fun kv => (toAsciiLowercase kv.1, HeaderValue.fromStatic kv.2)

variable {H : HeaderApi}

/-- Both loops: an entry is skipped, or inserted under its header name. -/
def insertKept (H : HeaderApi) (skip : String → Bool) (nameText valueText : String → String → String) :
    List (String × String) → HeaderMap → Except String HeaderMap
  | [], map => .ok map
  | (name, value) :: rest, map =>
    if skip name then insertKept H skip nameText valueText rest map
    else do
      let headerName ← (H.headerName name).mapError (nameText name)
      let headerValue ← (H.headerValue value).mapError (valueText name)
      insertKept H skip nameText valueText rest (map.insert headerName headerValue)

/-- What a loop makes of the entries it does not skip; of these alone it makes the
same. -/
theorem insertKept_ok (hH : HeaderLaws H) {skip : String → Bool}
    {nameText valueText : String → String → String} {entries : List (String × String)}
    {map out : HeaderMap} (h : insertKept H skip nameText valueText entries map = .ok out) :
    out = map.insertAll (asHeaders (entries.filter fun kv => !skip kv.1)) ∧
      (∀ kv ∈ entries, skip kv.1 = false → ∀ c ∈ kv.1.toList, isWhitespace c = false) ∧
      insertKept H skip nameText valueText (entries.filter fun kv => !skip kv.1) map = .ok out := by
  induction entries generalizing map with
  | nil =>
    cases h
    exact ⟨rfl, fun kv hkv => (by cases hkv), rfl⟩
  | cons kv entries ih =>
    obtain ⟨name, value⟩ := kv
    rw [insertKept] at h
    by_cases hskip : skip name = true
    · rw [if_pos hskip] at h
      obtain ⟨hout, htoken, hloop⟩ := ih h
      rw [List.filter_cons_of_neg (by simp [hskip])]
      refine ⟨hout, ?_, hloop⟩
      intro kv hkv hkept
      rcases List.mem_cons.1 hkv with rfl | hkv
      · exact absurd hskip (by simp [hkept])
      · exact htoken kv hkv hkept
    · rw [if_neg hskip] at h
      obtain ⟨headerName, hname, h⟩ := bind_ok h
      obtain ⟨headerValue, hvalue, h⟩ := bind_ok h
      obtain ⟨hout, htoken, hloop⟩ := ih h
      rw [List.filter_cons_of_pos (by simp [hskip])]
      refine ⟨?_, ?_, ?_⟩
      · rw [hout, hH.name (mapError_ok hname), hH.value (mapError_ok hvalue)]
        rfl
      · intro kv hkv hkept
        rcases List.mem_cons.1 hkv with rfl | hkv
        · exact hH.token (mapError_ok hname)
        · exact htoken kv hkv hkept
      · rw [insertKept, if_neg hskip, mapError_ok hname, mapError_ok hvalue]
        exact hloop

theorem defaultHeadersLoop_eq (isJsonCall : Bool) (entries : List (String × String))
    (map : HeaderMap) :
    defaultHeadersLoop H isJsonCall entries map =
      insertKept H (isProtectedRequestHeader · isJsonCall)
        (fun name e => s!"invalid header name '{name}': {e}")
        (fun name e => s!"invalid header value for '{name}': {e}") entries map := by
  induction entries generalizing map with
  | nil => rfl
  | cons kv entries ih => simp only [defaultHeadersLoop, insertKept, ih]

theorem traceHeadersLoop_eq (entries : List (String × String)) (map : HeaderMap) :
    traceHeadersLoop H entries map =
      insertKept H (fun name => !(["traceparent", "tracestate"].contains (lowerTrim name)))
        (fun name e => s!"invalid trace header '{name}': {e}")
        (fun name e => s!"invalid trace header value for '{name}': {e}") entries map := by
  induction entries generalizing map with
  | nil => rfl
  | cons kv entries ih =>
    simp only [traceHeadersLoop, insertKept, ih, Bool.not_eq_true, Bool.not_eq_true']

/-- What the default headers are made of. -/
theorem defaultHeadersLoop_ok (hH : HeaderLaws H) {isJsonCall : Bool}
    {entries : List (String × String)} {map out : HeaderMap}
    (h : defaultHeadersLoop H isJsonCall entries map = .ok out) :
    out = map.insertAll
        (asHeaders (entries.filter fun kv => !isProtectedRequestHeader kv.1 isJsonCall)) ∧
      ∀ kv ∈ entries, isProtectedRequestHeader kv.1 isJsonCall = false →
        ∀ c ∈ kv.1.toList, isWhitespace c = false := by
  rw [defaultHeadersLoop_eq] at h
  obtain ⟨hout, htoken, -⟩ := insertKept_ok hH h
  exact ⟨hout, htoken⟩

/-- The value of the last entry with the name, in any case. -/
def lastNamed (entries : List (String × String)) (name : String) : Option String :=
  ((entries.filter fun kv => toAsciiLowercase kv.1 == name).getLast?).map Prod.snd

theorem lastNamed_some {entries : List (String × String)} {name value : String}
    (h : lastNamed entries name = some value) :
    ∃ kv ∈ entries, toAsciiLowercase kv.1 = name ∧ kv.2 = value := by
  obtain ⟨kv, hkv, rfl⟩ := Option.map_eq_some_iff.1 h
  obtain ⟨hmem, hname⟩ := List.mem_filter.1 (List.mem_of_getLast? hkv)
  exact ⟨kv, hmem, beq_iff_eq.1 hname, rfl⟩

theorem lastNamed_none_iff {entries : List (String × String)} {name : String} :
    lastNamed entries name = none ↔ ∀ kv ∈ entries, toAsciiLowercase kv.1 ≠ name := by
  unfold lastNamed
  rw [Option.map_eq_none_iff, List.getLast?_eq_none_iff, List.filter_eq_nil_iff]
  simp

/-- Among entries that passed a test of their name, a name is there if it passes. -/
theorem lastNamed_filter (entries : List (String × String)) (p : String → Bool) (name : String) :
    lastNamed (entries.filter fun kv => p (toAsciiLowercase kv.1)) name =
      if p name then lastNamed entries name else none := by
  by_cases h : p name = true
  · rw [if_pos h, lastNamed, lastNamed, List.filter_filter]
    congr 2
    apply List.filter_congr
    intro kv _
    by_cases hkv : toAsciiLowercase kv.1 = name
    · simp [hkv, h]
    · simp [hkv]
  · rw [if_neg h, lastNamed_none_iff]
    intro kv hkv hname
    rw [← hname] at h
    exact h (List.mem_filter.1 hkv).2

/-- An entry whose name no other entry has is the last one with it. -/
theorem lastNamed_of_nodup {entries : List (String × String)}
    (hnodup : (entries.map fun kv => toAsciiLowercase kv.1).Nodup) {kv : String × String}
    (hkv : kv ∈ entries) : lastNamed entries (toAsciiLowercase kv.1) = some kv.2 := by
  cases hlast : lastNamed entries (toAsciiLowercase kv.1) with
  | none => exact absurd rfl (lastNamed_none_iff.1 hlast kv hkv)
  | some value =>
    obtain ⟨kv', hkv', hname, rfl⟩ := lastNamed_some hlast
    rw [List.inj_on_of_nodup_map hnodup hkv' hkv hname]

/-- The one value a filled map has for a name. -/
theorem getAll_asHeaders (entries : List (String × String)) (name : String) :
    (HeaderMap.insertAll [] (asHeaders entries)).getAll name =
      ((lastNamed entries name).map HeaderValue.fromStatic).toList := by
  have hlast : HeaderMap.lastValue (asHeaders entries) name =
      (lastNamed entries name).map HeaderValue.fromStatic := by
    unfold HeaderMap.lastValue asHeaders lastNamed
    rw [List.filter_map, List.getLast?_map, Option.map_map, Option.map_map]
    rfl
  rw [HeaderMap.getAll_insertAll, hlast]
  cases lastNamed entries name with
  | none => rfl
  | some value => rfl

/-- The caller's headers that are passed on. -/
def isTraceName (name : String) : Bool :=
  ["traceparent", "tracestate"].contains (toAsciiLowercase name)

/-- Trimmed or not, a trace name is a trace name, if it holds no white space. -/
theorem isTraceName_iff {name : String} (h : ∀ c ∈ name.toList, isWhitespace c = false) :
    isTraceName name = ["traceparent", "tracestate"].contains (lowerTrim name) := by
  rw [isTraceName, lowerTrim_of_token h]

theorem token_of_isTraceName {name : String} (h : isTraceName name = true) :
    ∀ c ∈ name.toList, isWhitespace c = false := by
  unfold isTraceName at h
  rw [List.contains_eq_mem, decide_eq_true_eq] at h
  have hwords : ∀ word ∈ ["traceparent", "tracestate"], isToken word = true := by decide
  exact token_of_lower rfl (hwords _ h)

/-- What the trace headers are made of; without the entries it skips the loop
returns the same. -/
theorem traceHeadersLoop_ok (hH : HeaderLaws H) {entries : List (String × String)}
    {map out : HeaderMap} (h : traceHeadersLoop H entries map = .ok out) :
    out = map.insertAll (asHeaders (entries.filter fun kv => isTraceName kv.1)) ∧
      traceHeadersLoop H (entries.filter fun kv => isTraceName kv.1) map = .ok out := by
  rw [traceHeadersLoop_eq] at h ⊢
  obtain ⟨hout, htoken, hloop⟩ := insertKept_ok hH h
  have hfilter : (entries.filter fun kv =>
      !(!(["traceparent", "tracestate"].contains (lowerTrim kv.1)))) =
      entries.filter fun kv => isTraceName kv.1 := by
    apply List.filter_congr
    intro kv hkv
    rw [Bool.not_not]
    cases hkept : ["traceparent", "tracestate"].contains (lowerTrim kv.1) with
    | true =>
      rw [isTraceName_iff (htoken kv hkv (by rw [hkept]; rfl)), hkept]
    | false =>
      -- a trace name holds no white space, so it would not be skipped
      symm
      rw [← Bool.not_eq_true]
      intro htrace
      rw [isTraceName_iff (token_of_isTraceName htrace), hkept] at htrace
      cases htrace
  rw [hfilter] at hout hloop
  exact ⟨hout, hloop⟩

/-! ## The plain instance -/

/-- The bytes of an ASCII text. -/
theorem fromStatic_ascii {s : String} (h : ∀ c ∈ s.toList, c.toNat < 128) :
    HeaderValue.fromStatic s = s.toList.map fun c => UInt8.ofNat c.toNat := by
  have hbytes : HeaderValue.fromStatic s = s.toList.flatMap String.utf8EncodeChar := by
    unfold HeaderValue.fromStatic
    rw [String.toUTF8, ← String.utf8Encode_toList, List.utf8Encode, List.toList_data_toByteArray]
  rw [hbytes, List.map_eq_flatMap]
  apply List.flatMap_congr
  intro c hc
  have hchar := Percent.utf8EncodeChar_ascii c.toNat (h c hc)
  rw [Char.ofNat_toNat] at hchar
  exact hchar

theorem plainHeaderApi_laws : HeaderLaws plainHeaderApi where
  name := by
    intro s n h
    simp only [plainHeaderApi] at h
    split at h
    · cases h
      rfl
    · cases h
  token := by
    intro s n h c hc
    simp only [plainHeaderApi] at h
    split at h
    · next hs =>
      have hletter := List.all_eq_true.1 hs.2 c hc
      simp only [Bool.or_eq_true, beq_iff_eq] at hletter
      rcases hletter with (hletter | rfl) | rfl
      · exact isWhitespace_of_alphanum hletter
      · rfl
      · rfl
    · cases h
  value := by
    intro s v h
    simp only [plainHeaderApi] at h
    split at h
    · next hs =>
      cases h
      rw [fromStatic_ascii]
      intro c hc
      have hletter := List.all_eq_true.1 hs c hc
      simp only [Bool.or_eq_true, Bool.and_eq_true, decide_eq_true_eq, beq_iff_eq] at hletter
      rcases hletter with h | rfl
      · omega
      · decide
    · cases h

end NetCore
