import NetCore.ErrorText
import NetCore.Lib.JsonText
import NetCore.Retry

/-!
# A capped body read as JSON

The summary keeps at most `maxResponseBytes` bytes of a body, and a flag says
whether there were more; the JSON reader looks at the kept text alone.  If that is a
JSON text it is taken for the body, whatever was cut off.  So the cut has to be safe
(`SafeCut`): only white space is cut off, or what is kept is no JSON text
(`cappedJson_safeCut`).  In a document other than a number every cut is
(`cappedJson_document`).
-/

namespace NetCore

open Unfold

/-- What the proofs use of `serde_json::from_str`: it reads JSON texts only, and skips
white space after a value. -/
structure JsonLaws (J : JsonApi) : Prop where
  isText : ∀ {s : List Char} {v}, J.fromStr (String.ofList s) = .ok v →
    JsonText.isText s = true
  trailing_whitespace : ∀ {s ws : List Char} {v}, J.fromStr (String.ofList s) = .ok v →
    ws.all JsonText.isWhitespace = true → J.fromStr (String.ofList (s ++ ws)) = .ok v

/-! ## Where a body may be cut -/

/-- The text of the bytes under the cap. -/
def keptText (limit : Nat) (bytes : Bytes) : List Char := Utf8.fromUtf8Lossy (bytes.take limit)

/-- The text of the bytes beyond the cap. -/
def cutText (limit : Nat) (bytes : Bytes) : List Char := Utf8.fromUtf8Lossy (bytes.drop limit)

/-- Only white space is cut off, or what is kept is no JSON text. -/
def SafeCut (limit : Nat) (bytes : Bytes) : Prop :=
  (cutText limit bytes).all JsonText.isWhitespace = true ∨
    JsonText.isText (keptText limit bytes) = false

/-- A cut inside a character leaves no JSON text; any other cuts the text in two. -/
theorem keptText_append {limit : Nat} {bytes : Bytes}
    (h : JsonText.isText (keptText limit bytes) = true) :
    Utf8.fromUtf8Lossy bytes = keptText limit bytes ++ cutText limit bytes := by
  have hcut := Utf8.fromUtf8Lossy_append (bytes.take limit) (bytes.drop limit)
  rw [List.take_append_drop] at hcut
  rcases hcut with heq | ⟨text, htext⟩
  · exact heq
  · unfold keptText at h
    rw [htext] at h
    exact absurd (JsonText.isText_last h) (by decide)

/-- Every cut is safe in a JSON text that is no number. -/
theorem safeCut_of_document {bytes : Bytes} (limit : Nat)
    (hdoc : JsonText.isText (Utf8.fromUtf8Lossy bytes) = true)
    (hnumber : JsonText.startsNumber (Utf8.fromUtf8Lossy bytes) = false) :
    SafeCut limit bytes := by
  cases hkept : JsonText.isText (keptText limit bytes) with
  | false => exact Or.inr hkept
  | true =>
    rw [keptText_append hkept] at hdoc hnumber
    rw [JsonText.startsNumber_append hkept] at hnumber
    exact Or.inl (JsonText.isText_rest hkept hdoc (JsonText.not_cutsNumber hkept hnumber))

variable {J : JsonApi}

/-- What is read of the kept text is read of the complete one, if the cut is safe. -/
theorem fromStr_complete (hJ : JsonLaws J) {limit : Nat} {bytes : Bytes}
    (hsafe : SafeCut limit bytes) {v : Value}
    (hv : J.fromStr (lossyString (bytes.take limit)) = .ok v) :
    (cutText limit bytes).all JsonText.isWhitespace = true ∧
      J.fromStr (lossyString bytes) = .ok v := by
  have hkept : JsonText.isText (keptText limit bytes) = true := hJ.isText hv
  rcases hsafe with hws | hno
  · refine ⟨hws, ?_⟩
    unfold lossyString
    rw [keptText_append hkept]
    exact hJ.trailing_whitespace hv hws
  · rw [hkept] at hno
    cases hno

/-- If the kept and the complete text are both read, and the cap does not fall inside a
number, only white space was cut off. -/
theorem cutText_whitespace (hJ : JsonLaws J) {limit : Nat} {bytes : Bytes} {v v' : Value}
    (hv : J.fromStr (lossyString (bytes.take limit)) = .ok v)
    (hv' : J.fromStr (lossyString bytes) = .ok v')
    (hcut : ¬ JsonText.CutsNumber (keptText limit bytes) (cutText limit bytes)) :
    (cutText limit bytes).all JsonText.isWhitespace = true := by
  have hkept : JsonText.isText (keptText limit bytes) = true := hJ.isText hv
  have hwhole := hJ.isText hv'
  rw [keptText_append hkept] at hwhole
  exact JsonText.isText_rest hkept hwhole hcut

variable {U : UrlApi} (H : HeaderApi) (R : ReqwestApi U.Url) (profile : HttpRequestProfile)

/-- The summaries the two calls make of a response to their requests. -/
def SummaryOf (out : Sent U.Url (Nat → Except String HttpResponseSummary))
    (out' : Sent U.Url (Except String (HttpStreamHandle U.Url))) (resp : Response U.Url)
    (summary : HttpResponseSummary) : Prop :=
  (∃ elapsed, out.resume (.ok resp) elapsed = .ok summary) ∨
    ∃ handle items elapsed, out'.resume (.ok resp) = .ok handle ∧
      Drains (streamStep R) (readBodyStreaming handle.response profile.maxResponseBytes) items ∧
      drainedSummary handle items elapsed = some (.ok summary)

/-! ## The text of a summary -/

/-- Both calls keep the first `maxResponseBytes` bytes and the content type. -/
theorem summaryOf_ok {out : Sent U.Url (Nat → Except String HttpResponseSummary)}
    {out' : Sent U.Url (Except String (HttpStreamHandle U.Url))} {call : CallInputs}
    (hout : executeHttpCall U H R profile call = .ok out)
    (hout' : startHttpCallStreaming U H R profile call = .ok out') (status : UInt16)
    (headers : HeaderMap) (chunks : List Bytes) :
    (∃ summary, SummaryOf R profile out out' ⟨status, headers, chunks.map .ok⟩ summary) ∧
      ∀ summary, SummaryOf R profile out out' ⟨status, headers, chunks.map .ok⟩ summary →
        summary.contentType = contentTypeOf H headers ∧
          summary.body = lossyString (chunks.flatten.take profile.maxResponseBytes) := by
  obtain ⟨-, hresume⟩ := executeHttpCall_sent H R profile hout
  obtain ⟨-, hresume'⟩ := startHttpCallStreaming_sent H R profile hout'
  have hread := readLoop_eq R profile.maxResponseBytes (chunks.map .ok) [] false
  rw [List.take_nil, received_chunks] at hread
  have hbuffered : ∀ elapsed, bufferedAnswer U H R profile (.ok ⟨status, headers, chunks.map .ok⟩)
      elapsed = .ok ⟨status, contentTypeOf H headers, retryAfterMsOf H headers,
        lossyString (chunks.flatten.take profile.maxResponseBytes),
        (capped profile.maxResponseBytes [] false chunks).2, elapsed⟩ := by
    intro elapsed
    unfold bufferedAnswer readBodyWithLimit readResponseWithLimit
    simp only [Except.mapError, bind, Except.bind, hread]
    rfl
  refine ⟨⟨_, Or.inl ⟨0, by rw [hresume, hbuffered]⟩⟩, ?_⟩
  rintro summary (⟨elapsed, hs⟩ | ⟨handle, items, elapsed, hh, hd, hs⟩)
  · rw [hresume, hbuffered] at hs
    cases hs
    exact ⟨rfl, rfl⟩
  · rw [hresume'] at hh
    cases hh
    have hdrain := streamStep_drains R profile.maxResponseBytes (chunks.map .ok) [] false
    rw [List.take_nil] at hdrain
    rw [hd.unique hdrain, drainedSummary, terminal_progress, lastItem, received_chunks] at hs
    cases hs
    exact ⟨rfl, rfl⟩

/-! ## Reading a summary -/

/-- What the reader returns of a summary is the value of the complete body. -/
def ReadsComplete (J : JsonApi) (out : Sent U.Url (Nat → Except String HttpResponseSummary))
    (out' : Sent U.Url (Except String (HttpStreamHandle U.Url))) (status : UInt16)
    (headers : HeaderMap) (chunks : List Bytes) (requireJson : Bool) : Prop :=
  ∀ summary, SummaryOf R profile out out' ⟨status, headers, chunks.map .ok⟩ summary →
    ∀ v, (parseAndValidateJsonResponse J summary requireJson).1 = some v →
      J.fromStr (lossyString chunks.flatten) = .ok v

/-- **When a capped body gives the right value.**  For the summaries of both calls, if the
cut is safe; and only then, where `from_str` reads the kept text if it is JSON at all, and
the cap does not fall inside a number. -/
theorem cappedJson_safeCut (hJ : JsonLaws J)
    {out : Sent U.Url (Nat → Except String HttpResponseSummary)}
    {out' : Sent U.Url (Except String (HttpStreamHandle U.Url))} {call : CallInputs}
    (hout : executeHttpCall U H R profile call = .ok out)
    (hout' : startHttpCallStreaming U H R profile call = .ok out') (status : UInt16)
    (headers : HeaderMap) (hjson : (contentTypeOf H headers).any isJsonContentType = true)
    (chunks : List Bytes) (requireJson : Bool) :
    (SafeCut profile.maxResponseBytes chunks.flatten →
      ReadsComplete R profile J out out' status headers chunks requireJson) ∧
    ((JsonText.isText (keptText profile.maxResponseBytes chunks.flatten) = true →
        ∃ v, J.fromStr (lossyString (chunks.flatten.take profile.maxResponseBytes)) = .ok v) →
      ¬ JsonText.CutsNumber (keptText profile.maxResponseBytes chunks.flatten)
        (cutText profile.maxResponseBytes chunks.flatten) →
      ReadsComplete R profile J out out' status headers chunks requireJson →
      SafeCut profile.maxResponseBytes chunks.flatten) := by
  obtain ⟨⟨summary₀, hsummary₀⟩, hall⟩ := summaryOf_ok H R profile hout hout' status headers chunks
  have hread : ∀ summary, SummaryOf R profile out out' ⟨status, headers, chunks.map .ok⟩ summary →
      ∀ v, (parseAndValidateJsonResponse J summary requireJson).1 = some v ↔
        J.fromStr (lossyString (chunks.flatten.take profile.maxResponseBytes)) = .ok v := by
    intro summary hsummary v
    obtain ⟨hct, hbody⟩ := hall summary hsummary
    rw [parseAndValidate_value J summary requireJson (by rw [hct]; exact hjson), hbody]
  constructor
  · intro hsafe summary hsummary v hv
    exact (fromStr_complete hJ hsafe ((hread summary hsummary v).1 hv)).2
  · intro hreads hcut hcomplete
    cases hkept : JsonText.isText (keptText profile.maxResponseBytes chunks.flatten) with
    | false => exact Or.inr hkept
    | true =>
      obtain ⟨v, hv⟩ := hreads hkept
      have hwhole := hcomplete summary₀ hsummary₀ v ((hread summary₀ hsummary₀ v).2 hv)
      exact Or.inl (cutText_whitespace hJ hv hwhole hcut)

/-- **A cap does no harm to a document.**  Of a body that is a JSON text other than a
number, the reader returns the value or nothing, wherever the cap falls, and the value
only if all but white space was kept. -/
theorem cappedJson_document (hJ : JsonLaws J)
    {out : Sent U.Url (Nat → Except String HttpResponseSummary)}
    {out' : Sent U.Url (Except String (HttpStreamHandle U.Url))} {call : CallInputs}
    (hout : executeHttpCall U H R profile call = .ok out)
    (hout' : startHttpCallStreaming U H R profile call = .ok out') {status : UInt16}
    {headers : HeaderMap} {chunks : List Bytes}
    (hdoc : JsonText.isText (Utf8.fromUtf8Lossy chunks.flatten) = true)
    (hnumber : JsonText.startsNumber (Utf8.fromUtf8Lossy chunks.flatten) = false)
    {summary : HttpResponseSummary}
    (hsummary : SummaryOf R profile out out' ⟨status, headers, chunks.map .ok⟩ summary)
    {requireJson : Bool} {v : Value}
    (hv : (parseAndValidateJsonResponse J summary requireJson).1 = some v) :
    (cutText profile.maxResponseBytes chunks.flatten).all JsonText.isWhitespace = true ∧
      J.fromStr (lossyString chunks.flatten) = .ok v := by
  obtain ⟨-, hbody⟩ :=
    (summaryOf_ok H R profile hout hout' status headers chunks).2 summary hsummary
  have hparsed := parseAndValidate_parsed J summary requireJson hv
  rw [hbody] at hparsed
  exact fromStr_complete hJ (safeCut_of_document profile.maxResponseBytes hdoc hnumber) hparsed

/-! ## A number cut in two -/

/-- The number that digits stand for. -/
def decimalValue (digits : List Char) : Nat :=
  digits.foldl (fun n c => n * 10 + (c.toNat - '0'.toNat)) 0

/-- Digits that fit 64 bits are read as the number they stand for. -/
def ReadsIntegers (J : JsonApi) : Prop :=
  ∀ digits : List Char, digits ≠ [] → digits.all Char.isDigit = true →
    (digits.head? = some '0' → digits.length = 1) → decimalValue digits < 2 ^ 64 →
      J.fromStr (String.ofList digits) =
        .ok (.number (.posInt (UInt64.ofNat (decimalValue digits))))

theorem decimalValue_concat (digits : List Char) (c : Char) :
    decimalValue (digits ++ [c]) = decimalValue digits * 10 + (c.toNat - '0'.toNat) := by
  simp [decimalValue]

/-- Behind a first digit that is no zero, a further digit makes the number greater. -/
theorem decimalValue_lt {digits more : List Char} (hpos : 0 < decimalValue digits)
    (hmore : more ≠ []) : decimalValue digits < decimalValue (digits ++ more) := by
  induction more using List.reverseRecOn with
  | nil => exact absurd rfl hmore
  | append_singleton more c ih =>
    rw [← List.append_assoc, decimalValue_concat]
    by_cases hnil : more = []
    · subst hnil
      rw [List.append_nil]
      omega
    · have := ih hnil
      omega

theorem decimalValue_pos {c : Char} {digits : List Char} (hc : c.isDigit = true)
    (hzero : c ≠ '0') : 0 < decimalValue (c :: digits) := by
  have hfirst : 0 < decimalValue [c] := by
    have hge : '0'.toNat ≤ c.toNat := by
      simp only [Char.isDigit, Bool.and_eq_true, decide_eq_true_eq] at hc
      exact hc.1
    have hne : c.toNat ≠ '0'.toNat := fun h => hzero (Char.toNat_inj.1 h)
    show 0 < 0 * 10 + (c.toNat - '0'.toNat)
    omega
  by_cases hnil : digits = []
  · rw [hnil]
    exact hfirst
  · exact hfirst.trans (decimalValue_lt hfirst hnil)

/-- **An integer is misread wherever it is cut.** -/
theorem cappedJson_integer (hJ : ReadsIntegers J)
    {out : Sent U.Url (Nat → Except String HttpResponseSummary)}
    {out' : Sent U.Url (Except String (HttpStreamHandle U.Url))} {call : CallInputs}
    (hout : executeHttpCall U H R profile call = .ok out)
    (hout' : startHttpCallStreaming U H R profile call = .ok out') (status : UInt16)
    {headers : HeaderMap} (hjson : (contentTypeOf H headers).any isJsonContentType = true)
    {chunks : List Bytes} (requireJson : Bool) {kept more : List Char}
    (hbody : chunks.flatten = Utf8.encode (kept ++ more))
    (hdigits : (kept ++ more).all Char.isDigit = true) (hzero : kept.head? ≠ some '0')
    (hfits : decimalValue (kept ++ more) < 2 ^ 64) (hkept : kept ≠ []) (hmore : more ≠ [])
    (hcap : profile.maxResponseBytes = kept.length) :
    ¬ ReadsComplete R profile J out out' status headers chunks requireJson := by
  obtain ⟨⟨summary, hsummary⟩, hall⟩ := summaryOf_ok H R profile hout hout' status headers chunks
  obtain ⟨hct, htext⟩ := hall summary hsummary
  rw [List.all_append, Bool.and_eq_true] at hdigits
  have htake : chunks.flatten.take profile.maxResponseBytes = Utf8.encode kept := by
    have hlength : (Utf8.encode kept).length = kept.length :=
      Utf8.length_encode_ascii fun c hc => JsonText.isDigit_ascii (List.all_eq_true.1 hdigits.1 c hc)
    rw [hbody, hcap, Utf8.encode_append, ← hlength, List.take_left']
    rfl
  obtain ⟨c, rest, rfl⟩ := List.exists_cons_of_ne_nil hkept
  have hpos : 0 < decimalValue (c :: rest) := by
    rw [List.all_cons, Bool.and_eq_true] at hdigits
    exact decimalValue_pos hdigits.1.1 fun hc => hzero (by rw [hc]; rfl)
  have hlt := decimalValue_lt hpos hmore
  have hread : J.fromStr summary.body =
      .ok (.number (.posInt (UInt64.ofNat (decimalValue (c :: rest))))) := by
    rw [htext, htake, lossyString, Utf8.fromUtf8Lossy_encode]
    exact hJ _ hkept hdigits.1 (fun h => absurd h hzero) (hlt.trans hfits)
  have hwhole : J.fromStr (lossyString chunks.flatten) =
      .ok (.number (.posInt (UInt64.ofNat (decimalValue (c :: rest ++ more))))) := by
    rw [hbody, lossyString, Utf8.fromUtf8Lossy_encode]
    refine hJ _ (by simp) ?_ (fun h => absurd h hzero) hfits
    rw [List.all_append, hdigits.1, hdigits.2]
    rfl
  intro h
  have hsame := h summary hsummary _
    ((parseAndValidate_value J summary requireJson (by rw [hct]; exact hjson) _).2 hread)
  rw [hwhole, Except.ok.injEq, Value.number.injEq, Number.posInt.injEq] at hsame
  have hnat := congrArg UInt64.toNat hsame
  rw [UInt64.toNat_ofNat_of_lt' hfits, UInt64.toNat_ofNat_of_lt' (hlt.trans hfits)] at hnat
  omega

/-- Digits or `null`, then white space: enough of JSON to cut a number in two. -/
def plainJsonApi : JsonApi where
  fromStr s :=
    let text := (s.toList.reverse.dropWhile JsonText.isWhitespace).reverse
    if text = ['n', 'u', 'l', 'l'] then .ok .null
    else if text ≠ [] ∧ text.all Char.isDigit ∧ (text.head? = some '0' → text.length = 1) ∧
        decimalValue text < 2 ^ 64 then
      .ok (.number (.posInt (UInt64.ofNat (decimalValue text))))
    else .error "expected value at line 1 column 1"

theorem plainJsonApi_laws : JsonLaws plainJsonApi where
  isText := by
    intro s v h
    have hsplit : s = (s.reverse.dropWhile JsonText.isWhitespace).reverse ++
        (s.reverse.takeWhile JsonText.isWhitespace).reverse := by
      rw [← List.reverse_append, List.takeWhile_append_dropWhile, List.reverse_reverse]
    have hws : (s.reverse.takeWhile JsonText.isWhitespace).reverse.all JsonText.isWhitespace =
        true := by
      rw [List.all_reverse]
      exact List.all_takeWhile
    rw [hsplit]
    apply JsonText.isText_append_whitespace _ hws
    unfold plainJsonApi at h
    simp only [String.toList_ofList] at h
    split_ifs at h with hnull hdigits
    · rw [hnull]
      decide
    · exact JsonText.isText_digits hdigits.1 hdigits.2.1 hdigits.2.2.1
  trailing_whitespace := by
    intro s ws v h hws
    have htrim : ((s ++ ws).reverse.dropWhile JsonText.isWhitespace) =
        s.reverse.dropWhile JsonText.isWhitespace := by
      rw [List.reverse_append]
      apply List.dropWhile_append_of_pos
      intro c hc
      exact List.all_eq_true.1 hws c (List.mem_reverse.1 hc)
    unfold plainJsonApi at h ⊢
    simp only [String.toList_ofList, htrim] at h ⊢
    exact h

def jsonHeaders : HeaderMap := [("content-type", HeaderValue.fromStatic "application/json")]

/-- A call with the given cap, answered with these headers and chunks. -/
theorem probeCall_summary (limit : Nat) (headers : HeaderMap) (chunks : List Bytes) :
    ∃ out out' summary,
      executeHttpCall plainUrlApi plainHeaderApi plainReqwestApi
          { probeProfile with maxResponseBytes := limit } (probeCall "https://h.test/hook") =
        .ok out ∧
      startHttpCallStreaming plainUrlApi plainHeaderApi plainReqwestApi
          { probeProfile with maxResponseBytes := limit } (probeCall "https://h.test/hook") =
        .ok out' ∧
      SummaryOf plainReqwestApi { probeProfile with maxResponseBytes := limit } out out'
        ⟨200, headers, chunks.map .ok⟩ summary ∧
      summary.contentType = contentTypeOf plainHeaderApi headers ∧
      summary.body = lossyString (chunks.flatten.take limit) := by
  obtain ⟨out, hout⟩ : ∃ out, executeHttpCall plainUrlApi plainHeaderApi plainReqwestApi
      { probeProfile with maxResponseBytes := limit } (probeCall "https://h.test/hook") = .ok out :=
    ⟨_, rfl⟩
  obtain ⟨out', hout'⟩ : ∃ out', startHttpCallStreaming plainUrlApi plainHeaderApi plainReqwestApi
      { probeProfile with maxResponseBytes := limit } (probeCall "https://h.test/hook") = .ok out' :=
    ⟨_, rfl⟩
  obtain ⟨⟨summary, hsummary⟩, hall⟩ := summaryOf_ok (U := plainUrlApi) plainHeaderApi
    plainReqwestApi { probeProfile with maxResponseBytes := limit } hout hout' 200 headers chunks
  obtain ⟨hct, hbody⟩ := hall summary hsummary
  exact ⟨out, out', summary, hout, hout', hsummary, hct, hbody⟩

theorem jsonHeaders_json :
    (contentTypeOf plainHeaderApi jsonHeaders).any isJsonContentType = true := by decide

/-- The body is `12`, and one byte of it is kept. -/
theorem cappedJson_cutNumber :
    ∃ out out',
      executeHttpCall plainUrlApi plainHeaderApi plainReqwestApi
          { probeProfile with maxResponseBytes := 1 } (probeCall "https://h.test/hook") = .ok out ∧
        startHttpCallStreaming plainUrlApi plainHeaderApi plainReqwestApi
          { probeProfile with maxResponseBytes := 1 } (probeCall "https://h.test/hook") = .ok out' ∧
        ¬ ReadsComplete plainReqwestApi { probeProfile with maxResponseBytes := 1 } plainJsonApi
          out out' 200 jsonHeaders [[0x31, 0x32]] true := by
  refine ⟨_, _, rfl, rfl, fun h => ?_⟩
  have hcut := h _ (Or.inl ⟨0, rfl⟩) (.number (.posInt 1)) rfl
  have hwhole : plainJsonApi.fromStr (lossyString [[0x31, 0x32]].flatten) =
      .ok (.number (.posInt 12)) := rfl
  rw [hwhole] at hcut
  exact absurd (Value.number.inj (Except.ok.inj hcut)) (by decide)

/-- `12` and a line feed: two bytes are enough. -/
theorem cappedJson_safeCut_lineFeed :
    ∃ out out' summary,
      executeHttpCall plainUrlApi plainHeaderApi plainReqwestApi
          { probeProfile with maxResponseBytes := 2 } (probeCall "https://h.test/hook") = .ok out ∧
        startHttpCallStreaming plainUrlApi plainHeaderApi plainReqwestApi
          { probeProfile with maxResponseBytes := 2 } (probeCall "https://h.test/hook") = .ok out' ∧
        SummaryOf plainReqwestApi { probeProfile with maxResponseBytes := 2 } out out'
          ⟨200, jsonHeaders, [[0x31], [0x32, 0x0A]].map .ok⟩ summary ∧
        (parseAndValidateJsonResponse plainJsonApi summary true).1 =
          some (.number (.posInt 12)) ∧
        ReadsComplete plainReqwestApi { probeProfile with maxResponseBytes := 2 } plainJsonApi
          out out' 200 jsonHeaders [[0x31], [0x32, 0x0A]] true := by
  obtain ⟨out, out', summary, hout, hout', hsummary, hct, hbody⟩ :=
    probeCall_summary 2 jsonHeaders [[0x31], [0x32, 0x0A]]
  have hsafe : SafeCut 2 [[0x31], [0x32, 0x0A]].flatten := Or.inl (by decide)
  have hread : (parseAndValidateJsonResponse plainJsonApi summary true).1 =
      some (.number (.posInt 12)) := by
    rw [parseAndValidate_value plainJsonApi summary true (by rw [hct]; exact jsonHeaders_json),
      hbody]
    rfl
  exact ⟨out, out', summary, hout, hout', hsummary, hread, (cappedJson_safeCut (U := plainUrlApi)
    plainHeaderApi plainReqwestApi { probeProfile with maxResponseBytes := 2 } plainJsonApi_laws
    hout hout' 200 jsonHeaders jsonHeaders_json [[0x31], [0x32, 0x0A]] true).1 hsafe⟩

/-- `null`, a blank and a line feed: the blank is kept, the line feed is not. -/
theorem cappedJson_document_null :
    ∃ out out' summary,
      executeHttpCall plainUrlApi plainHeaderApi plainReqwestApi
          { probeProfile with maxResponseBytes := 5 } (probeCall "https://h.test/hook") = .ok out ∧
        SummaryOf plainReqwestApi { probeProfile with maxResponseBytes := 5 } out out'
          ⟨200, jsonHeaders, [[0x6E, 0x75], [0x6C, 0x6C, 0x20, 0x0A]].map .ok⟩ summary ∧
        (parseAndValidateJsonResponse plainJsonApi summary true).1 = some .null ∧
        plainJsonApi.fromStr (lossyString [0x6E, 0x75, 0x6C, 0x6C, 0x20, 0x0A]) = .ok .null := by
  obtain ⟨out, out', summary, hout, hout', hsummary, hct, hbody⟩ :=
    probeCall_summary 5 jsonHeaders [[0x6E, 0x75], [0x6C, 0x6C, 0x20, 0x0A]]
  have hread : (parseAndValidateJsonResponse plainJsonApi summary true).1 = some .null := by
    rw [parseAndValidate_value plainJsonApi summary true (by rw [hct]; exact jsonHeaders_json),
      hbody]
    rfl
  exact ⟨out, out', summary, hout, hsummary, hread, (cappedJson_document (U := plainUrlApi)
    plainHeaderApi plainReqwestApi { probeProfile with maxResponseBytes := 5 } plainJsonApi_laws
    hout hout' (by decide) (by decide) hsummary hread).2⟩

end NetCore
