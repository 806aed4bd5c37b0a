import NetCore.CappedJson
import NetCore.CappedRead

/-!
# The body as text

A summary carries the body as a string: the bytes up to the cap, decoded with
U+FFFD for what is not UTF-8.  A body that is a text's UTF-8 comes back as the
text, up to the cap, however the transport cut it into chunks
(`body_text_roundtrip`).  Of any other body nothing is lost without a mark, and
the string takes three times the cap at most (`body_text_faithful`).
-/

namespace NetCore

open Unfold

variable {U : UrlApi} {H : HeaderApi} {R : ReqwestApi U.Url} {profile : HttpRequestProfile}

theorem received_ok {ε : Type} {stream : List (Except ε Bytes)} {chunks : List Bytes}
    (h : received stream = .ok chunks) : stream = chunks.map .ok := by
  induction stream generalizing chunks with
  | nil =>
    cases h
    rfl
  | cons item stream ih =>
    cases item with
    | error e => cases h
    | ok chunk =>
      rw [received] at h
      obtain ⟨rest, hrest, rfl⟩ := map_ok h
      rw [ih hrest]
      rfl

/-- What a summary says of the body of a response. -/
structure KeptBody (limit : Nat) (resp : Response U.Url) (chunks : List Bytes)
    (summary : HttpResponseSummary) : Prop where
  received : resp.body = chunks.map .ok
  body : summary.body = lossyString (chunks.flatten.take limit)
  flag : summary.bodyTruncated = overran limit 0 chunks

variable {out : Sent U.Url (Nat → Except String HttpResponseSummary)}
  {out' : Sent U.Url (Except String (HttpStreamHandle U.Url))} {call : CallInputs}
  {resp : Response U.Url} {summary : HttpResponseSummary}

/-- **Either path** returns only after it has read the body to its end, with the bytes under
the cap as text. -/
theorem summaryOf_kept (hout : executeHttpCall U H R profile call = .ok out)
    (hout' : startHttpCallStreaming U H R profile call = .ok out')
    (h : SummaryOf R profile out out' resp summary) :
    ∃ chunks, KeptBody profile.maxResponseBytes resp chunks summary := by
  obtain ⟨-, hresume⟩ := executeHttpCall_sent H R profile hout
  obtain ⟨-, hresume'⟩ := startHttpCallStreaming_sent H R profile hout'
  rcases h with ⟨elapsed, hs⟩ | ⟨handle, items, elapsed, hhandle, hdrain, hs⟩
  · rw [hresume] at hs
    have hread := readLoop_eq R profile.maxResponseBytes resp.body [] false
    rw [List.take_nil] at hread
    unfold bufferedAnswer readBodyWithLimit readResponseWithLimit at hs
    simp only [Except.mapError, bind, Except.bind, hread] at hs
    cases hrec : received resp.body with
    | error e =>
      rw [hrec] at hs
      cases hs
    | ok chunks =>
      rw [hrec] at hs
      cases hs
      exact ⟨chunks, received_ok hrec, rfl, rfl⟩
  · rw [hresume'] at hhandle
    cases hhandle
    have hitems := streamStep_drains R profile.maxResponseBytes resp.body [] false
    rw [List.take_nil] at hitems
    rw [hdrain.unique hitems, drainedSummary, terminal_progress, lastItem] at hs
    cases hrec : received resp.body with
    | error e =>
      rw [hrec] at hs
      cases hs
    | ok chunks =>
      rw [hrec] at hs
      cases hs
      exact ⟨chunks, received_ok hrec, rfl, rfl⟩

/-- Without the flag, all bytes of the body were kept. -/
theorem KeptBody.complete {limit : Nat} {chunks : List Bytes}
    (h : KeptBody limit resp chunks summary) (hflag : summary.bodyTruncated = false) :
    chunks.flatten.length ≤ limit := by
  have hover := overran_iff limit 0 chunks (Nat.zero_le limit)
  rw [← h.flag, hflag, Nat.zero_add] at hover
  apply Nat.le_of_not_lt
  intro hlt
  exact absurd (hover.2 (Or.inl hlt)) Bool.false_ne_true

theorem lossyString_toList (bytes : Bytes) :
    (lossyString bytes).toList = Utf8.fromUtf8Lossy bytes :=
  String.toList_ofList

/-- **A text comes back**: as it was if it fits under the cap, and the summary says so
itself by its flag; else the characters that fit, with a U+FFFD if the cap falls inside one. -/
theorem body_text_roundtrip (hout : executeHttpCall U H R profile call = .ok out)
    (hout' : startHttpCallStreaming U H R profile call = .ok out')
    (h : SummaryOf R profile out out' resp summary) {text : List Char} {chunks : List Bytes}
    (hbody : resp.body = chunks.map .ok) (htext : chunks.flatten = Utf8.encode text) :
    (summary.body.toList = Utf8.fitting profile.maxResponseBytes text ++
      if Utf8.CutsInside profile.maxResponseBytes text then [Utf8.replacement] else []) ∧
    ((Utf8.encode text).length ≤ profile.maxResponseBytes → summary.body.toList = text) ∧
    (summary.bodyTruncated = false → summary.body.toList = text) := by
  obtain ⟨chunks', hkept⟩ := summaryOf_kept hout hout' h
  obtain rfl : chunks = chunks' :=
    List.map_injective_iff.2 (fun _ _ => Except.ok.inj) (hbody.symm.trans hkept.received)
  have hcut : summary.body.toList = Utf8.fromUtf8Lossy
      ((Utf8.encode text).take profile.maxResponseBytes) := by
    rw [hkept.body, lossyString_toList, htext]
  have hfits : (Utf8.encode text).length ≤ profile.maxResponseBytes →
      summary.body.toList = text := by
    intro hle
    rw [hcut, List.take_of_length_le hle, Utf8.fromUtf8Lossy_encode]
  refine ⟨hcut.trans (Utf8.fromUtf8Lossy_take _ _), hfits, fun hflag => hfits ?_⟩
  rw [← htext]
  exact hkept.complete hflag

/-- **Nothing is lost without a mark.** -/
theorem body_text_faithful (hout : executeHttpCall U H R profile call = .ok out)
    (hout' : startHttpCallStreaming U H R profile call = .ok out')
    (h : SummaryOf R profile out out' resp summary) :
    (Utf8.encode summary.body.toList).length ≤ 3 * profile.maxResponseBytes ∧
    ∃ chunks : List Bytes, resp.body = chunks.map .ok ∧
      (Utf8.replacement ∉ summary.body.toList → Utf8.encode summary.body.toList =
        chunks.flatten.take profile.maxResponseBytes) ∧
      (Utf8.replacement ∉ summary.body.toList → summary.bodyTruncated = false →
        Utf8.encode summary.body.toList = chunks.flatten) := by
  obtain ⟨chunks, hkept⟩ := summaryOf_kept hout hout' h
  have hbody : summary.body.toList =
      Utf8.fromUtf8Lossy (chunks.flatten.take profile.maxResponseBytes) := by
    rw [hkept.body, lossyString_toList]
  have hbytes : Utf8.replacement ∉ summary.body.toList → Utf8.encode summary.body.toList =
      chunks.flatten.take profile.maxResponseBytes := by
    intro hclean
    rw [hbody] at hclean ⊢
    exact Utf8.encode_fromUtf8Lossy hclean
  refine ⟨?_, chunks, hkept.received, hbytes, fun hclean hflag => ?_⟩
  · have hsize := Utf8.fromUtf8Lossy_size (chunks.flatten.take profile.maxResponseBytes)
    rw [List.length_take] at hsize
    rw [hbody]
    omega
  · rw [hbytes hclean, List.take_of_length_le (hkept.complete hflag)]

/-! ## A body cut inside a character -/

/-- `hé` in two chunks. -/
def cutBody : Response PlainUrl := ⟨200, [], [[0x68, 0xC3], [0xA9]].map .ok⟩

/-- Two of its bytes are kept. -/
theorem body_text_roundtrip_cutBody :
    ∃ out out' summary,
      SummaryOf (U := plainUrlApi) plainReqwestApi { probeProfile with maxResponseBytes := 2 } out
        out' cutBody summary ∧ summary.body.toList = ['h', Utf8.replacement] := by
  obtain ⟨out, out', summary, hout, hout', hsummary, -, -⟩ :=
    probeCall_summary 2 [] [[0x68, 0xC3], [0xA9]]
  have htext : ([[0x68, 0xC3], [0xA9]] : List Bytes).flatten = Utf8.encode ['h', 'é'] := by decide
  exact ⟨out, out', summary, hsummary, (body_text_roundtrip (U := plainUrlApi) hout
    hout' hsummary rfl htext).1⟩

/-- Two of its bytes are kept, or all three: then nothing is marked. -/
theorem body_text_faithful_cutBody :
    (∃ out out' summary,
      SummaryOf (U := plainUrlApi) plainReqwestApi { probeProfile with maxResponseBytes := 2 } out
        out' cutBody summary ∧ (Utf8.encode summary.body.toList).length ≤ 6) ∧
    ∃ out out' summary,
      SummaryOf (U := plainUrlApi) plainReqwestApi { probeProfile with maxResponseBytes := 3 } out
        out' cutBody summary ∧ Utf8.replacement ∉ summary.body.toList ∧
      Utf8.encode summary.body.toList = [0x68, 0xC3, 0xA9] := by
  constructor
  · obtain ⟨out, out', summary, hout, hout', hsummary, -, -⟩ :=
      probeCall_summary 2 [] [[0x68, 0xC3], [0xA9]]
    exact ⟨out, out', summary, hsummary, (body_text_faithful (U := plainUrlApi) hout
      hout' hsummary).1⟩
  · obtain ⟨out, out', summary, hout, hout', hsummary, -, hbody⟩ :=
      probeCall_summary 3 [] [[0x68, 0xC3], [0xA9]]
    have hclean : Utf8.replacement ∉ summary.body.toList := by
      rw [hbody, lossyString_toList]
      decide
    obtain ⟨-, chunks, hchunks, hkept, -⟩ := body_text_faithful (U := plainUrlApi) hout hout' hsummary
    have hreceived : chunks = [[0x68, 0xC3], [0xA9]] :=
      (List.map_injective_iff.2 (fun _ _ => Except.ok.inj) hchunks).symm
    refine ⟨out, out', summary, hsummary, hclean, ?_⟩
    rw [hkept hclean, hreceived]
    rfl

end NetCore
