import NetCore.CappedJson

/-!
# Coherent retry guidance

A `DownstreamHttpError` says in eight fields whether and how to retry.
`Coherent` is what a caller may rely on: the fields agree with `retryable` and
`retryAfterMs`, none is a placeholder, and only a GET is retried automatically.
`withRetryGuidance` makes every draft coherent whose class is right
(`withRetryGuidance_coherent`).  Both drafts of the source are such, and so are the JSON
errors, which it would leave as they are written (`reported_coherent`).
-/

namespace NetCore

/-- The texts of the fields. -/
def DownstreamHttpError.texts (e : DownstreamHttpError) : List String :=
  [e.kind, e.code, e.message, e.retryClass, e.idempotencyHint, e.callerRetryDecision,
    e.retrySafety, e.backoffStrategy, e.suggestedAction] ++
    -- what an object quotes of the response is no field of the error
    match e.details with
    | .string text => [text]
    | _ => []

def isPending (text : String) : Bool := "pending_".toList.isPrefixOf text.toList

/-- The decision or the safety class leaves the retry to a machine. -/
def Automates (e : DownstreamHttpError) : Prop :=
  "automatic_".toList.isPrefixOf e.callerRetryDecision.toList = true ∨
    e.retrySafety = "safe_for_automatic_retry"

/-- What a caller may rely on in an error of a call with the method. -/
structure Coherent (method : HttpBackendMethod) (e : DownstreamHttpError) : Prop where
  settled : ∀ text ∈ e.texts, isPending text = false
  refused : e.retryable = false ↔
    e.retryClass = "do_not_retry" ∧ e.callerRetryDecision = "do_not_retry" ∧
      e.retrySafety = "do_not_retry" ∧ e.backoffStrategy = "no_retry" ∧ e.minimumBackoffMs = none
  delayed : e.retryable = true → ∀ ms, e.retryAfterMs = some ms →
    e.retryClass = "after_delay" ∧ e.backoffStrategy = "respect_retry_after" ∧
      "after_delay".toList.isSuffixOf e.callerRetryDecision.toList = true ∧
      e.minimumBackoffMs = some ms
  backedOff : e.retryable = true → e.retryAfterMs = none →
    e.retryClass = "with_backoff" ∧ e.backoffStrategy = "exponential_backoff" ∧
      "with_backoff".toList.isSuffixOf e.callerRetryDecision.toList = true ∧
      e.minimumBackoffMs = some defaultBackoffBaseMs
  automatic : Automates e → method = .get

variable {e : DownstreamHttpError} {method : HttpBackendMethod}

/-- Whether a written text is a placeholder shows in its characters. -/
theorem isPending_ofList {cs : List Char} (h : "pending_".toList.isPrefixOf cs = false) :
    isPending (String.ofList cs) = false := by
  have hcs : (String.ofList cs).toList = cs := String.toList_ofList
  rw [isPending, hcs, h]

/-- A text is no placeholder if it starts otherwise. -/
theorem isPending_append {s t : String} {c : Char} {rest : List Char} (hs : s.toList = c :: rest)
    (hc : c ≠ 'p') : isPending (s ++ t) = false := by
  have hmark : "pending_".toList = 'p' :: "ending_".toList := by decide
  unfold isPending
  rw [String.toList_append, hs, hmark, List.cons_append, List.isPrefixOf, Bool.and_eq_false_iff]
  exact Or.inl (beq_eq_false_iff_ne.2 hc.symm)

/-- Four written texts that are no placeholders. -/
theorem settled_ofList {a b c d : List Char}
    (h : ∀ cs ∈ [a, b, c, d], "pending_".toList.isPrefixOf cs = false) :
    ∀ text ∈ [String.ofList a, String.ofList b, String.ofList c, String.ofList d],
      isPending text = false := by
  intro text htext
  obtain ⟨cs, hcs, rfl⟩ := List.mem_map.1
    (show text ∈ [a, b, c, d].map String.ofList from htext)
  exact isPending_ofList (h cs hcs)

/-- An error that is not to be retried, in all its fields. -/
theorem coherent_refused (hsettled : ∀ text ∈ e.texts, isPending text = false)
    (hretry : e.retryable = false)
    (h : e.retryClass = "do_not_retry" ∧ e.callerRetryDecision = "do_not_retry" ∧
      e.retrySafety = "do_not_retry" ∧ e.backoffStrategy = "no_retry" ∧
      e.minimumBackoffMs = none) : Coherent method e where
  settled := hsettled
  refused := ⟨fun _ => h, fun _ => hretry⟩
  delayed hyes := by rw [hretry] at hyes; cases hyes
  backedOff hyes := by rw [hretry] at hyes; cases hyes
  automatic hauto := by
    obtain ⟨-, hdecision, hsafety, -, -⟩ := h
    rw [Automates, hdecision, hsafety] at hauto
    exact absurd hauto (by decide)

/-- The class a draft has, if it agrees with the rest. -/
def retryClassOf (retryable : Bool) (retryAfterMs : Option Nat) : String :=
  if retryable then if retryAfterMs.isSome then "after_delay" else "with_backoff"
  else "do_not_retry"

/-- An error to be retried: after the delay the upstream asks for, or the default one. -/
theorem coherent_retry (hsettled : ∀ text ∈ e.texts, isPending text = false)
    (hretry : e.retryable = true) (hclass : e.retryClass = retryClassOf true e.retryAfterMs)
    (hstrategy : e.backoffStrategy =
      if e.retryAfterMs.isSome then "respect_retry_after" else "exponential_backoff")
    (hdecision : (if e.retryAfterMs.isSome then "after_delay" else "with_backoff").toList.isSuffixOf
      e.callerRetryDecision.toList = true)
    (hminimum : e.minimumBackoffMs = some (e.retryAfterMs.getD defaultBackoffBaseMs))
    (hauto : Automates e → method = .get) : Coherent method e where
  settled := hsettled
  refused := by
    constructor
    · intro hno
      rw [hretry] at hno
      cases hno
    · -- the minimum backoff of a retry is present
      rintro ⟨-, -, -, -, hnone⟩
      rw [hminimum] at hnone
      cases hnone
  delayed _ ms hms := by
    rw [hms] at hclass hstrategy hdecision hminimum
    exact ⟨hclass, hstrategy, hdecision, hminimum⟩
  backedOff _ hms := by
    rw [hms] at hclass hstrategy hdecision hminimum
    exact ⟨hclass, hstrategy, hdecision, hminimum⟩
  automatic := hauto

/-! ## Drafts -/

/-- What `withRetryGuidance` builds on: the fields it does not set. -/
structure Draft (e : DownstreamHttpError) : Prop where
  settled : ∀ text ∈ [e.kind, e.code, e.message, e.suggestedAction], isPending text = false
  details : ∃ fields, e.details = .object fields
  classified : e.retryClass = retryClassOf e.retryable e.retryAfterMs

theorem retryClassOf_settled (retryable : Bool) (retryAfterMs : Option Nat) :
    isPending (retryClassOf retryable retryAfterMs) = false := by
  have hclasses : ∀ text ∈ ["do_not_retry", "with_backoff", "after_delay"],
      isPending text = false := by decide
  apply hclasses
  unfold retryClassOf
  cases retryable with
  | false => simp
  | true =>
    cases retryAfterMs with
    | none => simp
    | some ms => simp

/-- A completed draft holds no placeholder if the fields that are set hold none. -/
theorem Draft.completed_settled (hd : Draft e) {hint decision safety strategy action : String}
    {minimum : Option Nat}
    (hset : ∀ text ∈ [hint, decision, safety, strategy], isPending text = false)
    (haction : isPending action = false) :
    ∀ text ∈ DownstreamHttpError.texts { e with
        idempotencyHint := hint, callerRetryDecision := decision, retrySafety := safety,
        backoffStrategy := strategy, minimumBackoffMs := minimum, suggestedAction := action },
      isPending text = false := by
  obtain ⟨hsettled, ⟨fields, hfields⟩, hclass⟩ := hd
  have hclassText := retryClassOf_settled e.retryable e.retryAfterMs
  rw [← hclass] at hclassText
  simp only [List.forall_mem_cons] at hsettled hset
  obtain ⟨hkind, hcode, hmessage, -, -⟩ := hsettled
  obtain ⟨hhint, hdecision, hsafety, hstrategy, -⟩ := hset
  unfold DownstreamHttpError.texts
  rw [hfields, List.append_nil]
  simp only [List.forall_mem_cons, List.not_mem_nil, false_implies, implies_true, and_true]
  exact ⟨hkind, hcode, hmessage, hclassText, hhint, hdecision, hsafety, hstrategy, haction⟩

theorem withRetryGuidance_refused (hretry : e.retryable = false) (context : RetrySafetyContext) :
    ∃ hint, withRetryGuidance e context = { e with
        idempotencyHint := hint, callerRetryDecision := "do_not_retry",
        retrySafety := "do_not_retry", backoffStrategy := "no_retry", minimumBackoffMs := none } ∧
      ∀ text ∈ [hint, "do_not_retry", "do_not_retry", "no_retry"], isPending text = false := by
  cases context with
  | readOnlyProbe =>
    exact ⟨"idempotent_read_only", by simp [withRetryGuidance, hretry], settled_ofList (by decide)⟩
  | potentiallyNonIdempotentJsonCall =>
    exact ⟨"potentially_non_idempotent", by simp [withRetryGuidance, hretry],
      settled_ofList (by decide)⟩

/-- How a draft that may be retried is completed: the strategy and the delay follow
`retryAfterMs`, so does the end of the decision, and only a read-only call is left to a
machine. -/
theorem withRetryGuidance_retry (hretry : e.retryable = true) (context : RetrySafetyContext) :
    ∃ hint decision safety strategy action, withRetryGuidance e context = { e with
        idempotencyHint := hint, callerRetryDecision := decision, retrySafety := safety,
        backoffStrategy := strategy,
        minimumBackoffMs := some (e.retryAfterMs.getD defaultBackoffBaseMs),
        suggestedAction := action } ∧
      (∀ text ∈ [hint, decision, safety, strategy], isPending text = false) ∧
      (action = e.suggestedAction ∨ isPending action = false) ∧
      strategy = (if e.retryAfterMs.isSome then "respect_retry_after" else "exponential_backoff") ∧
      (if e.retryAfterMs.isSome then "after_delay" else "with_backoff").toList.isSuffixOf
        decision.toList = true ∧
      (context = .readOnlyProbe ∨ "automatic_".toList.isPrefixOf decision.toList = false ∧
        safety ≠ "safe_for_automatic_retry") := by
  cases context with
  | readOnlyProbe =>
    cases hms : e.retryAfterMs with
    | none =>
      refine ⟨"idempotent_read_only", "automatic_retry_with_backoff", "safe_for_automatic_retry",
        "exponential_backoff", e.suggestedAction, ?_, settled_ofList (by decide), Or.inl rfl, rfl,
        by decide, Or.inl rfl⟩
      simp [withRetryGuidance, hretry, hms]
    | some ms =>
      refine ⟨"idempotent_read_only", "automatic_retry_after_delay", "safe_for_automatic_retry",
        "respect_retry_after", e.suggestedAction, ?_, settled_ofList (by decide), Or.inl rfl, rfl,
        ?_, Or.inl rfl⟩
      · simp [withRetryGuidance, hretry, hms]
      · show "after_delay".toList.isSuffixOf _ = true
        decide
  | potentiallyNonIdempotentJsonCall =>
    cases hms : e.retryAfterMs with
    | none =>
      refine ⟨"potentially_non_idempotent", "confirm_idempotency_then_retry_with_backoff",
        "review_idempotency_before_retry", "exponential_backoff",
        "review_idempotency_then_retry_with_backoff", ?_, settled_ofList (by decide),
        Or.inr (isPending_ofList (by decide)), rfl, by decide, Or.inr (by decide)⟩
      simp [withRetryGuidance, hretry, hms]
    | some ms =>
      refine ⟨"potentially_non_idempotent", "confirm_idempotency_then_retry_after_delay",
        "review_idempotency_before_retry", "respect_retry_after",
        "review_idempotency_then_retry_after_delay", ?_, settled_ofList (by decide),
        Or.inr (isPending_ofList (by decide)), rfl, ?_, Or.inr (by decide)⟩
      · simp [withRetryGuidance, hretry, hms]
      · show "after_delay".toList.isSuffixOf _ = true
        decide

/-- **Every draft becomes coherent.** -/
theorem withRetryGuidance_coherent (hd : Draft e) (method : HttpBackendMethod) :
    Coherent method (withRetryGuidance e (HttpCallMode.forMethod method).retrySafetyContext) := by
  have haction : isPending e.suggestedAction = false := hd.settled _ (by simp)
  have hclass := hd.classified
  cases hretry : e.retryable with
  | false =>
    obtain ⟨hint, heq, hset⟩ :=
      withRetryGuidance_refused hretry (HttpCallMode.forMethod method).retrySafetyContext
    rw [heq]
    rw [hretry] at hclass
    exact coherent_refused (hd.completed_settled hset haction) hretry ⟨hclass, rfl, rfl, rfl, rfl⟩
  | true =>
    obtain ⟨hint, decision, safety, strategy, action, heq, hset, hactions, hstrategy, hsuffix,
      hauto⟩ := withRetryGuidance_retry hretry (HttpCallMode.forMethod method).retrySafetyContext
    rw [heq]
    rw [hretry] at hclass
    have hsettled : isPending action = false := by
      rcases hactions with rfl | h
      · exact haction
      · exact h
    have hget : "automatic_".toList.isPrefixOf decision.toList = true ∨
        safety = "safe_for_automatic_retry" → method = .get := by
      intro hautomates
      rcases hauto with hcontext | ⟨hdecision, hsafety⟩
      · cases method with
        | get => rfl
        | post => cases hcontext
      · rw [hdecision] at hautomates
        exact absurd (hautomates.resolve_left nofun) hsafety
    exact coherent_retry (hd.completed_settled hset hsettled) hretry hclass hstrategy hsuffix rfl hget

/-! ## The errors of a call -/

/-- The error is one of a call with the method. -/
inductive Reported (J : JsonApi) (method : HttpBackendMethod) : DownstreamHttpError → Prop
  | status {expected : List UInt16} {actual : UInt16} {retryAfterMs : Option Nat}
      {e : DownstreamHttpError} :
      validateExpectedStatusCodes expected actual retryAfterMs
        (HttpCallMode.forMethod method).retrySafetyContext = some e → Reported J method e
  | transport (error : String) : Reported J method
      (transportDownstreamError error (HttpCallMode.forMethod method).retrySafetyContext)
  | json {response : HttpResponseSummary} {requireJsonResponse : Bool} {e : DownstreamHttpError} :
      (parseAndValidateJsonResponse J response requireJsonResponse).2.2 = some e →
        Reported J method e

/-- An unexpected status is a draft, completed. -/
theorem validateExpectedStatusCodes_some {expected : List UInt16} {actual : UInt16}
    {retryAfterMs : Option Nat} {context : RetrySafetyContext}
    (h : validateExpectedStatusCodes expected actual retryAfterMs context = some e) :
    ∃ draft, Draft draft ∧ e = withRetryGuidance draft context ∧
      draft.retryable = (actual == 429 || actual ≥ 500) ∧ draft.retryAfterMs = retryAfterMs := by
  unfold validateExpectedStatusCodes at h
  split at h
  · cases h
  · refine ⟨_, ⟨?_, ⟨_, rfl⟩, rfl⟩, (Option.some.inj h).symm, rfl, rfl⟩
    simp only [List.forall_mem_cons]
    refine ⟨isPending_ofList (by decide), isPending_ofList (by decide), ?_, ?_, nofun⟩
    · rw [String.append_assoc, String.append_assoc]
      exact isPending_append (c := 'D') rfl (by decide)
    · split
      · split
        · exact isPending_ofList (by decide)
        · exact isPending_ofList (by decide)
      · exact isPending_ofList (by decide)

theorem transportDownstreamError_draft (error : String) (context : RetrySafetyContext) :
    ∃ draft, Draft draft ∧
      transportDownstreamError error context = withRetryGuidance draft context := by
  exact ⟨_, ⟨settled_ofList (by decide), ⟨_, rfl⟩, rfl⟩, rfl⟩

/-- What is coherent for a POST is left to no machine, so it is coherent for any method. -/
theorem Coherent.of_post (h : Coherent .post e) (method : HttpBackendMethod) : Coherent method e :=
  { h with automatic := fun hauto => nomatch h.automatic hauto }

/-- The JSON errors are drafts that the completion would leave as they are. -/
theorem jsonContentType_coherent (contentType : Option String) (method : HttpBackendMethod) :
    Coherent method (jsonContentTypeDownstreamError contentType) := by
  have hd : Draft (jsonContentTypeDownstreamError contentType) :=
    ⟨settled_ofList (by decide), ⟨_, rfl⟩, rfl⟩
  have hpost : Coherent .post (jsonContentTypeDownstreamError contentType) :=
    withRetryGuidance_coherent hd .post
  exact hpost.of_post method

theorem jsonBody_coherent (parseError : String) (method : HttpBackendMethod) :
    Coherent method (jsonBodyDownstreamError parseError) := by
  have hd : Draft (jsonBodyDownstreamError parseError) :=
    ⟨settled_ofList (by decide), ⟨_, rfl⟩, rfl⟩
  have hpost : Coherent .post (jsonBodyDownstreamError parseError) :=
    withRetryGuidance_coherent hd .post
  exact hpost.of_post method

/-- **Every error of a call is coherent**, and only those of a GET leave the retry to a
machine. -/
theorem reported_coherent {J : JsonApi} (h : Reported J method e) : Coherent method e := by
  cases h with
  | status hstatus =>
    obtain ⟨draft, hd, rfl, -, -⟩ := validateExpectedStatusCodes_some hstatus
    exact withRetryGuidance_coherent hd method
  | transport error =>
    obtain ⟨draft, hd, heq⟩ := transportDownstreamError_draft error
      (HttpCallMode.forMethod method).retrySafetyContext
    rw [heq]
    exact withRetryGuidance_coherent hd method
  | @json response requireJsonResponse _ hjson =>
    unfold parseAndValidateJsonResponse at hjson
    split at hjson
    · split at hjson
      · cases hjson
        exact jsonContentType_coherent response.contentType method
      · cases hjson
    · split at hjson
      · cases hjson
      · next parseError _ =>
        split at hjson
        · cases hjson
          exact jsonBody_coherent parseError method
        · cases hjson

/-- A POST answered with 429 and a delay is left to the caller, after that delay. -/
theorem reported_coherent_rateLimited :
    ∃ e, validateExpectedStatusCodes [200] 429 (some 2500)
        (HttpCallMode.forMethod .post).retrySafetyContext = some e ∧ Coherent .post e ∧
      e.callerRetryDecision = "confirm_idempotency_then_retry_after_delay" ∧
      e.minimumBackoffMs = some 2500 := by
  have hstatus : validateExpectedStatusCodes [200] 429 (some 2500)
      (HttpCallMode.forMethod .post).retrySafetyContext = some _ := rfl
  exact ⟨_, hstatus, reported_coherent (J := plainJsonApi) (.status hstatus), rfl, rfl⟩

end NetCore
