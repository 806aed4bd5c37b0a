import Mathlib.Data.String.Basic

/-!
# Shared shapes

The request profile and the method, call-mode and response shapes of
`types.rs`, `serde_json::Value`, and the two number types of the standard
library the rest computes with: durations and the `as u64` cast.
-/

namespace NetCore

/-- What `?` goes on with, where a fallible computation succeeds. -/
theorem bind_ok {ε α β : Type} {x : Except ε α} {f : α → Except ε β} {b : β}
    (h : (x >>= f) = .ok b) : ∃ a, x = .ok a ∧ f a = .ok b := by
  cases x with
  | error e => cases h
  | ok a => exact ⟨a, rfl, h⟩

/-- `ok_or_else`. -/
def okOr {ε α : Type} (x : Option α) (e : ε) : Except ε α :=
  match x with
  | some a => .ok a
  | none => .error e

theorem okOr_ok {ε α : Type} {x : Option α} {e : ε} {a : α} (h : okOr x e = .ok a) :
    x = some a := by
  cases x with
  | none => cases h
  | some b => cases h; rfl

theorem mapError_ok {ε ε' α : Type} {x : Except ε α} {f : ε → ε'} {a : α}
    (h : x.mapError f = .ok a) : x = .ok a := by
  cases x with
  | error e => cases h
  | ok b => cases h; rfl

theorem map_ok {ε α β : Type} {x : Except ε α} {f : α → β} {b : β} (h : x.map f = .ok b) :
    ∃ a, x = .ok a ∧ f a = b := by
  cases x with
  | error e => cases h
  | ok a => exact ⟨a, rfl, Except.ok.inj h⟩

/-- `n as u64`. -/
def asU64 (n : Nat) : Nat := n % 2 ^ 64

/-- `std::time::Duration`. -/
structure Duration where
  secs : Nat
  nanos : Nat
  secs_lt : secs < 2 ^ 64
  nanos_lt : nanos < 1000000000

def Duration.fromSecs (secs : UInt64) : Duration := ⟨secs.toNat, 0, secs.toNat_lt, by decide⟩

/-- `as_millis`, a `u128`. -/
def Duration.asMillis (d : Duration) : Nat := d.secs * 1000 + d.nanos / 1000000

/-- `serde_json::Number`; a float by its bits. -/
inductive Number
  | posInt (n : UInt64)
  | negInt (n : Int64)
  | float (bits : UInt64)
deriving DecidableEq

inductive Value
  | null
  | bool (b : Bool)
  | number (n : Number)
  | string (s : String)
  | array (items : List Value)
  | object (fields : List (String × Value))

inductive HttpBackendMethod
  | post
  | get
deriving DecidableEq, Repr

structure HttpRequestProfile where
  url : String
  method : HttpBackendMethod
  requireJsonResponse : Bool
  maxResponseBytes : Nat
  timeout : Duration
  allowPrivateBackends : Bool

inductive RetrySafetyContext
  | readOnlyProbe
  | potentiallyNonIdempotentJsonCall
deriving DecidableEq, Repr

inductive HttpCallMode
  | jsonBody
  | queryString
deriving DecidableEq, Repr

def HttpCallMode.forMethod : HttpBackendMethod → HttpCallMode
  | .post => .jsonBody
  | .get => .queryString

def HttpCallMode.retrySafetyContext : HttpCallMode → RetrySafetyContext
  | .jsonBody => .potentiallyNonIdempotentJsonCall
  | .queryString => .readOnlyProbe

structure HttpResponseSummary where
  statusCode : UInt16
  contentType : Option String
  retryAfterMs : Option Nat
  body : String
  bodyTruncated : Bool
  durationMs : Nat
deriving DecidableEq, Repr

end NetCore
