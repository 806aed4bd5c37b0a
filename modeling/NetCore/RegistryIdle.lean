import NetCore.RegistryRecency

/-!
# What an idle sweep removes

The idle time is a `Duration`; its milliseconds are a 128-bit number, which the
sweep casts to 64 bits.  Below 2⁶⁴ milliseconds the sweep removes the entries whose
client was last returned longer ago than the idle time, and no others.  A longer
idle time, meant as never, is cut to its remainder: `sweep_exact_iff`.
-/

namespace NetCore

open HashTable StepSystem

variable {D C : Type} [DecidableEq D]

/-- A sweep keeps, as they are, the entries whose client was last returned no longer
ago than the idle time, and counts the others. -/
def SweepsExactly (config : ClientRegistryConfig) (older : List (RegistryStep D C))
    (st : RegistryStep D C) : Prop :=
  ∀ elapsed it, st.label = .sweepIdle elapsed it →
    (∀ d e, st.post.clients.lookup d = some e ↔ st.pre.clients.lookup d = some e ∧
      ∃ r, LastReturned older e.client r ∧
        nowMillis elapsed ≤ r + config.idleEviction.asMillis) ∧
    ∃ count, st.out = .evicted count ∧ length st.post.clients + count = length st.pre.clients

/-- If the step is a sweep, the idle time is below 2⁶⁴ milliseconds, or no client was
last returned longer ago than what is left of it modulo 2⁶⁴. -/
def IdleFits (config : ClientRegistryConfig) (older : List (RegistryStep D C))
    (st : RegistryStep D C) : Prop :=
  ∀ elapsed it, st.label = .sweepIdle elapsed it →
    config.idleEviction.asMillis < 2 ^ 64 ∨
      ∀ d e r, st.pre.clients.lookup d = some e → LastReturned older e.client r →
        nowMillis elapsed ≤ r + config.idleEviction.asMillis % 2 ^ 64

variable {config : ClientRegistryConfig} {s t : Registry D C} {a : Action D C} {o : Shown D C}
  {hist : List (RegistryStep D C)}

/-- What a sweep keeps, by the last return of the clients. -/
theorem lookup_sweepIdle_returned (h : (registryMachine D C config).Run hist s)
    (it : IterOrder D (ClientEntry C)) (elapsed : Nat) (d : D) (e : ClientEntry C) :
    (sweepIdle config it s.clients elapsed).1.lookup d = some e ↔
      s.clients.lookup d = some e ∧ ∃ r, LastReturned hist e.client r ∧
        nowMillis elapsed ≤ r + config.idleEviction.asMillis % 2 ^ 64 := by
  rw [lookup_sweepIdle, asU64]
  constructor
  · rintro ⟨he, hkeep⟩
    exact ⟨he, e.lastUsed, run_stamp h he, by omega⟩
  · rintro ⟨he, r, hr, hkeep⟩
    have hstamp := hr.unique (run_stamp h he)
    exact ⟨he, by omega⟩

/-- One sweep is exact if and only if its idle time fits. -/
theorem moves_sweepsExactly_iff (h : (registryMachine D C config).Run hist s)
    (hm : Moves config s a t o) :
    SweepsExactly config hist ⟨s, a, o, t⟩ ↔ IdleFits config hist ⟨s, a, o, t⟩ := by
  constructor
  · intro hsweep elapsed it ha
    obtain ⟨hkept, -⟩ := hsweep elapsed it ha
    by_cases hidle : config.idleEviction.asMillis < 2 ^ 64
    · exact Or.inl hidle
    · refine Or.inr fun d e r he hr => ?_
      -- no reading is that late, so an exact sweep keeps every entry
      have hlate := nowMillis_lt elapsed
      have hpost := (hkept d e).2 ⟨he, r, hr, by omega⟩
      cases ha
      cases hm with
      | sweepIdle =>
        obtain ⟨-, r', hr', hle⟩ := (lookup_sweepIdle_returned h it elapsed d e).1 hpost
        rw [hr.unique hr']
        exact hle
  · intro hfits elapsed it ha
    have hidle := hfits elapsed it ha
    cases ha
    cases hm with
    | sweepIdle =>
      refine ⟨?_, _, rfl, length_sweepIdle config it s.clients elapsed⟩
      intro d e
      apply (lookup_sweepIdle_returned h it elapsed d e).trans
      constructor
      · rintro ⟨he, r, hr, hle⟩
        have hmod := Nat.mod_le config.idleEviction.asMillis (2 ^ 64)
        exact ⟨he, r, hr, by omega⟩
      · rintro ⟨he, r, hr, hle⟩
        rcases hidle with hlt | hyoung
        · rw [Nat.mod_eq_of_lt hlt]
          exact ⟨he, r, hr, hle⟩
        · exact ⟨he, r, hr, hyoung d e r he hr⟩

/-- **When the idle sweep is exact.**  On every sweep of a run: if the idle time is
below 2⁶⁴ milliseconds, or no cached client was last returned longer ago than the
idle time modulo 2⁶⁴, and in no other case. -/
theorem sweep_exact_iff (config : ClientRegistryConfig)
    (h : (registryMachine D C config).Run hist s) :
    Along (fun older st => SweepsExactly config older st ↔ IdleFits config older st) hist := by
  rintro newer st older rfl
  obtain ⟨hr, hn⟩ := h.split
  exact moves_sweepsExactly_iff hr (registryNext_moves hn)

/-- 2⁶⁴ milliseconds. -/
def Duration.never : Duration := ⟨18446744073709551, 616000000, by decide, by decide⟩

example : Duration.never.asMillis = 2 ^ 64 := by decide

/-- A client is inserted, and a millisecond later the sweep runs. -/
def sweptAtOnce : List (Action Nat Nat) :=
  [.lookup 0 7 [] 3, .invoke 0, .finish 0 (.ok 70), .insert 0 4 (.stored _ _),
    .sweepIdle 5 (.stored _ _)]

theorem sweep_exact_sweptAtOnce :
    ∃ c, (registryMachine Nat Nat ⟨256, .never⟩).exec sweptAtOnce ([], Registry.new) = some c ∧
      ¬ Along (SweepsExactly ⟨256, .never⟩) c.1 := by
  refine ⟨_, rfl, ?_⟩
  intro h
  have hkept := ((h [] _ _ rfl) 5 _ rfl).1 7 ⟨⟨0, 70⟩, [], 4⟩
  have hpost := hkept.2 ⟨rfl, 4, ⟨[], _, _, rfl, rfl, rfl, nofun⟩, by decide⟩
  cases hpost

theorem sweep_exact_iff_sweptAtOnce :
    ∃ c, (registryMachine Nat Nat ⟨256, .never⟩).exec sweptAtOnce ([], Registry.new) = some c ∧
      Along (fun older st => SweepsExactly ⟨256, .never⟩ older st ↔
        IdleFits ⟨256, .never⟩ older st) c.1 := by
  obtain ⟨c, hc⟩ : ∃ c, (registryMachine Nat Nat ⟨256, .never⟩).exec sweptAtOnce
      ([], Registry.new) = some c := ⟨_, rfl⟩
  exact ⟨c, hc, sweep_exact_iff _ (Machine.exec_init hc)⟩

end NetCore
