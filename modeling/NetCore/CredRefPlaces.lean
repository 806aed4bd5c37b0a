import NetCore.CredRefs

/-!
# Where the pairs are read

Each pair that `collectCredRefs` returns stands at a place of the text: a byte
offset from which the text reads `cred://p/t`, then its end, a `#` or a
terminator.  The places follow each other without overlap
(`collectCredRefs_sound`).  The argument is one induction on the scan, over the
text that was scanned before (`scan_places`).
-/

namespace NetCore

open Text

/-- A pair and the byte offset at which its `cred://` starts. -/
structure Place where
  start : Nat
  pluginId : List Char
  target : List Char

namespace Place

def pair (x : Place) : String × String := (String.ofList x.pluginId, String.ofList x.target)

def spelled (x : Place) : List Char := credMarker ++ (x.pluginId ++ '/' :: x.target)

/-- The byte offset after the target. -/
def stop (x : Place) : Nat := x.start + utf8Len x.spelled

/-- The text reads `cred://p/t` at the place, and the target ends there. -/
structure ReadsIn (s : List Char) (x : Place) : Prop where
  name : RefName x.pluginId x.target
  reads : ∃ w, sliceFrom s x.start = some (x.spelled ++ w) ∧ Stops w

/-- `y` starts after the end of `x`. -/
def Before (x y : Place) : Prop := x.start < y.start ∧ x.stop ≤ y.start

theorem start_lt_stop (x : Place) : x.start < x.stop := by
  have hmark : utf8Len credMarker = 7 := by decide
  unfold stop spelled
  rw [utf8Len_append, hmark]
  omega

theorem before_of_stop {x y : Place} (h : x.stop ≤ y.start) : x.Before y :=
  ⟨Nat.lt_of_lt_of_le x.start_lt_stop h, h⟩

end Place

/-! ## The places of a scan -/

/-- The place of one reference, if it gives a pair, in a text that goes on with `x`. -/
theorem reference_places (v : List Char) {p b x : List Char} (hp : ∀ c ∈ p, (c == '/') = false)
    (hb : ∀ c ∈ b, isTerminator c = false) (hx : Stops x) :
    ∃ places : List Place, places.map Place.pair = reference p (cutFragment b) ∧
      (∀ y ∈ places, y.ReadsIn (v ++ (credMarker ++ (p ++ '/' :: (b ++ x)))) ∧
        y.start = utf8Len v ∧ y.stop ≤ utf8Len (v ++ (credMarker ++ (p ++ '/' :: b)))) ∧
      places.Pairwise Place.Before := by
  unfold reference
  split
  · next hne =>
    obtain ⟨hhash, w, hw, hstop⟩ := cutFragment_split b
    have hbody : ∀ c ∈ cutFragment b, isTerminator c = false := by
      intro c hc
      apply hb
      rw [hw]
      exact List.mem_append_left _ hc
    refine ⟨[⟨utf8Len v, p, cutFragment b⟩], rfl, ?_, List.pairwise_singleton _ _⟩
    intro y hy
    rw [List.mem_singleton.1 hy]
    refine ⟨⟨⟨hne.1, hp, hne.2, hhash, hbody⟩, w ++ x, ?_, hstop x hx⟩, rfl, ?_⟩
    · have htext : credMarker ++ (p ++ '/' :: (b ++ x)) =
          Place.spelled ⟨utf8Len v, p, cutFragment b⟩ ++ (w ++ x) := by
        unfold Place.spelled
        conv => lhs; rw [hw]
        simp
      rw [htext, sliceFrom_append]
    · -- what the fragment cuts off lies before the end of the body
      have hlen := congrArg utf8Len hw
      rw [utf8Len_append] at hlen
      unfold Place.stop Place.spelled
      simp only [utf8Len_append, utf8Len_cons]
      omega
  · exact ⟨[], rfl, nofun, List.Pairwise.nil⟩

/-- The pairs of a scan stand in the text, one after the other, behind the text `v`
that was scanned before. -/
theorem scan_places {s : List Char} {ps : List (String × String)} (h : Scan s ps) :
    ∀ v, ∃ places : List Place, places.map Place.pair = ps ∧
      (∀ y ∈ places, y.ReadsIn (v ++ s) ∧ utf8Len v ≤ y.start) ∧
      places.Pairwise Place.Before := by
  induction h with
  | clear hs => exact fun v => ⟨[], rfl, nofun, List.Pairwise.nil⟩
  | noSlash hu ha => exact fun v => ⟨[], rfl, nofun, List.Pairwise.nil⟩
  | @last u p b hu hp hb =>
    intro v
    obtain ⟨places, hpairs, hreads, hord⟩ := reference_places (x := []) (v ++ u) hp hb trivial
    refine ⟨places, hpairs, fun y hy => ?_, hord⟩
    obtain ⟨hread, hstart, -⟩ := hreads y hy
    rw [List.append_nil, List.append_assoc] at hread
    refine ⟨hread, ?_⟩
    rw [hstart, utf8Len_append]
    exact Nat.le_add_right _ _
  | @more u p b r c ps hu hp hb hc hps ih =>
    intro v
    obtain ⟨places, hpairs, hreads, hord⟩ :=
      reference_places (x := c :: r) (v ++ u) hp hb (Or.inr hc)
    obtain ⟨places', hpairs', hreads', hord'⟩ := ih (v ++ u ++ (credMarker ++ (p ++ '/' :: b)))
    refine ⟨places ++ places', by rw [List.map_append, hpairs, hpairs'], ?_, ?_⟩
    · intro y hy
      rcases List.mem_append.1 hy with hy | hy
      · obtain ⟨hread, hstart, -⟩ := hreads y hy
        rw [List.append_assoc] at hread
        refine ⟨hread, ?_⟩
        rw [hstart, utf8Len_append]
        exact Nat.le_add_right _ _
      · obtain ⟨hread, hstart⟩ := hreads' y hy
        refine ⟨by simpa using hread, ?_⟩
        rw [utf8Len_append, utf8Len_append] at hstart
        omega
    · refine List.pairwise_append.2 ⟨hord, hord', fun y hy y' hy' => Place.before_of_stop ?_⟩
      exact (hreads y hy).2.2.trans (hreads' y' hy').2

/-! ## Soundness -/

/-- **The scanner is sound on every text**: its loop ends without a fault, and what it
collects, if anything, stands in the text at places that follow each other. -/
theorem collectCredRefs_sound (s : String) :
    ∃ refs, (∀ fuel, s.toList.length < fuel → scanLoop fuel s.toList [] = .ok refs) ∧
      collectCredRefs s = .ok (if refs.isEmpty then none else some refs) ∧
      ∃ places : List Place, places.map Place.pair = refs ∧
        (∀ x ∈ places, x.ReadsIn s.toList) ∧ places.Pairwise Place.Before := by
  obtain ⟨refs, hrefs⟩ := scan_exists s.toList
  obtain ⟨places, hpairs, hreads, hord⟩ := scan_places hrefs []
  refine ⟨refs, fun fuel hfuel => scanLoop_of_scan hrefs fuel [] hfuel, collectCredRefs_of_scan hrefs,
    places, hpairs, fun x hx => (hreads x hx).1, hord⟩

end NetCore
