import NetCore.CredRefs

/-!
# Scanning texts that are written around references

`render` writes literal texts with references between them.  If every reference
but the last is followed by a terminator, and no literal holds a marker, then the
scanner returns the references as they were written (`collectCredRefs_render`).

A reference behind any text `u` and a blank is another matter.  The search for the
`/` after a marker does not stop at the blank, so a marker in `u` without a `/`
takes the next marker for a part of its issuer; it is `OpenIssuer u` that decides
whether the reference is found (`laterRef_found_iff`).
-/

namespace NetCore

open Text

/-! ## Rendering -/

/-- A reference and the literal text after it. -/
structure RefPiece where
  pluginId : String
  target : String
  literal : String

def RefPiece.pair (x : RefPiece) : String × String := (x.pluginId, x.target)

/-- `l₀ ++ "cred://p₁/t₁" ++ l₁ ++ …` -/
def render : String → List RefPiece → String
  | literal, [] => literal
  | literal, x :: pieces =>
    literal ++ ("cred://" ++ (x.pluginId ++ ("/" ++ (x.target ++ render x.literal pieces))))

/-- No literal holds a marker, each name can be carried whole, and a reference is followed
by a terminator, the last one perhaps by nothing. -/
structure Renderable (literal : String) (pieces : List RefPiece) : Prop where
  first : ¬ credMarker <:+: literal.toList
  free : ∀ x ∈ pieces, ¬ credMarker <:+: x.literal.toList
  named : ∀ x ∈ pieces, RefName x.pluginId.toList x.target.toList
  ended : ∀ x ∈ pieces, Ended x.literal.toList
  parted : ∀ x ∈ pieces.dropLast, x.literal ≠ ""

theorem render_cons (literal : String) (x : RefPiece) (pieces : List RefPiece) :
    (render literal (x :: pieces)).toList = literal.toList ++ (credMarker ++
      (x.pluginId.toList ++ '/' :: (x.target.toList ++ (render x.literal pieces).toList))) := by
  have hslash : "/".toList = ['/'] := by decide
  rw [render]
  simp only [String.toList_append, hslash]
  rfl

theorem reference_whole {p t : String} (hn : RefName p.toList t.toList) :
    reference p.toList (cutFragment t.toList) = [(p, t)] := by
  have hcut := cutFragment_append hn.no_hash (Or.inl rfl)
  rw [List.append_nil] at hcut
  unfold reference
  rw [hcut, if_pos ⟨hn.issuer_ne, hn.target_ne⟩, String.ofList_toList, String.ofList_toList]

/-- A literal that ends a reference still ends it when more is written after it. -/
theorem ended_render {x : RefPiece} {pieces : List RefPiece} (hx : Ended x.literal.toList)
    (hpart : pieces ≠ [] → x.literal ≠ "") : Ended (render x.literal pieces).toList := by
  cases pieces with
  | nil => exact hx
  | cons y pieces =>
    rw [render_cons]
    cases hl : x.literal.toList with
    | nil => exact absurd (String.toList_eq_nil_iff.1 hl) (hpart (List.cons_ne_nil y pieces))
    | cons c r =>
      rw [hl] at hx
      exact hx

theorem Renderable.tail {literal : String} {x : RefPiece} {pieces : List RefPiece}
    (h : Renderable literal (x :: pieces)) : Renderable x.literal pieces where
  first := h.free x List.mem_cons_self
  free y hy := h.free y (List.mem_cons_of_mem _ hy)
  named y hy := h.named y (List.mem_cons_of_mem _ hy)
  ended y hy := h.ended y (List.mem_cons_of_mem _ hy)
  parted y hy := by
    cases pieces with
    | nil => cases hy
    | cons z pieces => exact h.parted y (List.mem_cons_of_mem _ hy)

/-- A rendered text is scanned into what it was rendered from. -/
theorem scan_render {literal : String} {pieces : List RefPiece} (h : Renderable literal pieces) :
    Scan (render literal pieces).toList (pieces.map RefPiece.pair) := by
  induction pieces generalizing literal with
  | nil => exact .clear h.first
  | cons x pieces ih =>
    have hn := h.named x List.mem_cons_self
    have hpart : pieces ≠ [] → x.literal ≠ "" := by
      intro hne
      obtain ⟨y, rest, rfl⟩ := List.exists_cons_of_ne_nil hne
      exact h.parted x List.mem_cons_self
    have hended := ended_render (h.ended x List.mem_cons_self) hpart
    have hscan := scan_reference h.first hn.issuer hn.target hended (ih h.tail)
    rw [reference_whole hn] at hscan
    rw [render_cons]
    exact hscan

/-- **The scanner inverts rendering**: it returns the references in order, each once. -/
theorem collectCredRefs_render {literal : String} {pieces : List RefPiece} (hne : pieces ≠ [])
    (h : Renderable literal pieces) :
    collectCredRefs (render literal pieces) = .ok (some (pieces.map RefPiece.pair)) := by
  rw [collectCredRefs_of_scan (scan_render h), if_neg]
  rw [List.isEmpty_iff, List.map_eq_nil_iff]
  exact hne

/-- Partial markers before and after a reference, a `/` in the last target. -/
theorem collectCredRefs_render_partial :
    collectCredRefs (render "cred:/" [⟨"oauth", "api", "; cred:/"⟩, ⟨"cookies", "a/b", ""⟩]) =
      .ok (some [("oauth", "api"), ("cookies", "a/b")]) := by
  have hrenderable : Renderable "cred:/"
      [⟨"oauth", "api", "; cred:/"⟩, ⟨"cookies", "a/b", ""⟩] := by
    refine ⟨by decide, ?_, ?_, ?_, ?_⟩
    · simp only [List.forall_mem_cons]
      exact ⟨by decide, by decide, nofun⟩
    · simp only [List.forall_mem_cons]
      exact ⟨⟨by decide, by simp, by decide, by decide, by simp [isTerminator, isWhitespace]⟩,
        ⟨by decide, by simp, by decide, by decide, by simp [isTerminator, isWhitespace]⟩, nofun⟩
    · simp only [List.forall_mem_cons]
      exact ⟨show isTerminator ';' = true by decide, trivial, nofun⟩
    · show ∀ x ∈ [RefPiece.mk "oauth" "api" "; cred:/"], x.literal ≠ ""
      simp
  exact collectCredRefs_render (List.cons_ne_nil _ _) hrenderable

/-! ## A reference behind any text -/

/-- A name that a reference carries whole, wherever it is read: letters, digits, `-`, `_`
and anything else but `/`, `#` and the terminators. -/
def PlainName (s : List Char) : Prop :=
  s ≠ [] ∧ ∀ c ∈ s, (c == '/') = false ∧ c ≠ '#' ∧ isTerminator c = false

theorem IsName.plainName {s : List Char} (hs : IsName s) : PlainName s := by
  refine ⟨hs.1, fun c hc => ⟨?_, ?_, nameChar_not_terminator (hs.2 c hc)⟩⟩
  · exact beq_eq_false_iff_ne.2 (nameChar_ne (hs.2 c hc) (by decide))
  · exact nameChar_ne (hs.2 c hc) (by decide)

theorem PlainName.refName {p t : List Char} (hp : PlainName p) (ht : PlainName t) : RefName p t where
  issuer_ne := hp.1
  issuer c hc := (hp.2 c hc).1
  target_ne := ht.1
  no_hash hm := (ht.2 '#' hm).2.1 rfl
  target c hc := (ht.2 c hc).2.2

/-- `u` ends in a reference without a `/` after its marker. -/
def OpenIssuer (u : List Char) : Prop :=
  ∃ v a, u = v ++ (credMarker ++ a) ∧ Closed v ∧ ∀ c ∈ a, (c == '/') = false

/-- A blank after a marker-free text completes no marker. -/
theorem blank_clear {u : List Char} (hu : ¬ credMarker <:+: u) : ¬ credMarker <:+: u ++ [' '] :=
  not_infix_separated (by decide) hu (by decide)

/-- A text ends in an open issuer, or the blank after it leaves no reference open. -/
theorem closed_or_openIssuer (u : List Char) : Closed (u ++ [' ']) ∨ OpenIssuer u := by
  induction hn : u.length using Nat.strong_induction_on generalizing u with
  | _ n ih =>
    subst hn
    rcases findStr_split credMarker u credMarker_plain with h | ⟨v, a, rfl, hv⟩
    · exact Or.inl (.clear (blank_clear h))
    rcases findChar_split (· == '/') a with h | ⟨p, d, q, rfl, hp, hd⟩
    · exact Or.inr ⟨v, a, rfl, .clear hv, h⟩
    have hd' : d = '/' := by simpa using hd
    subst hd'
    rcases findChar_split isTerminator q with h | ⟨b, c, r, rfl, hb, hc⟩
    · -- the blank ends the target
      have hclosed : Closed (v ++ (credMarker ++ (p ++ '/' :: (q ++ ' ' :: [])))) :=
        .ref hv hp h (by decide) (.clear (by decide))
      left
      simpa using hclosed
    · rcases ih (c :: r).length (by simp; omega) (c :: r) rfl with hclosed | ⟨v', a', hs, hv', ha'⟩
      · have hclosed' := Closed.ref hv hp hb hc hclosed
        left
        simpa using hclosed'
      · obtain ⟨r', rfl⟩ := cons_of_marker hc hs
        refine Or.inr ⟨_, a', ?_, .ref hv hp hb hc hv', ha'⟩
        rw [hs]
        simp

/-- `cred://p/t` behind the text `u` and a blank, with `v` after it. -/
def laterRef (u p t v : String) : String := u ++ " cred://" ++ p ++ "/" ++ t ++ v

theorem laterRef_toList (u p t v : String) : (laterRef u p t v).toList =
    u.toList ++ ' ' :: (credMarker ++ (p.toList ++ '/' :: (t.toList ++ v.toList))) := by
  have hmark : " cred://".toList = ' ' :: credMarker := by decide
  have hslash : "/".toList = ['/'] := by decide
  unfold laterRef
  simp only [String.toList_append, hmark, hslash, List.append_assoc, List.cons_append,
    List.nil_append]

theorem mem_collected {s : String} {ps : List (String × String)} (h : Scan s.toList ps)
    (k : String × String) :
    (∃ refs, collectCredRefs s = .ok (some refs) ∧ k ∈ refs) ↔ k ∈ ps := by
  rw [collectCredRefs_of_scan h]
  cases ps with
  | nil =>
    constructor
    · rintro ⟨refs, hrefs, -⟩
      cases hrefs
    · intro hk
      cases hk
  | cons x ps =>
    constructor
    · rintro ⟨refs, hrefs, hk⟩
      cases hrefs
      exact hk
    · exact fun hk => ⟨x :: ps, rfl, hk⟩

/-- Behind an open issuer the marker is read as a part of the issuer, and the names as the
target. -/
theorem scan_openIssuer {u p t v : List Char} {rs : List (String × String)} (hu : OpenIssuer u)
    (hp : PlainName p) (ht : PlainName t) (hv : Ended v) (hrs : Scan v rs) :
    ∃ qs p' t', Scan u qs ∧ p ≠ p' ∧
      Scan (u ++ ' ' :: (credMarker ++ (p ++ '/' :: (t ++ v)))) (qs ++ (reference p' t' ++ rs)) := by
  obtain ⟨w, a, rfl, hw, ha⟩ := hu
  obtain ⟨qs, hopen, href⟩ := scan_closed hw
  have hissuer : ∀ c ∈ a ++ [' ', 'c', 'r', 'e', 'd', ':'], (c == '/') = false := by
    intro c hc
    rcases List.mem_append.1 hc with hc | hc
    · exact ha c hc
    · have hmark : ∀ c ∈ [' ', 'c', 'r', 'e', 'd', ':'], (c == '/') = false := by simp
      exact hmark c hc
  have hbody : ∀ c ∈ '/' :: (p ++ '/' :: t), isTerminator c = false := by
    intro c hc
    simp only [List.mem_cons, List.mem_append] at hc
    rcases hc with rfl | hc | rfl | hc
    · decide
    · exact (hp.2 c hc).2.2
    · decide
    · exact (ht.2 c hc).2.2
  have htext : w ++ (credMarker ++ a) ++ ' ' :: (credMarker ++ (p ++ '/' :: (t ++ v))) =
      w ++ (credMarker ++ (a ++ [' ', 'c', 'r', 'e', 'd', ':'] ++
        '/' :: ('/' :: (p ++ '/' :: t) ++ v))) := by
    have hmark : credMarker = ['c', 'r', 'e', 'd', ':', '/', '/'] := by decide
    rw [hmark]
    simp
  have hscan := href _ _ v rs hissuer hbody hv hrs
  rw [← htext] at hscan
  have hne : p ≠ a ++ [' ', 'c', 'r', 'e', 'd', ':'] := by
    rintro rfl
    exact absurd (hp.2 ' ' (by simp)).2.2 (by decide)
  exact ⟨qs, _, _, hopen a ha, hne, hscan⟩

/-- **The reference is found** exactly if no issuer is left open before it, or the same pair
is found in the text before or after it. -/
theorem laterRef_found_iff {p t v : String} (hp : PlainName p.toList) (ht : PlainName t.toList)
    (hv : Ended v.toList) (u : String) :
    (∃ refs, collectCredRefs (laterRef u p t v) = .ok (some refs) ∧ (p, t) ∈ refs) ↔
      ¬ OpenIssuer u.toList ∨ BareRef p.toList t.toList u.toList ∨
        BareRef p.toList t.toList v.toList := by
  have hn := hp.refName ht
  have hkey : (p, t) = (String.ofList p.toList, String.ofList t.toList) := by
    rw [String.ofList_toList, String.ofList_toList]
  rw [hkey]
  by_cases hopen : OpenIssuer u.toList
  · obtain ⟨rs, hrs⟩ := scan_exists v.toList
    obtain ⟨qs, p', t', hqs, hne, hscan⟩ := scan_openIssuer hopen hp ht hv hrs
    rw [← laterRef_toList] at hscan
    have hother : (String.ofList p.toList, String.ofList t.toList) ∉ reference p' t' :=
      fun hm => hne (mem_reference.1 hm).1
    rw [mem_collected hscan, List.mem_append, List.mem_append, mem_scan_iff hqs hn,
      mem_scan_iff hrs hn]
    constructor
    · rintro (h | h | h)
      · exact Or.inr (Or.inl h)
      · exact absurd h hother
      · exact Or.inr (Or.inr h)
    · rintro (h | h | h)
      · exact absurd hopen h
      · exact Or.inl h
      · exact Or.inr (Or.inr h)
  · have hclosed := (closed_or_openIssuer u.toList).resolve_right hopen
    obtain ⟨ps, hps, hm⟩ := scan_bareRef hn hclosed hv.stops
    have htext : u.toList ++ [' '] ++ (credMarker ++ (p.toList ++ '/' :: (t.toList ++ v.toList))) =
        (laterRef u p t v).toList := by
      rw [laterRef_toList, List.append_assoc]
      rfl
    rw [htext] at hps
    exact ⟨fun _ => Or.inl hopen, fun _ => (mem_collected hps _).2 hm⟩

/-- A partial marker hides nothing. -/
theorem laterRef_found_partial :
    ∃ refs, collectCredRefs (laterRef "cred:/x" "oauth" "api" "?v=1") = .ok (some refs) ∧
      ("oauth", "api") ∈ refs := by
  have hp : IsName "oauth".toList := ⟨by decide, List.all_eq_true.1 (by decide)⟩
  have ht : IsName "api".toList := ⟨by decide, List.all_eq_true.1 (by decide)⟩
  have hv : Ended "?v=1".toList := show isTerminator '?' = true by decide
  have hclear : ¬ credMarker <:+: "cred:/x".toList := by decide
  refine (laterRef_found_iff hp.plainName ht.plainName hv "cred:/x").2 (Or.inl ?_)
  rintro ⟨v, a, htext, -, -⟩
  exact hclear ⟨v, a, by rw [htext, List.append_assoc]⟩

/-- A marker without a `/` hides the reference behind it: the blank and the next marker are
taken for a part of its issuer. -/
theorem laterRef_hidden :
    IsName "p".toList ∧ IsName "t".toList ∧ Ended "".toList ∧
      ¬ ∃ refs, collectCredRefs (laterRef "cred://x" "p" "t" "") = .ok (some refs) ∧
        ("p", "t") ∈ refs := by
  have hcollect : collectCredRefs (laterRef "cred://x" "p" "t" "") =
      .ok (some [("x cred:", "/p/t")]) := by decide
  refine ⟨⟨by decide, List.all_eq_true.1 (by decide)⟩, ⟨by decide, List.all_eq_true.1 (by decide)⟩,
    trivial, ?_⟩
  rintro ⟨refs, hrefs, hmem⟩
  rw [hcollect] at hrefs
  cases hrefs
  exact absurd hmem (by decide)

end NetCore
