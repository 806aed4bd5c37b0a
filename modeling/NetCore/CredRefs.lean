import NetCore.Lib.Text

/-!
# `collect_cred_refs`: the `(plugin_id, target)` pairs of a raw value

`collectCredRefs` is the scanner of `client_registry.rs`, on byte offsets: a
slice out of range or inside a character is a fault (the source would panic),
and so is a loop that does not end.  `Scan s ps` says the same without offsets:
`s` splits into marker-free text and references, each running from `cred://`
over an issuer up to `/` and a body up to the next terminator.

    Scan s ps  →  scanLoop fuel s out = .ok (out ++ ps)      (scanLoop_of_scan)
    every text has a scan                                    (scan_exists)

So the scanner never faults (`collectCredRefs_ok`).  `BareRef p t s`: `s` spells
`cred://p/t` where the scanner is not inside an earlier reference, and ends it
there; these are exactly the pairs it collects (`mem_scan_iff`).
-/

namespace NetCore

open Text

def credMarker : List Char := "cred://".toList

/-- The characters that end a target: white space, `?`, `&`, `@`, `:`, both
quotes, `>`, `,` and `;`. -/
def isTerminator (c : Char) : Bool :=
  isWhitespace c || c == '?' || c == '&' || c == '@' || c == ':' || c.toNat == 0x22 ||
  c.toNat == 0x27 || c == '>' || c == ',' || c == ';'

inductive ScanFault
  | badSlice
  | outOfFuel
deriving DecidableEq, Repr

def slice {α : Type} : Option α → Except ScanFault α
  | some x => .ok x
  | none => .error .badSlice

/-- The body of a reference up to its first `#`. -/
def cutFragment (body : List Char) : List Char :=
  match splitOnce '#' body with
  | some (t, _) => t
  | none => body

/-- The pair a reference gives, if neither half is empty. -/
def reference (pluginId target : List Char) : List (String × String) :=
  if pluginId ≠ [] ∧ target ≠ [] then [(String.ofList pluginId, String.ofList target)] else []

/-- The `while let` loop, over the text that is left and the pairs found so far. -/
def scanLoop : Nat → List Char → List (String × String) →
    Except ScanFault (List (String × String))
  | 0, _, _ => .error .outOfFuel
  | fuel + 1, rest, out =>
    match findStr credMarker rest with
    | none => .ok out
    | some idx => do
      let after ← slice (sliceFrom rest (idx + utf8Len credMarker))
      match findChar (· == '/') after with
      | none => return out
      | some slashIdx =>
        let pluginId ← slice (sliceTo after slashIdx)
        let afterSlash ← slice (sliceFrom after (slashIdx + 1))
        let stop := (findChar isTerminator afterSlash).getD (utf8Len afterSlash)
        let body ← slice (sliceTo afterSlash stop)
        let out := out ++ reference pluginId (cutFragment body)
        let advance := idx + utf8Len credMarker + slashIdx + 1 + stop
        if advance ≥ utf8Len rest then return out
        let rest ← slice (sliceFrom rest advance)
        scanLoop fuel rest out

def collectCredRefs (s : String) : Except ScanFault (Option (List (String × String))) := do
  if findStr credMarker s.toList = none then return none
  let out ← scanLoop (s.toList.length + 1) s.toList []
  return if out.isEmpty then none else some out

/-! ## What one text is scanned into -/

inductive Scan : List Char → List (String × String) → Prop
  | clear {s : List Char} : ¬ credMarker <:+: s → Scan s []
  | noSlash {u a : List Char} : ¬ credMarker <:+: u → (∀ c ∈ a, (c == '/') = false) →
      Scan (u ++ (credMarker ++ a)) []
  | last {u p b : List Char} : ¬ credMarker <:+: u → (∀ c ∈ p, (c == '/') = false) →
      (∀ c ∈ b, isTerminator c = false) →
      Scan (u ++ (credMarker ++ (p ++ '/' :: b))) (reference p (cutFragment b))
  | more {u p b r : List Char} {c : Char} {ps : List (String × String)} :
      ¬ credMarker <:+: u → (∀ c ∈ p, (c == '/') = false) → (∀ c ∈ b, isTerminator c = false) →
      isTerminator c = true → Scan (c :: r) ps →
      Scan (u ++ (credMarker ++ (p ++ '/' :: (b ++ c :: r)))) (reference p (cutFragment b) ++ ps)

/-- The end of the text, or a terminator: what may follow a body. -/
def Ended : List Char → Prop
  | [] => True
  | c :: _ => isTerminator c = true

theorem credMarker_plain : Plain credMarker := by
  show 'c' ∉ ['r', 'e', 'd', ':', '/', '/']
  decide

/-- Every text has a scan: split at the first marker, then at the first `/`
after it, then at the first terminator after that. -/
theorem scan_exists (s : List Char) : ∃ ps, Scan s ps := by
  induction hn : s.length using Nat.strong_induction_on generalizing s with
  | _ n ih =>
    subst hn
    rcases findStr_split credMarker s credMarker_plain with h | ⟨u, a, rfl, hu⟩
    · exact ⟨[], .clear h⟩
    rcases findChar_split (· == '/') a with h | ⟨p, d, q, rfl, hp, hd⟩
    · exact ⟨[], .noSlash hu h⟩
    have hd' : d = '/' := by simpa using hd
    subst hd'
    rcases findChar_split isTerminator q with h | ⟨b, c, r, rfl, hb, hc⟩
    · exact ⟨_, .last hu hp h⟩
    obtain ⟨ps, hps⟩ := ih (c :: r).length (by simp; omega) (c :: r) rfl
    exact ⟨_, .more hu hp hb hc hps⟩

/-! ## The loop computes the scan -/

theorem sliceFrom_after_marker (u a : List Char) :
    sliceFrom (u ++ (credMarker ++ a)) (utf8Len u + utf8Len credMarker) = some a := by
  have := sliceFrom_append (u ++ credMarker) a
  rwa [List.append_assoc, utf8Len_append] at this

theorem sliceFrom_after_slash (p q : List Char) :
    sliceFrom (p ++ '/' :: q) (utf8Len p + 1) = some q := by
  have := sliceFrom_append (p ++ ['/']) q
  rwa [List.append_assoc, utf8Len_append] at this

/-- The offset of the source's `advance`, as the length of what it skips. -/
theorem advance_eq (u p b : List Char) :
    utf8Len u + utf8Len credMarker + utf8Len p + 1 + utf8Len b =
      utf8Len (u ++ (credMarker ++ (p ++ '/' :: b))) := by
  have hs : utf8Len ['/'] = 1 := rfl
  have : utf8Len ('/' :: b) = utf8Len ['/'] + utf8Len b := utf8Len_append ['/'] b
  simp only [utf8Len_append, this, hs]
  omega

/-- A body stops at the first terminator, or with the text. -/
theorem body_stop {b v : List Char} (hb : ∀ c ∈ b, isTerminator c = false) (hv : Ended v) :
    (findChar isTerminator (b ++ v)).getD (utf8Len (b ++ v)) = utf8Len b := by
  cases v with
  | nil => rw [List.append_nil, findChar_none hb, Option.getD_none]
  | cons c r => rw [findChar_append r hb hv, Option.getD_some]

/-- One round of the loop: it takes the first reference and goes on with what ends it. -/
theorem scanLoop_round {u p b v : List Char} (hu : ¬ credMarker <:+: u)
    (hp : ∀ c ∈ p, (c == '/') = false) (hb : ∀ c ∈ b, isTerminator c = false) (hv : Ended v)
    (fuel : Nat) (out : List (String × String)) :
    scanLoop (fuel + 1) (u ++ (credMarker ++ (p ++ '/' :: (b ++ v)))) out =
      if v = [] then .ok (out ++ reference p (cutFragment b))
      else scanLoop fuel v (out ++ reference p (cutFragment b)) := by
  have hrest : u ++ (credMarker ++ (p ++ '/' :: (b ++ v))) =
      u ++ (credMarker ++ (p ++ '/' :: b)) ++ v := by simp
  rw [scanLoop, findStr_append _ credMarker_plain hu]
  simp only [sliceFrom_after_marker, slice, bind, Except.bind,
    findChar_append (b ++ v) hp (show ('/' == '/') = true from rfl), sliceTo_append,
    sliceFrom_after_slash, body_stop hb hv, advance_eq]
  rw [hrest, utf8Len_append _ v, sliceFrom_append]
  cases v with
  | nil =>
    rw [if_pos rfl, if_pos (by simp)]
    rfl
  | cons c r =>
    have hc := c.utf8Size_pos
    rw [if_neg (List.cons_ne_nil c r), if_neg (by rw [utf8Len_cons]; omega)]

theorem scanLoop_of_scan {s : List Char} {ps : List (String × String)} (h : Scan s ps) :
    ∀ fuel out, s.length < fuel → scanLoop fuel s out = .ok (out ++ ps) := by
  induction h with
  | clear hs =>
    intro fuel out hf
    obtain ⟨n, rfl⟩ : ∃ n, fuel = n + 1 := ⟨fuel - 1, by omega⟩
    rw [scanLoop, findStr_none (by decide) hs, List.append_nil]
  | @noSlash u a hu ha =>
    intro fuel out hf
    obtain ⟨n, rfl⟩ : ∃ n, fuel = n + 1 := ⟨fuel - 1, by omega⟩
    rw [scanLoop, findStr_append a credMarker_plain hu]
    simp only [sliceFrom_after_marker, slice]
    rw [show (Except.ok a : Except ScanFault (List Char)) = pure a from rfl, pure_bind,
      findChar_none ha, List.append_nil]
    rfl
  | @last u p b hu hp hb =>
    intro fuel out hf
    obtain ⟨n, rfl⟩ : ∃ n, fuel = n + 1 := ⟨fuel - 1, by omega⟩
    have hround := scanLoop_round (v := []) hu hp hb trivial n out
    rwa [if_pos rfl, List.append_nil] at hround
  | @more u p b r c ps hu hp hb hc hps ih =>
    intro fuel out hf
    obtain ⟨n, rfl⟩ : ∃ n, fuel = n + 1 := ⟨fuel - 1, by omega⟩
    rw [scanLoop_round hu hp hb (v := c :: r) hc, if_neg (List.cons_ne_nil c r),
      ih n _ (by simp at hf ⊢; omega), List.append_assoc]

theorem Scan.unique {s : List Char} {ps qs : List (String × String)} (h : Scan s ps)
    (h' : Scan s qs) : ps = qs := by
  have e := (scanLoop_of_scan h (s.length + 1) [] (by omega)).symm.trans
    (scanLoop_of_scan h' (s.length + 1) [] (by omega))
  simpa using e

theorem collectCredRefs_of_scan {s : String} {ps : List (String × String)}
    (h : Scan s.toList ps) :
    collectCredRefs s = .ok (if ps.isEmpty then none else some ps) := by
  unfold collectCredRefs
  by_cases hm : credMarker <:+: s.toList
  · obtain ⟨u, w, hs, hu⟩ :=
      (findStr_split credMarker s.toList credMarker_plain).resolve_left (fun hn => hn hm)
    rw [if_neg (by rw [hs, findStr_append w credMarker_plain hu]; simp),
      scanLoop_of_scan h _ [] (Nat.lt_succ_self _)]
    rfl
  · rw [if_pos (findStr_none (by decide) hm), h.unique (.clear hm)]
    rfl

/-- **The scanner never faults**: every slice it takes exists, and the loop ends. -/
theorem collectCredRefs_ok (s : String) : ∃ refs, collectCredRefs s = .ok refs := by
  obtain ⟨ps, hps⟩ := scan_exists s.toList
  exact ⟨_, collectCredRefs_of_scan hps⟩

/-! ## Which pairs are collected -/

/-- `u` leaves no reference open: it is marker-free, or marker-free text and a
reference ended by a terminator, and so on from that terminator. -/
inductive Closed : List Char → Prop
  | clear {u : List Char} : ¬ credMarker <:+: u → Closed u
  | ref {u p b r : List Char} {c : Char} : ¬ credMarker <:+: u → (∀ x ∈ p, (x == '/') = false) →
      (∀ x ∈ b, isTerminator x = false) → isTerminator c = true → Closed (c :: r) →
      Closed (u ++ (credMarker ++ (p ++ '/' :: (b ++ c :: r))))

/-- What may follow a target: the end of the text, a `#` or a terminator. -/
def Stops : List Char → Prop
  | [] => True
  | c :: _ => c = '#' ∨ isTerminator c = true

theorem Ended.stops {s : List Char} (h : Ended s) : Stops s := by
  cases s with
  | nil => exact trivial
  | cons c r => exact Or.inr h

/-- `s` spells `cred://p/t` outside every earlier reference, and ends it there. -/
def BareRef (p t s : List Char) : Prop :=
  ∃ u w, s = u ++ (credMarker ++ (p ++ '/' :: (t ++ w))) ∧ Closed u ∧ Stops w

/-- The issuers and targets a reference can carry whole. -/
structure RefName (p t : List Char) : Prop where
  issuer_ne : p ≠ []
  issuer : ∀ c ∈ p, (c == '/') = false
  target_ne : t ≠ []
  no_hash : '#' ∉ t
  target : ∀ c ∈ t, isTerminator c = false

/-- A text is a body, then its end or a terminator. -/
theorem body_split (w : List Char) :
    ∃ b v, w = b ++ v ∧ (∀ c ∈ b, isTerminator c = false) ∧ Ended v := by
  rcases findChar_split isTerminator w with h | ⟨b, c, r, rfl, hb, hc⟩
  · exact ⟨w, [], (List.append_nil w).symm, h, trivial⟩
  · exact ⟨b, c :: r, rfl, hb, hc⟩

/-- A marker does not start at a terminator. -/
theorem cons_of_marker {u w r : List Char} {c : Char} (hc : isTerminator c = true)
    (h : c :: r = u ++ (credMarker ++ w)) : ∃ r', u = c :: r' := by
  cases u with
  | nil =>
    have hc' : c = 'c' := (List.cons.inj h).1
    rw [hc'] at hc
    exact absurd hc (by decide)
  | cons d r' => exact ⟨r', by rw [(List.cons.inj h).1]⟩

theorem mem_reference {p t p' t' : List Char} :
    (String.ofList p, String.ofList t) ∈ reference p' t' ↔
      p = p' ∧ t = t' ∧ p ≠ [] ∧ t ≠ [] := by
  unfold reference
  constructor
  · intro h
    split at h
    · next hne =>
      rw [List.mem_singleton, Prod.mk.injEq, String.ofList_inj, String.ofList_inj] at h
      obtain ⟨rfl, rfl⟩ := h
      exact ⟨rfl, rfl, hne⟩
    · cases h
  · rintro ⟨rfl, rfl, hne⟩
    rw [if_pos hne]
    exact List.mem_singleton_self _

/-- A body is its cut, which holds no `#`, and a rest after which the cut stops. -/
theorem cutFragment_split (b : List Char) :
    '#' ∉ cutFragment b ∧ ∃ w, b = cutFragment b ++ w ∧ ∀ x, Stops x → Stops (w ++ x) := by
  unfold cutFragment
  by_cases h : '#' ∈ b
  · obtain ⟨u, w, rfl, hu⟩ := List.eq_append_cons_of_mem h
    rw [splitOnce_append w hu]
    exact ⟨hu, '#' :: w, rfl, fun _ _ => Or.inl rfl⟩
  · rw [splitOnce_none h]
    exact ⟨h, [], (List.append_nil b).symm, fun _ hx => hx⟩

theorem cutFragment_free {u : List Char} (x : List Char) (hu : '#' ∉ u) :
    cutFragment (u ++ x) = u ++ cutFragment x := by
  induction u with
  | nil => rfl
  | cons c u ih =>
    rw [List.mem_cons, not_or] at hu
    have ih := ih hu.2
    unfold cutFragment at ih ⊢
    rw [List.cons_append, splitOnce, if_neg (fun e => hu.1 e.symm)]
    cases hs : splitOnce '#' (u ++ x) with
    | none =>
      rw [hs] at ih
      exact congrArg (c :: ·) ih
    | some cut =>
      rw [hs] at ih
      exact congrArg (c :: ·) ih

theorem cutFragment_append {t w : List Char} (ht : '#' ∉ t) (hw : w = [] ∨ ∃ r, w = '#' :: r) :
    cutFragment (t ++ w) = t := by
  have hcut : cutFragment w = [] := by
    rcases hw with rfl | ⟨r, rfl⟩
    · rfl
    · rfl
  rw [cutFragment_free w ht, hcut, List.append_nil]

theorem bareRef_of_mem {s : List Char} {ps : List (String × String)} (h : Scan s ps)
    {p t : List Char} (hm : (String.ofList p, String.ofList t) ∈ ps) : BareRef p t s := by
  induction h with
  | clear hs => cases hm
  | noSlash hu ha => cases hm
  | @last u p' b hu hp hb =>
    obtain ⟨rfl, ht, -, -⟩ := mem_reference.1 hm
    obtain ⟨-, w, hw, hstop⟩ := cutFragment_split b
    have hend := hstop [] trivial
    rw [List.append_nil] at hend
    exact ⟨u, w, by rw [ht, ← hw], .clear hu, hend⟩
  | @more u p' b r c ps hu hp hb hc hps ih =>
    rcases List.mem_append.1 hm with hm | hm
    · obtain ⟨rfl, ht, -, -⟩ := mem_reference.1 hm
      obtain ⟨-, w, hw, hstop⟩ := cutFragment_split b
      exact ⟨u, w ++ c :: r, by rw [ht, ← List.append_assoc (cutFragment b), ← hw], .clear hu,
        hstop _ (Or.inr hc)⟩
    · obtain ⟨u', w, hs, hcl, hw⟩ := ih hm
      obtain ⟨r', rfl⟩ := cons_of_marker hc hs
      refine ⟨u ++ (credMarker ++ (p' ++ '/' :: (b ++ c :: r'))), w, ?_, .ref hu hp hb hc hcl, hw⟩
      rw [hs]
      simp

/-- A target followed by `Stops` is all that is left of a body that starts with it. -/
theorem cutFragment_stops {t b r : List Char} (ht : '#' ∉ t) (hw : Stops (b ++ r))
    (hb : ∀ x ∈ b, isTerminator x = false) : cutFragment (t ++ b) = t := by
  apply cutFragment_append ht
  cases b with
  | nil => exact Or.inl rfl
  | cons c b =>
    rcases hw with rfl | hc
    · exact Or.inr ⟨b, rfl⟩
    · rw [hb c List.mem_cons_self] at hc
      cases hc

/-- The first reference of a text, and the scan of what ends it. -/
theorem scan_reference {u p b v : List Char} {rs : List (String × String)}
    (hu : ¬ credMarker <:+: u) (hp : ∀ c ∈ p, (c == '/') = false)
    (hb : ∀ c ∈ b, isTerminator c = false) (hv : Ended v) (hrs : Scan v rs) :
    Scan (u ++ (credMarker ++ (p ++ '/' :: (b ++ v)))) (reference p (cutFragment b) ++ rs) := by
  cases v with
  | nil =>
    have hnil : rs = [] := hrs.unique (.clear (by decide))
    rw [hnil, List.append_nil, List.append_nil]
    exact .last hu hp hb
  | cons c r => exact .more hu hp hb hv hrs

/-- What a closed text is scanned into does not depend on the marker that follows it. -/
theorem scan_closed {u : List Char} (h : Closed u) :
    ∃ qs, (∀ a, (∀ c ∈ a, (c == '/') = false) → Scan (u ++ (credMarker ++ a)) qs) ∧
      ∀ p b v rs, (∀ c ∈ p, (c == '/') = false) → (∀ c ∈ b, isTerminator c = false) → Ended v →
        Scan v rs → Scan (u ++ (credMarker ++ (p ++ '/' :: (b ++ v))))
          (qs ++ (reference p (cutFragment b) ++ rs)) := by
  induction h with
  | @clear u hu =>
    refine ⟨[], fun a ha => .noSlash hu ha, ?_⟩
    intro p b v rs hp hb hv hrs
    exact scan_reference hu hp hb hv hrs
  | @ref u p' b' r c hu hp' hb' hc hcl ih =>
    obtain ⟨qs, hopen, href⟩ := ih
    refine ⟨reference p' (cutFragment b') ++ qs, ?_, ?_⟩
    · intro a ha
      have hscan := Scan.more hu hp' hb' hc (hopen a ha)
      simpa using hscan
    · intro p b v rs hp hb hv hrs
      have hscan := Scan.more hu hp' hb' hc (href p b v rs hp hb hv hrs)
      simpa using hscan

/-- The reference that ends a text, or is followed by `Stops`, is collected. -/
theorem scan_bareRef {u p t w : List Char} (hn : RefName p t) (hu : Closed u) (hw : Stops w) :
    ∃ ps, Scan (u ++ (credMarker ++ (p ++ '/' :: (t ++ w)))) ps ∧
      (String.ofList p, String.ofList t) ∈ ps := by
  obtain ⟨b, v, rfl, hb, hv⟩ := body_split w
  obtain ⟨rs, hrs⟩ := scan_exists v
  obtain ⟨qs, -, href⟩ := scan_closed hu
  have hbody : ∀ x ∈ t ++ b, isTerminator x = false := by
    intro x hx
    rcases List.mem_append.1 hx with hx | hx
    · exact hn.target x hx
    · exact hb x hx
  have hscan := href p (t ++ b) v rs hn.issuer hbody hv hrs
  rw [cutFragment_stops hn.no_hash hw hb, List.append_assoc] at hscan
  refine ⟨_, hscan, List.mem_append_right _ (List.mem_append_left _ ?_)⟩
  exact mem_reference.2 ⟨rfl, rfl, hn.issuer_ne, hn.target_ne⟩

/-- **The scanner collects exactly the bare references.** -/
theorem mem_scan_iff {s : List Char} {ps : List (String × String)} (h : Scan s ps)
    {p t : List Char} (hn : RefName p t) :
    (String.ofList p, String.ofList t) ∈ ps ↔ BareRef p t s := by
  constructor
  · exact bareRef_of_mem h
  · rintro ⟨u, w, rfl, hu, hw⟩
    obtain ⟨ps', hps', hm⟩ := scan_bareRef hn hu hw
    rwa [h.unique hps']

/-! ## Names -/

def isNameChar (c : Char) : Bool := c.isAlphanum || c == '-' || c == '_'

/-- A non-empty name over letters, digits, `-` and `_`. -/
def IsName (s : List Char) : Prop := s ≠ [] ∧ ∀ c ∈ s, isNameChar c = true

theorem nameChar_ne {c d : Char} (hc : isNameChar c = true) (hd : isNameChar d = false) : c ≠ d := by
  rintro rfl
  rw [hc] at hd
  cases hd

theorem nameChar_toNat {c : Char} (hc : isNameChar c = true) :
    c.toNat = 45 ∨ 48 ≤ c.toNat ∧ c.toNat ≤ 122 := by
  unfold isNameChar at hc
  simp only [Bool.or_eq_true, beq_iff_eq] at hc
  rcases hc with (hc | rfl) | rfl
  · right
    have hranges : (decide (65 ≤ c.val ∧ c.val ≤ 90) ||
        (decide (97 ≤ c.val) && decide (c.val ≤ 122)) ||
        (decide (48 ≤ c.val) && decide (c.val ≤ 57))) = true := hc
    simp only [Bool.or_eq_true, Bool.and_eq_true, decide_eq_true_eq, UInt32.le_iff_toNat_le,
      UInt32.reduceToNat] at hranges
    have hval : c.toNat = c.val.toNat := rfl
    omega
  · left
    decide
  · right
    decide

theorem nameChar_not_terminator {c : Char} (hc : isNameChar c = true) : isTerminator c = false := by
  have hn := nameChar_toNat hc
  have hne : ∀ d, isNameChar d = false → (c == d) = false :=
    fun d hd => beq_eq_false_iff_ne.2 (nameChar_ne hc hd)
  have hw : isWhitespace c = false := by
    unfold isWhitespace
    simp only [Bool.or_eq_false_iff, Bool.and_eq_false_iff, beq_eq_false_iff_ne,
      decide_eq_false_iff_not]
    omega
  have h22 : (c.toNat == 0x22) = false := by
    rw [beq_eq_false_iff_ne]
    omega
  have h27 : (c.toNat == 0x27) = false := by
    rw [beq_eq_false_iff_ne]
    omega
  unfold isTerminator
  rw [hw, hne '?' (by decide), hne '&' (by decide), hne '@' (by decide), hne ':' (by decide), h22,
    h27, hne '>' (by decide), hne ',' (by decide), hne ';' (by decide)]
  rfl

theorem IsName.not_mem {s : List Char} (hs : IsName s) {d : Char} (hd : isNameChar d = false) :
    d ∉ s :=
  fun hm => nameChar_ne (hs.2 d hm) hd rfl

theorem IsName.refName {p t : List Char} (hp : IsName p) (ht : IsName t) : RefName p t where
  issuer_ne := hp.1
  issuer c hc := beq_eq_false_iff_ne.2 (nameChar_ne (hp.2 c hc) (by decide))
  target_ne := ht.1
  no_hash := ht.not_mem (by decide)
  target c hc := nameChar_not_terminator (ht.2 c hc)

end NetCore
