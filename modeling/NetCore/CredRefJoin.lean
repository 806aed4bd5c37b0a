import NetCore.CredRefTexts
import NetCore.Revocation

/-!
# Scanning a text piece by piece

Behind a text that leaves no issuer open, a terminator cuts: what is collected of the
whole is what is collected of the two pieces (`scan_join`).  A colon does not count,
it may be the marker's own.  Behind an open issuer it is otherwise, whatever the
terminator, so this is exactly when a text can be scanned piece by piece
(`credRefsIn_join_iff`).
-/

namespace NetCore

open Text

theorem not_mem_credMarker {c : Char} (hc : isTerminator c = true) (hcolon : c ≠ ':') :
    c ∉ credMarker := by
  have hmark : (credMarker.all fun d => d == ':' || !isTerminator d) = true := by decide
  intro hm
  have hletter := List.all_eq_true.1 hmark c hm
  rw [hc, Bool.not_true, Bool.or_false, beq_iff_eq] at hletter
  exact hcolon hletter

/-- A scan behind marker-free text. -/
theorem scan_behind {u v : List Char} {rs : List (String × String)} {c : Char}
    (hu : ¬ credMarker <:+: u) (hc : c ∉ credMarker) (h : Scan v rs) : Scan (u ++ c :: v) rs := by
  cases h with
  | clear hv => exact .clear (not_infix_separated hc hu hv)
  | @noSlash w a hw ha =>
    have hscan := Scan.noSlash (not_infix_separated hc hu hw) ha
    simpa using hscan
  | @last w p b hw hp hb =>
    have hscan := Scan.last (not_infix_separated hc hu hw) hp hb
    simpa using hscan
  | @more w p b r d ps hw hp hb hd hps =>
    have hscan := Scan.more (not_infix_separated hc hu hw) hp hb hd hps
    simpa using hscan

/-- What is open in the rest behind a reference is open in the whole. -/
theorem OpenIssuer.behind {u p b r : List Char} {c : Char} (hu : ¬ credMarker <:+: u)
    (hp : ∀ x ∈ p, (x == '/') = false) (hb : ∀ x ∈ b, isTerminator x = false)
    (hc : isTerminator c = true) (h : OpenIssuer (c :: r)) :
    OpenIssuer (u ++ (credMarker ++ (p ++ '/' :: (b ++ c :: r)))) := by
  obtain ⟨w, a, hs, hw, ha⟩ := h
  obtain ⟨r', rfl⟩ := cons_of_marker hc hs
  refine ⟨_, a, ?_, .ref hu hp hb hc hw, ha⟩
  rw [hs]
  simp

/-- **Two pieces.** -/
theorem scan_join {u v : List Char} {qs rs : List (String × String)} {c : Char}
    (h : Scan u qs) (hopen : ¬ OpenIssuer u) (hc : isTerminator c = true) (hcolon : c ≠ ':')
    (hrs : Scan v rs) : Scan (u ++ c :: v) (qs ++ rs) := by
  have hmark := not_mem_credMarker hc hcolon
  induction h with
  | clear hu => exact scan_behind hu hmark hrs
  | @noSlash u a hu ha => exact absurd ⟨u, a, rfl, .clear hu, ha⟩ hopen
  | @last u p b hu hp hb =>
    have hscan := Scan.more hu hp hb hc (scan_behind (by decide) hmark hrs : Scan ([] ++ c :: v) rs)
    simpa using hscan
  | @more u p b r d ps hu hp hb hd hps ih =>
    have hscan := Scan.more hu hp hb hd (ih fun h => hopen (h.behind hu hp hb hd))
    simpa using hscan

/-- A one-letter name is a plain one. -/
theorem letter_plainName {c : Char} (hslash : (c == '/') = false) (hhash : c ≠ '#')
    (hc : isTerminator c = false) : PlainName [c] := by
  refine ⟨List.cons_ne_nil _ _, ?_⟩
  intro d hd
  rw [List.mem_singleton.1 hd]
  exact ⟨hslash, hhash, hc⟩

/-- Behind an open issuer a reference is lost that is found on its own. -/
theorem openIssuer_loses {u : String} (hopen : OpenIssuer u.toList) :
    credRefsIn (u ++ String.singleton ' ' ++ "cred://a/b") ≠
      credRefsIn u ++ credRefsIn "cred://a/b" := by
  have ha : PlainName ['a'] := letter_plainName (by decide) (by decide) (by decide)
  have hb : PlainName ['b'] := letter_plainName (by decide) (by decide) (by decide)
  have hnil : Scan [] [] := .clear (by decide)
  obtain ⟨qs, p', t', hqs, hne, hscan⟩ := scan_openIssuer (v := []) hopen ha hb trivial hnil
  have htext : "cred://a/b".toList = credMarker ++ (['a'] ++ '/' :: (['b'] ++ [])) := by decide
  have hwhole : Scan (u ++ String.singleton ' ' ++ "cred://a/b").toList
      (qs ++ (reference p' t' ++ [])) := by
    rw [String.toList_append, String.toList_append, htext, List.append_assoc]
    simpa using hscan
  have hpiece : Scan "cred://a/b".toList (reference ['a'] (cutFragment ['b'])) := by
    rw [htext]
    exact .last (u := []) (by decide) (fun c hc => (ha.2 c hc).1) fun c hc => (hb.2 c hc).2.2
  rw [credRefsIn_of_scan hwhole, credRefsIn_of_scan hqs, credRefsIn_of_scan hpiece]
  intro hsame
  have hcut : cutFragment ['b'] = ['b'] := by decide
  have hmem : (String.ofList ['a'], String.ofList ['b']) ∈ reference p' t' := by
    have hrefs := List.append_cancel_left hsame
    rw [List.append_nil, hcut] at hrefs
    rw [hrefs, mem_reference]
    exact ⟨rfl, rfl, List.cons_ne_nil _ _, List.cons_ne_nil _ _⟩
  exact hne (mem_reference.1 hmem).1

/-- **Piece by piece**, whatever follows, exactly if no issuer is left open. -/
theorem credRefsIn_join_iff (u : String) :
    (∀ (c : Char) (v : String), isTerminator c = true → c ≠ ':' →
      credRefsIn (u ++ String.singleton c ++ v) = credRefsIn u ++ credRefsIn v) ↔
        ¬ OpenIssuer u.toList := by
  constructor
  · intro hjoin hopen
    exact openIssuer_loses hopen (hjoin ' ' _ (by decide) (by decide))
  · intro hopen c v hc hcolon
    obtain ⟨qs, hqs⟩ := scan_exists u.toList
    obtain ⟨rs, hrs⟩ := scan_exists v.toList
    have hscan : Scan (u ++ String.singleton c ++ v).toList (qs ++ rs) := by
      simpa using scan_join hqs hopen hc hcolon hrs
    rw [credRefsIn_of_scan hscan, credRefsIn_of_scan hqs, credRefsIn_of_scan hrs]

end NetCore
