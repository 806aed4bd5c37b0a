import Mathlib.Data.List.TakeWhile

/-!
# JSON texts

The grammar of JSON as a machine that reads one character after the other: a `Mode`
says what is due next, a stack which arrays and objects are open.  A text is JSON if
the machine gets through it and nothing is open at the end (`isText`).

A value closes with its last character, a number alone only with what comes behind it.
So where a JSON text begins another one, only white space is left of the longer one
(`isText_rest`), unless the first ends inside a number of the second (`CutsNumber`),
and that takes a text that is a number (`not_cutsNumber`).
-/

namespace JsonText

def isWhitespace (c : Char) : Bool := c == ' ' || c == '\n' || c == '\t' || c == '\r'

/-! ## The machine -/

inductive Frame
  | array
  | object
deriving DecidableEq, Repr

/-- How far a number has come. -/
inductive Part
  | minus
  | zero
  | integer
  | point
  | fraction
  | exponent
  | sign
  | power
deriving DecidableEq, Repr

/-- The number may end here. -/
def Part.complete : Part → Bool
  | .zero | .integer | .fraction | .power => true
  | .minus | .point | .exponent | .sign => false

def Part.next : Part → Char → Option Part
  | .minus, c => if c = '0' then some .zero else if c.isDigit then some .integer else none
  | .zero, c => if c = '.' then some .point else if c = 'e' ∨ c = 'E' then some .exponent else none
  | .integer, c =>
    if c.isDigit then some .integer else if c = '.' then some .point
    else if c = 'e' ∨ c = 'E' then some .exponent else none
  | .point, c => if c.isDigit then some .fraction else none
  | .fraction, c =>
    if c.isDigit then some .fraction else if c = 'e' ∨ c = 'E' then some .exponent else none
  | .exponent, c =>
    if c.isDigit then some .power else if c = '+' ∨ c = '-' then some .sign else none
  | .sign, c | .power, c => if c.isDigit then some .power else none

inductive Word
  | true
  | false
  | null
deriving DecidableEq, Repr

def Word.letters : Word → List Char
  | .true => ['t', 'r', 'u', 'e']
  | .false => ['f', 'a', 'l', 's', 'e']
  | .null => ['n', 'u', 'l', 'l']

inductive Mode
  | value
  /-- behind `[`: a value, or the end of the array -/
  | element
  /-- behind the opening brace: a key, or the end of the object -/
  | member
  /-- behind a comma in an object -/
  | key
  | colon
  /-- behind a value -/
  | closed
  | string (isKey : Bool)
  | escape (isKey : Bool)
  | hex (isKey : Bool) (left : Nat)
  | word (w : Word) (read : Nat)
  | number (part : Part)
deriving DecidableEq, Repr

structure State where
  mode : Mode
  stack : List Frame
deriving DecidableEq, Repr

def start : State := ⟨.value, []⟩

def isHexDigit (c : Char) : Bool :=
  c.isDigit || ('a' ≤ c && c ≤ 'f') || ('A' ≤ c && c ≤ 'F')

def startValue (stack : List Frame) (c : Char) : Option State :=
  if c = '[' then some ⟨.element, .array :: stack⟩
  else if c = '{' then some ⟨.member, .object :: stack⟩
  else if c = '"' then some ⟨.string false, stack⟩
  else if c = 't' then some ⟨.word .true 1, stack⟩
  else if c = 'f' then some ⟨.word .false 1, stack⟩
  else if c = 'n' then some ⟨.word .null 1, stack⟩
  else if c = '-' then some ⟨.number .minus, stack⟩
  else (Part.minus.next c).map fun part => ⟨.number part, stack⟩

def afterValue (stack : List Frame) (c : Char) : Option State :=
  if isWhitespace c then some ⟨.closed, stack⟩
  else match stack with
    | .array :: rest =>
      if c = ',' then some ⟨.value, stack⟩ else if c = ']' then some ⟨.closed, rest⟩ else none
    | .object :: rest =>
      if c = ',' then some ⟨.key, stack⟩ else if c = '}' then some ⟨.closed, rest⟩ else none
    | [] => none

def step (s : State) (c : Char) : Option State :=
  match s.mode with
  | .value => if isWhitespace c then some s else startValue s.stack c
  | .element =>
    if isWhitespace c then some s else if c = ']' then some ⟨.closed, s.stack.tail⟩
    else startValue s.stack c
  | .member =>
    if isWhitespace c then some s else if c = '}' then some ⟨.closed, s.stack.tail⟩
    else if c = '"' then some ⟨.string true, s.stack⟩ else none
  | .key =>
    if isWhitespace c then some s else if c = '"' then some ⟨.string true, s.stack⟩ else none
  | .colon => if isWhitespace c then some s else if c = ':' then some ⟨.value, s.stack⟩ else none
  | .closed => afterValue s.stack c
  | .string isKey =>
    if c = '"' then some ⟨if isKey then .colon else .closed, s.stack⟩
    else if c = '\\' then some ⟨.escape isKey, s.stack⟩
    else if c.toNat < 32 then none else some s
  | .escape isKey =>
    if c = 'u' then some ⟨.hex isKey 3, s.stack⟩
    else if ['"', '\\', '/', 'b', 'f', 'n', 'r', 't'].contains c then some ⟨.string isKey, s.stack⟩
    else none
  | .hex isKey left =>
    if isHexDigit c then
      some ⟨if left = 0 then .string isKey else .hex isKey (left - 1), s.stack⟩
    else none
  | .word w read =>
    if w.letters[read]? = some c then
      some ⟨if read + 1 = w.letters.length then .closed else .word w (read + 1), s.stack⟩
    else none
  | .number part =>
    match part.next c with
    | some part => some ⟨.number part, s.stack⟩
    | none => if part.complete then afterValue s.stack c else none

def run (s : State) : List Char → Option State
  | [] => some s
  | c :: text => (step s c).bind fun t => run t text

/-- Nothing is open, and nothing is due. -/
def State.accepts (s : State) : Bool :=
  s.stack.isEmpty && match s.mode with
    | .closed => true
    | .number part => part.complete
    | _ => false

def isText (text : List Char) : Bool := (run start text).any State.accepts

example : isText " [1.5e3, \x7b\"a\":\"\\u00e9\"\x7d]\n".toList = true := by decide +kernel

theorem run_append (s : State) (u v : List Char) :
    run s (u ++ v) = (run s u).bind fun t => run t v := by
  induction u generalizing s with
  | nil => rfl
  | cons c u ih =>
    show (step s c).bind _ = ((step s c).bind _).bind _
    cases step s c with
    | none => rfl
    | some t => exact ih t

theorem isText_iff {text : List Char} :
    isText text = true ↔ ∃ s, run start text = some s ∧ s.accepts = true := by
  unfold isText
  rw [Option.any_eq_true]

theorem accepts_iff {s : State} : s.accepts = true ↔
    s.stack = [] ∧ (s.mode = .closed ∨ ∃ part, s.mode = .number part ∧ part.complete = true) := by
  obtain ⟨mode, stack⟩ := s
  unfold State.accepts
  rw [Bool.and_eq_true, List.isEmpty_iff]
  cases mode with
  | closed => simp
  | number part => simp
  | value | element | member | key | colon | string | escape | hex | word => simp

/-! ## Behind a value -/

/-- With nothing open, white space is all that may follow. -/
theorem run_closed {text : List Char} {s : State} (h : run ⟨.closed, []⟩ text = some s) :
    text.all isWhitespace = true := by
  induction text with
  | nil => rfl
  | cons c text ih =>
    by_cases hc : isWhitespace c = true
    · have hstep : step ⟨.closed, []⟩ c = some ⟨.closed, []⟩ := by
        simp [step, afterValue, hc]
      rw [run, hstep] at h
      rw [List.all_cons, hc, ih h]
      rfl
    · have hstep : step ⟨.closed, []⟩ c = none := by
        simp [step, afterValue, hc]
      rw [run, hstep] at h
      cases h

/-- A text ends inside a number, and what follows goes on with it. -/
def CutsNumber (text rest : List Char) : Prop :=
  ∃ s part c, run start text = some s ∧ s.mode = .number part ∧ rest.head? = some c ∧
    (part.next c).isSome = true

/-- **What a JSON text may be followed by** in a longer one. -/
theorem isText_rest {text rest : List Char} (h : isText text = true)
    (hwhole : isText (text ++ rest) = true) (hcut : ¬ CutsNumber text rest) :
    rest.all isWhitespace = true := by
  obtain ⟨s, hs, hacc⟩ := isText_iff.1 h
  obtain ⟨t, ht, -⟩ := isText_iff.1 hwhole
  obtain ⟨mode, stack⟩ := s
  obtain ⟨rfl, hmode⟩ := accepts_iff.1 hacc
  rw [run_append, hs] at ht
  rcases hmode with rfl | ⟨part, rfl, hpart⟩
  · exact run_closed ht
  · cases rest with
    | nil => rfl
    | cons c rest =>
      cases hnext : part.next c with
      | some part' => exact absurd ⟨_, part, c, hs, rfl, rfl, by rw [hnext]; rfl⟩ hcut
      | none =>
        -- the number ends as if a closed value did
        have hstep : step ⟨.number part, []⟩ c = step ⟨.closed, []⟩ c := by
          simp [step, hnext, hpart]
        have hclosed : run ⟨.closed, []⟩ (c :: rest) = some t := by
          rw [run, ← hstep]
          exact ht
        exact run_closed hclosed

theorem run_whitespace {text : List Char} (h : text.all isWhitespace = true) :
    run ⟨.closed, []⟩ text = some ⟨.closed, []⟩ := by
  induction text with
  | nil => rfl
  | cons c text ih =>
    rw [List.all_cons, Bool.and_eq_true] at h
    have hstep : step ⟨.closed, []⟩ c = some ⟨.closed, []⟩ := by
      simp [step, afterValue, h.1]
    rw [run, hstep]
    exact ih h.2

theorem next_whitespace {c : Char} (h : isWhitespace c = true) (part : Part) :
    part.next c = none := by
  simp only [isWhitespace, Bool.or_eq_true, beq_iff_eq] at h
  cases part with
  | minus | zero | integer | point | fraction | exponent | sign | power =>
    rcases h with ((rfl | rfl) | rfl) | rfl
    all_goals decide

/-- White space behind a JSON text leaves it one. -/
theorem isText_append_whitespace {text ws : List Char} (h : isText text = true)
    (hws : ws.all isWhitespace = true) : isText (text ++ ws) = true := by
  obtain ⟨⟨mode, stack⟩, hs, hacc⟩ := isText_iff.1 h
  obtain ⟨rfl, hmode⟩ := accepts_iff.1 hacc
  cases ws with
  | nil => rwa [List.append_nil]
  | cons c ws =>
    have hstep : step ⟨mode, []⟩ c = some ⟨.closed, []⟩ := by
      rw [List.all_cons, Bool.and_eq_true] at hws
      rcases hmode with rfl | ⟨part, rfl, hpart⟩
      · simp [step, afterValue, hws.1]
      · simp [step, afterValue, next_whitespace hws.1, hpart, hws.1]
    rw [List.all_cons, Bool.and_eq_true] at hws
    refine isText_iff.2 ⟨⟨.closed, []⟩, ?_, rfl⟩
    rw [run_append, hs, Option.bind_some, run, hstep, Option.bind_some, run_whitespace hws.2]

theorem run_digits {digits : List Char} (h : digits.all Char.isDigit = true) :
    run ⟨.number .integer, []⟩ digits = some ⟨.number .integer, []⟩ := by
  induction digits with
  | nil => rfl
  | cons c digits ih =>
    rw [List.all_cons, Bool.and_eq_true] at h
    have hstep : step ⟨.number .integer, []⟩ c = some ⟨.number .integer, []⟩ := by
      simp [step, Part.next, h.1]
    rw [run, hstep]
    exact ih h.2

/-- Digits are a number, unless they start with a zero that could be left out. -/
theorem isText_digits {digits : List Char} (hne : digits ≠ [])
    (hdigits : digits.all Char.isDigit = true)
    (hzero : digits.head? = some '0' → digits.length = 1) : isText digits = true := by
  cases digits with
  | nil => exact absurd rfl hne
  | cons c digits =>
    by_cases hc : c = '0'
    · subst hc
      have hnil : digits = [] := List.length_eq_zero_iff.1 (Nat.succ.inj (hzero rfl))
      subst hnil
      decide
    · rw [List.all_cons, Bool.and_eq_true] at hdigits
      have hne : ∀ d : Char, d.isDigit = false → c ≠ d := by
        rintro d hd rfl
        rw [hd] at hdigits
        cases hdigits.1
      have hstep : step start c = some ⟨.number .integer, []⟩ := by
        simp [step, start, startValue, isWhitespace, Part.next, hc, hdigits.1, hne ' ' rfl,
          hne '\n' rfl, hne '\t' rfl, hne '\r' rfl, hne '[' rfl, hne '{' rfl, hne '"' rfl,
          hne 't' rfl, hne 'f' rfl, hne 'n' rfl, hne '-' rfl]
      refine isText_iff.2 ⟨⟨.number .integer, []⟩, ?_, rfl⟩
      rw [run, hstep]
      exact run_digits hdigits.2

/-! ## What a text starts and ends with -/

/-- The text is a number, if it is JSON. -/
def startsNumber (text : List Char) : Bool :=
  ((text.dropWhile isWhitespace).head?).any fun c => c == '-' || c.isDigit

/-- A value other than a number, and its end if nothing else is open. -/
def Inside (s : State) : Prop :=
  s.stack ≠ [] ∨
    match s.mode with
    | .closed | .string false | .escape false | .hex false _ | .word _ _ => True
    | _ => False

theorem startValue_inside {stack : List Frame} {c : Char} {t : State}
    (h : startValue stack c = some t) (hc : (c == '-' || c.isDigit) = false ∨ stack ≠ []) :
    Inside t := by
  unfold startValue at h
  split_ifs at h with h1 h2 h3 h4 h5 h6 h7
  · cases h
    exact Or.inl (List.cons_ne_nil _ _)
  · cases h
    exact Or.inl (List.cons_ne_nil _ _)
  · cases h
    exact Or.inr trivial
  · cases h
    exact Or.inr trivial
  · cases h
    exact Or.inr trivial
  · cases h
    exact Or.inr trivial
  · rcases hc with hc | hc
    · simp [h7] at hc
    · cases h
      exact Or.inl hc
  · rcases hc with hc | hc
    · rw [Bool.or_eq_false_iff] at hc
      have hnone : Part.minus.next c = none := by
        have hzero : c ≠ '0' := by
          rintro rfl
          exact absurd hc.2 (by decide)
        simp [Part.next, hzero, hc.2]
      rw [hnone] at h
      cases h
    · obtain ⟨part, -, rfl⟩ := Option.map_eq_some_iff.1 h
      exact Or.inl hc

theorem afterValue_inside {stack : List Frame} {c : Char} {t : State}
    (h : afterValue stack c = some t) : Inside t := by
  unfold afterValue at h
  by_cases hws : isWhitespace c = true
  · rw [if_pos hws] at h
    cases h
    exact Or.inr trivial
  · rw [if_neg hws] at h
    cases stack with
    | nil => cases h
    | cons frame rest =>
      cases frame with
      | array | object =>
        simp only at h
        split_ifs at h
        · cases h
          exact Or.inl (List.cons_ne_nil _ _)
        · cases h
          exact Or.inr trivial

/-- Once inside a value that is no number, the machine stays inside or behind it. -/
theorem step_inside {s t : State} {c : Char} (hs : Inside s) (h : step s c = some t) :
    Inside t := by
  obtain ⟨mode, stack⟩ := s
  cases mode with
  | closed => exact afterValue_inside h
  | value | element | member | key | colon =>
    have hstack : stack ≠ [] := hs.resolve_right id
    simp only [step] at h
    split_ifs at h <;> first
      | exact startValue_inside h (Or.inr hstack)
      | (cases h; exact Or.inl hstack)
      | (cases h; exact Or.inr trivial)
  | string isKey | escape isKey | hex isKey left =>
    cases isKey with
    | true =>
      have hstack : stack ≠ [] := hs.resolve_right id
      simp only [step] at h
      split_ifs at h <;> (cases h; exact Or.inl hstack)
    | false =>
      simp only [step, Bool.false_eq_true, if_false] at h
      split_ifs at h <;> (cases h; exact Or.inr trivial)
  | word w read =>
    simp only [step] at h
    split_ifs at h <;> (cases h; exact Or.inr trivial)
  | number part =>
    have hstack : stack ≠ [] := hs.resolve_right id
    simp only [step] at h
    split at h
    · cases h
      exact Or.inl hstack
    · split_ifs at h
      exact afterValue_inside h

theorem run_inside {s t : State} {text : List Char} (hs : Inside s) (h : run s text = some t) :
    Inside t := by
  induction text generalizing s with
  | nil =>
    cases h
    exact hs
  | cons c text ih =>
    obtain ⟨u, hu, h⟩ := Option.bind_eq_some_iff.1 h
    exact ih (step_inside hs hu) h

theorem run_start {text : List Char} {s : State} (hnumber : startsNumber text = false)
    (h : run start text = some s) : s = start ∨ Inside s := by
  induction text with
  | nil =>
    cases h
    exact Or.inl rfl
  | cons c text ih =>
    obtain ⟨t, ht, h⟩ := Option.bind_eq_some_iff.1 h
    by_cases hc : isWhitespace c = true
    · have hstep : step start c = some start := by
        simp [step, start, hc]
      rw [hstep, Option.some.injEq] at ht
      subst ht
      apply ih _ h
      rw [startsNumber, List.dropWhile_cons_of_pos hc] at hnumber
      exact hnumber
    · rw [startsNumber, List.dropWhile_cons_of_neg hc] at hnumber
      have hstep : step start c = startValue [] c := by
        simp [step, start, hc]
      rw [hstep] at ht
      exact Or.inr (run_inside (startValue_inside ht (Or.inl hnumber)) h)

/-- A JSON text that is no number ends in no number. -/
theorem not_cutsNumber {text rest : List Char} (h : isText text = true)
    (hnumber : startsNumber text = false) : ¬ CutsNumber text rest := by
  rintro ⟨s, part, c, hs, hmode, -⟩
  obtain ⟨t, ht, hacc⟩ := isText_iff.1 h
  rw [hs, Option.some.injEq] at ht
  subst ht
  obtain ⟨hstack, -⟩ := accepts_iff.1 hacc
  rcases run_start hnumber hs with rfl | hinside
  · cases hmode
  · rcases hinside with hne | hmatch
    · exact hne hstack
    · rw [hmode] at hmatch
      exact hmatch

theorem startsNumber_append {u v : List Char} (h : isText u = true) :
    startsNumber (u ++ v) = startsNumber u := by
  have hsome : u.dropWhile isWhitespace ≠ [] := by
    intro hnil
    have hws : ∀ c ∈ u, isWhitespace c = true := List.dropWhile_eq_nil_iff.1 hnil
    have hrun : run start u = some start := by
      clear h hnil
      induction u with
      | nil => rfl
      | cons c u ih =>
        have hstep : step start c = some start := by
          simp [step, start, hws c List.mem_cons_self]
        rw [run, hstep]
        exact ih fun c hc => hws c (List.mem_cons_of_mem _ hc)
    rw [isText, hrun] at h
    cases h
  unfold startsNumber
  rw [List.dropWhile_append, if_neg (by simpa using hsome), List.head?_append]
  cases hu : u.dropWhile isWhitespace with
  | nil => exact absurd hu hsome
  | cons c rest => rfl

/-! ### The last character -/

theorem isWhitespace_ascii {c : Char} (h : isWhitespace c = true) : c.toNat < 128 := by
  simp only [isWhitespace, Bool.or_eq_true, beq_iff_eq] at h
  rcases h with ((rfl | rfl) | rfl) | rfl
  all_goals decide

theorem isDigit_ascii {c : Char} (h : c.isDigit = true) : c.toNat < 128 := by
  have hle : c.toNat ≤ 57 := by
    simp only [Char.isDigit, Bool.and_eq_true, decide_eq_true_eq] at h
    exact h.2
  omega

theorem next_letter {part part' : Part} {c : Char} (h : part.next c = some part') :
    c.isDigit = true ∨ c ∈ ['0', '.', 'e', 'E', '+', '-'] := by
  cases part with
  | minus | zero | integer | point | fraction | exponent | sign | power => grind [Part.next]

theorem next_ascii {part part' : Part} {c : Char} (h : part.next c = some part') :
    c.toNat < 128 := by
  rcases next_letter h with hdigit | hletter
  · exact isDigit_ascii hdigit
  · simp only [List.mem_cons, List.not_mem_nil, or_false] at hletter
    rcases hletter with rfl | rfl | rfl | rfl | rfl | rfl
    all_goals decide

theorem startValue_ascii {stack : List Frame} {c : Char} {t : State}
    (h : startValue stack c = some t) : c.toNat < 128 := by
  unfold startValue at h
  split_ifs at h with hc hc hc hc hc hc hc
  iterate 7
    · rw [hc]; decide
  · obtain ⟨part, hpart, -⟩ := Option.map_eq_some_iff.1 h
    exact next_ascii hpart

theorem afterValue_ascii {stack : List Frame} {c : Char} {t : State}
    (h : afterValue stack c = some t) : c.toNat < 128 := by
  unfold afterValue at h
  by_cases hws : isWhitespace c = true
  · exact isWhitespace_ascii hws
  · rw [if_neg hws] at h
    cases stack with
    | nil => cases h
    | cons frame rest =>
      cases frame with
      | array | object =>
        simp only at h
        split_ifs at h with h1 h2
        · rw [h1]; decide
        · rw [h2]; decide

/-- Inside a string any character may come, but nothing ends there. -/
theorem step_ascii {s t : State} {c : Char} (h : step s c = some t) (hacc : t.accepts = true) :
    c.toNat < 128 := by
  obtain ⟨hstack, hmode⟩ := accepts_iff.1 hacc
  obtain ⟨mode, stack⟩ := s
  cases mode with
  | closed => exact afterValue_ascii h
  | value =>
    simp only [step] at h
    split_ifs at h with hws
    · exact isWhitespace_ascii hws
    · exact startValue_ascii h
  | element =>
    simp only [step] at h
    split_ifs at h with hws hend
    · exact isWhitespace_ascii hws
    · rw [hend]; decide
    · exact startValue_ascii h
  | member =>
    simp only [step] at h
    split_ifs at h with hws hend hquote
    · exact isWhitespace_ascii hws
    · rw [hend]; decide
    · rw [hquote]; decide
  | key | colon =>
    simp only [step] at h
    split_ifs at h with hws hmark
    · exact isWhitespace_ascii hws
    · rw [hmark]; decide
  | string isKey =>
    simp only [step] at h
    split_ifs at h with hquote _ hescape
    · rw [hquote]; decide
    · rw [hquote]; decide
    · rw [hescape]; decide
    · cases h
      simp at hmode
  | escape isKey | hex isKey left =>
    simp only [step] at h
    split_ifs at h
    all_goals
      cases h
      simp at hmode
  | word w read =>
    simp only [step] at h
    split_ifs at h with hread
    all_goals
      have hletter := List.mem_of_getElem? hread
      cases w with
      | true | false | null =>
        simp only [Word.letters, List.mem_cons, List.not_mem_nil, or_false] at hletter
        rcases hletter with rfl | rfl | rfl | rfl | rfl <;> decide
  | number part =>
    simp only [step] at h
    split at h
    · next part' hnext => exact next_ascii hnext
    · split_ifs at h
      exact afterValue_ascii h

/-- **The last character** of a JSON text is ASCII. -/
theorem isText_last {text : List Char} {c : Char} (h : isText (text ++ [c]) = true) :
    c.toNat < 128 := by
  obtain ⟨t, ht, hacc⟩ := isText_iff.1 h
  rw [run_append] at ht
  obtain ⟨s, -, ht⟩ := Option.bind_eq_some_iff.1 ht
  obtain ⟨u, hu, hrest⟩ := Option.bind_eq_some_iff.1 ht
  cases hrest
  exact step_ascii hu hacc

end JsonText
