import CurlyScript.Lexer.Numeral
import CurlyScript.Token.Symbols

/-!
# One lexeme

What the characters at the head of a text amount to, wherever the text stands: a symbol, a
quoted text, a word, a number, or no token at all.  Symbols are tried first, and of two
symbols the longer one wins.

## Main definitions

* `Scan` — the characters taken, and the kind and value or the error they make.
* `longestSymbol` — the longest symbol at the head of a text.
* `stringContents` — what stands before the closing quote.
* `scan` — the lexeme at the head of a text.

## Main results

* `scan_taken_ahead` — what is taken is the head of the text.
* `scan_taken_ne_nil` — at least one character is taken.

## References

`SPEC_FULL.md`, section 4.2, steps 2 to 6.
-/

namespace CurlyScript

/-- The outcome of looking at the head of a text. -/
structure Scan where
  /-- The characters that were taken. -/
  taken : List Char
  /-- The kind and the value of a token, or what is wrong. -/
  outcome : Except LexicalError (Kind × Option Literal)
  /-- Whether the characters are a number whose exponent has no effect. -/
  zeroPower : Bool := false

/-! ### Symbols -/

/-- Extends `seen` by one character after the other as long as some symbol begins so, and
returns the last symbol that was passed, or else `best`. -/
def extendSymbol (seen : List Char) (best : Option (List Char × Kind)) :
    List Char → Option (List Char × Kind)
  | [] => best
  | c :: cs =>
    let seen := seen ++ [c]
    if Symbol.isStart seen then
      let best :=
        match Symbol.kind? seen with
        | some kind => some (seen, kind)
        | none => best
      extendSymbol seen best cs
    else best

/-- The longest symbol at the head of a text, with its kind. -/
def longestSymbol (cs : List Char) : Option (List Char × Kind) := extendSymbol [] none cs

/-! ### Words and quoted texts -/

/-- Whether a character may start a word. -/
def isWordStart (c : Char) : Bool :=
  ('a' ≤ c && c ≤ 'z') || ('A' ≤ c && c ≤ 'Z') || c == '_'

/-- Whether a character may continue a word. -/
def isWordPart (c : Char) : Bool := isWordStart c || isDecimalDigit c

/-- A word is a reserved word, or else a name, which is its own value. -/
def scanWord (word : List Char) : Scan :=
  let text := String.ofList word
  match Keyword.ofWord? text with
  | some keyword => { taken := word, outcome := .ok (.keyword keyword, none) }
  | none => { taken := word, outcome := .ok (.identifier, some (.str text)) }

/-- The characters before the quote that closes a quoted text.  A backslash takes the
character after it along, whatever that is. -/
def stringContents : List Char → Option (List Char)
  | [] => none
  | '"' :: _ => some []
  | '\\' :: c :: cs => (stringContents cs).map ('\\' :: c :: ·)
  | c :: cs => (stringContents cs).map (c :: ·)

theorem stringContents_cons {c : Char} (hquote : c ≠ '"') (hescape : c ≠ '\\') (cs : List Char) :
    stringContents (c :: cs) = (stringContents cs).map (c :: ·) := by
  rw [stringContents]
  · exact fun h => hquote h
  · exact fun _ _ h _ => hescape h

/-- A quoted text, `cs` being what follows its opening quote. -/
def scanString (cs : List Char) : Scan :=
  match stringContents cs with
  | some contents =>
    { taken := '"' :: contents ++ ['"']
      outcome := .ok (.literal .string, some (.str (String.ofList contents))) }
  | none => { taken := '"' :: cs, outcome := .error .unterminatedString }

/-! ### Numbers -/

/-- A number, `cs` beginning with a digit. -/
def scanNumber (cs : List Char) : Scan :=
  match Numeral.read cs with
  | .error (taken, cause) => { taken, outcome := .error cause }
  | .ok numeral =>
    { taken := numeral.text
      outcome := numeral.value.map fun value => (numeral.kind, some value)
      zeroPower := numeral.hasZeroPower }

/-! ### Lexemes -/

/-- The lexeme at the head of `c :: cs`, where `c` is not blank. -/
def scan (c : Char) (cs : List Char) : Scan :=
  match longestSymbol (c :: cs) with
  | some (symbol, kind) => { taken := symbol, outcome := .ok (kind, none) }
  | none =>
    if c = '"' then scanString cs
    else if isWordStart c then scanWord (c :: cs.takeWhile isWordPart)
    else if isDecimalDigit c then scanNumber (c :: cs)
    else { taken := [c], outcome := .error (.unexpectedChar c) }

/-! ### The head of a text is taken -/

theorem extendSymbol_ahead {seen : List Char} {best : Option (List Char × Kind)} {cs : List Char}
    (hbest : ∀ found ∈ best, found.1 <+: seen ++ cs) :
    ∀ found ∈ extendSymbol seen best cs, found.1 <+: seen ++ cs := by
  induction cs generalizing seen best with
  | nil => exact hbest
  | cons c cs ih =>
    rw [List.append_cons] at hbest ⊢
    simp only [extendSymbol]
    split
    · refine ih ?_
      intro found hfound
      split at hfound
      · cases hfound
        exact List.prefix_append _ _
      · exact hbest found hfound
    · exact hbest

theorem digitRun_ahead (cs : List Char) : digitRun cs <+: cs := by
  unfold digitRun
  split
  · exact List.takeWhile_prefix _
  · exact List.nil_prefix

/-- The contents of a quoted text come with its closing quote. -/
theorem stringContents_ahead {cs contents : List Char} (h : stringContents cs = some contents) :
    contents ++ ['"'] <+: cs := by
  fun_induction stringContents cs generalizing contents with
  | case1 => cases h
  | case2 cs =>
    cases h
    exact ⟨cs, rfl⟩
  | case3 c cs ih =>
    obtain ⟨more, hmore, rfl⟩ := Option.map_eq_some_iff.mp h
    simpa using ih hmore
  | case4 c cs _ _ ih =>
    obtain ⟨more, hmore, rfl⟩ := Option.map_eq_some_iff.mp h
    simpa using ih hmore

theorem Numeral.fractionText_ahead (cs : List Char) : fractionText (readFraction cs) <+: cs := by
  unfold readFraction
  split
  · split
    · exact List.prefix_cons_inj _ |>.mpr (digitRun_ahead _)
    · exact List.nil_prefix
  · exact List.nil_prefix

theorem Numeral.readExponent_ahead (cs : List Char) :
    (∀ exponent, readExponent cs = .ok exponent → exponentText exponent <+: cs) ∧
    ∀ taken cause, readExponent cs = .error (taken, cause) → taken <+: cs := by
  unfold readExponent
  split
  · exact ⟨nofun, by rintro _ _ ⟨⟩; exact ⟨_, rfl⟩⟩
  · split
    · refine ⟨?_, nofun⟩
      rintro _ ⟨⟩
      simpa [exponentText] using digitRun_ahead _
    · exact ⟨nofun, by rintro _ _ ⟨⟩; exact ⟨_, rfl⟩⟩
  · split
    · refine ⟨?_, nofun⟩
      rintro _ ⟨⟩
      simpa [exponentText] using digitRun_ahead _
    · exact ⟨nofun, by rintro _ _ ⟨⟩; exact ⟨_, rfl⟩⟩
  · exact ⟨by rintro _ ⟨⟩; exact List.nil_prefix, nofun⟩

theorem Numeral.point_ahead {cs : List Char} (h : (readFraction cs).isSome = true) :
    ['.'] <+: cs := by
  unfold readFraction at h
  split at h
  · exact ⟨_, rfl⟩
  · cases h

/-- The characters of a numeral, or of what was taken for one, are the head of the text. -/
theorem Numeral.read_ahead (cs : List Char) :
    (∀ n, read cs = .ok n → n.text <+: cs) ∧
    ∀ taken cause, read cs = .error (taken, cause) → taken <+: cs := by
  -- the text is the whole part, the fraction and a rest that an exponent may begin
  have hwhole := List.prefix_iff_eq_append.mp (digitRun_ahead cs)
  unfold read
  simp only
  generalize cs.drop (digitRun cs).length = rest at hwhole ⊢
  have hwritten := List.prefix_iff_eq_append.mp (fractionText_ahead rest)
  generalize rest.drop (fractionText (readFraction rest)).length = last at hwritten ⊢
  have hahead (taken : List Char) (h : taken <+: last) :
      digitRun cs ++ fractionText (readFraction rest) ++ taken <+: cs := by
    obtain ⟨more, hmore⟩ := h
    exact ⟨more, by rw [List.append_assoc, List.append_assoc, hmore, hwritten, hwhole]⟩
  obtain ⟨hok, herror⟩ := readExponent_ahead last
  split
  · next hpoint =>
    refine ⟨nofun, ?_⟩
    rintro _ _ ⟨⟩
    exact hahead _ (point_ahead (Bool.and_eq_true_iff.mp hpoint).2)
  · split
    · next hexponent =>
      refine ⟨?_, nofun⟩
      rintro _ ⟨⟩
      exact hahead _ (hok _ hexponent)
    · next hexponent =>
      refine ⟨nofun, ?_⟩
      rintro _ _ ⟨⟩
      exact hahead _ (herror _ _ hexponent)

/-- Whichever way it is found, a lexeme is the head of the text. -/
theorem scan_taken_ahead (c : Char) (cs : List Char) : (scan c cs).taken <+: c :: cs := by
  unfold scan
  split
  · next symbol kind h => exact extendSymbol_ahead (by simp) _ h
  · split
    · next hquote =>
      subst hquote
      unfold scanString
      split
      · next contents h => exact (List.prefix_cons_inj _).mpr (stringContents_ahead h)
      · exact List.prefix_refl _
    · split
      · have hword : c :: cs.takeWhile isWordPart <+: c :: cs :=
          (List.prefix_cons_inj c).mpr <| List.takeWhile_prefix _
        unfold scanWord
        simp only
        split <;> exact hword
      · split
        · unfold scanNumber
          obtain ⟨hok, herror⟩ := Numeral.read_ahead (c :: cs)
          split
          · next h => exact herror _ _ h
          · next h => exact hok _ h
        · exact ⟨cs, rfl⟩

/-! ### Something is always taken -/

theorem extendSymbol_ne_nil {seen : List Char} {best : Option (List Char × Kind)}
    (hbest : ∀ found ∈ best, found.1 ≠ []) (cs : List Char) :
    ∀ found ∈ extendSymbol seen best cs, found.1 ≠ [] := by
  induction cs generalizing seen best with
  | nil => exact hbest
  | cons c cs ih =>
    simp only [extendSymbol]
    split
    · refine ih ?_
      intro found hfound
      split at hfound
      · cases hfound
        simp
      · exact hbest found hfound
    · exact hbest

theorem longestSymbol_ne_nil {cs : List Char} {found : List Char × Kind}
    (h : longestSymbol cs = some found) : found.1 ≠ [] :=
  extendSymbol_ne_nil (by simp) cs found h

theorem digitRun_ne_nil {c : Char} (hc : isDecimalDigit c = true) (cs : List Char) :
    digitRun (c :: cs) ≠ [] := by
  simp [digitRun, startsWithDigit, isDigitOrSeparator, hc]

theorem scanNumber_taken_ne_nil {c : Char} (hc : isDecimalDigit c = true) (cs : List Char) :
    (scanNumber (c :: cs)).taken ≠ [] := by
  have hrun := digitRun_ne_nil hc cs
  unfold scanNumber
  split
  · next taken cause h =>
    unfold Numeral.read at h
    simp only at h
    split at h
    · cases h
      simp [hrun]
    · split at h
      · cases h
      · cases h
        simp [hrun]
  · next numeral h =>
    unfold Numeral.read at h
    simp only at h
    split at h
    · cases h
    · split at h
      · cases h
        simp [Numeral.text, hrun]
      · cases h

/-- Whatever stands at the head of a text, at least one character of it is taken. -/
theorem scan_taken_ne_nil (c : Char) (cs : List Char) : (scan c cs).taken ≠ [] := by
  unfold scan
  split
  · next symbol kind h => exact longestSymbol_ne_nil h
  · split
    · unfold scanString
      split <;> simp
    · split
      · unfold scanWord
        simp only
        split <;> simp
      · split
        · next hc => exact scanNumber_taken_ne_nil hc cs
        · simp

end CurlyScript
