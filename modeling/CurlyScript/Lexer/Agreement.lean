import CurlyScript.Lexer.Scanner

/-!
# What scanners come to

A scanner comes to what a scan of the text before it comes to, and to the place after the characters
that the scan takes.  Though only some of its steps look for newlines, it has the right line and
the right start of the line at every place, as no symbol, word or run of digits holds a newline.

## Main definitions

* `Scanner.past` — a scanner past some characters, each of which moves the place.
* `Scanner.conclude` — what a scan makes of the head of the text.

## Main results

* `Scanner.skip_eq_past` — skipping characters without a newline moves past them.
* `Scanner.number_eq` — a number is read as it is written.
* `Scanner.token_eq` — a token is what the scan of its text comes to.
* `Scanner.nextToken_eq` — the next token is the one after the blanks.
-/

namespace CurlyScript

/-! ### Places in a line -/

namespace Mark

theorem ext {m m' : Mark} (hline : m.line = m'.line) (hstart : m.lineStart = m'.lineStart)
    (hoffset : m.offset = m'.offset) : m = m' := by
  cases m
  cases m'
  cases hline
  cases hstart
  cases hoffset
  rfl

/-- Characters without a newline leave the place in its line. -/
theorem after_of_notMem (m : Mark) {cs : List Char} (h : '\n' ∉ cs) :
    m.after cs = m.forward (Text.byteLength cs) := by
  induction cs generalizing m with
  | nil => rfl
  | cons c cs ih =>
    rw [List.mem_cons, not_or] at h
    have hstep : m.step c = m.forward c.utf8Size := if_neg (Ne.symm h.1)
    rw [after_cons, hstep, ih _ h.2]
    exact ext rfl rfl (Nat.add_assoc _ _ _)

end Mark

/-! ### No newlines -/

theorem newline_notMem_takeWhile {p : Char → Bool} (hp : p '\n' = false) (cs : List Char) :
    '\n' ∉ cs.takeWhile p := by
  intro hmem
  have hnewline := List.all_eq_true.mp List.all_takeWhile '\n' hmem
  rw [hp] at hnewline
  cases hnewline

theorem newline_notMem_digitRun (cs : List Char) : '\n' ∉ digitRun cs := by
  unfold digitRun
  split
  · exact newline_notMem_takeWhile rfl cs
  · exact List.not_mem_nil

/-- The beginning of a symbol has no newline, for no symbol has one. -/
theorem newline_notMem_of_isStart {text : List Char} (h : Symbol.isStart text = true) :
    '\n' ∉ text := by
  have hsymbols : Symbol.table.all (fun entry => !entry.1.toList.contains '\n') = true := by
    decide +kernel
  obtain ⟨entry, hentry, hprefix⟩ := List.any_eq_true.mp (Bool.and_eq_true_iff.mp h).2
  have hsymbol := List.all_eq_true.mp hsymbols entry hentry
  intro hmem
  have hnewline := (List.isPrefixOf_iff_prefix.mp hprefix).subset hmem
  rw [← List.contains_iff_mem] at hnewline
  rw [hnewline] at hsymbol
  cases hsymbol

theorem newline_notMem_extendSymbol {seen : List Char} {best : Option (List Char × Kind)}
    (hbest : ∀ found ∈ best, '\n' ∉ found.1) (cs : List Char) :
    ∀ found ∈ extendSymbol seen best cs, '\n' ∉ found.1 := by
  induction cs generalizing seen best with
  | nil => exact hbest
  | cons c cs ih =>
    simp only [extendSymbol]
    split
    · next hstart =>
      refine ih ?_
      intro found hfound
      split at hfound
      · cases hfound
        exact newline_notMem_of_isStart hstart
      · exact hbest found hfound
    · exact hbest

namespace Scanner

/-! ### Moving past characters -/

/-- A scanner past some characters of its text, each of which moves the place. -/
def past (s : Scanner) (taken : List Char) : Scanner :=
  { s with
    rest := s.rest.drop taken.length
    mark := s.mark.after taken
    start_le_mark := by
      rw [Mark.offset_after]
      exact Nat.le_trans s.start_le_mark (Nat.le_add_right ..) }

variable {s : Scanner} {taken : List Char}

@[simp] theorem past_nil (s : Scanner) : s.past [] = s := rfl

@[simp] theorem past_past (s : Scanner) (as bs : List Char) :
    (s.past as).past bs = s.past (as ++ bs) := by
  simp only [past, List.drop_drop, List.length_append, Mark.after, List.foldl_append]

@[simp] theorem rest_past (s : Scanner) (taken : List Char) :
    (s.past taken).rest = s.rest.drop taken.length := rfl

/-- The text behind what has been taken. -/
theorem rest_past_append {more : List Char} (h : s.rest = taken ++ more) :
    (s.past taken).rest = more := by
  rw [rest_past, h, List.drop_left]

theorem advance_eq_past {c : Char} {cs : List Char} (h : s.rest = c :: cs) :
    s.advance = s.past [c] := by
  unfold advance
  split
  · next hnil =>
    rw [h] at hnil
    cases hnil
  · next hcons =>
    rw [h] at hcons
    cases hcons
    simp only [past, h]
    rfl

/-- Skipping characters without a newline moves past them. -/
theorem skip_eq_past (htaken : taken <+: s.rest) (hline : '\n' ∉ taken) :
    s.skip (Text.byteLength taken) = s.past taken := by
  obtain ⟨rest, hrest⟩ := htaken
  have hleft : Text.dropBytes (Text.byteLength taken) s.rest = s.rest.drop taken.length := by
    rw [← hrest, Text.dropBytes_append, List.drop_left]
  simp only [skip, past, hleft, Mark.after_of_notMem _ hline]

/-! ### The token so far -/

/-- The scanner is at the start of a token. -/
structure Begun (s : Scanner) : Prop where
  /-- The token begins here. -/
  start_eq : s.start = s.mark
  /-- The text of the token is the text that is left. -/
  tokenText_eq : s.tokenText = s.rest

theorem begun_begin (s : Scanner) : s.begin.Begun := ⟨rfl, rfl⟩

/-- The lexeme is what has been taken since the start of the token. -/
theorem Begun.lexeme_past (h : s.Begun) (htaken : taken <+: s.rest) :
    (s.past taken).lexeme = taken := by
  obtain ⟨rest, hrest⟩ := htaken
  show Text.takeBytes ((s.mark.after taken).offset - s.start.offset) s.tokenText = taken
  rw [h.start_eq, h.tokenText_eq, Mark.offset_after, Nat.add_sub_cancel_left, ← hrest,
    Text.takeBytes_append]

/-- The span of the token is the one over what has been taken. -/
theorem Begun.span_past (h : s.Begun) (taken : List Char) :
    (s.past taken).span = s.mark.spanOver s.file taken := by
  simp only [span, Mark.spanOver, past, h.start_eq, Mark.offset_after]

/-! ### What a scan makes of the text -/

/-- A scanner that has been told some more. -/
def told (s : Scanner) (events : List LexerEvent) : Scanner := { s with log := s.log ++ events }

@[simp] theorem told_nil (s : Scanner) : s.told [] = s := by simp [told]

theorem told_told (s : Scanner) (events more : List LexerEvent) :
    (s.told events).told more = s.told (events ++ more) := by
  simp only [told, List.append_assoc]

/-- The warning of a scan about an exponent without effect. -/
def warnings (s : Scanner) (found : Scan) : List LexerEvent :=
  if found.zeroPower then [.zeroPower (s.mark.spanOver s.file found.taken)] else []

/-- What is said of a number that has been read. -/
def numbers (lexeme : String) : Kind → Option Literal → List LexerEvent
  | .literal .int, some value => [.scannedNumber lexeme value]
  | .literal .float, some value => [.scannedNumber lexeme value]
  | _, _ => []

theorem numbers_none (lexeme : String) (kind : Kind) : numbers lexeme kind none = [] := by
  unfold numbers
  split
  · next h => cases h
  · next h => cases h
  · rfl

theorem numbers_kind (lexeme : String) (n : Numeral) (value : Literal) :
    numbers lexeme n.kind (some value) = [.scannedNumber lexeme value] := by
  unfold Numeral.kind
  split <;> rfl

/-- What a scan makes of the head of the text: a token or an error, behind what it takes. -/
def conclude (s : Scanner) (found : Scan) : EStateM.Result LexicalError Scanner Token :=
  match found.outcome with
  | .error cause => .error cause ((s.past found.taken).told (s.warnings found))
  | .ok (kind, literal) =>
    let lexeme := String.ofList found.taken
    .ok { kind, lexeme, span := s.mark.spanOver s.file found.taken, literal }
      ((s.past found.taken).told (s.warnings found ++ numbers lexeme kind literal))

/-- The token that has been read, after what has been taken and told. -/
theorem Begun.makeToken_told (h : s.Begun) (htaken : taken <+: s.rest) (kind : Kind)
    (literal : Option Literal) (events : List LexerEvent) :
    makeToken kind literal ((s.past taken).told events) = .ok
      { kind, lexeme := String.ofList taken, span := s.mark.spanOver s.file taken, literal }
      ((s.past taken).told events) := by
  have hlexeme : ((s.past taken).told events).lexeme = taken := h.lexeme_past htaken
  have hspan : ((s.past taken).told events).span = s.mark.spanOver s.file taken := h.span_past taken
  rw [makeToken, hlexeme, hspan]

/-- A token for what has been taken, if it is not a number. -/
theorem Begun.token_past (h : s.Begun) (htaken : taken <+: s.rest) {kind : Kind}
    {literal : Option Literal} (hkind : numbers (String.ofList taken) kind literal = []) :
    makeToken kind literal (s.past taken) =
      s.conclude { taken, outcome := .ok (kind, literal) } := by
  have hmake := h.makeToken_told htaken kind literal []
  rw [told_nil] at hmake
  simp only [conclude, hkind, hmake]
  exact congrArg _ (told_nil _).symm

/-- An error about what has been taken. -/
theorem error_past (s : Scanner) (cause : LexicalError) (taken : List Char) :
    .error cause (s.past taken) = s.conclude { taken, outcome := .error cause } :=
  congrArg _ (told_nil _).symm

/-! ### Steps one after the other -/

variable {α β : Type} {s' : Scanner}

theorem get_bind (f : Scanner → Scanning α) (s : Scanner) : (get >>= f) s = f s s := rfl

theorem modify_bind (g : Scanner → Scanner) (f : Unit → Scanning α) (s : Scanner) :
    (modify g >>= f) s = f () (g s) := rfl

theorem bind_ok {x : Scanning α} {a : α} (h : x s = .ok a s') (f : α → Scanning β) :
    (x >>= f) s = f a s' := by
  show EStateM.bind x f s = f a s'
  rw [EStateM.bind, h]

theorem bind_error {x : Scanning α} {cause : LexicalError} (h : x s = .error cause s')
    (f : α → Scanning β) : (x >>= f) s = .error cause s' := by
  show EStateM.bind x f s = _
  rw [EStateM.bind, h]

/-! ### Symbols and words -/

theorem symbol_of_none (h : longestSymbol s.rest = none) : symbol s = .ok none s := by
  rw [symbol, h]

theorem symbol_of_some {spelling : List Char} {kind : Kind}
    (h : longestSymbol s.rest = some (spelling, kind)) :
    symbol s = .ok (some kind) (s.past spelling) := by
  have hahead : spelling <+: s.rest := extendSymbol_ahead (by simp) _ h
  have hline : '\n' ∉ spelling := newline_notMem_extendSymbol (by simp) _ _ h
  simp only [symbol, h, skip_eq_past hahead hline]

theorem word_eq (h : s.Begun) {c : Char} {cs : List Char} (hrest : s.rest = c :: cs)
    (hc : isWordStart c = true) :
    word s = s.conclude (scanWord (c :: cs.takeWhile isWordPart)) := by
  have hahead : c :: cs.takeWhile isWordPart <+: s.rest := by
    rw [hrest, List.prefix_cons_inj]
    exact List.takeWhile_prefix _
  have hline : '\n' ∉ c :: cs.takeWhile isWordPart := by
    rw [List.mem_cons, not_or]
    refine ⟨?_, newline_notMem_takeWhile rfl cs⟩
    rintro rfl
    cases hc
  have hskip : s.skip ((wordLength? s.rest).getD 1) = s.past (c :: cs.takeWhile isWordPart) := by
    rw [hrest, wordLength?, if_pos hc, Option.getD_some, skip_eq_past hahead hline]
  rw [word, modify_bind, hskip, get_bind, h.lexeme_past hahead, scanWord]
  split
  · next keyword hkeyword =>
    simp only [hkeyword]
    exact h.token_past hahead rfl
  · next hkeyword =>
    simp only [hkeyword]
    exact h.token_past hahead rfl

/-! ### Quoted texts -/

/-- The quote that closes a quoted text is the one behind its contents. -/
theorem closeQuote_eq (s : Scanner) : closeQuote s =
    match stringContents s.rest with
    | some contents => .ok () (s.past (contents ++ ['"']))
    | none => .error .unterminatedString (s.past s.rest) := by
  fun_induction closeQuote s with
  | case1 s h =>
    rw [h]
    rfl
  | case2 s cs h =>
    rw [advance_eq_past h, h]
    rfl
  | case3 s cs h hquote ih =>
    rw [ih, advance_eq_past h]
    -- the backslash takes the next character along, if there is one
    cases cs with
    | nil =>
      have hnil : (s.past ['\\']).rest = [] := rest_past_append h
      have hstay : (s.past ['\\']).advance = s.past ['\\'] := by rw [advance, hnil]
      rw [hstay, hnil, h]
      rfl
    | cons c cs =>
      have hcons : (s.past ['\\']).rest = c :: cs := rest_past_append h
      have hrest : (s.past ['\\', c]).rest = cs := rest_past_append h
      rw [advance_eq_past hcons, past_past, List.singleton_append, hrest, h, stringContents]
      cases stringContents cs <;> simp only [Option.map_none, Option.map_some, past_past] <;> rfl
  | case4 s c cs h hquote hslash ih =>
    have hrest : (s.past [c]).rest = cs := rest_past_append h
    rw [ih, advance_eq_past h, hrest, h, stringContents_cons hquote hslash]
    cases stringContents cs <;> simp only [Option.map_none, Option.map_some, past_past] <;> rfl

theorem string_eq (h : s.Begun) {cs : List Char} (hrest : s.rest = '"' :: cs) :
    string s = s.conclude (scanString cs) := by
  have hpast : (s.past ['"']).rest = cs := rest_past_append hrest
  have hclose := closeQuote_eq (s.past ['"'])
  rw [hpast] at hclose
  rw [string, modify_bind, advance_eq_past hrest, get_bind, scanString]
  cases hcontents : stringContents cs with
  | none =>
    simp only [hcontents, past_past] at hclose
    rw [bind_error hclose]
    exact error_past _ _ _
  | some contents =>
    simp only [hcontents, past_past] at hclose
    obtain ⟨more, hmore⟩ := stringContents_ahead hcontents
    have hahead : '"' :: contents ++ ['"'] <+: s.rest := by
      rw [hrest, ← hmore]
      exact ⟨more, rfl⟩
    have hbytes : (s.past ('"' :: contents ++ ['"'])).mark.offset - 1 - (s.past ['"']).mark.offset =
        Text.byteLength contents := by
      show ((s.mark.after _).offset - 1) - (s.mark.after _).offset = _
      have hquote : '"'.utf8Size = 1 := rfl
      simp only [Mark.offset_after, Text.byteLength_append, Text.byteLength_cons,
        Text.byteLength_nil, hquote]
      omega
    have htext : Text.takeBytes (Text.byteLength contents) cs = contents := by
      rw [← hmore, List.append_assoc, Text.takeBytes_append]
    rw [bind_ok hclose, get_bind]
    show makeToken _ (some (.str (String.ofList (Text.takeBytes
      ((s.past ('"' :: contents ++ ['"'])).mark.offset - 1 - (s.past ['"']).mark.offset)
      (s.past ['"']).rest)))) _ = _
    rw [hbytes, hpast, htext]
    exact h.token_past hahead rfl

/-! ### Fractions and exponents -/

theorem digits_of_digit (h : startsWithDigit s.rest = true) :
    digits s = .ok (some (digitRun s.rest)) (s.past (digitRun s.rest)) := by
  have hrun : digitRun s.rest = s.rest.takeWhile isDigitOrSeparator := if_pos h
  obtain ⟨rest, hrest⟩ := digitRun_ahead s.rest
  have htext : Text.takeBytes (Text.byteLength (digitRun s.rest)) s.rest = digitRun s.rest := by
    have htake := Text.takeBytes_append (digitRun s.rest) rest
    rwa [hrest] at htake
  simp only [digits, digitsLength?, if_pos h, ← hrun, htext,
    skip_eq_past (digitRun_ahead s.rest) (newline_notMem_digitRun s.rest)]

theorem digits_of_no_digit (h : ¬startsWithDigit s.rest = true) : digits s = .ok none s := by
  simp only [digits, digitsLength?, if_neg h]

theorem beforeFraction_eq (s : Scanner) :
    s.beforeFraction = (Numeral.readFraction s.rest).isSome := by
  unfold beforeFraction Numeral.readFraction peek peekAt
  split
  · next cs h =>
    rw [h]
    cases cs with
    | nil => rfl
    | cons c cs => by_cases hc : isDecimalDigit c <;> simp [startsWithDigit, hc]
  · next h =>
    cases hrest : s.rest with
    | nil => rfl
    | cons c cs =>
      have hc : c ≠ '.' := fun hc => h cs (hc ▸ hrest)
      simp [hc]

theorem exists_of_readFraction {cs run : List Char} (h : Numeral.readFraction cs = some run) :
    ∃ rest, cs = '.' :: rest ∧ startsWithDigit rest = true ∧ run = digitRun rest := by
  unfold Numeral.readFraction at h
  split at h
  · split at h <;> cases h
    next rest hrest => exact ⟨rest, rfl, hrest, rfl⟩
  · cases h

theorem fraction_of_none (h : Numeral.readFraction s.rest = none) :
    fraction s = .ok false s := by
  rw [fraction, get_bind, if_neg]
  · rfl
  · rw [beforeFraction_eq, h]
    exact Bool.false_ne_true

theorem fraction_of_some {run : List Char} (h : Numeral.readFraction s.rest = some run) :
    fraction s =
      if (Numeral.readFraction (s.past ('.' :: run)).rest).isSome then
        .error .invalidFloat ((s.past ('.' :: run)).past ['.'])
      else .ok true (s.past ('.' :: run)) := by
  obtain ⟨rest, hrest, hdigit, rfl⟩ := exists_of_readFraction h
  have hpoint : s.advance = s.past ['.'] := advance_eq_past hrest
  have hpast : (s.past ['.']).rest = rest := rest_past_append hrest
  have hdigits : digits (s.past ['.']) =
      .ok (some (digitRun rest)) (s.past ('.' :: digitRun rest)) := by
    rw [digits_of_digit (hpast ▸ hdigit), hpast, past_past]
    rfl
  have hbefore : s.beforeFraction = true := by rw [beforeFraction_eq, h]; rfl
  rw [fraction, get_bind, if_pos hbefore, modify_bind, hpoint, bind_ok hdigits, get_bind,
    beforeFraction_eq]
  split
  · next hagain =>
    obtain ⟨run', hrun'⟩ := Option.isSome_iff_exists.mp hagain
    obtain ⟨rest', hrest', -, -⟩ := exists_of_readFraction hrun'
    rw [modify_bind, advance_eq_past hrest']
    rfl
  · rfl

/-- A fraction behind which no second one begins. -/
theorem fraction_of_single
    (h : ((Numeral.readFraction s.rest).isSome && (Numeral.readFraction
      (s.past (Numeral.fractionText (Numeral.readFraction s.rest))).rest).isSome) = false) :
    fraction s = .ok (Numeral.readFraction s.rest).isSome
      (s.past (Numeral.fractionText (Numeral.readFraction s.rest))) := by
  cases hfraction : Numeral.readFraction s.rest with
  | none => exact fraction_of_none hfraction
  | some run =>
    rw [hfraction] at h
    rw [fraction_of_some hfraction]
    exact if_neg (Bool.eq_false_iff.mp h)

theorem sign_of_none (h : ∀ cs, s.rest ≠ '-' :: cs) : sign s = .ok false s := by
  rw [sign, get_bind, if_neg]
  · rfl
  · intro hpeek
    obtain ⟨cs, hcs⟩ := List.head?_eq_some_iff.mp hpeek
    exact h cs hcs

theorem sign_of_one {cs : List Char} (h : s.rest = '-' :: cs) (hcs : ∀ cs', cs ≠ '-' :: cs') :
    sign s = .ok true (s.past ['-']) := by
  have hpeek : s.peek = some '-' := by rw [peek, h]; rfl
  rw [sign, get_bind, if_pos hpeek, modify_bind, advance_eq_past h, get_bind, if_neg]
  · rfl
  · intro hagain
    rw [peek, rest_past, h] at hagain
    obtain ⟨cs', hcs'⟩ := List.head?_eq_some_iff.mp hagain
    exact hcs cs' hcs'

theorem sign_of_two {cs : List Char} (h : s.rest = '-' :: '-' :: cs) :
    sign s = .error .multipleNegatives (s.past ['-', '-']) := by
  have hpeek : s.peek = some '-' := by rw [peek, h]; rfl
  have hrest : (s.past ['-']).rest = '-' :: cs := rest_past_append h
  have hagain : (s.past ['-']).peek = some '-' := by rw [peek, hrest]; rfl
  rw [sign, get_bind, if_pos hpeek, modify_bind, advance_eq_past h, get_bind, if_pos hagain,
    modify_bind, advance_eq_past hrest, past_past]
  rfl

theorem exponent_of_none (h : ∀ cs, s.rest ≠ 'e' :: cs) : exponent s = .ok 0 s := by
  rw [exponent, get_bind, if_neg]
  · rfl
  · intro hpeek
    obtain ⟨cs, hcs⟩ := List.head?_eq_some_iff.mp hpeek
    exact h cs hcs

/-- What is said of an exponent that has just been read. -/
def exponentWarnings (s : Scanner) (power : Int) : List LexerEvent :=
  if power = 0 then [.zeroPower s.span] else []

/-- An exponent whose letter and sign have been read. -/
theorem exponent_of_sign {cs : List Char} (h : s.rest = 'e' :: cs) {signed : Bool}
    (hsign : sign (s.past ['e']) = .ok signed s') :
    exponent s =
      if startsWithDigit s'.rest then
        let after := s'.past (digitRun s'.rest)
        let power := Numeral.exponentPower signed (digitRun s'.rest)
        .ok power (after.told (after.exponentWarnings power))
      else .error .invalidNumber s' := by
  have hpeek : s.peek = some 'e' := by rw [peek, h]; rfl
  rw [exponent, get_bind, if_pos hpeek, modify_bind, advance_eq_past h, bind_ok hsign]
  split
  · next hdigit =>
    rw [bind_ok (digits_of_digit hdigit)]
    simp only [exponentWarnings]
    split
    · rfl
    · rw [told_nil]
      rfl
  · next hdigit =>
    rw [bind_ok (digits_of_no_digit hdigit)]
    rfl

/-- An exponent is read as it is written. -/
theorem exponent_eq (s : Scanner) : exponent s =
    match Numeral.readExponent s.rest with
    | .error (read, cause) => .error cause (s.past read)
    | .ok none => .ok 0 s
    | .ok (some (signed, run)) =>
      let after := s.past (Numeral.exponentText (some (signed, run)))
      let power := Numeral.exponentPower signed run
      .ok power (after.told (after.exponentWarnings power)) := by
  generalize hfound : Numeral.readExponent s.rest = found
  unfold Numeral.readExponent at hfound
  split at hfound
  · next cs hrest =>
    subst hfound
    have hpeek : s.peek = some 'e' := by rw [peek, hrest]; rfl
    have hsign := sign_of_two (show (s.past ['e']).rest = _ from rest_past_append hrest)
    rw [exponent, get_bind, if_pos hpeek, modify_bind, advance_eq_past hrest, bind_error hsign]
    simp only [past_past, List.cons_append, List.nil_append]
  · next cs hcs hrest =>
    have hsign := sign_of_one (show (s.past ['e']).rest = _ from rest_past_append hrest) hcs
    have hpast : (s.past ['e', '-']).rest = cs := rest_past_append hrest
    rw [past_past] at hsign
    rw [exponent_of_sign hrest hsign, List.singleton_append, hpast]
    split at hfound
    · next hdigit =>
      subst hfound
      simp only [if_pos hdigit, past_past]
      rfl
    · next hdigit =>
      subst hfound
      exact if_neg hdigit
  · next cs _ hcs hrest =>
    have hpast : (s.past ['e']).rest = cs := rest_past_append hrest
    rw [exponent_of_sign hrest (sign_of_none (hpast ▸ hcs)), hpast]
    split at hfound
    · next hdigit =>
      subst hfound
      simp only [if_pos hdigit, past_past]
      rfl
    · next hdigit =>
      subst hfound
      exact if_neg hdigit
  · next hother =>
    subst hfound
    exact exponent_of_none hother

/-! ### Numbers -/

/-- The kind that a number has is the one that its value has. -/
theorem numberKind_eq {n : Numeral} {value : Literal} (h : n.value = .ok value) :
    Kind.literal (numberKind value) = n.kind := by
  unfold Numeral.value Numeral.literal at h
  rw [Numeral.kind, Numeral.isFloat]
  split at h
  · next hfloat =>
    rw [if_pos hfloat]
    split at h <;> cases h
    rfl
  · next hint =>
    rw [if_neg hint]
    split at h
    · cases h
    · split at h <;> cases h
      rfl

/-- The rest of a number, behind its digits and its fraction. -/
theorem exponent_of_read {n : Numeral} (h : s.Begun)
    (hread : Numeral.readExponent (s.past (n.whole ++ Numeral.fractionText n.fraction)).rest =
      .ok n.exponent) :
    exponent (s.past (n.whole ++ Numeral.fractionText n.fraction)) =
      .ok n.power ((s.past n.text).told
        (if n.hasZeroPower then [.zeroPower (s.mark.spanOver s.file n.text)] else [])) := by
  cases hexponent : n.exponent with
  | none =>
    rw [exponent_eq, hread, hexponent]
    simp [Numeral.text, Numeral.power, Numeral.hasZeroPower, hexponent, Numeral.exponentText]
  | some written =>
    obtain ⟨signed, run⟩ := written
    have hspan := h.span_past n.text
    have htext' : n.text = n.whole ++ Numeral.fractionText n.fraction ++
        Numeral.exponentText (some (signed, run)) := by rw [Numeral.text, hexponent]
    have hpower : n.power = Numeral.exponentPower signed run := by rw [Numeral.power, hexponent]
    rw [exponent_eq, hread, hexponent]
    simp only [past_past, ← htext', ← hpower, exponentWarnings, hspan]
    simp [Numeral.hasZeroPower, hexponent]

/-- A number whose parts have been read is worth what its text is. -/
theorem numberToken_eq {n : Numeral} (h : s.Begun) (htext : n.text <+: s.rest) :
    let found : Scan :=
      { taken := n.text
        outcome := n.value.map fun value => (n.kind, some value)
        zeroPower := n.hasZeroPower }
    numberToken n.whole n.fraction.isSome n.power ((s.past n.text).told (s.warnings found)) =
      s.conclude found := by
  intro found
  have hlexeme : ((s.past n.text).told (s.warnings found)).lexeme = n.text := h.lexeme_past htext
  rw [numberToken, get_bind, hlexeme, ← Numeral.value]
  cases hvalue : n.value with
  | error cause =>
    have hfound : found.outcome = .error cause := by simp only [found, hvalue, Except.map]
    simp only [conclude, hfound]
    rfl
  | ok value =>
    have hfound : found.outcome = .ok (n.kind, some value) := by
      simp only [found, hvalue, Except.map]
    have hnote : ((s.past n.text).told (s.warnings found)).note
        (.scannedNumber (String.ofList n.text) value) =
          (s.past n.text).told (s.warnings found ++
            numbers (String.ofList n.text) n.kind (some value)) := by
      rw [numbers_kind, ← told_told]
      rfl
    simp only [conclude, hfound, modify_bind, numberKind_eq hvalue]
    rw [hnote, h.makeToken_told htext]

theorem number_of_error {read : List Char} {cause : LexicalError}
    (hdigit : startsWithDigit s.rest = true)
    (h : Numeral.read s.rest = .error (read, cause)) :
    number s = .error cause (s.past read) := by
  rw [number, bind_ok (digits_of_digit hdigit)]
  unfold Numeral.read at h
  simp only at h
  split at h
  · next hagain =>
    -- a second fraction begins
    cases h
    obtain ⟨hone, htwo⟩ := Bool.and_eq_true_iff.mp hagain
    obtain ⟨run, hrun⟩ := Option.isSome_iff_exists.mp hone
    rw [hrun] at htwo ⊢
    have hfraction := (fraction_of_some (s := s.past (digitRun s.rest)) hrun).trans (if_pos htwo)
    simp only [bind_error hfraction, past_past, List.append_assoc]
    rfl
  · next hsingle =>
    -- the fraction is read, and then the exponent fails
    have hfraction := fraction_of_single (s := s.past (digitRun s.rest))
      (Bool.eq_false_iff.mpr hsingle)
    rw [past_past] at hfraction
    split at h
    · cases h
    · next hexponent =>
      cases h
      rw [← rest_past, ← rest_past, past_past] at hexponent
      have hlast := exponent_eq (s.past (digitRun s.rest ++
        Numeral.fractionText (Numeral.readFraction (s.past (digitRun s.rest)).rest)))
      rw [hexponent] at hlast
      simp only [bind_ok hfraction, bind_error hlast, past_past]
      rfl

theorem number_of_ok {n : Numeral} (h : s.Begun) (hdigit : startsWithDigit s.rest = true)
    (hread : Numeral.read s.rest = .ok n) :
    number s = s.conclude
      { taken := n.text
        outcome := n.value.map fun value => (n.kind, some value)
        zeroPower := n.hasZeroPower } := by
  have htext : n.text <+: s.rest := (Numeral.read_ahead s.rest).1 n hread
  obtain ⟨hwhole, hfraction, hsingle, hexponent⟩ := Numeral.parts_of_read hread
  have hdigits := digits_of_digit hdigit
  rw [← hwhole] at hdigits
  rw [hfraction] at hsingle
  have hpoint := fraction_of_single (s := s.past n.whole) hsingle
  rw [rest_past, ← hfraction, past_past] at hpoint
  rw [← rest_past, ← rest_past, past_past] at hexponent
  rw [number, bind_ok hdigits]
  simp only
  rw [bind_ok hpoint, bind_ok (exponent_of_read h hexponent)]
  exact numberToken_eq h htext

theorem number_eq (h : s.Begun) (hdigit : startsWithDigit s.rest = true) :
    number s = s.conclude (scanNumber s.rest) := by
  unfold scanNumber
  split
  · next read cause hread =>
    rw [number_of_error hdigit hread]
    exact error_past _ _ _
  · next n hread => exact number_of_ok h hdigit hread

/-! ### The next token -/

/-- A token is what the scan of its text comes to. -/
theorem token_eq (h : s.Begun) {c : Char} {cs : List Char} (hrest : s.rest = c :: cs) :
    token c s = s.conclude (scan c cs) := by
  rw [token, scan, ← hrest]
  cases hsymbol : longestSymbol s.rest with
  | some found =>
    obtain ⟨spelling, kind⟩ := found
    rw [bind_ok (symbol_of_some hsymbol)]
    exact h.token_past (extendSymbol_ahead (by simp) _ hsymbol) (numbers_none _ _)
  | none =>
    rw [bind_ok (symbol_of_none hsymbol)]
    simp only
    split
    · next hquote => exact string_eq h (hquote ▸ hrest)
    · split
      · next hword => exact word_eq h hrest hword
      · split
        · next hdigit => exact number_eq h (by rw [hrest]; exact hdigit)
        · rw [modify_bind, advance_eq_past hrest]
          exact error_past _ _ _

theorem nextToken_of_nil (h : s.rest = []) : nextToken s = .ok none s := by
  rw [nextToken]
  split
  · rfl
  · next hcons =>
    rw [h] at hcons
    cases hcons

/-- What is no blank begins a token. -/
theorem nextToken_of_cons {c : Char} {cs : List Char} (h : s.rest = c :: cs)
    (hc : ¬Text.isBlank c = true) : nextToken s = (some <$> token c) s.begin := by
  rw [nextToken]
  split
  · next hnil =>
    rw [h] at hnil
    cases hnil
  · next hcons =>
    rw [h] at hcons
    cases hcons
    rw [if_neg hc]

/-- Blanks before a token are passed over one by one. -/
theorem nextToken_past_blanks (s : Scanner) :
    nextToken s = nextToken (s.past (s.rest.takeWhile Text.isBlank)) := by
  fun_induction nextToken s with
  | case1 s h => rw [h, List.takeWhile_nil, past_nil, nextToken_of_nil h]
  | case2 s c cs h hblank ih =>
    have hrest : (s.past [c]).rest = cs := rest_past_append h
    rw [advance_eq_past h, hrest, past_past] at ih
    rw [advance_eq_past h, ih, h, List.takeWhile_cons_of_pos hblank]
    rfl
  | case3 s c cs h hblank =>
    rw [h, List.takeWhile_cons_of_neg hblank, past_nil, nextToken_of_cons h hblank]

/-- The next token is what the scan of the text behind the blanks comes to. -/
theorem nextToken_eq {c : Char} {cs : List Char}
    (h : (s.past (s.rest.takeWhile Text.isBlank)).rest = c :: cs) :
    nextToken s = EStateM.map some (fun s => s.conclude (scan c cs))
      (s.past (s.rest.takeWhile Text.isBlank)).begin := by
  have hc : ¬Text.isBlank c = true := by
    -- what is left begins with the first character that is no blank
    have hsplit := List.prefix_iff_eq_append.mp (List.takeWhile_prefix Text.isBlank (l := s.rest))
    have hdrop := List.append_cancel_left (hsplit.trans List.takeWhile_append_dropWhile.symm)
    have hhead := List.head?_dropWhile_not Text.isBlank s.rest
    rw [← hdrop, ← rest_past, h] at hhead
    exact Bool.eq_false_iff.mp hhead
  rw [nextToken_past_blanks, nextToken_of_cons h hc]
  have htoken : token c (s.past (s.rest.takeWhile Text.isBlank)).begin = _ :=
    token_eq (begun_begin _) h
  show EStateM.map some (token c) _ = _
  simp only [EStateM.map, htoken]

end Scanner
end CurlyScript
