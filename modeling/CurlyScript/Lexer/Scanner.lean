import CurlyScript.Lexer.Scan
import CurlyScript.Report.Remark
import CurlyScript.Text.Blank
import CurlyScript.Text.Utf8

/-!
# Scanners

A scanner reads one token.  It keeps the place at which the token begins and the place that it has
come to, each with its line and the start of that line.  A character that is read by itself moves
the line along.  Symbols, words and runs of digits are measured first, and then only the offset
moves.

## Main definitions

* `Mark` — a place in a text.
* `LexerEvent.remark` — what happens while a text is cut into tokens, in words.
* `Scanner` — two places, and the text from each of them on.
* `Scanner.advance`, `Scanner.skip` — the two ways to move.
* `Scanner.symbol`, `Scanner.word`, `Scanner.string`, `Scanner.number` — the tokens.
* `Scanner.nextToken` — the next token, the first error, or the end.

## References

The state machine of `SPEC_FULL.md`, section 4.2.
-/

namespace CurlyScript

/-! ### Places -/

/-- A place in a text. -/
structure Mark where
  /-- The line, counted from one. -/
  line : Nat
  /-- The offset at which the line begins. -/
  lineStart : Nat
  /-- The offset of the place. -/
  offset : Nat
  /-- A place is not before its line. -/
  lineStart_le_offset : lineStart ≤ offset

namespace Mark

/-- The place at the start of a line. -/
def atLineStart (line offset : Nat) : Mark := ⟨line, offset, offset, Nat.le_refl offset⟩

/-- The start of a text. -/
def start : Mark := atLineStart 1 0

/-- The place after one more character. -/
def step (m : Mark) (c : Char) : Mark :=
  if c = '\n' then atLineStart (m.line + 1) (m.offset + c.utf8Size)
  else
    { m with
      offset := m.offset + c.utf8Size
      lineStart_le_offset := Nat.le_trans m.lineStart_le_offset (Nat.le_add_right ..) }

/-- The place after some more characters. -/
def after (m : Mark) (cs : List Char) : Mark := cs.foldl step m

@[simp] theorem after_nil (m : Mark) : m.after [] = m := rfl

@[simp] theorem after_cons (m : Mark) (c : Char) (cs : List Char) :
    m.after (c :: cs) = (m.step c).after cs := rfl

@[simp] theorem offset_step (m : Mark) (c : Char) : (m.step c).offset = m.offset + c.utf8Size := by
  unfold step
  split <;> rfl

@[simp] theorem offset_after (m : Mark) (cs : List Char) :
    (m.after cs).offset = m.offset + Text.byteLength cs := by
  induction cs generalizing m with
  | nil => simp
  | cons c cs ih => simp [ih, Nat.add_assoc]

/-- The place so many bytes further on in the same line. -/
def forward (m : Mark) (bytes : Nat) : Mark :=
  { m with
    offset := m.offset + bytes
    lineStart_le_offset := Nat.le_trans m.lineStart_le_offset (Nat.le_add_right ..) }

/-- The span of a text that begins at a place. -/
def spanOver (m : Mark) (file : String) (text : List Char) : Span :=
  { file, line := m.line, lineStart := m.lineStart, start := m.offset
    stop := m.offset + Text.byteLength text
    lineStart_le_start := m.lineStart_le_offset
    start_le_stop := Nat.le_add_right .. }

end Mark

/-! ### What a lexer says -/

/-- What happens while a text is cut into tokens. -/
inductive LexerEvent
  /-- An exponent has no effect. -/
  | zeroPower (span : Span)
  /-- A number was read. -/
  | scannedNumber (lexeme : String) (value : Literal)
  /-- A token was handed out. -/
  | lexed (token : Token)
  /-- The characters of a span form no token. -/
  | failed (cause : LexicalError) (span : Span)
  /-- The rest of a file is left alone. -/
  | stopped (file : String) (cause : LexicalError)
  deriving DecidableEq

/-- The name under which lexers report. -/
def lexerSource : String := "lexer"

/-- An event in words. -/
def LexerEvent.remark : LexerEvent → Remark
  | .zeroPower span => .finding ⟨.warn, lexerSource, "Number literal with power of 0", span⟩
  | .scannedNumber lexeme value =>
    .note ⟨.trace, s!"scanned number {Text.quote lexeme} as {value.dump}"⟩
  | .lexed token => .note ⟨.trace, s!"lexed {token.dump}"⟩
  | .failed cause span => .finding ⟨.error, lexerSource, cause.message, span⟩
  | .stopped file cause => .note ⟨.debug, s!"lexing {file} stopped: {cause.message}"⟩

/-! ### Scanners -/

/-- A scanner on its way through a token. -/
structure Scanner where
  /-- The name of the file. -/
  file : String
  /-- The text that is left. -/
  rest : List Char
  /-- Where that text begins. -/
  mark : Mark
  /-- The text from the start of the token on. -/
  tokenText : List Char
  /-- Where the token begins. -/
  start : Mark
  /-- A token does not begin behind the place that the scanner has come to. -/
  start_le_mark : start.offset ≤ mark.offset
  /-- What has happened, in order. -/
  log : List LexerEvent := []

/-- A step of a scanner, which may fail. -/
abbrev Scanning := EStateM LexicalError Scanner

namespace Scanner

/-! ### Looking and moving -/

/-- The next character. -/
def peek (s : Scanner) : Option Char := s.rest.head?

/-- The character after some more. -/
def peekAt (s : Scanner) (count : Nat) : Option Char := s.rest[count]?

/-- The scanner past the next character, if there is one.  A newline begins a line. -/
def advance (s : Scanner) : Scanner :=
  match s.rest with
  | [] => s
  | c :: cs =>
    { s with
      rest := cs
      mark := s.mark.step c
      start_le_mark := by
        rw [Mark.offset_step]
        exact Nat.le_trans s.start_le_mark (Nat.le_add_right ..) }

/-- The scanner past some bytes, in the same line. -/
def skip (s : Scanner) (bytes : Nat) : Scanner :=
  { s with
    rest := Text.dropBytes bytes s.rest
    mark := s.mark.forward bytes
    start_le_mark := Nat.le_trans s.start_le_mark (Nat.le_add_right ..) }

/-- The scanner at the start of a token. -/
def begin (s : Scanner) : Scanner :=
  { s with tokenText := s.rest, start := s.mark, start_le_mark := Nat.le_refl _ }

/-! ### Tokens and reports -/

/-- The text of the token as far as it has been read. -/
def lexeme (s : Scanner) : List Char :=
  Text.takeBytes (s.mark.offset - s.start.offset) s.tokenText

/-- The span of the token as far as it has been read. -/
def span (s : Scanner) : Span :=
  { file := s.file, line := s.start.line, lineStart := s.start.lineStart
    start := s.start.offset, stop := s.mark.offset
    lineStart_le_start := s.start.lineStart_le_offset
    start_le_stop := s.start_le_mark }

/-- Keeps an event. -/
def note (s : Scanner) (e : LexerEvent) : Scanner := { s with log := s.log ++ [e] }

/-- The token that has been read. -/
def makeToken (kind : Kind) (literal : Option Literal) : Scanning Token := fun s =>
  .ok { kind, lexeme := String.ofList s.lexeme, span := s.span, literal } s

/-! ### Symbols and words -/

/-- Moves past the longest symbol, if there is one. -/
def symbol : Scanning (Option Kind) := fun s =>
  match longestSymbol s.rest with
  | none => .ok none s
  | some (spelling, kind) => .ok (some kind) (s.skip (Text.byteLength spelling))

/-- How many bytes the word at the head of a text has, if there is one. -/
def wordLength? : List Char → Option Nat
  | [] => none
  | c :: cs =>
    if isWordStart c then some (Text.byteLength (c :: cs.takeWhile isWordPart)) else none

/-- Reads a reserved word or a name. -/
def word : Scanning Token := do
  modify fun s => s.skip ((wordLength? s.rest).getD 1)
  let text := String.ofList (← get).lexeme
  match Keyword.ofWord? text with
  | some keyword => makeToken (.keyword keyword) none
  | none => makeToken .identifier (some (.str text))

/-! ### Quoted texts -/

theorem length_rest_advance {s : Scanner} {c : Char} {cs : List Char} (h : s.rest = c :: cs) :
    s.advance.rest.length < s.rest.length := by
  rw [advance]
  split
  · next hnil =>
    rw [h] at hnil
    cases hnil
  · next hcons =>
    rw [hcons]
    exact Nat.lt_succ_self _

theorem length_rest_advance_le (s : Scanner) : s.advance.rest.length ≤ s.rest.length := by
  cases h : s.rest with
  | nil => rw [advance, h]; simp [h]
  | cons c cs => exact h ▸ Nat.le_of_lt (length_rest_advance h)

/-- Moves past the quote that closes a quoted text.  A character after a backslash closes
nothing. -/
def closeQuote (s : Scanner) : EStateM.Result LexicalError Scanner Unit :=
  match _h : s.rest with
  | [] => .error .unterminatedString s
  | c :: _ =>
    if c = '"' then .ok () s.advance
    else if c = '\\' then closeQuote s.advance.advance
    else closeQuote s.advance
termination_by s.rest.length
decreasing_by
  · exact Nat.lt_of_le_of_lt (length_rest_advance_le _) (length_rest_advance _h)
  · exact length_rest_advance _h

/-- Reads a quoted text.  Its contents are kept as they are written. -/
def string : Scanning Token := do
  modify advance
  let contents ← get
  closeQuote
  let bytes := (← get).mark.offset - 1 - contents.mark.offset
  makeToken (.literal .string) (some (.str (String.ofList (Text.takeBytes bytes contents.rest))))

/-! ### Numbers -/

/-- How many bytes the run of digits at the head of a text has, if there is one. -/
def digitsLength? (cs : List Char) : Option Nat :=
  if startsWithDigit cs then some (Text.byteLength (cs.takeWhile isDigitOrSeparator)) else none

/-- Moves past a run of digits, and returns it. -/
def digits : Scanning (Option (List Char)) := fun s =>
  match digitsLength? s.rest with
  | none => .ok none s
  | some bytes => .ok (some (Text.takeBytes bytes s.rest)) (s.skip bytes)

/-- Whether a point with a digit after it comes next. -/
def beforeFraction (s : Scanner) : Bool :=
  s.peek == some '.' && (s.peekAt 1).any isDecimalDigit

/-- Moves past a fraction, and tells whether there is one. -/
def fraction : Scanning Bool := do
  if (← get).beforeFraction then
    modify advance
    let _ ← digits
    if (← get).beforeFraction then
      modify advance
      throw .invalidFloat
    else return true
  else return false

/-- Moves past the sign of an exponent, and tells whether there is one. -/
def sign : Scanning Bool := do
  if (← get).peek = some '-' then
    modify advance
    if (← get).peek = some '-' then
      modify advance
      throw .multipleNegatives
    else return true
  else return false

/-- Moves past an exponent, and returns what it comes to. -/
def exponent : Scanning Int := do
  if (← get).peek = some 'e' then
    modify advance
    let signed ← sign
    match ← digits with
    | none => throw .invalidNumber
    | some run =>
      let power := Numeral.exponentPower signed run
      if power = 0 then
        modify fun s => s.note (.zeroPower s.span)
        return power
      else return power
  else return 0

/-- The kind of literal that a number is. -/
def numberKind : Literal → LiteralKind
  | .float _ => .float
  | _ => .int

/-- The token of a number whose parts have been read. -/
def numberToken (whole : List Char) (fractional : Bool) (power : Int) : Scanning Token := do
  let lexeme := (← get).lexeme
  match Numeral.literal lexeme whole fractional power with
  | .error cause => throw cause
  | .ok value =>
    modify (note · (.scannedNumber (String.ofList lexeme) value))
    makeToken (.literal (numberKind value)) (some value)

/-- Reads a number. -/
def number : Scanning Token := do
  match ← digits with
  | none => throw .invalidNumber
  | some whole =>
    let fractional ← fraction
    let power ← exponent
    numberToken whole fractional power

/-! ### The next token -/

/-- Reads the token that begins with a character. -/
def token (c : Char) : Scanning Token := do
  match ← symbol with
  | some kind => makeToken kind none
  | none =>
    if c = '"' then string
    else if isWordStart c then word
    else if isDecimalDigit c then number
    else
      modify advance
      throw (.unexpectedChar c)

/-- Reads the next token after blanks, if there is one. -/
def nextToken (s : Scanner) : EStateM.Result LexicalError Scanner (Option Token) :=
  match _h : s.rest with
  | [] => .ok none s
  | c :: _ =>
    if Text.isBlank c then nextToken s.advance
    else (some <$> token c) s.begin
termination_by s.rest.length
decreasing_by exact length_rest_advance _h

end Scanner
end CurlyScript
