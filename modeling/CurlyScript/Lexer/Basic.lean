import CurlyScript.Lexer.Agreement

/-!
# Lexers

A lexer walks through the text of one file and hands out its tokens one by one.  For each it sets a
scanner on its way, and goes on from where the scanner stops.  After its first error it hands out
nothing more.

## Main definitions

* `Lexer` — a file, a place in it, and the text from there on.
* `Lexer.next` — the next token, the first error, or the end.
* `Lexer.tokenize` — all tokens up to the end or the first error, closed by one token for the
  end of the file.
* `Lexer.deliver` — what a scan of the text at the lexer's place comes to.

## Main results

* `Lexer.next_of_cons` — what is handed out is what the scan of the text behind the blanks comes to.
* `Lexer.length_rest_next_lt` — a lexer that hands something out has less text left.

## References

`SPEC_FULL.md`, section 4.2.
-/

namespace CurlyScript

/-! ### Lexers -/

/-- A lexer on its way through a file. -/
structure Lexer where
  /-- The name of the file. -/
  file : String
  /-- The text that is left. -/
  rest : List Char
  /-- Where that text begins. -/
  mark : Mark := .start
  /-- Whether an error has been met. -/
  failed : Bool := false

/-- What a lexer hands out. -/
inductive Item
  /-- A token. -/
  | token (t : Token)
  /-- The first error. -/
  | error (cause : LexicalError)

/-- The tokens of a file. -/
structure TokenStream where
  /-- The tokens before the first error, then the end of the file. -/
  tokens : List Token
  /-- Whether there was an error. -/
  hadError : Bool

/-- The tokens without a token for the end of the file in the last place. -/
def TokenStream.withoutEnd (s : TokenStream) : List Token :=
  match s.tokens.getLast? with
  | some last => if last.isEnd then s.tokens.dropLast else s.tokens
  | none => []

/-- What one request to a lexer brings. -/
structure LexerStep where
  /-- What is handed out, if anything is left. -/
  item : Option Item
  /-- What happened meanwhile. -/
  events : List LexerEvent
  /-- The lexer afterwards. -/
  after : Lexer

namespace Lexer

/-- A lexer at the start of a file. -/
def ofText (file text : String) : Lexer := { file, rest := text.toList }

/-- A scanner at the lexer's place. -/
def scanner (l : Lexer) : Scanner :=
  { file := l.file, rest := l.rest, mark := l.mark
    tokenText := l.rest, start := l.mark, start_le_mark := Nat.le_refl _ }

/-- The lexer at the place that a scanner has come to. -/
def stopAt (l : Lexer) (s : Scanner) : Lexer := { l with rest := s.rest, mark := s.mark }

/-- The next token, or the first error, or nothing when the text is used up or there has been
an error. -/
def next (l : Lexer) : LexerStep :=
  if l.failed then { item := none, events := [], after := l }
  else
    match l.scanner.nextToken with
    | .ok none s => { item := none, events := s.log, after := l.stopAt s }
    | .ok (some token) s =>
      { item := some (.token token), events := s.log ++ [.lexed token], after := l.stopAt s }
    | .error cause s =>
      { item := some (.error cause), events := s.log ++ [.failed cause s.span]
        after := { l.stopAt s with failed := true } }

/-- The end of the file, at the lexer's place. -/
def endToken (l : Lexer) : Token := .endOfFile (l.mark.spanOver l.file [])

/-! ### What is handed out -/

/-- A lexer past some characters of its text. -/
def past (l : Lexer) (taken : List Char) : Lexer :=
  { l with mark := l.mark.after taken, rest := l.rest.drop taken.length }

/-- A lexer past the blanks before it. -/
def skipBlanks (l : Lexer) : Lexer := l.past (l.rest.takeWhile Text.isBlank)

/-- What a scan at the lexer's place comes to: the warning about an exponent comes before the
number, the number before its token. -/
def deliver (l : Lexer) (s : Scan) : LexerStep :=
  let span := l.mark.spanOver l.file s.taken
  let lexeme := String.ofList s.taken
  let warnings := if s.zeroPower then [.zeroPower span] else []
  match s.outcome with
  | .error cause =>
    { item := some (.error cause)
      events := warnings ++ [.failed cause span]
      after := { l.past s.taken with failed := true } }
  | .ok (kind, literal) =>
    let token : Token := { kind, lexeme, span, literal }
    let numbers :=
      match kind, literal with
      | .literal .int, some value => [.scannedNumber lexeme value]
      | .literal .float, some value => [.scannedNumber lexeme value]
      | _, _ => []
    { item := some (.token token)
      events := warnings ++ numbers ++ [.lexed token]
      after := l.past s.taken }

variable {l : Lexer}

theorem next_of_blank (hfailed : l.failed = false) (h : l.skipBlanks.rest = []) :
    l.next = { item := none, events := [], after := l.skipBlanks } := by
  have hnext := l.scanner.nextToken_past_blanks.trans (Scanner.nextToken_of_nil h)
  simp only [next, hfailed, hnext]
  rfl

/-- What is handed out is what the scan of the text behind the blanks comes to. -/
theorem next_of_cons (hfailed : l.failed = false) {c : Char} {cs : List Char}
    (h : l.skipBlanks.rest = c :: cs) : l.next = l.skipBlanks.deliver (scan c cs) := by
  have hnext : l.scanner.nextToken = EStateM.map some (fun s => s.conclude (scan c cs))
      l.skipBlanks.scanner := Scanner.nextToken_eq h
  have hbegun : l.skipBlanks.scanner.Begun := ⟨rfl, rfl⟩
  rcases houtcome : (scan c cs).outcome with cause | ⟨kind, literal⟩
  · have hspan : ((l.skipBlanks.scanner.past (scan c cs).taken).told
        (l.skipBlanks.scanner.warnings (scan c cs))).span =
          l.skipBlanks.mark.spanOver l.file (scan c cs).taken := hbegun.span_past _
    simp only [next, hfailed, hnext, EStateM.map, Scanner.conclude, houtcome, hspan, deliver]
    rfl
  · simp only [next, hfailed, hnext, EStateM.map, Scanner.conclude, houtcome, deliver]
    rfl

/-! ### Progress -/

@[simp] theorem length_rest_past (l : Lexer) (taken : List Char) :
    (l.past taken).rest.length = l.rest.length - taken.length := by simp [past]

theorem length_rest_skipBlanks_le (l : Lexer) : l.skipBlanks.rest.length ≤ l.rest.length := by
  simp [skipBlanks]

theorem rest_deliver (l : Lexer) (s : Scan) :
    (l.deliver s).after.rest = (l.past s.taken).rest := by
  unfold deliver
  simp only
  split <;> rfl

/-- A lexer that hands something out has less text left. -/
theorem length_rest_next_lt {item : Item} (h : l.next.item = some item) :
    l.next.after.rest.length < l.rest.length := by
  cases hfailed : l.failed with
  | true => simp [next, hfailed] at h
  | false =>
    cases hrest : l.skipBlanks.rest with
    | nil => simp [next_of_blank hfailed hrest] at h
    | cons c cs =>
      have htaken : 0 < (scan c cs).taken.length :=
        List.length_pos_iff.mpr (scan_taken_ne_nil c cs)
      have hskip := length_rest_skipBlanks_le l
      rw [next_of_cons hfailed hrest, rest_deliver, length_rest_past]
      simp only [hrest, List.length_cons] at hskip ⊢
      omega

/-! ### Whole texts -/

/-- Everything a lexer still hands out, what happens meanwhile, and where it ends up. -/
def collect (l : Lexer) : List Token × List LexerEvent × Lexer :=
  match h : l.next with
  | ⟨none, events, after⟩ => ([], events, after)
  | ⟨some (.error cause), events, after⟩ => ([], events ++ [.stopped l.file cause], after)
  | ⟨some (.token t), events, after⟩ =>
    let (tokens, later, final) := collect after
    (t :: tokens, events ++ later, final)
termination_by l.rest.length
decreasing_by
  have hlt := length_rest_next_lt (l := l) (by rw [h])
  rwa [h] at hlt

/-- All remaining tokens, closed by the end of the file at the place where the lexer stops. -/
def tokenize (l : Lexer) : TokenStream × List LexerEvent :=
  let (tokens, events, final) := l.collect
  ({ tokens := tokens ++ [final.endToken], hadError := final.failed }, events)

end Lexer
end CurlyScript
