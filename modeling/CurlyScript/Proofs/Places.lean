import CurlyScript.Proofs.Concatenation

/-!
# Where a lexer looks

A lexer goes from lexeme to lexeme.  At the head of each it stands for a moment, past the blanks,
and scans what is ahead.  Everything that a run brings comes from one of these scans: every token
is what one of them came to, every warning and every error is about the characters that one of them
took.  So a statement about all tokens of a text, or about all errors, is a statement about one
scan and the place where it is made.

## Main definitions

* `Lexer.heads` — the lexer before each lexeme on its way.
* `Lexer.said` — what happens at one of them.
* `Lexer.LooksAt` — the lexer of a text scans what is ahead at some place in it.

## Main results

* `scan_cases` — what a scan can come to.
* `Lexer.collect_eq_heads` — a run is what happens at its heads, one after the other.
* `Lexer.exists_looksAt_of_mem` — every token is what a scan somewhere in the text came to.
* `Lexer.LooksAt.failures_eq` — where a scan fails, the run fails, with that error alone.
* `Lexer.LooksAt.count_zeroPower` — there is one warning about a number with an idle exponent.
-/

namespace CurlyScript

/-! ### Offsets -/

/-- Two ways of cutting a text at the same offset are the same. -/
theorem Text.append_inj_of_byteLength {as bs as' bs' : List Char} (h : as ++ bs = as' ++ bs')
    (hlength : byteLength as = byteLength as') : as = as' ∧ bs = bs' := by
  have hdrop := dropBytes?_append as bs
  rw [h, hlength, dropBytes?_append as' bs', Option.some.injEq] at hdrop
  subst hdrop
  exact ⟨List.append_cancel_right h, rfl⟩

/-! ### What a scan comes to -/

/-- A scan finds a symbol, a quoted text, a word or a number, or it is at a character that starts
no lexeme. -/
theorem scan_cases (c : Char) (cs : List Char) :
    (∃ symbol kind, longestSymbol (c :: cs) = some (symbol, kind) ∧
      scan c cs = { taken := symbol, outcome := .ok (kind, none) }) ∨
    (c = '"' ∧ scan c cs = scanString cs) ∨
    (isWordStart c = true ∧ scan c cs = scanWord (c :: cs.takeWhile isWordPart)) ∨
    (isDecimalDigit c = true ∧ scan c cs = scanNumber (c :: cs)) ∨
    scan c cs = { taken := [c], outcome := .error (.unexpectedChar c) } := by
  unfold scan
  split
  · next symbol kind h => exact .inl ⟨symbol, kind, h, rfl⟩
  · by_cases hquote : c = '"'
    · rw [if_pos hquote]
      exact .inr (.inl ⟨hquote, rfl⟩)
    rw [if_neg hquote]
    by_cases hword : isWordStart c = true
    · rw [if_pos hword]
      exact .inr (.inr (.inl ⟨hword, rfl⟩))
    rw [if_neg hword]
    by_cases hdigit : isDecimalDigit c = true
    · rw [if_pos hdigit]
      exact .inr (.inr (.inr (.inl ⟨hdigit, rfl⟩)))
    rw [if_neg hdigit]
    exact .inr (.inr (.inr (.inr rfl)))

/-- A symbol that is found is one of the table. -/
theorem mem_table_of_longestSymbol {cs symbol : List Char} {kind : Kind}
    (h : longestSymbol cs = some (symbol, kind)) :
    (String.ofList symbol, kind) ∈ Symbol.table := by
  rcases extendSymbol_cases [] none cs with hnone | ⟨found, kind', hfound, -, hkind⟩
  · cases hnone.symm.trans h
  · cases hfound.symm.trans h
    obtain ⟨entry, hentry, rfl⟩ := Option.map_eq_some_iff.mp hkind
    have hspelling : (entry.1.toList == symbol) = true :=
      List.find?_some (p := fun entry : String × Kind => entry.1.toList == symbol) hentry
    rw [← beq_iff_eq.mp hspelling, String.ofList_toList]
    exact List.mem_of_find?_eq_some hentry

/-- Symbols are operators and punctuation. -/
theorem kind_of_longestSymbol {cs symbol : List Char} {kind : Kind}
    (h : longestSymbol cs = some (symbol, kind)) :
    (∃ op, kind = .operator op) ∨ ∃ mark, kind = .punctuation mark := by
  rcases List.mem_append.mp (mem_table_of_longestSymbol h) with hmem | hmem
  · obtain ⟨op, -, heq⟩ := List.mem_map.mp hmem
    exact .inl ⟨op, (congrArg Prod.snd heq).symm⟩
  · obtain ⟨mark, -, heq⟩ := List.mem_map.mp hmem
    exact .inr ⟨mark, (congrArg Prod.snd heq).symm⟩

/-- A word is a reserved word or a name. -/
theorem kind_of_scanWord {word : List Char} {kind : Kind} {literal : Option Literal}
    (h : (scanWord word).outcome = .ok (kind, literal)) :
    (∃ keyword, kind = .keyword keyword) ∨ kind = .identifier := by
  unfold scanWord at h
  simp only at h
  split at h
  · next keyword _ =>
    cases h
    exact .inl ⟨keyword, rfl⟩
  · cases h
    exact .inr rfl

/-- A number is a numeral that has a value. -/
theorem exists_value_of_scanNumber {cs : List Char} {kind : Kind} {literal : Option Literal}
    (h : (scanNumber cs).outcome = .ok (kind, literal)) :
    ∃ n value, Numeral.read cs = .ok n ∧ n.value = .ok value ∧ kind = n.kind ∧
      literal = some value := by
  obtain ⟨n, hread⟩ := read_of_scanNumber h
  rw [scanNumber_eq hread] at h
  cases hvalue : n.value with
  | error cause =>
    rw [hvalue] at h
    cases h
  | ok value =>
    rw [hvalue] at h
    cases h
    exact ⟨n, value, hread, hvalue, rfl, rfl⟩

/-- The errors among the remarks of a lexer are its failures. -/
theorem faults_eq_failures (events : List LexerEvent) :
    (findings (events.map LexerEvent.remark)).filter Finding.isFault =
      (events.filter LexerEvent.isFailure).filterMap fun e => e.remark.finding? := by
  induction events with
  | nil => rfl
  | cons e events ih =>
    have happend : findings ((e :: events).map LexerEvent.remark) =
        findings [e.remark] ++ findings (events.map LexerEvent.remark) :=
      findings_append [e.remark] _
    rw [happend, List.filter_append, ih]
    cases e <;> rfl

namespace Lexer

variable {l : Lexer}

/-! ### Standing before a lexeme -/

/-- The lexer stands before a character that is no blank, and has met no error. -/
structure BeforeLexeme (l : Lexer) (c : Char) (cs : List Char) : Prop where
  /-- What is ahead. -/
  rest_eq : l.rest = c :: cs
  /-- It does not begin with a blank. -/
  not_blank : Text.isBlank c = false
  /-- Nothing was wrong so far. -/
  failed_eq : l.failed = false

theorem BeforeLexeme.skipBlanks_eq {c : Char} {cs : List Char} (h : l.BeforeLexeme c cs) :
    l.skipBlanks = l := by
  have hnone : l.rest.takeWhile Text.isBlank = [] := by
    rw [h.rest_eq, List.takeWhile_cons_of_neg (by simp [h.not_blank])]
  rw [skipBlanks, hnone]
  rfl

/-- Before a lexeme the next request is a scan. -/
theorem BeforeLexeme.next_eq {c : Char} {cs : List Char} (h : l.BeforeLexeme c cs) :
    l.next = l.deliver (scan c cs) := by
  have hrest : l.skipBlanks.rest = c :: cs := by rw [h.skipBlanks_eq, h.rest_eq]
  rw [next_of_cons h.failed_eq hrest, h.skipBlanks_eq]

/-- A lexer that hands something out comes to stand before a lexeme first. -/
theorem exists_beforeLexeme {item : Item} (hitem : l.next.item = some item) :
    ∃ c cs, l.skipBlanks.BeforeLexeme c cs ∧ l.skipBlanks.next = l.next := by
  have hfailed : l.failed = false := by
    rw [← Bool.not_eq_true]
    intro hfailed
    simp [next, hfailed] at hitem
  rcases hrest : l.skipBlanks.rest with _ | ⟨c, cs⟩
  · rw [next_of_blank hfailed hrest] at hitem
    cases hitem
  · have hbefore : l.skipBlanks.BeforeLexeme c cs := ⟨hrest, (rest_of_skipBlanks hrest).2, hfailed⟩
    exact ⟨c, cs, hbefore, by rw [hbefore.next_eq, next_of_cons hfailed hrest]⟩

/-! ### Heads of lexemes -/

/-- The lexer before each lexeme that it looks at on its way, in order.  A lexeme that is an error
is the last. -/
def heads (l : Lexer) : List Lexer :=
  match hitem : l.next.item with
  | none => []
  | some (.error _) => [l.skipBlanks]
  | some (.token _) =>
    have : l.next.after.rest.length < l.rest.length := length_rest_next_lt hitem
    l.skipBlanks :: heads l.next.after
termination_by l.rest.length

theorem heads_of_none (h : l.next.item = none) : l.heads = [] := by
  rw [heads]
  split
  · rfl
  · next heq => simp [heq] at h
  · next heq => simp [heq] at h

theorem heads_of_error {cause : LexicalError} (h : l.next.item = some (.error cause)) :
    l.heads = [l.skipBlanks] := by
  rw [heads]
  split
  · next heq => simp [heq] at h
  · rfl
  · next heq => simp [heq] at h

theorem heads_of_token {t : Token} (h : l.next.item = some (.token t)) :
    l.heads = l.skipBlanks :: l.next.after.heads := by
  rw [heads]
  split
  · next heq => simp [heq] at h
  · next heq => simp [heq] at h
  · rfl

/-- The token that the next request brings. -/
def handedOut (l : Lexer) : Option Token :=
  match l.next.item with
  | some (.token t) => some t
  | _ => none

/-- What happens on the next request, and that the lexer stops if it fails. -/
def said (l : Lexer) : List LexerEvent :=
  l.next.events ++
    match l.next.item with
    | some (.error cause) => [.stopped l.file cause]
    | _ => []

/-- **A run is what happens at its heads, one after the other.** -/
theorem collect_eq_heads (l : Lexer) (hfailed : l.failed = false) :
    l.collect.1 = l.heads.filterMap handedOut ∧ l.collect.2.1 = l.heads.flatMap said := by
  -- the induction is on the text that is left, which every token makes shorter
  induction hlength : l.rest.length using Nat.strong_induction_on generalizing l with
  | _ length ih =>
    rcases hitem : l.next.item with _ | (t | cause)
    · have hevents : l.next.events = [] := by
        rcases hrest : l.skipBlanks.rest with _ | ⟨c, cs⟩
        · rw [next_of_blank hfailed hrest]
        · -- before a lexeme a request brings something
          rw [next_of_cons hfailed hrest] at hitem
          rcases houtcome : (scan c cs).outcome with cause | found
          · rw [(deliver_of_error houtcome).1] at hitem
            cases hitem
          · rw [(deliver_of_ok houtcome).1] at hitem
            cases hitem
      rw [collect_of_none hitem, heads_of_none hitem, hevents]
      exact ⟨rfl, rfl⟩
    · obtain ⟨c, cs, -, hsame⟩ := exists_beforeLexeme hitem
      have hafter : l.next.after.failed = false := by rw [failed_next hfailed, hitem]
      obtain ⟨htokens, hevents⟩ := ih _ (hlength ▸ length_rest_next_lt hitem) _ hafter rfl
      have hhanded : l.skipBlanks.handedOut = some t := by rw [handedOut, hsame, hitem]
      have hsaid : l.skipBlanks.said = l.next.events := by
        rw [said, hsame, hitem]
        exact List.append_nil _
      rw [collect_of_token hitem, heads_of_token hitem, List.filterMap_cons_some hhanded,
        List.flatMap_cons, hsaid, htokens, hevents]
      exact ⟨rfl, rfl⟩
    · obtain ⟨c, cs, -, hsame⟩ := exists_beforeLexeme hitem
      have hhanded : l.skipBlanks.handedOut = none := by rw [handedOut, hsame, hitem]
      have hsaid : l.skipBlanks.said = l.next.events ++ [.stopped l.file cause] := by
        rw [said, hsame, hitem]
        rfl
      rw [collect_of_error hitem, heads_of_error hitem, List.filterMap_cons_none hhanded,
        List.flatMap_singleton, hsaid]
      exact ⟨rfl, rfl⟩

/-- At a head the lexer stands before a lexeme, somewhere in the text. -/
theorem At.heads {file : String} {text before : List Char} (h : l.At file text before)
    (hfailed : l.failed = false) :
    ∀ head ∈ l.heads, (∃ here, head.At file text here) ∧ ∃ c cs, head.BeforeLexeme c cs := by
  induction hlength : l.rest.length using Nat.strong_induction_on generalizing l before with
  | _ length ih =>
    intro head hhead
    rcases hitem : l.next.item with _ | (t | cause)
    · rw [heads_of_none hitem] at hhead
      cases hhead
    · obtain ⟨c, cs, hbefore, -⟩ := exists_beforeLexeme hitem
      rw [heads_of_token hitem] at hhead
      rcases List.mem_cons.mp hhead with rfl | hhead
      · exact ⟨⟨_, h.skipBlanks⟩, c, cs, hbefore⟩
      · -- the later heads are those of the lexer behind the token
        obtain ⟨taken, hrest, hmark, hfile⟩ := exists_taken_next hfailed
        have hahead : l.next.after.At file text (before ++ taken) := by
          refine ⟨hfile.trans h.file_eq, ?_, ?_⟩
          · rw [List.append_assoc, ← hrest, h.text_eq]
          · rw [hmark, h.mark_eq, Mark.after_append]
        have hafter : l.next.after.failed = false := by rw [failed_next hfailed, hitem]
        exact ih _ (hlength ▸ length_rest_next_lt hitem) hahead hafter rfl head hhead
    · obtain ⟨c, cs, hbefore, -⟩ := exists_beforeLexeme hitem
      rw [heads_of_error hitem] at hhead
      rw [List.mem_singleton.mp hhead]
      exact ⟨⟨_, h.skipBlanks⟩, c, cs, hbefore⟩

/-- A token takes the lexer further. -/
theorem offset_lt_next {t : Token} (hitem : l.next.item = some (.token t)) :
    l.skipBlanks.mark.offset < l.next.after.mark.offset := by
  obtain ⟨c, cs, hbefore, hsame⟩ := exists_beforeLexeme hitem
  rw [← hsame, hbefore.next_eq]
  have hmark : (l.skipBlanks.deliver (scan c cs)).after.mark =
      l.skipBlanks.mark.after (scan c cs).taken := by
    unfold deliver
    simp only
    split <;> rfl
  have hlength := Text.length_le_byteLength (scan c cs).taken
  have htaken := List.length_pos_iff.mpr (scan_taken_ne_nil c cs)
  rw [hmark, Mark.offset_after]
  omega

/-- The heads come one after the other. -/
theorem pairwise_heads (l : Lexer) :
    (∀ head ∈ l.heads, l.mark.offset ≤ head.mark.offset) ∧
      l.heads.Pairwise fun a b => a.mark.offset < b.mark.offset := by
  induction hlength : l.rest.length using Nat.strong_induction_on generalizing l with
  | _ length ih =>
    have hskip : l.mark.offset ≤ l.skipBlanks.mark.offset := by
      rw [skipBlanks, past, Mark.offset_after]
      exact Nat.le_add_right _ _
    rcases hitem : l.next.item with _ | (t | cause)
    · rw [heads_of_none hitem]
      exact ⟨List.forall_mem_nil _, List.Pairwise.nil⟩
    · obtain ⟨hlater, hpairs⟩ := ih _ (hlength ▸ length_rest_next_lt hitem) _ rfl
      have hnext := offset_lt_next hitem
      rw [heads_of_token hitem]
      refine ⟨List.forall_mem_cons.mpr ⟨hskip, ?_⟩, List.pairwise_cons.mpr ⟨?_, hpairs⟩⟩
      · intro head hhead
        have hle := hlater head hhead
        omega
      · intro head hhead
        have hle := hlater head hhead
        omega
    · rw [heads_of_error hitem]
      exact ⟨List.forall_mem_singleton.mpr hskip, List.pairwise_singleton _ _⟩

/-! ### Places in a text -/

variable {file text : String} {before ahead cs : List Char} {c : Char}

/-- The lexer of a text looks at what is ahead behind `before`: past tokens and blanks it comes to
stand there. -/
def LooksAt (file text : String) (before ahead : List Char) : Prop :=
  ∃ l ∈ (ofText file text).heads, l.At file text.toList before ∧ l.rest = ahead

theorem LooksAt.text_eq (h : LooksAt file text before ahead) : text.toList = before ++ ahead := by
  obtain ⟨l, -, hat, hrest⟩ := h
  rw [← hat.text_eq, hrest]

/-- The head at a place. -/
theorem LooksAt.exists_head (h : LooksAt file text before (c :: cs)) :
    ∃ l ∈ (ofText file text).heads, l.BeforeLexeme c cs ∧ l.file = file ∧
      l.mark = Mark.start.after before := by
  obtain ⟨l, hl, hat, hrest⟩ := h
  obtain ⟨-, d, ds, hbefore⟩ := (at_ofText file text).heads rfl l hl
  have hcons := hrest.symm.trans hbefore.rest_eq
  obtain ⟨rfl, rfl⟩ := List.cons.inj hcons
  exact ⟨l, hl, hbefore, hat.file_eq, hat.mark_eq⟩

theorem exists_looksAt {l : Lexer} (hl : l ∈ (ofText file text).heads) :
    ∃ before c cs, LooksAt file text before (c :: cs) ∧ l.BeforeLexeme c cs ∧ l.file = file ∧
      l.mark = Mark.start.after before := by
  obtain ⟨⟨before, hat⟩, c, cs, hbefore⟩ := (at_ofText file text).heads rfl l hl
  exact ⟨before, c, cs, ⟨l, hl, hat, hbefore.rest_eq⟩, hbefore, hat.file_eq, hat.mark_eq⟩

/-- A lexer looks at the start of its text, unless that is blank. -/
theorem looksAt_start (htext : text.toList = c :: cs) (hc : Text.isBlank c = false) :
    LooksAt file text [] (c :: cs) := by
  have hbefore : (ofText file text).BeforeLexeme c cs := ⟨htext, hc, rfl⟩
  refine ⟨ofText file text, ?_, at_ofText file text, htext⟩
  rcases houtcome : (scan c cs).outcome with cause | found
  · have hitem := (deliver_of_error (l := ofText file text) houtcome).1
    rw [← hbefore.next_eq] at hitem
    rw [heads_of_error hitem, hbefore.skipBlanks_eq]
    exact List.mem_singleton_self _
  · have hitem := (deliver_of_ok (l := ofText file text) houtcome).1
    rw [← hbefore.next_eq] at hitem
    rw [heads_of_token hitem, hbefore.skipBlanks_eq]
    exact List.mem_cons_self

/-- What is said about characters that are taken at some place is said about this span. -/
def spanBehind (file : String) (before taken : List Char) : Span :=
  (Mark.start.after before).spanOver file taken

@[simp] theorem start_spanBehind (file : String) (before taken : List Char) :
    (spanBehind file before taken).start = Text.byteLength before := by
  show (Mark.start.after before).offset = _
  rw [Mark.offset_after]
  exact Nat.zero_add _

/-- **Every token is what a scan somewhere in the text came to.** -/
theorem exists_looksAt_of_mem {t : Token} (ht : t ∈ (ofText file text).collect.1) :
    ∃ before c cs, LooksAt file text before (c :: cs) ∧
      (scan c cs).outcome = .ok (t.kind, t.literal) ∧
      t.lexeme = String.ofList (scan c cs).taken ∧
      t.span = spanBehind file before (scan c cs).taken := by
  rw [(collect_eq_heads _ rfl).1, List.mem_filterMap] at ht
  obtain ⟨l, hl, hhanded⟩ := ht
  obtain ⟨before, c, cs, hlooks, hbefore, hfile, hmark⟩ := exists_looksAt hl
  rw [handedOut, hbefore.next_eq] at hhanded
  rcases houtcome : (scan c cs).outcome with cause | ⟨kind, literal⟩
  · rw [(deliver_of_error houtcome).1] at hhanded
    cases hhanded
  · rw [(deliver_of_ok houtcome).1] at hhanded
    cases hhanded
    exact ⟨before, c, cs, hlooks, houtcome, rfl, by rw [hfile, hmark]; rfl⟩

/-- All tokens but the last, which is the end of the file, are handed out. -/
theorem mem_collect_of_mem_tokens {t : Token} (ht : t ∈ (Frontend.lex file text).1.tokens)
    (hend : t.isEnd = false) : t ∈ (ofText file text).collect.1 := by
  have htokens : (Frontend.lex file text).1.tokens =
      (ofText file text).collect.1 ++ [(ofText file text).collect.2.2.endToken] := rfl
  rw [htokens, List.mem_append, List.mem_singleton] at ht
  rcases ht with ht | rfl
  · exact ht
  · cases hend

/-- What happens at a head happens in the run. -/
theorem mem_events_of_head {l : Lexer} {e : LexerEvent} (hl : l ∈ (ofText file text).heads)
    (he : e ∈ l.next.events) : e ∈ (ofText file text).tokenize.2 := by
  show e ∈ (ofText file text).collect.2.1
  rw [(collect_eq_heads _ rfl).2, List.mem_flatMap]
  exact ⟨l, hl, List.mem_append_left _ he⟩

/-- What happens in the run and is about a span happens at a head. -/
theorem exists_head_of_mem_events {e : LexerEvent} (he : e ∈ (ofText file text).tokenize.2)
    (hspan : e.span? ≠ none) : ∃ l ∈ (ofText file text).heads, e ∈ l.next.events := by
  have he' : e ∈ (ofText file text).collect.2.1 := he
  rw [(collect_eq_heads _ rfl).2, List.mem_flatMap] at he'
  obtain ⟨l, hl, hsaid⟩ := he'
  rcases List.mem_append.mp hsaid with hnext | hhalt
  · exact ⟨l, hl, hnext⟩
  · -- that the lexer stops is about no span
    split at hhalt
    · rw [List.mem_singleton.mp hhalt] at hspan
      exact absurd rfl hspan
    · cases hhalt

/-! ### Errors -/

/-- What happens at a scan: a warning if it is a number with an idle exponent, the error if it
fails, and otherwise that a number was read and a token handed out. -/
theorem mem_events_deliver {l : Lexer} {s : Scan} {e : LexerEvent}
    (he : e ∈ (l.deliver s).events) :
    e = .zeroPower (l.mark.spanOver l.file s.taken) ∨
      (∃ cause, s.outcome = .error cause ∧
        e = .failed cause (l.mark.spanOver l.file s.taken)) ∨
      (∃ lexeme value, e = .scannedNumber lexeme value) ∨ ∃ t, e = .lexed t := by
  unfold deliver at he
  simp only at he
  have hwarning : e ∈ (if s.zeroPower then
      [LexerEvent.zeroPower (l.mark.spanOver l.file s.taken)] else []) →
      e = .zeroPower (l.mark.spanOver l.file s.taken) := by
    intro hmem
    split at hmem
    · exact List.mem_singleton.mp hmem
    · cases hmem
  split at he
  · next cause houtcome =>
    rcases List.mem_append.mp he with he | he
    · exact .inl (hwarning he)
    · exact .inr (.inl ⟨cause, houtcome, List.mem_singleton.mp he⟩)
  · rcases List.mem_append.mp he with he | he
    · rcases List.mem_append.mp he with he | he
      · exact .inl (hwarning he)
      · -- only the two kinds of numbers are spoken of
        split at he
        · exact .inr (.inr (.inl ⟨_, _, List.mem_singleton.mp he⟩))
        · exact .inr (.inr (.inl ⟨_, _, List.mem_singleton.mp he⟩))
        · cases he
    · exact .inr (.inr (.inr ⟨_, List.mem_singleton.mp he⟩))

theorem failed_mem_deliver {l : Lexer} {s : Scan} {cause : LexicalError} {span : Span} :
    .failed cause span ∈ (l.deliver s).events ↔
      s.outcome = .error cause ∧ span = l.mark.spanOver l.file s.taken := by
  constructor
  · intro hmem
    rcases mem_events_deliver hmem with h | ⟨cause', houtcome, h⟩ | ⟨_, _, h⟩ | ⟨_, h⟩
    · cases h
    · cases h
      exact ⟨houtcome, rfl⟩
    · cases h
    · cases h
  · rintro ⟨houtcome, rfl⟩
    simp only [deliver, houtcome]
    exact List.mem_append_right _ (List.mem_singleton_self _)

/-- **Where a scan fails, the run fails**, with that error and no other. -/
theorem LooksAt.failures_eq (h : LooksAt file text before (c :: cs)) {cause : LexicalError}
    (hcause : (scan c cs).outcome = .error cause) :
    (ofText file text).tokenize.2.filter LexerEvent.isFailure =
        [.failed cause (spanBehind file before (scan c cs).taken)] ∧
      (ofText file text).tokenize.1.hadError = true := by
  obtain ⟨l, hl, hbefore, hfile, hmark⟩ := h.exists_head
  have hmem : .failed cause (spanBehind file before (scan c cs).taken) ∈
      (ofText file text).tokenize.2 := by
    apply mem_events_of_head hl
    rw [hbefore.next_eq, failed_mem_deliver, hfile, hmark]
    exact ⟨hcause, rfl⟩
  have hfailure := List.mem_filter.mpr
    ⟨hmem, show LexerEvent.isFailure (.failed ..) = true from rfl⟩
  -- a run fails once at most
  have hlength : ((ofText file text).tokenize.2.filter LexerEvent.isFailure).length =
      (ofText file text).tokenize.1.hadError.toNat := length_failures_collect rfl
  have hpos := List.length_pos_of_mem hfailure
  have herror : (ofText file text).tokenize.1.hadError = true := by
    cases hflag : (ofText file text).tokenize.1.hadError with
    | true => rfl
    | false =>
      rw [hlength, hflag] at hpos
      exact absurd hpos (Nat.lt_irrefl 0)
  refine ⟨?_, herror⟩
  rw [herror] at hlength
  obtain ⟨e, he⟩ := List.length_eq_one_iff.mp hlength
  rw [he, List.mem_singleton] at hfailure
  rw [he, hfailure]

/-- What is reported as an error is the error of that scan, about the characters it took. -/
theorem LooksAt.faults_eq (h : LooksAt file text before (c :: cs)) {cause : LexicalError}
    (hcause : (scan c cs).outcome = .error cause) :
    (findings (Frontend.lex file text).2).filter Finding.isFault =
      [⟨.error, lexerSource, cause.message, spanBehind file before (scan c cs).taken⟩] := by
  show (findings ((ofText file text).tokenize.2.map LexerEvent.remark)).filter _ = _
  rw [faults_eq_failures, (h.failures_eq hcause).1]
  rfl

/-- Every error of a run is that of a scan somewhere in the text. -/
theorem exists_looksAt_of_failed {cause : LexicalError} {span : Span}
    (h : .failed cause span ∈ (ofText file text).tokenize.2) :
    ∃ before c cs, LooksAt file text before (c :: cs) ∧ (scan c cs).outcome = .error cause ∧
      span = spanBehind file before (scan c cs).taken := by
  obtain ⟨l, hl, he⟩ := exists_head_of_mem_events h nofun
  obtain ⟨before, c, cs, hlooks, hbefore, hfile, hmark⟩ := exists_looksAt hl
  rw [hbefore.next_eq, failed_mem_deliver, hfile, hmark] at he
  exact ⟨before, c, cs, hlooks, he⟩

/-- At a place the lexer reports an error exactly if the scan there fails with it. -/
theorem LooksAt.failed_mem_iff (h : LooksAt file text before (c :: cs)) {cause : LexicalError} :
    .failed cause (spanBehind file before (scan c cs).taken) ∈ (ofText file text).tokenize.2 ↔
      (scan c cs).outcome = .error cause := by
  constructor
  · intro hmem
    obtain ⟨before', c', cs', hlooks, houtcome, hspan⟩ := exists_looksAt_of_failed hmem
    have hstart := congrArg Span.start hspan
    rw [start_spanBehind, start_spanBehind] at hstart
    obtain ⟨-, hahead⟩ := Text.append_inj_of_byteLength (h.text_eq.symm.trans hlooks.text_eq) hstart
    obtain ⟨rfl, rfl⟩ := List.cons.inj hahead
    exact houtcome
  · intro hcause
    have hmem := List.mem_singleton_self
      (LexerEvent.failed cause (spanBehind file before (scan c cs).taken))
    rw [← (h.failures_eq hcause).1] at hmem
    exact (List.mem_filter.mp hmem).1

/-! ### Warnings -/

theorem count_zeroPower_deliver (l : Lexer) (s : Scan) :
    (l.deliver s).events.count (.zeroPower (l.mark.spanOver l.file s.taken)) =
      if s.zeroPower then 1 else 0 := by
  have hwarnings (span : Span) :
      (if s.zeroPower then [LexerEvent.zeroPower span] else []).count (.zeroPower span) =
        if s.zeroPower then 1 else 0 := by
    split
    · exact List.count_singleton_self
    · rfl
  unfold deliver
  simp only
  split
  · rw [List.count_append, hwarnings]
    rfl
  · rw [List.count_append, List.count_append, hwarnings]
    -- whether there is a warning, and whether the token is a number
    split <;> split <;> rfl

/-- A warning is said at the head where its span begins. -/
theorem zeroPower_notMem_said {l : Lexer} (hl : l ∈ (ofText file text).heads) {span : Span}
    (hne : l.mark.offset ≠ span.start) : .zeroPower span ∉ l.said := by
  intro hmem
  obtain ⟨-, c, cs, -, hbefore, -, -⟩ := exists_looksAt hl
  rcases List.mem_append.mp hmem with hmem | hmem
  · rw [hbefore.next_eq] at hmem
    rcases mem_events_deliver hmem with h | ⟨_, -, h⟩ | ⟨_, _, h⟩ | ⟨_, h⟩
    · exact hne (congrArg Span.start (LexerEvent.zeroPower.inj h)).symm
    · cases h
    · cases h
    · cases h
  · split at hmem <;> simp at hmem

/-- What is said at no other head is said as often as it is said at this one. -/
theorem count_events_eq {l : Lexer} (hl : l ∈ (ofText file text).heads) {e : LexerEvent}
    (hothers : ∀ other ∈ (ofText file text).heads, other.mark.offset ≠ l.mark.offset →
      e ∉ other.said) :
    (ofText file text).tokenize.2.count e = l.said.count e := by
  have hevents : (ofText file text).tokenize.2 = (ofText file text).heads.flatMap said :=
    (collect_eq_heads _ rfl).2
  have hpairs := (pairwise_heads (ofText file text)).2
  obtain ⟨earlier, later, hheads⟩ := List.append_of_mem hl
  have hnone : ∀ part : List Lexer, (∀ other ∈ part, other ∈ (ofText file text).heads ∧
      other.mark.offset ≠ l.mark.offset) → (part.flatMap said).count e = 0 := by
    intro part hpart
    rw [List.count_eq_zero, List.mem_flatMap]
    rintro ⟨other, hother, hmem⟩
    obtain ⟨hother, hne⟩ := hpart other hother
    exact hothers other hother hne hmem
  rw [hheads] at hpairs
  obtain ⟨-, htail, hcross⟩ := List.pairwise_append.mp hpairs
  -- the heads before and after this one are at other places
  have hearlier : (earlier.flatMap said).count e = 0 := by
    apply hnone
    intro other hother
    rw [hheads]
    exact ⟨List.mem_append_left _ hother,
      Nat.ne_of_lt (hcross other hother l List.mem_cons_self)⟩
  have hlater : (later.flatMap said).count e = 0 := by
    apply hnone
    intro other hother
    rw [hheads]
    exact ⟨List.mem_append_right _ (List.mem_cons_of_mem _ hother),
      Nat.ne_of_gt ((List.pairwise_cons.mp htail).1 other hother)⟩
  rw [hevents, hheads, List.flatMap_append, List.flatMap_cons, List.count_append,
    List.count_append, hearlier, hlater, Nat.zero_add, Nat.add_zero]

/-- **There is one warning about a number with an idle exponent**, and none about other lexemes. -/
theorem LooksAt.count_zeroPower (h : LooksAt file text before (c :: cs)) :
    (ofText file text).tokenize.2.count
        (.zeroPower (spanBehind file before (scan c cs).taken)) =
      if (scan c cs).zeroPower then 1 else 0 := by
  obtain ⟨l, hl, hbefore, hfile, hmark⟩ := h.exists_head
  have hspan : spanBehind file before (scan c cs).taken =
      l.mark.spanOver l.file (scan c cs).taken := by
    rw [hfile, hmark]
    rfl
  rw [hspan, count_events_eq hl]
  · rw [said, List.count_append, hbefore.next_eq, count_zeroPower_deliver]
    split <;> split <;> simp
  · intro other hother hne
    exact zeroPower_notMem_said hother hne

/-- Warnings about a span are counted among the findings as they are among the events. -/
theorem count_warning (events : List LexerEvent) (span : Span) :
    (findings (events.map LexerEvent.remark)).count
        ⟨.warn, lexerSource, "Number literal with power of 0", span⟩ =
      events.count (.zeroPower span) := by
  rw [findings, List.filterMap_map, List.count_filterMap]
  apply List.countP_congr
  intro e _
  -- a warning is about an idle exponent, and all other findings are errors
  cases e <;> simp [LexerEvent.remark, Remark.finding?]

end Lexer
end CurlyScript
