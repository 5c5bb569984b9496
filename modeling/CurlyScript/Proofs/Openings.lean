import CurlyScript.Proofs.Complaints

/-!
# Where expressions begin

Some rules have an operand that may be left out: the value that a function returns, the condition of
a loop and the step of a counting loop.  Whether there is one is seen from the next token alone,
before any of the rules for expressions is tried.  That comes to the same as trying: for the tokens
of a text, these rules fail without moving past a token exactly where no expression can begin.  So
an operand is left out where trying to read it would not even begin, and one that begins but cannot
be read is an error.

## Main definitions

* `Reader.FailsInPlace` — a rule fails without moving past a token.
* `Reader.ventured` — an operand that is tried, and left out if it fails in place.
* `Reader.venturedCondition` — the same for a condition, which is `true` if it is left out.

## Main results

* `Reader.expression_of_not_starts`, `Reader.lt_position_expression` — a rule for expressions fails
  in place, or it moves past a token.
* `Reader.failsInPlace_expression_iff` — which of the two it is, is seen from the next token.
* `Frontend.operands_as_tried` — rules with an operand that may be left out read as if they had
  tried to read it.
-/

namespace CurlyScript
namespace Reader

variable {α β : Type} {s : ReaderState}

/-! ### First tokens -/

/-- The tokens with which an expression can begin, of those that a text has. -/
theorem startsExpression_iff {t : Token} (ht : t.Coherent) :
    startsExpression t = true ↔
      t.opensPrimary = true ∨ ∃ op ∈ prefixOperators, t.kind = .operator op := by
  unfold startsExpression Token.opensPrimary
  rcases hkind : t.kind with op | word | kind | mark | _ | _
  · simp
  · simp
  · obtain ⟨value, hvalue⟩ := ht.exists_literal hkind
    cases kind <;> simp [hvalue]
  · simp
  · simp
  · simp

/-- Where no expression begins, none is read, and nothing has happened. -/
theorem expression_of_not_starts (hs : s.cursor.Placed) (hhere : s.cursor.here.Coherent)
    (h : startsExpression s.cursor.here = false) :
    expression s = fail .expectedExpression s := by
  have hnot : ¬ startsExpression s.cursor.here = true := by simp [h]
  rw [startsExpression_iff hhere, not_or, Bool.not_eq_true] at hnot
  obtain ⟨hprimary, hoperator⟩ := hnot
  have hunary (fuel : Nat) (again : Rule → Reader Expr) :
      unary fuel again s = fail .expectedExpression s := by
    rcases acceptOperator?_cases prefixOperators hs.from_self with
      ⟨t, rest, op, hahead, hop, hkind, -⟩ | ⟨-, hnone⟩
    · rw [here_of_cons hahead] at hoperator
      exact absurd ⟨op, hop, hkind⟩ hoperator
    · exact (bind_ok hnone).trans (bind_error (primary_of_not_opens fuel again hprimary))
  exact (ruleAt_eq hs.from_self (Nat.le_refl _) .expression).trans
    (ruleBody_of_error (hunary _ _) .expression)

/-- Where an expression can begin, its first token is passed, be it read or not. -/
theorem lt_position_expression (hs : s.cursor.Placed) (hhere : s.cursor.here.Coherent)
    (h : startsExpression s.cursor.here = true) :
    s.cursor.position < (endState (expression s)).cursor.position := by
  have hstate := ReaderState.accountable_of_placed hs
  have hagain := accounts_ruleAt coverClosed_true
  have hunary (fuel : Nat) : Accounted (fun _ => True) (s.cursor.position + 1)
      (Expr.Accountable fun _ => True) (unary fuel (ruleAt fuel) s) := by
    rcases acceptOperator?_cases prefixOperators hs.from_self with
      ⟨t, rest, op, hahead, -, -, hrun⟩ | ⟨hno, hnone⟩
    · apply accounted_unary coverClosed_true (hagain fuel)
      rw [hrun, map_eq_pure_bind]
      exact (accounted_advance hstate hahead).bind fun _ ht => accounts_pure (optional_some ht)
    · -- the token is no operator, so it opens an expression that is no operation
      have hopens : s.cursor.here.opensPrimary = true := by
        apply ((startsExpression_iff hhere).mp h).resolve_right
        rintro ⟨op, hop, hkind⟩
        obtain ⟨rest, hahead⟩ := hs.ahead_eq (by rw [hkind]; exact nofun)
        exact hno op hop (by rw [hahead, headKind?_cons, hkind])
      have hrun : unary fuel (ruleAt fuel) s =
          (primary fuel (ruleAt fuel) >>= suffixes fuel (ruleAt fuel) fuel) s := bind_ok hnone
      rw [hrun]
      exact (accounted_primary coverClosed_true (hagain fuel) hstate hopens).bind fun _ he =>
        accounts_suffixes coverClosed_true (hagain fuel) fuel he
  have hrun : expression s = _ := ruleAt_eq hs.from_self (Nat.le_refl _) .expression
  rw [hrun]
  exact (accounted_ruleBody coverClosed_true (hagain _) (hunary _) .expression).le_position

/-! ### Trying instead of looking -/

/-- The rule fails without moving past a token. -/
def FailsInPlace (r : Reader α) (s : ReaderState) : Prop :=
  ∃ e t, r s = .error e t ∧ t.cursor.position = s.cursor.position

/-- An expression that is tried.  It is left out if it fails without moving past a token, and
otherwise it is what it is, be it an error. -/
def ventured : Reader (Option Expr) := fun s =>
  match expression s with
  | .ok e t => .ok (some e) t
  | .error e t => if t.cursor.position = s.cursor.position then .ok none s else .error e t

/-- A condition that is tried.  If it is left out it is `true`. -/
def venturedCondition : Reader Expr := do
  match ← ventured with
  | some e => return e
  | none =>
    let found ← here
    note (.missingCondition found)
    return absentCondition found

/-- A state on the way through the tokens of a text. -/
def Lexed (s : ReaderState) : Prop :=
  ∃ file text, (ReaderState.ofStream (Frontend.lex file text).1).Leads s

theorem Lexed.leads {t : ReaderState} (h : Lexed s) (ht : s.Leads t) : Lexed t := by
  obtain ⟨file, text, hs⟩ := h
  exact ⟨file, text, hs.trans ht⟩

theorem Lexed.placed (h : Lexed s) : s.cursor.Placed := by
  obtain ⟨file, text, hs⟩ := h
  exact (placed_ofStream _).reaches hs.reaches

theorem Lexed.coherent_here (h : Lexed s) : s.cursor.here.Coherent := by
  obtain ⟨file, text, hs⟩ := h
  refine Cursor.forall_of_reaches (P := Token.Coherent) (fun t _ _ => ?_) hs.reaches ?_ _
    s.cursor.here_mem_tokens
  · exact ⟨coherent_halfShift t 0, coherent_halfShift t 1⟩
  · rw [tokens_ofStream_lex]
    exact Lexer.coherent_lex file text

/-- What follows a reader comes to the same if it does so in all states that the reader can lead
to. -/
theorem bind_congr_of_leads {r : Reader α} {f g : α → Reader β}
    (h : s.Leads (endState (r s))) (hfg : ∀ a t, s.Leads t → f a t = g a t) :
    (r >>= f) s = (r >>= g) s := by
  rcases hrun : r s with ⟨a, t⟩ | ⟨e, t⟩
  · rw [bind_ok hrun, bind_ok hrun]
    rw [hrun] at h
    exact hfg a t h
  · rw [bind_error hrun, bind_error hrun]

/-- Rules for expressions fail in place exactly where no expression can begin. -/
theorem failsInPlace_expression_iff (h : Lexed s) :
    FailsInPlace expression s ↔ startsExpression s.cursor.here = false := by
  constructor
  · rintro ⟨e, t, hrun, hposition⟩
    by_contra hstarts
    rw [Bool.not_eq_false] at hstarts
    have hmoved := lt_position_expression h.placed h.coherent_here hstarts
    rw [hrun, endState_error] at hmoved
    omega
  · intro hstarts
    exact ⟨_, s, expression_of_not_starts h.placed h.coherent_here hstarts, rfl⟩

/-- Looking at the next token comes to the same as trying. -/
theorem expression?_eq_ventured (h : Lexed s) : expression? s = ventured s := by
  have hlook : expression? s =
      (if startsExpression s.cursor.here then some <$> expression else pure none) s := rfl
  rw [hlook, ventured]
  by_cases hstarts : startsExpression s.cursor.here = true
  · rw [if_pos hstarts, map_eq_pure_bind]
    have hmoved := lt_position_expression h.placed h.coherent_here hstarts
    rcases hrun : expression s with ⟨e, t⟩ | ⟨e, t⟩
    · exact bind_ok hrun
    · rw [hrun, endState_error] at hmoved
      have hne : t.cursor.position ≠ s.cursor.position := by omega
      dsimp only
      rw [bind_error hrun, if_neg hne]
  · rw [if_neg hstarts]
    rw [Bool.not_eq_true] at hstarts
    rw [expression_of_not_starts h.placed h.coherent_here hstarts]
    exact (if_pos rfl).symm

theorem condition_eq_ventured (h : Lexed s) : condition s = venturedCondition s :=
  bind_congr (expression?_eq_ventured h) _

theorem leads_condition (h : s.cursor.Placed) : s.Leads (endState (condition s)) := by
  by_cases hstarts : startsExpression s.cursor.here = true
  · rw [condition_eq_of_starts hstarts]
    exact (meets_expression _ s h.from_self (Nat.lt_succ_self _)).leads
  · rw [Bool.not_eq_true] at hstarts
    rw [condition_eq_of_absent hstarts]
    exact s.leads_note _ trivial rfl

end Reader

namespace Frontend

open Reader

/-- **Whether an operand is there is seen from the next token, as if it had been tried.**

In whatever state a reader of the tokens of a text can come to, the rules for expressions fail
without moving past a token exactly if no expression can begin with the next token.  So the value
that a function returns, the condition of a loop and the step of a counting loop are read as if they
had been tried: they are left out where the attempt fails in place, and where it fails further on
this is an error of the whole rule. -/
theorem operands_as_tried (file text : String) {s : ReaderState}
    (hs : (ReaderState.ofStream (lex file text).1).Leads s) :
    (FailsInPlace expression s ↔ startsExpression s.cursor.here = false) ∧
    (∀ keyword, returnStatement keyword s = (do
      let value ← ventured
      let _ ← acceptMark? .semicolon
      return .ret keyword value : Reader Stmt) s) ∧
    (∀ again keyword testedAfter, whileStatement again keyword testedAfter s = (do
      let condition ← venturedCondition
      return .whileLoop keyword condition (← again .statement) testedAfter : Reader Stmt) s) ∧
    ∀ again keyword parenthesized init, forClauses again keyword parenthesized init s = (do
      let condition ← venturedCondition
      let _ ← expectMark .semicolon .loopConditionEnd
      let step ← ventured
      closeHeader parenthesized .forClausesEnd
      let body ← again .statement
      return .forLoop keyword init condition step (loopBody body step) : Reader Stmt) s := by
  have hlexed : Lexed s := ⟨file, text, hs⟩
  refine ⟨failsInPlace_expression_iff hlexed, ?_, ?_, ?_⟩
  · intro keyword
    exact bind_congr (expression?_eq_ventured hlexed) _
  · intro again keyword testedAfter
    exact bind_congr (condition_eq_ventured hlexed) _
  · intro again keyword parenthesized init
    unfold forClauses
    rw [← bind_congr (condition_eq_ventured hlexed)]
    -- the step is tried after the condition and a semicolon, in a state that these lead to
    refine bind_congr_of_leads (leads_condition hlexed.placed) fun _ t ht => ?_
    have htried := hlexed.leads ht
    refine bind_congr_of_leads (meets_expectMark _ _ _ t htried.placed.from_self
      (Nat.lt_succ_self _)).leads fun _ u hu => ?_
    exact bind_congr (expression?_eq_ventured (htried.leads hu)) _

/-- After `return` in `return ;` no expression begins, and the value is left out.  After `while` in
`while (1` one begins, and that it is not read to its end is an error of the loop. -/
theorem operands_as_tried_broken :
    let missing := past (.ofStream (lex "m" "return ;").1)
    let broken := past (.ofStream (lex "m" "while (1").1)
    FailsInPlace expression missing ∧
    (∀ keyword, returnStatement keyword missing = .ok (.ret keyword none) (past missing)) ∧
    ¬ FailsInPlace expression broken ∧
    ∃ e t, expression broken = .error e t ∧
      ∀ again keyword, whileStatement again keyword false broken = .error e t := by
  have hmissing := Lexer.tokenize_eq_within 9 (l := .ofText "m" "return ;") (by decide)
  have hbroken := Lexer.tokenize_eq_within 9 (l := .ofText "m" "while (1") (by decide)
  intro missing broken
  have hsemicolon : startsExpression missing.cursor.here = false ∧
      headKind? missing.cursor.ahead = some (.punctuation .semicolon) := by
    simp only [missing, lex, hmissing]
    decide +kernel
  have hparen : startsExpression broken.cursor.here = true := by
    simp only [broken, lex, hbroken]
    decide +kernel
  have herror : (fault? (expression broken)).isSome = true := by
    simp only [broken, lex, hbroken]
    decide +kernel
  obtain ⟨hplace, hreturn, -⟩ := operands_as_tried "m" "return ;" (leads_past _)
  obtain ⟨hplace', -, hwhile, -⟩ := operands_as_tried "m" "while (1" (leads_past _)
  have hfails : FailsInPlace expression missing := hplace.mpr hsemicolon.1
  have hmoves : ¬ FailsInPlace expression broken := by
    rw [hplace', hparen]
    intro h
    cases h
  refine ⟨hfails, fun keyword => ?_, hmoves, ?_⟩
  · obtain ⟨e, t, hrun, hposition⟩ := hfails
    have hnone : ventured missing = .ok none missing := by
      rw [ventured, hrun]
      exact if_pos hposition
    have haccept : acceptMark? .semicolon missing =
        .ok (some missing.cursor.here) (past missing) := by
      rw [acceptMark?, accept?_eq, if_pos hsemicolon.2]
      rfl
    rw [hreturn keyword, bind_ok hnone, bind_ok haccept]
    rfl
  · cases hrun : expression broken with
    | ok e t =>
      rw [hrun] at herror
      cases herror
    | error e t =>
      refine ⟨e, t, rfl, fun again keyword => ?_⟩
      have hposition : ¬ t.cursor.position = broken.cursor.position := fun h =>
        hmoves ⟨e, t, hrun, h⟩
      have hventured : ventured broken = .error e t := by
        rw [ventured, hrun]
        exact if_neg hposition
      have hcondition : venturedCondition broken = .error e t := bind_error hventured
      rw [hwhile again keyword false]
      exact bind_error hcondition

end Frontend
end CurlyScript
