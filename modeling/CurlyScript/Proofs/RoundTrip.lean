import CurlyScript.Proofs.Sameness
import CurlyScript.Proofs.StmtReprint

/-!
# Printing and parsing

Printing the statements of a text and parsing what is printed gives the same statements again.

## Main results

* `Written.noEnd` — the canonical form of what is written in any form has no end in it.
* `Reader.parse_printed` — the round trip from the statements of a text.
-/

namespace CurlyScript

/-! ### No end is printed -/

/-- Whether none of some pieces is an end. -/
def NoEnd (ps : List Piece) : Prop := ∀ p ∈ ps, p.token.kind ≠ .endOfFile

@[simp] theorem noEnd_nil : NoEnd [] := by simp [NoEnd]

@[simp] theorem noEnd_cons (p : Piece) (ps : List Piece) :
    NoEnd (p :: ps) ↔ p.token.kind ≠ .endOfFile ∧ NoEnd ps := List.forall_mem_cons

@[simp] theorem noEnd_append (ps qs : List Piece) : NoEnd (ps ++ qs) ↔ NoEnd ps ∧ NoEnd qs :=
  List.forall_mem_append

/-- What is spelled by tokens that are no ends has no end in it. -/
theorem Spells.noEnd {ps : List Piece} {a b : List Token} (h : Spells ps a b)
    (ha : ∀ t ∈ a, t.kind ≠ .endOfFile) : NoEnd ps := by
  induction h with
  | nil => exact noEnd_nil
  | one ht _ ih =>
    obtain ⟨hfirst, hrest⟩ := List.forall_mem_cons.mp ha
    rw [ht.kind_eq] at hfirst
    exact (noEnd_cons _ _).mpr ⟨hfirst, ih hrest⟩
  | shift _ _ ih =>
    have hrest := ih (List.forall_mem_cons.mp ha).2
    simp [hrest]

theorem WrittenCondition.noEnd {e : Expr} {ps : List Piece} (h : WrittenCondition e ps)
    (hps : NoEnd ps) : NoEnd e.pieces := by
  cases h with
  | written => exact hps
  | absent hkind => simp [Expr.pieces, hkind]

theorem WrittenHeader.noEnd {header : LoopHeader} {ps : List Piece} (h : WrittenHeader header ps)
    (hps : NoEnd ps) : NoEnd (headerPieces header) := by
  cases h with
  | counting hcondition =>
    simp only [noEnd_append, noEnd_cons] at hps
    simp [headerPieces, hps, hcondition.noEnd hps.2.2.1]
  | each => exact hps

/-- The canonical pieces of a part. -/
abbrev Part.pieces : Part → List Piece
  | .stmt s => s.pieces
  | .block b => b.pieces
  | .stmts statements => stmtsPieces statements
  | .function f => f.pieces
  | .cases arms default => casesPieces arms ++ defaultPieces default
  | .members fields methods => fieldsPieces fields ++ functionsPieces methods

/-- The canonical form of what is written in any form has no end in it. -/
theorem Written.noEnd {part : Part} {ps : List Piece} (h : Written part ps) (hps : NoEnd ps) :
    NoEnd part.pieces := by
  induction h with
  | block _ ih | functionDecl _ ih => exact ih hps
  | expression _ | var _ =>
    rw [noEnd_append] at hps
    simp [Stmt.pieces, hps]
  | ret _ | breakOut _ | continueOn _ =>
    simp only [noEnd_cons, noEnd_append, Piece.token_kept] at hps
    simp [Stmt.pieces, hps]
  | ifThen _ ih =>
    simp only [noEnd_cons, noEnd_append, Piece.token_kept] at hps
    simp [Stmt.pieces, elsePieces, hps, ih hps.2.2]
  | ifElse _ _ ihyes ihno =>
    simp only [noEnd_cons, noEnd_append, Piece.token_kept] at hps
    simp [Stmt.pieces, elsePieces, hps, ihyes hps.2.2.1, ihno hps.2.2.2.2]
  | whileLoop hcondition _ ih =>
    simp only [noEnd_cons, noEnd_append, Piece.token_kept] at hps
    simp [Stmt.pieces, hps, hcondition.noEnd hps.2.1, ih hps.2.2]
  | doWhile hcondition _ ih =>
    simp only [noEnd_cons, noEnd_append, Piece.token_kept] at hps
    simp [Stmt.pieces, hps, hcondition.noEnd hps.2.2.1, ih hps.2.2.2]
  | forBare hheader _ ih =>
    simp only [noEnd_cons, noEnd_append, Piece.token_kept] at hps
    simp [loopPieces, hps, hheader.noEnd hps.2.1, ih hps.2.2]
  | forParens hheader _ ih =>
    simp only [noEnd_cons, noEnd_append, Piece.token_kept] at hps
    simp [loopPieces, hps, hheader.noEnd hps.2.2.1, ih hps.2.2.2.2]
  | classDecl _ ih =>
    simp only [noEnd_cons, noEnd_append, Piece.token_kept] at hps
    have hmembers := (noEnd_append _ _).mp (ih hps.2.2.2.2.2.1)
    simp [Stmt.pieces, hps, hmembers]
  | switch _ ih =>
    simp only [noEnd_cons, noEnd_append, Piece.token_kept] at hps
    have hcases := (noEnd_append _ _).mp (ih hps.2.2.2.1)
    simp [Stmt.pieces, hps, hcases]
  | braces _ ih =>
    simp only [noEnd_cons, noEnd_append, Piece.token_kept] at hps
    simp [Block.pieces, hps, ih hps.2.1]
  | noStmt | noCase | noMember => exact noEnd_nil
  | moreStmts _ _ ih ihmore =>
    rw [noEnd_append] at hps
    simp [stmtsPieces, ih hps.1, ihmore hps.2]
  | function _ ih =>
    simp only [noEnd_cons, noEnd_append, Piece.token_kept] at hps
    simp [FunctionDecl.pieces, hps, ih hps.2.2.2]
  | default _ _ _ ih ihmore =>
    simp only [noEnd_cons, noEnd_append] at hps
    have hcases := (noEnd_append _ _).mp (ihmore hps.2.2.2)
    simp [defaultPieces, wildcard, ih hps.2.2.1, hcases]
  | moreCases _ _ ih ihmore =>
    simp only [noEnd_cons, noEnd_append, Piece.token_kept] at hps
    have hcases := (noEnd_append _ _).mp (ihmore hps.2.2.2)
    simp [casesPieces, SwitchCase.pieces, hps, ih hps.2.2.1, hcases]
  | field _ _ ih =>
    simp only [noEnd_append] at hps
    have hmembers := (noEnd_append _ _).mp (ih hps.2.2)
    simp [fieldsPieces, hps, hmembers]
  | method _ _ ih ihmore =>
    rw [noEnd_append] at hps
    have hmembers := (noEnd_append _ _).mp (ihmore hps.2)
    simp [functionsPieces, ih hps.1, hmembers]
  | stray _ ih => exact ih ((noEnd_cons _ _).mp hps).2

/-- The printed statements of a file of tokens that are no ends have no end in them. -/
theorem ReadsFile.printed_kind_ne {a : List Token} {statements : List Stmt}
    (h : ReadsFile a statements) (ha : ∀ t ∈ a, t.kind ≠ .endOfFile) :
    ∀ t ∈ printed statements, t.kind ≠ .endOfFile := by
  obtain ⟨ps, hwritten, hspells⟩ := h.spelled
  have hnoEnd := hwritten.noEnd (hspells.noEnd ha)
  intro t ht
  obtain ⟨p, hp, rfl⟩ := List.mem_map.mp ht
  exact hnoEnd p hp

/-! ### The round trip -/

/-- The tokens of statements in their canonical form, and the end after them. -/
def printedStream (statements : List Stmt) : TokenStream :=
  { tokens := printed statements ++ [.endOfFile (.atOrigin "")], hadError := false }

namespace Reader

/-- Printing the statements and parsing what is printed gives the statements again. -/
structure RoundTrips (statements : List Stmt) : Prop where
  /-- Nothing is complained about. -/
  clean : (parse (.ofStream (printedStream statements))).2.hadError = false
  /-- The statements are the very same, places included. -/
  parse_eq : (parse (.ofStream (printedStream statements))).1 = statements
  /-- In particular they are the same up to the place. -/
  same : sameStmts (parse (.ofStream (printedStream statements))).1 statements = true

/-- What is read from regular tokens is printed and parsed to the same again. -/
theorem roundTrips_of_reads {body : List Token} {statements : List Stmt}
    (h : ReadsFile body statements) (hbody : ∀ t ∈ body, t.Regular) : RoundTrips statements := by
  have hends := h.printed_kind_ne fun t ht => (hbody t ht).kind_ne
  have hstop : (Token.endOfFile (.atOrigin "")).kind = .endOfFile := rfl
  obtain ⟨hparse, hclean⟩ := (parse_stream_clean_iff hends hstop statements).mpr h.reprint
  refine ⟨hclean, hparse, ?_⟩
  rw [printedStream, hparse]
  exact h.same hbody

/-- **Printing the statements of a text and parsing them again gives the same statements.**

If a text is parsed without complaint, its printed statements are parsed without complaint too, to
the very same statements. -/
theorem parse_printed (file text : String)
    (hclean : (parse (.ofStream (Lexer.ofText file text).tokenize.1)).2.hadError = false) :
    RoundTrips (parse (.ofStream (Lexer.ofText file text).tokenize.1)).1 := by
  obtain ⟨body, stop, -, -, hbody, hreads⟩ := readsFile_of_clean file text hclean
  exact roundTrips_of_reads hreads fun t ht => (hbody t ht).regular

/-- A class with a method before a field, a choice with the default before a case, and a loop
without a condition, all without semicolons, are printed in another order and with more tokens, and
parsed to the same. -/
theorem parse_printed_reordered :
    let text := "class A \x7b fn f() \x7b \x7d var mut x \x7d " ++
      "switch x \x7b _ -> \x7b \x7d 1 -> \x7b \x7d \x7d while \x7b x += 1 \x7d"
    (parse (.ofStream (Lexer.ofText "reordered" text).tokenize.1)).2.hadError = false ∧
      RoundTrips (parse (.ofStream (Lexer.ofText "reordered" text).tokenize.1)).1 := by
  intro text
  have hclean : (parse (.ofStream (Lexer.ofText "reordered" text).tokenize.1)).2.hadError =
      false := by
    rw [Lexer.tokenize, Lexer.collect_eq_collectWithin 100 (by decide)]
    decide +kernel
  exact ⟨hclean, parse_printed "reordered" text hclean⟩

end Reader
end CurlyScript
