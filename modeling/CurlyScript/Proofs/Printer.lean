import CurlyScript.Proofs.Linearisation

/-!
# A printer

Of the concrete forms of a statement one is canonical: every semicolon that may be written is
written, every header is in parentheses, every condition is there, fields come before methods and
the default comes after the cases.  The printer writes that form down token by token; the tokens
that the tree does not keep get their fixed spelling and no place.

## Main definitions

* `Stmt.pieces`, `stmtsPieces` — the canonical form of statements.
* `Piece.token` — the token that is written for a piece.
* `printed` — the tokens of a list of statements.
-/

namespace CurlyScript

/-! ### The canonical form -/

/-- The piece for a semicolon. -/
abbrev Piece.semicolon : Piece := .punct .semicolon

/-- The word that selects the default of a choice by value. -/
def wildcard : Token :=
  { kind := .identifier, lexeme := "_", span := .atOrigin "", literal := some (.str "_") }

/-- The pieces of a header in parentheses. -/
def headerPieces : LoopHeader → List Piece
  | .counting init condition step =>
    initPieces init ++ .semicolon :: (condition.pieces ++ .semicolon :: exprPieces? step)
  | .each binding colon iterable => binding.pieces ++ .kept colon :: iterable.pieces

/-- The pieces of a loop `for`, given those of its body. -/
def loopPieces (keyword : Token) (header : LoopHeader) (body : List Piece) : List Piece :=
  .kept keyword :: .punct .lparen :: (headerPieces header ++ .punct .rparen :: body)

/-- The pieces of fields. -/
def fieldsPieces : List VarDecl → List Piece
  | [] => []
  | decl :: fields => decl.pieces ++ .semicolon :: fieldsPieces fields

mutual

/-- The pieces of a statement.  The body of a counting loop with a step is written without the
step that was added to it. -/
def Stmt.pieces : Stmt → List Piece
  | .block body => body.pieces
  | .expression e => e.pieces ++ [.semicolon]
  | .ifElse keyword condition yes no =>
    .kept keyword :: (condition.pieces ++ (yes.pieces ++ elsePieces no))
  | .ret keyword value => .kept keyword :: (exprPieces? value ++ [.semicolon])
  | .var decl => decl.pieces ++ [.semicolon]
  | .whileLoop keyword condition body false => .kept keyword :: (condition.pieces ++ body.pieces)
  | .whileLoop keyword condition body true =>
    .kept keyword :: .mark (.keyword .while) :: (condition.pieces ++ body.pieces)
  | .forLoop keyword init condition (some step) (.block ⟨_, [body, _], _⟩) =>
    loopPieces keyword (.counting init condition (some step)) body.pieces
  | .forLoop keyword init condition step body =>
    loopPieces keyword (.counting init condition step) body.pieces
  | .forEach keyword binding colon iterable body =>
    loopPieces keyword (.each binding colon iterable) body.pieces
  | .breakOut keyword => [.kept keyword, .semicolon]
  | .continueOn keyword => [.kept keyword, .semicolon]
  | .function decl => decl.pieces
  | .classDecl keyword name generics superclass fields methods close =>
    .kept keyword :: .kept name :: (genericsPieces generics ++ (superclassPieces superclass ++
      .punct .lbrace :: (fieldsPieces fields ++ (functionsPieces methods ++ [.kept close]))))
  | .switch keyword subject cases default close =>
    .kept keyword :: (subject.pieces ++
      .punct .lbrace :: (casesPieces cases ++ (defaultPieces default ++ [.kept close])))

/-- The pieces of a block. -/
def Block.pieces : Block → List Piece
  | ⟨lbrace, statements, rbrace⟩ => .kept lbrace :: (stmtsPieces statements ++ [.kept rbrace])

/-- The pieces of a function. -/
def FunctionDecl.pieces : FunctionDecl → List Piece
  | ⟨keyword, name, generics, params, returnType, body⟩ =>
    .kept keyword :: .kept name :: (signaturePieces generics params returnType ++ body.pieces)

/-- The pieces of a case. -/
def SwitchCase.pieces : SwitchCase → List Piece
  | ⟨value, arrow, body⟩ => value.pieces ++ .kept arrow :: body.pieces

/-- The pieces of the second branch of a choice. -/
def elsePieces : Option Stmt → List Piece
  | none => []
  | some no => .mark (.keyword .else) :: no.pieces

/-- The pieces of the default of a choice by value. -/
def defaultPieces : Option Block → List Piece
  | none => []
  | some body => .kept wildcard :: .punct .arrow :: body.pieces

/-- The pieces of statements one after the other. -/
def stmtsPieces : List Stmt → List Piece
  | [] => []
  | s :: statements => s.pieces ++ stmtsPieces statements

/-- The pieces of functions one after the other. -/
def functionsPieces : List FunctionDecl → List Piece
  | [] => []
  | decl :: methods => decl.pieces ++ functionsPieces methods

/-- The pieces of cases one after the other. -/
def casesPieces : List SwitchCase → List Piece
  | [] => []
  | case :: cases => case.pieces ++ casesPieces cases

end

@[simp] theorem pieces_loop (keyword : Token) (header : LoopHeader) (body : Stmt) :
    (header.loop keyword body).pieces = loopPieces keyword header body.pieces := by
  rcases header with ⟨init, condition, _ | step⟩ | ⟨binding, colon, iterable⟩
  · simp [LoopHeader.loop, Reader.loopBody, Stmt.pieces]
  · simp [LoopHeader.loop, Reader.loopBody, Reader.bodyWithStep, Stmt.pieces]
  · simp [LoopHeader.loop, Stmt.pieces]

/-! ### Tokens -/

/-- The compound assignment with an operation inside. -/
def Operator.compoundOf (base : Operator) : Operator :=
  (all.find? fun o => o.compoundBase? == some base).getD .equals

theorem Operator.compoundOf_eq {o base : Operator} (h : o.compoundBase? = some base) :
    base.compoundOf = o := by
  cases o <;> cases h <;> rfl

namespace Piece

/-- The token that is written for a piece. -/
def token : Piece → Token
  | .kept t => t
  | .mark kind => { kind, lexeme := kind.lexeme?.getD "", span := .atOrigin "" }
  | .close =>
    { kind := .operator .greater, lexeme := Operator.greater.lexeme, span := .atOrigin "" }
  | .compound op base =>
    { kind := .operator base.compoundOf, lexeme := base.compoundOf.lexeme, span := op.span }

@[simp] theorem token_kept (t : Token) : (kept t).token = t := rfl

@[simp] theorem kind_token_mark (kind : Kind) : (mark kind).token.kind = kind := rfl

@[simp] theorem kind_token_close : close.token.kind = .operator .greater := rfl

/-- The written token is of the kind of any token that fits. -/
theorem Fits.kind_eq {p : Piece} {t : Token} (h : p.Fits t) : t.kind = p.token.kind := by
  cases p with
  | kept => rw [h, token_kept]
  | mark => exact h
  | close => exact h
  | compound op base =>
    obtain ⟨o, hkind, hbase, -⟩ := h
    rw [hkind, ← Operator.compoundOf_eq hbase]
    rfl

end Piece

/-- The tokens that are written for some pieces. -/
def tokensOf (ps : List Piece) : List Token := ps.map Piece.token

@[simp] theorem tokensOf_nil : tokensOf [] = [] := rfl

@[simp] theorem tokensOf_cons (p : Piece) (ps : List Piece) :
    tokensOf (p :: ps) = p.token :: tokensOf ps := rfl

@[simp] theorem tokensOf_append (ps qs : List Piece) :
    tokensOf (ps ++ qs) = tokensOf ps ++ tokensOf qs := List.map_append

/-- Before a piece in the middle. -/
theorem tokensOf_append_cons (ps qs : List Piece) (p : Piece) (c : List Token) :
    tokensOf (ps ++ p :: qs) ++ c = tokensOf ps ++ p.token :: (tokensOf qs ++ c) := by simp

/-- Between two lists of pieces. -/
theorem tokensOf_append_append (ps qs : List Piece) (c : List Token) :
    tokensOf (ps ++ qs) ++ c = tokensOf ps ++ (tokensOf qs ++ c) := by simp

/-- The tokens of statements in their canonical form. -/
def printed (statements : List Stmt) : List Token := tokensOf (stmtsPieces statements)

end CurlyScript
