import CurlyScript.Proofs.Pieces
import CurlyScript.Proofs.StmtSyntax
import CurlyScript.Proofs.Tiling
import CurlyScript.Proofs.Totality

/-!
# Statements and the tokens they were read from

A file that is parsed without complaint is a linearisation of its statements: every token is
either kept in the tree or asked for by its shape, at the place where the concrete syntax has it.
What the tree does not determine is little, and `Written` lists all of it: semicolons that may be
left out, semicolons by themselves in a class, the parentheses of a header, a condition that is not
written, the place of the default among the cases and of the fields among the methods.

## Main definitions

* `VarDecl.pieces`, `LoopInit.pieces` — the concrete form of the parts of statements that
  have only one.
* `Part` — a statement or a part of one.
* `Written` — the concrete forms of a part.

## Main results

* `ReadsStmt.spelled` — tokens that are read to a statement spell one of its concrete forms.
* `Frontend.linearises_of_clean` — so do the tokens of a text that is parsed without complaint.
-/

namespace CurlyScript

/-! ### Variables and headers -/

/-- The pieces of the opening of a declaration, up to the name of the variable. -/
def VarDecl.headPieces (d : VarDecl) : List Piece :=
  .kept d.keyword :: ((if d.mutable then [.mark (.keyword .mut)] else []) ++ [.kept d.name])

/-- The pieces of the first value of a variable. -/
def valuePieces : Option Expr → List Piece
  | none => []
  | some e => .mark (.operator .equals) :: e.pieces

/-- The pieces of the declaration of a variable. -/
def VarDecl.pieces (d : VarDecl) : List Piece :=
  d.headPieces ++ typeAfterPieces d.type .colon ++ valuePieces d.value

/-- The pieces of what a loop does first. -/
def LoopInit.pieces : LoopInit → List Piece
  | .var decl => decl.pieces
  | .expression e => e.pieces

/-- The pieces of what a loop does first, if it does anything. -/
def initPieces : Option LoopInit → List Piece
  | none => []
  | some init => init.pieces

/-- The pieces of an expression that may be missing. -/
def exprPieces? : Option Expr → List Piece
  | none => []
  | some e => e.pieces

/-- The pieces of the superclass of a class. -/
def superclassPieces : Option Expr → List Piece
  | none => []
  | some e => .punct .colon :: e.pieces

/-! ### Concrete forms -/

/-- A semicolon that may be left out. -/
inductive Semicolon? : List Piece → Prop
  /-- It is left out. -/
  | absent : Semicolon? []
  /-- It is written. -/
  | written : Semicolon? [.punct .semicolon]

/-- The concrete forms of the condition of a loop. -/
inductive WrittenCondition : Expr → List Piece → Prop
  /-- The condition is written. -/
  | written (e : Expr) : WrittenCondition e e.pieces
  /-- The condition `true` is left out. -/
  | absent {token : Token} (hkind : token.kind = .keyword .true)
      (hlexeme : token.lexeme = Keyword.true.lexeme) :
    WrittenCondition (.literal (.bool true) token) []

/-- The concrete forms of the header of a loop `for`, without its parentheses. -/
inductive WrittenHeader : LoopHeader → List Piece → Prop
  /-- What is done first, the condition and the step. -/
  | counting {init : Option LoopInit} {condition : Expr} {step : Option Expr} {ps : List Piece}
      (hcondition : WrittenCondition condition ps) :
    WrittenHeader (.counting init condition step)
      (initPieces init ++ .punct .semicolon :: (ps ++ .punct .semicolon :: exprPieces? step))
  /-- The variable and what its values are taken from. -/
  | each {binding : VarDecl} {colon : Token} {iterable : Expr} :
    WrittenHeader (.each binding colon iterable)
      (binding.pieces ++ .kept colon :: iterable.pieces)

/-- A statement or a part of one. -/
inductive Part
  /-- A statement. -/
  | stmt (s : Stmt)
  /-- A block. -/
  | block (b : Block)
  /-- Statements one after the other. -/
  | stmts (statements : List Stmt)
  /-- A function. -/
  | function (f : FunctionDecl)
  /-- The cases of a choice by value and its default. -/
  | cases (cases : List SwitchCase) (default : Option Block)
  /-- The fields and the methods of a class. -/
  | members (fields : List VarDecl) (methods : List FunctionDecl)

/-- The concrete forms of a part.  The body of a loop with a step is written without the step,
which stands in the header only. -/
inductive Written : Part → List Piece → Prop
  /-- A block. -/
  | block {b : Block} {ps : List Piece} (h : Written (.block b) ps) : Written (.stmt (.block b)) ps
  /-- An expression. -/
  | expression {e : Expr} {qs : List Piece} (hqs : Semicolon? qs) :
    Written (.stmt (.expression e)) (e.pieces ++ qs)
  /-- A choice with one branch. -/
  | ifThen {keyword : Token} {condition : Expr} {yes : Stmt} {ps : List Piece}
      (hyes : Written (.stmt yes) ps) :
    Written (.stmt (.ifElse keyword condition yes none))
      (.kept keyword :: (condition.pieces ++ ps))
  /-- A choice with two branches. -/
  | ifElse {keyword : Token} {condition : Expr} {yes no : Stmt} {ps qs : List Piece}
      (hyes : Written (.stmt yes) ps) (hno : Written (.stmt no) qs) :
    Written (.stmt (.ifElse keyword condition yes (some no)))
      (.kept keyword :: (condition.pieces ++ (ps ++ .mark (.keyword .else) :: qs)))
  /-- The end of a function. -/
  | ret {keyword : Token} {value : Option Expr} {qs : List Piece} (hqs : Semicolon? qs) :
    Written (.stmt (.ret keyword value)) (.kept keyword :: (exprPieces? value ++ qs))
  /-- The declaration of a variable. -/
  | var {decl : VarDecl} {qs : List Piece} (hqs : Semicolon? qs) :
    Written (.stmt (.var decl)) (decl.pieces ++ qs)
  /-- A loop whose condition is tested before its body. -/
  | whileLoop {keyword : Token} {condition : Expr} {body : Stmt} {ps qs : List Piece}
      (hcondition : WrittenCondition condition ps) (hbody : Written (.stmt body) qs) :
    Written (.stmt (.whileLoop keyword condition body false)) (.kept keyword :: (ps ++ qs))
  /-- A loop whose condition is tested after its body, and written before it. -/
  | doWhile {keyword : Token} {condition : Expr} {body : Stmt} {ps qs : List Piece}
      (hcondition : WrittenCondition condition ps) (hbody : Written (.stmt body) qs) :
    Written (.stmt (.whileLoop keyword condition body true))
      (.kept keyword :: .mark (.keyword .while) :: (ps ++ qs))
  /-- A loop `for` with a bare header. -/
  | forBare {keyword : Token} {header : LoopHeader} {body : Stmt} {ps qs : List Piece}
      (hheader : WrittenHeader header ps) (hbody : Written (.stmt body) qs) :
    Written (.stmt (header.loop keyword body)) (.kept keyword :: (ps ++ qs))
  /-- A loop `for` with its header in parentheses. -/
  | forParens {keyword : Token} {header : LoopHeader} {body : Stmt} {ps qs : List Piece}
      (hheader : WrittenHeader header ps) (hbody : Written (.stmt body) qs) :
    Written (.stmt (header.loop keyword body))
      (.kept keyword :: .punct .lparen :: (ps ++ .punct .rparen :: qs))
  /-- The end of a loop. -/
  | breakOut {keyword : Token} {qs : List Piece} (hqs : Semicolon? qs) :
    Written (.stmt (.breakOut keyword)) (.kept keyword :: qs)
  /-- The next round of a loop. -/
  | continueOn {keyword : Token} {qs : List Piece} (hqs : Semicolon? qs) :
    Written (.stmt (.continueOn keyword)) (.kept keyword :: qs)
  /-- The declaration of a function. -/
  | functionDecl {decl : FunctionDecl} {ps : List Piece} (h : Written (.function decl) ps) :
    Written (.stmt (.function decl)) ps
  /-- The declaration of a class. -/
  | classDecl {keyword name close : Token} {generics : Option TypeList} {superclass : Option Expr}
      {fields : List VarDecl} {methods : List FunctionDecl} {ps : List Piece}
      (h : Written (.members fields methods) ps) :
    Written (.stmt (.classDecl keyword name generics superclass fields methods close))
      (.kept keyword :: .kept name :: (genericsPieces generics ++ (superclassPieces superclass ++
        .punct .lbrace :: (ps ++ [.kept close]))))
  /-- A choice by value. -/
  | switch {keyword close : Token} {subject : Expr} {cases : List SwitchCase}
      {default : Option Block} {ps : List Piece} (h : Written (.cases cases default) ps) :
    Written (.stmt (.switch keyword subject cases default close))
      (.kept keyword :: (subject.pieces ++ .punct .lbrace :: (ps ++ [.kept close])))
  /-- The statements of a block in their braces. -/
  | braces {lbrace rbrace : Token} {statements : List Stmt} {ps : List Piece}
      (h : Written (.stmts statements) ps) :
    Written (.block ⟨lbrace, statements, rbrace⟩) (.kept lbrace :: (ps ++ [.kept rbrace]))
  /-- No statement. -/
  | noStmt : Written (.stmts []) []
  /-- A statement before others. -/
  | moreStmts {s : Stmt} {statements : List Stmt} {ps qs : List Piece} (h : Written (.stmt s) ps)
      (hmore : Written (.stmts statements) qs) :
    Written (.stmts (s :: statements)) (ps ++ qs)
  /-- The parts of a function. -/
  | function {keyword name : Token} {generics : Option TypeList} {params : List Param}
      {returnType : Option TypeRef} {body : Block} {ps : List Piece}
      (h : Written (.block body) ps) :
    Written (.function ⟨keyword, name, generics, params, returnType, body⟩)
      (.kept keyword :: .kept name :: (signaturePieces generics params returnType ++ ps))
  /-- No case. -/
  | noCase : Written (.cases [] none) []
  /-- The default with its wildcard, before some of the cases. -/
  | default {wildcard : Token} {cases : List SwitchCase} {body : Block} {ps qs : List Piece}
      (hwildcard : wildcard.lexeme = "_") (h : Written (.block body) ps)
      (hmore : Written (.cases cases none) qs) :
    Written (.cases cases (some body)) (.kept wildcard :: .punct .arrow :: (ps ++ qs))
  /-- A case before others. -/
  | moreCases {value : Expr} {arrow : Token} {body : Block} {cases : List SwitchCase}
      {default : Option Block} {ps qs : List Piece} (h : Written (.block body) ps)
      (hmore : Written (.cases cases default) qs) :
    Written (.cases (⟨value, arrow, body⟩ :: cases) default)
      (value.pieces ++ .kept arrow :: (ps ++ qs))
  /-- No member. -/
  | noMember : Written (.members [] []) []
  /-- A field before other members. -/
  | field {decl : VarDecl} {fields : List VarDecl} {methods : List FunctionDecl}
      {qs rs : List Piece} (hqs : Semicolon? qs) (hmore : Written (.members fields methods) rs) :
    Written (.members (decl :: fields) methods) (decl.pieces ++ (qs ++ rs))
  /-- A method before other members. -/
  | method {decl : FunctionDecl} {fields : List VarDecl} {methods : List FunctionDecl}
      {ps rs : List Piece} (h : Written (.function decl) ps)
      (hmore : Written (.members fields methods) rs) :
    Written (.members fields (decl :: methods)) (ps ++ rs)
  /-- A semicolon by itself before other members. -/
  | stray {fields : List VarDecl} {methods : List FunctionDecl} {rs : List Piece}
      (hmore : Written (.members fields methods) rs) :
    Written (.members fields methods) (.punct .semicolon :: rs)

/-! ### Variables, conditions and headers are spelled -/

/-- The opening of a declaration is all of it so far. -/
theorem ReadsVarHead.spells {keyword : Token} {a b : List Token} {head : VarDecl}
    (h : ReadsVarHead keyword a head b) :
    head.type = none ∧ head.value = none ∧ Spells head.pieces (keyword :: a) b := by
  cases h with
  | mutable hword => exact ⟨rfl, rfl, (Spells.nil.kept.mark hword).kept⟩
  | fixed => exact ⟨rfl, rfl, Spells.nil.kept.kept⟩

/-- A value is added to what has been spelled of a declaration. -/
theorem ReadsVarValue.spells {decl d : VarDecl} {a b c : List Token} (h : ReadsVarValue decl b d c)
    (hdecl : decl.value = Option.none) (hspells : SpellsHalf decl.pieces a b) :
    SpellsHalf d.pieces a c := by
  cases h with
  | none => exact hspells
  | value hequals he =>
    have hpieces : decl.pieces = decl.headPieces ++ typeAfterPieces decl.type .colon := by
      rw [VarDecl.pieces, hdecl, valuePieces, List.append_nil]
    rw [hpieces] at hspells
    exact .whole ((hspells.spells (by simp [hequals])).append (he.spells.mark hequals))

/-- A type is added to what has been spelled of a declaration. -/
theorem ReadsVarHead.spells_typed {keyword colon : Token} {head : VarDecl} {type : TypeRef}
    {a b c : List Token} (h : ReadsVarHead keyword a head (colon :: b))
    (hcolon : colon.kind = .punctuation .colon) (htype : ReadsType .ref b type c) :
    SpellsHalf ({ head with type := some type } : VarDecl).pieces (keyword :: a) c := by
  obtain ⟨hnotype, hnovalue, hspells⟩ := h.spells
  have hpieces : ({ head with type := some type } : VarDecl).pieces =
      head.pieces ++ .punct .colon :: type.pieces := by
    simp [VarDecl.pieces, VarDecl.headPieces, hnotype, hnovalue, typeAfterPieces, valuePieces]
  rw [hpieces]
  exact .of_spells hspells (htype.spells_ref.mark hcolon)

theorem ReadsVar.spells {keyword : Token} {a b : List Token} {decl : VarDecl}
    (h : ReadsVar keyword a decl b) : SpellsHalf decl.pieces (keyword :: a) b := by
  cases h with
  | typed hhead hcolon htype hvalue =>
    exact hvalue.spells hhead.spells.2.1 (hhead.spells_typed hcolon htype)
  | untyped hhead _ hvalue =>
    obtain ⟨-, hnovalue, hspells⟩ := hhead.spells
    exact hvalue.spells hnovalue (.whole hspells)

theorem ReadsCondition.spells {a b : List Token} {e : Expr} (h : ReadsCondition a e b) :
    ∃ ps, WrittenCondition e ps ∧ Spells ps a b := by
  cases h with
  | written h => exact ⟨_, .written e, h.spells⟩
  | absent => exact ⟨[], .absent rfl rfl, .nil⟩

theorem ReadsExpr?.spells {a b : List Token} {e : Option Expr} (h : ReadsExpr? a e b) :
    Spells (exprPieces? e) a b := by
  cases h with
  | some h => exact h.spells
  | none => exact .nil

theorem ReadsSuperclass.spells {a b : List Token} {superclass : Option Expr}
    (h : ReadsSuperclass a superclass b) : Spells (superclassPieces superclass) a b := by
  cases h with
  | some hcolon => exact Spells.nil.kept.mark hcolon
  | none => exact .nil

theorem ReadsSuperclass.not_greater {a b : List Token} {superclass : Option Expr}
    (h : ReadsSuperclass a superclass b) (hb : headKind? b ≠ Option.some (.operator .greater)) :
    headKind? a ≠ Option.some (.operator .greater) := by
  cases h with
  | some hcolon => simp [hcolon]
  | none => exact hb

/-- A semicolon is written or left out. -/
theorem spells_semicolon {semicolon : Option Token} {a b : List Token}
    (h : Reading.token? (.punctuation .semicolon) a semicolon b) :
    ∃ qs, Semicolon? qs ∧ Spells qs a b := by
  cases semicolon with
  | some t =>
    obtain ⟨rfl, ht⟩ := h
    exact ⟨_, .written, Spells.nil.mark ht⟩
  | none =>
    obtain ⟨-, rfl⟩ := h
    exact ⟨_, .absent, .nil⟩

/-- After half a shift there is no semicolon. -/
theorem SpellsHalf.semicolon {ps : List Piece} {semicolon : Option Token} {a b c : List Token}
    (h : SpellsHalf ps a b) (hsemicolon : Reading.token? (.punctuation .semicolon) b semicolon c) :
    ∃ qs, Semicolon? qs ∧ SpellsHalf (ps ++ qs) a c := by
  cases semicolon with
  | some t =>
    obtain ⟨rfl, ht⟩ := hsemicolon
    exact ⟨_, .written, .whole ((h.spells (by simp [ht])).append (Spells.nil.mark ht))⟩
  | none =>
    obtain ⟨-, rfl⟩ := hsemicolon
    exact ⟨_, .absent, (List.append_nil ps).symm ▸ h⟩

/-- The piece that closes a header, if a parenthesis opened it. -/
def closePieces (parenthesized : Bool) : List Piece :=
  if parenthesized then [.punct .rparen] else []

theorem spells_close {parenthesized : Bool} {a b : List Token}
    (h : ReadsClose parenthesized a () b) : Spells (closePieces parenthesized) a b := by
  cases parenthesized with
  | true =>
    obtain ⟨close, rfl, hclose⟩ := h
    exact Spells.nil.mark hclose
  | false =>
    cases h
    exact .nil

/-- The rest of the header of a counting loop. -/
theorem ReadsClauses.spells {parenthesized : Bool} {init : Option LoopInit} {header : LoopHeader}
    {semicolon : Token} {a b c : List Token} (h : ReadsClauses parenthesized init b header c)
    (hinit : Spells (initPieces init) a (semicolon :: b))
    (hsemicolon : semicolon.kind = .punctuation .semicolon) :
    ∃ ps, WrittenHeader header ps ∧ Spells (ps ++ closePieces parenthesized) a c := by
  cases h with
  | mk hcondition hsecond hstep hclose =>
    obtain ⟨ps, hwritten, hps⟩ := hcondition.spells
    refine ⟨_, .counting hwritten, ?_⟩
    simp only [List.append_assoc, List.cons_append]
    exact hinit.append ((hps.append ((hstep.spells.append (spells_close hclose)).mark
      hsecond)).mark hsemicolon)

theorem ReadsHeader.spells {parenthesized : Bool} {a b : List Token} {header : LoopHeader}
    (h : ReadsHeader parenthesized a header b) :
    ∃ ps, WrittenHeader header ps ∧ Spells (ps ++ closePieces parenthesized) a b := by
  cases h with
  | bare hsemicolon h => exact h.spells .nil hsemicolon
  | typedVar _ hhead hcolon htype hvalue hsemicolon h =>
    have hdecl := hvalue.spells hhead.spells.2.1 (hhead.spells_typed hcolon htype)
    exact h.spells (hdecl.spells (by simp [hsemicolon])) hsemicolon
  | untypedVar _ hhead _ hvalue hsemicolon h =>
    obtain ⟨-, hnovalue, hspells⟩ := hhead.spells
    have hdecl := hvalue.spells hnovalue (.whole hspells)
    exact h.spells (hdecl.spells (by simp [hsemicolon])) hsemicolon
  | expression hfirst hsemicolon h => exact h.spells hfirst.spells hsemicolon
  | each _ hhead _ _ hiterable hclose =>
    obtain ⟨-, -, hspells⟩ := hhead.spells
    refine ⟨_, .each, ?_⟩
    simp only [List.append_assoc, List.cons_append]
    exact hspells.append (hiterable.spells.append (spells_close hclose)).kept

/-! ### Statements are spelled -/

/-- The forms that begin with a token of their own: statements, the statements of a block and the
members of a class. -/
def StmtForm.startsAfresh : StmtForm → Bool
  | .declaration | .statement | .body | .members => true
  | _ => false

/-- What may be left over before a statement, and is no beginning of one: half of a shift, or the
word for a second branch. -/
def leftOver : List Kind := [.operator .greater, .keyword .else]

theorem greater_mem_leftOver : Kind.operator .greater ∈ leftOver := by simp [leftOver]

theorem else_mem_leftOver : Kind.keyword .else ∈ leftOver := by simp [leftOver]

theorem AtClose.not_leftOver {a : List Token} (h : AtClose a) {kind : Kind}
    (hkind : kind ∈ leftOver) : headKind? a ≠ some kind := by
  rcases h with rfl | h
  · simp
  · rw [h, ne_eq, Option.some.injEq]
    rintro rfl
    simp [leftOver] at hkind

theorem BeginsExpression.not_leftOver {a : List Token} (h : BeginsExpression a) {kind : Kind}
    (hkind : kind ∈ leftOver) : headKind? a ≠ some kind := by
  refine h.headKind?_ne kind fun t ht => ?_
  simp only [leftOver, List.mem_cons, List.not_mem_nil, or_false] at hkind
  rcases hkind with rfl | rfl <;> simp [Reader.startsExpression, ht, prefixOperators]

theorem ReadsStmt.not_leftOver {form : StmtForm} {a b : List Token} {v : form.Result}
    (h : ReadsStmt form a v b) (hform : form.startsAfresh = true) {kind : Kind}
    (hkind : kind ∈ leftOver) : headKind? a ≠ some kind := by
  induction h with
  | classDecl hkeyword | functionDecl hkeyword | var hkeyword | forParens hkeyword
  | forBare hkeyword | ifThen hkeyword | ifElse hkeyword | ret hkeyword | doWhile hkeyword
  | whileLoop hkeyword | breakOut hkeyword | continueOn hkeyword | switch hkeyword
  | blockStmt hkeyword | method hkeyword | field hkeyword | stray hkeyword =>
    rw [headKind?_cons, hkeyword, ne_eq, Option.some.injEq]
    rintro rfl
    simp [leftOver] at hkind
  | expression he => exact (he.begins rfl).not_leftOver hkind
  | stmt _ ih => exact ih rfl
  | bodyEnd ha | membersEnd ha => exact ha.not_leftOver hkind
  | bodyMore _ _ ih => exact ih rfl
  | block | function | casesEnd | casesDefault | casesMore => cases hform

/-- The tokens of a form spell a concrete form of what they are read to.  The last token of a
declaration may be half used. -/
def StmtForm.Spelled : (form : StmtForm) → form.Result → List Token → List Token → Prop
  | .declaration, s, a, b => ∃ ps, Written (.stmt s) ps ∧ SpellsHalf ps a b
  | .statement, s, a, b => ∃ ps, Written (.stmt s) ps ∧ Spells ps a b
  | .block lbrace, braced, a, b =>
    ∃ ps, Written (.block braced) (.kept lbrace :: ps) ∧ Spells ps a b
  | .body, statements, a, b => ∃ ps, Written (.stmts statements) ps ∧ Spells ps a b
  | .function keyword, decl, a, b =>
    ∃ ps, Written (.function decl) (.kept keyword :: ps) ∧ Spells ps a b
  | .cases none, r, a, b => ∃ ps, Written (.cases r.1 r.2) ps ∧ Spells ps a b
  | .cases (some default), r, a, b =>
    r.2 = some default ∧ ∃ ps, Written (.cases r.1 none) ps ∧ Spells ps a b
  | .members, r, a, b => ∃ ps, Written (.members r.1 r.2) ps ∧ Spells ps a b

/-- Tokens that are read to a statement spell one of its concrete forms. -/
theorem ReadsStmt.spelled {form : StmtForm} {a b : List Token} {v : form.Result}
    (h : ReadsStmt form a v b) : form.Spelled v a b := by
  induction h with
  | classDecl hkeyword hname hgenerics hsuperclass hlbrace _ hclose ih =>
    obtain ⟨ps, hwritten, hps⟩ := ih
    have hopen := hgenerics.spells.spells (hsuperclass.not_greater (by simp [hlbrace]))
    have hrest := (hps.append Spells.nil.kept).mark hlbrace
    exact ⟨_, .classDecl hwritten,
      .whole (hopen.append (hsuperclass.spells.append hrest)).kept.kept⟩
  | functionDecl _ _ ih =>
    obtain ⟨ps, hwritten, hps⟩ := ih
    exact ⟨_, .functionDecl hwritten, .whole hps.kept⟩
  | var _ hdecl hsemicolon =>
    obtain ⟨qs, hqs, hspells⟩ := hdecl.spells.semicolon hsemicolon
    exact ⟨_, .var hqs, hspells⟩
  | stmt _ ih =>
    obtain ⟨ps, hwritten, hps⟩ := ih
    exact ⟨ps, hwritten, .whole hps⟩
  | forParens _ hlparen hheader _ ih =>
    obtain ⟨hs, hwrittenHeader, hhs⟩ := hheader.spells
    obtain ⟨ps, hwritten, hps⟩ := ih
    have hloop := hhs.append hps
    rw [List.append_assoc] at hloop
    exact ⟨_, .forParens hwrittenHeader hwritten, (hloop.mark hlparen).kept⟩
  | forBare _ _ hheader _ ih =>
    obtain ⟨hs, hwrittenHeader, hhs⟩ := hheader.spells
    obtain ⟨ps, hwritten, hps⟩ := ih
    have hloop := hhs.append hps
    rw [List.append_assoc] at hloop
    exact ⟨_, .forBare hwrittenHeader hwritten, hloop.kept⟩
  | ifThen _ hcondition _ _ ih =>
    obtain ⟨ps, hwritten, hps⟩ := ih
    exact ⟨_, .ifThen hwritten, (hcondition.spells.append hps).kept⟩
  | ifElse _ hcondition _ hword _ ihyes ihno =>
    obtain ⟨ps, hyes, hps⟩ := ihyes
    obtain ⟨qs, hno, hqs⟩ := ihno
    exact ⟨_, .ifElse hyes hno, (hcondition.spells.append (hps.append (hqs.mark hword))).kept⟩
  | ret _ hvalue hsemicolon =>
    obtain ⟨qs, hqs, hspells⟩ := spells_semicolon hsemicolon
    exact ⟨_, .ret hqs, (hvalue.spells.append hspells).kept⟩
  | doWhile _ hword hcondition _ ih =>
    obtain ⟨cs, hwrittenCondition, hcs⟩ := hcondition.spells
    obtain ⟨ps, hwritten, hps⟩ := ih
    exact ⟨_, .doWhile hwrittenCondition hwritten, ((hcs.append hps).mark hword).kept⟩
  | whileLoop _ hcondition _ ih =>
    obtain ⟨cs, hwrittenCondition, hcs⟩ := hcondition.spells
    obtain ⟨ps, hwritten, hps⟩ := ih
    exact ⟨_, .whileLoop hwrittenCondition hwritten, (hcs.append hps).kept⟩
  | breakOut _ hsemicolon =>
    obtain ⟨qs, hqs, hspells⟩ := spells_semicolon hsemicolon
    exact ⟨_, .breakOut hqs, hspells.kept⟩
  | continueOn _ hsemicolon =>
    obtain ⟨qs, hqs, hspells⟩ := spells_semicolon hsemicolon
    exact ⟨_, .continueOn hqs, hspells.kept⟩
  | switch _ hsubject hlbrace _ _ ih =>
    obtain ⟨ps, hwritten, hps⟩ := ih
    exact ⟨_, .switch hwritten,
      (hsubject.spells.append ((hps.append Spells.nil.kept).mark hlbrace)).kept⟩
  | blockStmt _ _ ih =>
    obtain ⟨ps, hwritten, hps⟩ := ih
    exact ⟨_, .block hwritten, hps.kept⟩
  | expression he hsemicolon =>
    obtain ⟨qs, hqs, hspells⟩ := spells_semicolon hsemicolon
    exact ⟨_, .expression hqs, he.spells.append hspells⟩
  | block _ _ ih =>
    obtain ⟨ps, hwritten, hps⟩ := ih
    exact ⟨_, .braces hwritten, hps.append Spells.nil.kept⟩
  | bodyEnd => exact ⟨_, .noStmt, .nil⟩
  | bodyMore _ hmore ih ihmore =>
    obtain ⟨ps, hwritten, hps⟩ := ih
    obtain ⟨qs, hwrittenMore, hqs⟩ := ihmore
    exact ⟨_, .moreStmts hwritten hwrittenMore,
      (hps.spells (hmore.not_leftOver rfl greater_mem_leftOver)).append hqs⟩
  | function _ hgenerics hlparen hparams hreturn hlbrace _ ih =>
    obtain ⟨ps, hwritten, hps⟩ := ih
    have hsignature := spells_signature hgenerics hlparen hparams hreturn (by simp [hlbrace])
    exact ⟨_, .function hwritten, (hsignature.append hps.kept).kept⟩
  | @casesEnd default a ha =>
    cases default with
    | none => exact ⟨_, .noCase, .nil⟩
    | some => exact ⟨rfl, _, .noCase, .nil⟩
  | casesDefault _ hname harrow _ _ _ ih ihmore =>
    obtain ⟨ps, hwritten, hps⟩ := ih
    obtain ⟨hdefault, qs, hwrittenMore, hqs⟩ := ihmore
    have hall := Written.default hname hwritten hwrittenMore
    rw [← hdefault] at hall
    exact ⟨_, hall, ((hps.kept.append hqs).mark harrow).kept⟩
  | @casesMore default _ _ _ _ _ _ _ _ _ _ _ hvalue _ _ _ _ ih ihmore =>
    obtain ⟨ps, hwritten, hps⟩ := ih
    cases default with
    | none =>
      obtain ⟨qs, hwrittenMore, hqs⟩ := ihmore
      exact ⟨_, .moreCases hwritten hwrittenMore,
        hvalue.spells.append (hps.kept.append hqs).kept⟩
    | some =>
      obtain ⟨hdefault, qs, hwrittenMore, hqs⟩ := ihmore
      exact ⟨hdefault, _, .moreCases hwritten hwrittenMore,
        hvalue.spells.append (hps.kept.append hqs).kept⟩
  | membersEnd => exact ⟨_, .noMember, .nil⟩
  | method _ _ _ ih ihmore =>
    obtain ⟨ps, hwritten, hps⟩ := ih
    obtain ⟨qs, hwrittenMore, hqs⟩ := ihmore
    exact ⟨_, .method hwritten hwrittenMore, hps.kept.append hqs⟩
  | field _ hdecl hsemicolon hmore ih =>
    obtain ⟨qs, hqs, hspells⟩ := hdecl.spells.semicolon hsemicolon
    obtain ⟨rs, hwritten, hrs⟩ := ih
    have hfield := (hspells.spells (hmore.not_leftOver rfl greater_mem_leftOver)).append hrs
    rw [List.append_assoc] at hfield
    exact ⟨_, .field hqs hwritten, hfield⟩
  | stray hsemicolon _ ih =>
    obtain ⟨ps, hwritten, hps⟩ := ih
    exact ⟨_, .stray hwritten, hps.mark hsemicolon⟩

theorem ReadsFile.not_leftOver {a : List Token} {statements : List Stmt}
    (h : ReadsFile a statements) {kind : Kind} (hkind : kind ∈ leftOver) :
    headKind? a ≠ some kind := by
  cases h with
  | done => simp
  | more h _ => exact h.not_leftOver rfl hkind

/-- The tokens of a file spell one of the concrete forms of its statements. -/
theorem ReadsFile.spelled {a : List Token} {statements : List Stmt} (h : ReadsFile a statements) :
    ∃ ps, Written (.stmts statements) ps ∧ Spells ps a [] := by
  induction h with
  | done => exact ⟨_, .noStmt, .nil⟩
  | more h hmore ih =>
    obtain ⟨ps, hwritten, hps⟩ := h.spelled
    obtain ⟨qs, hwrittenMore, hqs⟩ := ih
    exact ⟨_, .moreStmts hwritten hwrittenMore,
      (hps.spells (hmore.not_leftOver greater_mem_leftOver)).append hqs⟩

/-! ### Whole files -/

namespace Reader

/-- Tokens with nothing but ends after them are parsed without complaint exactly to the statements
that they are read to. -/
theorem parse_append_ends_clean_iff {body ends : List Token} (hbody : ∀ t ∈ body, t.isEnd = false)
    (hends : ∀ t ∈ ends, t.isEnd = true) (stmts : List Stmt) :
    ((parse (.ofStream ⟨body ++ ends, false⟩)).1 = stmts ∧
      (parse (.ofStream ⟨body ++ ends, false⟩)).2.hadError = false) ↔ ReadsFile body stmts := by
  have hplaced := placed_ofStream ⟨body ++ ends, false⟩
  rw [parse_clean_iff hplaced.from_self rfl]
  have hahead := congrArg Cursor.ahead (Cursor.ofTokens_append_ends hbody hends)
  exact Eq.to_iff (congrArg (ReadsFile · stmts) hahead)

/-- Tokens of which only the last one is an end are parsed without complaint exactly to the
statements that the others are read to. -/
theorem parse_stream_clean_iff {body : List Token} {stop : Token}
    (hbody : ∀ t ∈ body, t.kind ≠ .endOfFile) (hstop : stop.kind = .endOfFile)
    (stmts : List Stmt) :
    ((parse (.ofStream ⟨body ++ [stop], false⟩)).1 = stmts ∧
      (parse (.ofStream ⟨body ++ [stop], false⟩)).2.hadError = false) ↔ ReadsFile body stmts :=
  parse_append_ends_clean_iff (by simpa [Token.isEnd] using hbody)
    (by simp [Token.isEnd, hstop]) stmts

/-- What a text that is parsed without complaint consists of. -/
theorem readsFile_of_clean (file text : String)
    (hclean : (parse (.ofStream (Lexer.ofText file text).tokenize.1)).2.hadError = false) :
    ∃ body stop, (Lexer.ofText file text).tokenize.1 = ⟨body ++ [stop], false⟩ ∧
      stop.kind = .endOfFile ∧ (∀ t ∈ body, t.Scanned) ∧
      ReadsFile body (parse (.ofStream (Lexer.ofText file text).tokenize.1)).1 := by
  have htiled := Lexer.tiled_collect (Lexer.at_ofText file text) rfl
  generalize hstream : (Lexer.ofText file text).tokenize.1 = stream at hclean ⊢
  have hleads := (parse_spec (placed_ofStream stream)).1
  have herror : stream.hadError = false := hleads.hadError_eq_false hclean
  have htokens : stream.tokens = (Lexer.ofText file text).collect.1 ++
      [(Lexer.ofText file text).collect.2.2.endToken] := by
    rw [← hstream]
    rfl
  have hbody : ∀ t ∈ (Lexer.ofText file text).collect.1, t.kind ≠ .endOfFile :=
    fun t ht => (htiled.scanned t ht).kind_ne
  have heq : stream = ⟨(Lexer.ofText file text).collect.1 ++
      [(Lexer.ofText file text).collect.2.2.endToken], false⟩ := by
    rw [← htokens, ← herror]
  refine ⟨_, _, heq, rfl, htiled.scanned, ?_⟩
  rw [heq] at hclean ⊢
  exact (parse_stream_clean_iff hbody rfl _).mp ⟨rfl, hclean⟩

/-- **A text that is parsed without complaint is a linearisation of its statements.**

All of its tokens before the end, in their order, spell one of the concrete forms of the list of
statements that is returned. -/
theorem linearises_of_clean (file text : String)
    (hclean : (parse (.ofStream (Lexer.ofText file text).tokenize.1)).2.hadError = false) :
    ∃ body stop pieces, (Lexer.ofText file text).tokenize.1.tokens = body ++ [stop] ∧
      stop.kind = .endOfFile ∧ (∀ t ∈ body, t.kind ≠ .endOfFile) ∧
      Written (.stmts (parse (.ofStream (Lexer.ofText file text).tokenize.1)).1) pieces ∧
      Spells pieces body [] := by
  obtain ⟨body, stop, hstream, hstop, hbody, hreads⟩ := readsFile_of_clean file text hclean
  obtain ⟨pieces, hwritten, hspells⟩ := hreads.spelled
  exact ⟨body, stop, pieces, by rw [hstream], hstop, fun t ht => (hbody t ht).kind_ne, hwritten,
    hspells⟩

/-- A loop with a bare header, a compound step, a shift that ends two lists of types and no
semicolon is parsed without complaint. -/
theorem linearises_of_clean_loop :
    let text := "for var i = 0; i < n; i += 1 \x7b f<a<b>>(i) \x7d"
    let stream := (Lexer.ofText "loop" text).tokenize.1
    (parse (.ofStream stream)).2.hadError = false ∧
      ∃ body stop pieces, stream.tokens = body ++ [stop] ∧ stop.kind = .endOfFile ∧
        (∀ t ∈ body, t.kind ≠ .endOfFile) ∧
        Written (.stmts (parse (.ofStream stream)).1) pieces ∧ Spells pieces body [] := by
  intro text stream
  have hclean : (parse (.ofStream stream)).2.hadError = false := by
    change (parse (.ofStream (Lexer.ofText "loop" text).tokenize.1)).2.hadError = false
    rw [Lexer.tokenize, Lexer.collect_eq_collectWithin 50 (by decide)]
    decide +kernel
  exact ⟨hclean, linearises_of_clean "loop" text hclean⟩

end Reader
end CurlyScript
