import CurlyScript.Tree.Expr

/-!
# Statements and declarations

## Main definitions

* `VarDecl` — the declaration of a variable.
* `Stmt`, `Block`, `FunctionDecl`, `SwitchCase` — statements and their parts.
* `Stmt.name` — what kind of statement it is.
* `Stmt.span` — from the first token of a statement to the last one that is kept.
* `Stmt.same` — sameness up to the place.

The body of a loop `for init; condition; step body` that has a step is a block of the written
body and the step.

## References

`SPEC_FULL.md`, section 3, under `Stmt`, section E6, items 8 and 10, and section E7.
-/

namespace CurlyScript

/-- The declaration of a variable. -/
structure VarDecl where
  /-- The word that opens the declaration. -/
  keyword : Token
  /-- The name of the variable. -/
  name : Token
  /-- Whether the variable can be assigned to later. -/
  mutable : Bool
  /-- The type of the variable. -/
  type : Option TypeRef := none
  /-- Its first value. -/
  value : Option Expr := none

/-- What a loop does before its first round. -/
inductive LoopInit
  /-- It declares a variable. -/
  | var (decl : VarDecl)
  /-- It evaluates an expression. -/
  | expression (e : Expr)

mutual

/-- A statement or declaration. -/
inductive Stmt
  /-- Statements in braces. -/
  | block (body : Block)
  /-- An expression. -/
  | expression (e : Expr)
  /-- A choice between two statements. -/
  | ifElse (keyword : Token) (condition : Expr) (yes : Stmt) (no : Option Stmt)
  /-- The end of a function. -/
  | ret (keyword : Token) (value : Option Expr)
  /-- The declaration of a variable. -/
  | var (decl : VarDecl)
  /-- A loop with a condition, tested before or after the body. -/
  | whileLoop (keyword : Token) (condition : Expr) (body : Stmt) (testedAfter : Bool)
  /-- A counting loop. -/
  | forLoop (keyword : Token) (init : Option LoopInit) (condition : Expr) (step : Option Expr)
      (body : Stmt)
  /-- A loop over the elements of something. -/
  | forEach (keyword : Token) (binding : VarDecl) (colon : Token) (iterable : Expr) (body : Stmt)
  /-- The end of a loop. -/
  | breakOut (keyword : Token)
  /-- The next round of a loop. -/
  | continueOn (keyword : Token)
  /-- The declaration of a function. -/
  | function (decl : FunctionDecl)
  /-- The declaration of a class, up to its closing brace. -/
  | classDecl (keyword name : Token) (generics : Option TypeList) (superclass : Option Expr)
      (fields : List VarDecl) (methods : List FunctionDecl) (close : Token)
  /-- A choice by value, up to its closing brace. -/
  | switch (keyword : Token) (subject : Expr) (cases : List SwitchCase) (default : Option Block)
      (close : Token)

/-- Statements in braces. -/
structure Block where
  /-- The opening brace. -/
  lbrace : Token
  /-- The statements between the braces. -/
  statements : List Stmt
  /-- The closing brace. -/
  rbrace : Token

/-- The declaration of a function. -/
structure FunctionDecl where
  /-- The word that opens the declaration. -/
  keyword : Token
  /-- The name of the function. -/
  name : Token
  /-- Its type parameters. -/
  generics : Option TypeList
  /-- Its parameters. -/
  params : List Param
  /-- The type of its value. -/
  returnType : Option TypeRef
  /-- What it does. -/
  body : Block

/-- One case of a choice by value. -/
structure SwitchCase where
  /-- The value that selects the case. -/
  value : Expr
  /-- The arrow after it. -/
  arrow : Token
  /-- What is done then. -/
  body : Block

end

/-! ### Spans -/

/-- From the opening word to the end of the value, or else of the type, or else of the name. -/
def VarDecl.span (d : VarDecl) : Span :=
  match d.value, d.type with
  | some value, _ => d.keyword.span.cover value.span
  | none, some type => d.keyword.span.cover type.span
  | none, none => d.keyword.span.cover d.name.span

/-- From brace to brace. -/
def Block.span (b : Block) : Span := b.lbrace.span.cover b.rbrace.span

/-- From the opening word to the closing brace. -/
def FunctionDecl.span (f : FunctionDecl) : Span := f.keyword.span.cover f.body.span

namespace Stmt

/-- From the first token of a statement to the last one that is kept. -/
def span : Stmt → Span
  | .block body => body.span
  | .expression e => e.span
  | .ifElse keyword _ _ (some no) => keyword.span.cover no.span
  | .ifElse keyword _ yes none => keyword.span.cover yes.span
  | .ret keyword (some value) => keyword.span.cover value.span
  | .ret keyword none => keyword.span
  | .var decl => decl.span
  | .whileLoop keyword _ body _ => keyword.span.cover body.span
  | .forLoop keyword _ _ _ body => keyword.span.cover body.span
  | .forEach keyword _ _ _ body => keyword.span.cover body.span
  | .breakOut keyword => keyword.span
  | .continueOn keyword => keyword.span
  | .function decl => decl.span
  | .classDecl keyword _ _ _ _ _ close => keyword.span.cover close.span
  | .switch keyword _ _ _ close => keyword.span.cover close.span

/-- What kind of statement it is. -/
def name : Stmt → String
  | .block _ => "Block"
  | .expression _ => "Expression"
  | .ifElse .. => "If"
  | .ret .. => "Return"
  | .var _ => "Var"
  | .whileLoop .. => "While"
  | .forLoop .. => "For"
  | .forEach .. => "ForEach"
  | .breakOut _ => "Break"
  | .continueOn _ => "Continue"
  | .function _ => "Function"
  | .classDecl .. => "Class"
  | .switch .. => "Switch"

end Stmt

/-- What a loop does before its first round, as a statement. -/
def LoopInit.stmt : LoopInit → Stmt
  | .var decl => .var decl
  | .expression e => .expression e

/-! ### Sameness -/

/-- Sameness of declarations up to the place. -/
def VarDecl.same (a b : VarDecl) : Bool :=
  a.keyword.same b.keyword && a.name.same b.name && a.mutable == b.mutable &&
    sameOption TypeRef.same a.type b.type && sameOption Expr.same a.value b.value

/-- Sameness of what loops do before their first round. -/
def LoopInit.same : LoopInit → LoopInit → Bool
  | .var a, .var b => a.same b
  | .expression a, .expression b => a.same b
  | _, _ => false

mutual

/-- Sameness of statements up to the place. -/
def Stmt.same : Stmt → Stmt → Bool
  | .block a, .block b => a.same b
  | .expression a, .expression b => a.same b
  | .ifElse keywordA conditionA yesA noA, .ifElse keywordB conditionB yesB noB =>
    keywordA.same keywordB && conditionA.same conditionB && yesA.same yesB && sameElse noA noB
  | .ret keywordA valueA, .ret keywordB valueB =>
    keywordA.same keywordB && sameOption Expr.same valueA valueB
  | .var a, .var b => a.same b
  | .whileLoop keywordA conditionA bodyA afterA, .whileLoop keywordB conditionB bodyB afterB =>
    keywordA.same keywordB && conditionA.same conditionB && bodyA.same bodyB && afterA == afterB
  | .forLoop keywordA initA conditionA stepA bodyA,
      .forLoop keywordB initB conditionB stepB bodyB =>
    keywordA.same keywordB && sameOption LoopInit.same initA initB &&
      conditionA.same conditionB && sameOption Expr.same stepA stepB && bodyA.same bodyB
  | .forEach keywordA bindingA colonA iterableA bodyA,
      .forEach keywordB bindingB colonB iterableB bodyB =>
    keywordA.same keywordB && bindingA.same bindingB && colonA.same colonB &&
      iterableA.same iterableB && bodyA.same bodyB
  | .breakOut a, .breakOut b => a.same b
  | .continueOn a, .continueOn b => a.same b
  | .function a, .function b => a.same b
  | .classDecl keywordA nameA genericsA superA fieldsA methodsA closeA,
      .classDecl keywordB nameB genericsB superB fieldsB methodsB closeB =>
    keywordA.same keywordB && nameA.same nameB && sameOption TypeList.same genericsA genericsB &&
      sameOption Expr.same superA superB && sameList VarDecl.same fieldsA fieldsB &&
      sameFunctions methodsA methodsB && closeA.same closeB
  | .switch keywordA subjectA casesA defaultA closeA,
      .switch keywordB subjectB casesB defaultB closeB =>
    keywordA.same keywordB && subjectA.same subjectB && sameCases casesA casesB &&
      sameDefault defaultA defaultB && closeA.same closeB
  | _, _ => false

/-- Sameness of blocks up to the place. -/
def Block.same : Block → Block → Bool
  | ⟨lbraceA, statementsA, rbraceA⟩, ⟨lbraceB, statementsB, rbraceB⟩ =>
    lbraceA.same lbraceB && sameStmts statementsA statementsB && rbraceA.same rbraceB

/-- Sameness of functions up to the place. -/
def FunctionDecl.same : FunctionDecl → FunctionDecl → Bool
  | ⟨keywordA, nameA, genericsA, paramsA, returnA, bodyA⟩,
      ⟨keywordB, nameB, genericsB, paramsB, returnB, bodyB⟩ =>
    keywordA.same keywordB && nameA.same nameB && sameOption TypeList.same genericsA genericsB &&
      sameList Param.same paramsA paramsB && sameOption TypeRef.same returnA returnB &&
      bodyA.same bodyB

/-- Sameness of cases up to the place. -/
def SwitchCase.same : SwitchCase → SwitchCase → Bool
  | ⟨valueA, arrowA, bodyA⟩, ⟨valueB, arrowB, bodyB⟩ =>
    valueA.same valueB && arrowA.same arrowB && bodyA.same bodyB

/-- Sameness of optional statements. -/
def sameElse : Option Stmt → Option Stmt → Bool
  | none, none => true
  | some a, some b => a.same b
  | _, _ => false

/-- Sameness of optional blocks. -/
def sameDefault : Option Block → Option Block → Bool
  | none, none => true
  | some a, some b => a.same b
  | _, _ => false

/-- Sameness of statements one by one. -/
def sameStmts : List Stmt → List Stmt → Bool
  | [], [] => true
  | a :: as, b :: bs => a.same b && sameStmts as bs
  | _, _ => false

/-- Sameness of functions one by one. -/
def sameFunctions : List FunctionDecl → List FunctionDecl → Bool
  | [], [] => true
  | a :: as, b :: bs => a.same b && sameFunctions as bs
  | _, _ => false

/-- Sameness of cases one by one. -/
def sameCases : List SwitchCase → List SwitchCase → Bool
  | [], [] => true
  | a :: as, b :: bs => a.same b && sameCases as bs
  | _, _ => false

end

end CurlyScript
