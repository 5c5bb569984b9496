import CurlyScript.Grammar.StmtRules
import CurlyScript.Proofs.ExprSyntax

/-!
# The syntax of statements

The rules for statements and declarations read exactly the statements of a grammar, as long as
nothing is complained about.  A reading without complaint has none of the things that are
reported and passed over: no variable without a value that could never get one, no second default,
no declaration after whose failure a block goes on.

## Main definitions

* `ReadsVar`, `ReadsCondition`, `ReadsHeader` — the declaration of a variable, the condition of a
  loop, and the header of a loop.
* `StmtForm` — the forms of the grammar.
* `ReadsStmt` — the tokens that are read to a statement of some form.
* `ReadsFile` — the tokens that are read to the statements of a file.

## Main results

* `Reader.meets_stmtAt` — the contract of the rules.
* `Reader.parse_clean_iff` — a file is parsed without complaint exactly to the statements that
  its tokens are read to.
-/

namespace CurlyScript

/-! ### Variables, conditions and headers -/

/-- The name of a variable, after the opening word of its declaration. -/
inductive ReadsVarHead (keyword : Token) : Reading VarDecl
  /-- A variable that can be assigned to later. -/
  | mutable {word name : Token} {a : List Token} (hword : word.kind = .keyword .mut)
      (hname : name.kind = .identifier) :
    ReadsVarHead keyword (word :: name :: a) { keyword, name, mutable := true } a
  /-- One that cannot. -/
  | fixed {name : Token} {a : List Token} (hname : name.kind = .identifier) :
    ReadsVarHead keyword (name :: a) { keyword, name, mutable := false } a

/-- The value of a variable, without which it has to be assigned to later. -/
inductive ReadsVarValue (decl : VarDecl) : Reading VarDecl
  /-- A value. -/
  | value {equals : Token} {e : Expr} {a b : List Token} (hequals : equals.kind = .operator .equals)
      (h : ReadsExpr .expression a e b) :
    ReadsVarValue decl (equals :: a) { decl with value := some e } b
  /-- No value. -/
  | none {a : List Token} (ha : headKind? a ≠ some (.operator .equals))
      (hdecl : decl.mutable = true) :
    ReadsVarValue decl a decl a

/-- The declaration of a variable, after its opening word. -/
inductive ReadsVar (keyword : Token) : Reading VarDecl
  /-- With a type. -/
  | typed {head decl : VarDecl} {colon : Token} {type : TypeRef} {a b c d : List Token}
      (hhead : ReadsVarHead keyword a head (colon :: b)) (hcolon : colon.kind = .punctuation .colon)
      (htype : ReadsType .ref b type c)
      (hvalue : ReadsVarValue { head with type := some type } c decl d) :
    ReadsVar keyword a decl d
  /-- Without one. -/
  | untyped {head decl : VarDecl} {a b c : List Token} (hhead : ReadsVarHead keyword a head b)
      (hb : headKind? b ≠ some (.punctuation .colon)) (hvalue : ReadsVarValue head b decl c) :
    ReadsVar keyword a decl c

/-- The condition of a loop. -/
inductive ReadsCondition : Reading Expr
  /-- A condition that is written. -/
  | written {e : Expr} {a b : List Token} (h : ReadsExpr .expression a e b) : ReadsCondition a e b
  /-- None, before a token with which no expression begins. -/
  | absent {t : Token} {a : List Token} (ht : Reader.startsExpression t = false) :
    ReadsCondition (t :: a) (Reader.absentCondition t) (t :: a)

/-- An expression, if one begins here. -/
inductive ReadsExpr? : Reading (Option Expr)
  /-- An expression. -/
  | some {e : Expr} {a b : List Token} (h : ReadsExpr .expression a e b) : ReadsExpr? a (some e) b
  /-- None. -/
  | none {a : List Token} (ha : ∀ t more, a = t :: more → Reader.startsExpression t = false) :
    ReadsExpr? a none a

/-- The parenthesis that closes a header, if one opened it. -/
def ReadsClose (parenthesized : Bool) : Reading Unit := fun tokens _ rest =>
  match parenthesized with
  | true => ∃ close, tokens = close :: rest ∧ close.kind = .punctuation .rparen
  | false => rest = tokens

/-- The header of a loop `for`. -/
inductive LoopHeader
  /-- Of a counting loop. -/
  | counting (init : Option LoopInit) (condition : Expr) (step : Option Expr)
  /-- Of a loop over elements. -/
  | each (binding : VarDecl) (colon : Token) (iterable : Expr)

/-- The loop with a header and a body. -/
def LoopHeader.loop (keyword : Token) (body : Stmt) : LoopHeader → Stmt
  | .counting init condition step =>
    .forLoop keyword init condition step (Reader.loopBody body step)
  | .each binding colon iterable => .forEach keyword binding colon iterable body

/-- Whether the type of the variable of a counting loop ends before some tokens. -/
def EndsLoopType (tokens : List Token) : Prop :=
  headKind? tokens = some (.operator .equals) ∨ headKind? tokens = some (.punctuation .semicolon)

instance (tokens : List Token) : Decidable (EndsLoopType tokens) :=
  inferInstanceAs (Decidable (_ ∨ _))

/-- Whether the type of the variable of a counting loop comes first. -/
def OpensLoopType (tokens : List Token) : Prop :=
  ∃ type rest, ReadsType .ref tokens type rest ∧ EndsLoopType rest

/-- The condition, the step and the end of the header of a counting loop. -/
inductive ReadsClauses (parenthesized : Bool) (init : Option LoopInit) : Reading LoopHeader
  /-- In this order. -/
  | mk {condition : Expr} {step : Option Expr} {semicolon : Token} {a b c d : List Token}
      (hcondition : ReadsCondition a condition (semicolon :: b))
      (hsemicolon : semicolon.kind = .punctuation .semicolon) (hstep : ReadsExpr? b step c)
      (hclose : ReadsClose parenthesized c () d) :
    ReadsClauses parenthesized init a (.counting init condition step) d

/-- The header of a loop `for`, after the parenthesis if one opened it. -/
inductive ReadsHeader (parenthesized : Bool) : Reading LoopHeader
  /-- A counting loop that does nothing first. -/
  | bare {semicolon : Token} {header : LoopHeader} {a b : List Token}
      (hsemicolon : semicolon.kind = .punctuation .semicolon)
      (h : ReadsClauses parenthesized none a header b) :
    ReadsHeader parenthesized (semicolon :: a) header b
  /-- A counting loop that declares a variable with a type. -/
  | typedVar {keyword colon semicolon : Token} {head decl : VarDecl} {type : TypeRef}
      {header : LoopHeader} {a b c d e : List Token} (hkeyword : keyword.kind = .keyword .var)
      (hhead : ReadsVarHead keyword a head (colon :: b)) (hcolon : colon.kind = .punctuation .colon)
      (htype : ReadsType .ref b type c)
      (hvalue : ReadsVarValue { head with type := some type } c decl (semicolon :: d))
      (hsemicolon : semicolon.kind = .punctuation .semicolon)
      (h : ReadsClauses parenthesized (some (.var decl)) d header e) :
    ReadsHeader parenthesized (keyword :: a) header e
  /-- A counting loop that declares a variable without a type. -/
  | untypedVar {keyword semicolon : Token} {head decl : VarDecl} {header : LoopHeader}
      {a b c d : List Token} (hkeyword : keyword.kind = .keyword .var)
      (hhead : ReadsVarHead keyword a head b) (hb : headKind? b ≠ some (.punctuation .colon))
      (hvalue : ReadsVarValue head b decl (semicolon :: c))
      (hsemicolon : semicolon.kind = .punctuation .semicolon)
      (h : ReadsClauses parenthesized (some (.var decl)) c header d) :
    ReadsHeader parenthesized (keyword :: a) header d
  /-- A counting loop that evaluates an expression first. -/
  | expression {first : Expr} {semicolon : Token} {header : LoopHeader} {a b c : List Token}
      (hfirst : ReadsExpr .expression a first (semicolon :: b))
      (hsemicolon : semicolon.kind = .punctuation .semicolon)
      (h : ReadsClauses parenthesized (some (.expression first)) b header c) :
    ReadsHeader parenthesized a header c
  /-- A loop over elements. -/
  | each {keyword colon : Token} {binding : VarDecl} {iterable : Expr} {a b c d : List Token}
      (hkeyword : keyword.kind = .keyword .var)
      (hhead : ReadsVarHead keyword a binding (colon :: b))
      (hcolon : colon.kind = .punctuation .colon) (hb : ¬ OpensLoopType b)
      (hiterable : ReadsExpr .expression b iterable c) (hclose : ReadsClose parenthesized c () d) :
    ReadsHeader parenthesized (keyword :: a) (.each binding colon iterable) d

/-- The superclass of a class, if a colon comes first. -/
inductive ReadsSuperclass : Reading (Option Expr)
  /-- A superclass. -/
  | some {colon name : Token} {a : List Token} (hcolon : colon.kind = .punctuation .colon)
      (hname : name.kind = .identifier) :
    ReadsSuperclass (colon :: name :: a) (some (.ident name)) a
  /-- None. -/
  | none {a : List Token} (ha : headKind? a ≠ some (.punctuation .colon)) :
    ReadsSuperclass a none a

/-! ### The grammar -/

/-- The forms of the grammar of statements. -/
inductive StmtForm
  /-- A declaration or statement. -/
  | declaration
  /-- A statement that declares nothing. -/
  | statement
  /-- A block, after its opening brace. -/
  | block (lbrace : Token)
  /-- The declarations of a block. -/
  | body
  /-- A function, after its opening word. -/
  | function (keyword : Token)
  /-- The cases of a choice by value, given the default that has been met. -/
  | cases (default : Option Block)
  /-- The members of a class. -/
  | members

/-- What the tokens of a form are read to. -/
abbrev StmtForm.Result : StmtForm → Type
  | .declaration => Stmt
  | .statement => Stmt
  | .block _ => Block
  | .body => List Stmt
  | .function _ => FunctionDecl
  | .cases _ => List SwitchCase × Option Block
  | .members => List VarDecl × List FunctionDecl

/-- Whether a list in braces ends here. -/
def AtClose (tokens : List Token) : Prop :=
  tokens = [] ∨ headKind? tokens = some (.punctuation .rbrace)

instance (tokens : List Token) : Decidable (AtClose tokens) :=
  inferInstanceAs (Decidable (_ ∨ _))

/-- Whether the default of a choice by value comes first. -/
def AtDefault (tokens : List Token) : Prop :=
  ∃ name arrow rest, tokens = name :: arrow :: rest ∧ name.lexeme = "_" ∧
    arrow.kind = .punctuation .arrow

/-- Tokens that are read to a statement or a part of one, and what is left of them. -/
inductive ReadsStmt : (form : StmtForm) → Reading form.Result
  /-- A class. -/
  | classDecl {keyword name lbrace close : Token} {generics : Option TypeList}
      {superclass : Option Expr} {fields : List VarDecl} {methods : List FunctionDecl}
      {a b c d : List Token} (hkeyword : keyword.kind = .keyword .klass)
      (hname : name.kind = .identifier) (hgenerics : ReadsType .list? a generics b)
      (hsuperclass : ReadsSuperclass b superclass (lbrace :: c))
      (hlbrace : lbrace.kind = .punctuation .lbrace)
      (hmembers : ReadsStmt .members c (fields, methods) (close :: d))
      (hclose : close.kind = .punctuation .rbrace) :
    ReadsStmt .declaration (keyword :: name :: a)
      (.classDecl keyword name generics superclass fields methods close) d
  /-- A function. -/
  | functionDecl {keyword : Token} {decl : FunctionDecl} {a b : List Token}
      (hkeyword : keyword.kind = .keyword .fn) (h : ReadsStmt (.function keyword) a decl b) :
    ReadsStmt .declaration (keyword :: a) (.function decl) b
  /-- A variable. -/
  | var {keyword : Token} {decl : VarDecl} {semicolon : Option Token} {a b c : List Token}
      (hkeyword : keyword.kind = .keyword .var) (hdecl : ReadsVar keyword a decl b)
      (hsemicolon : Reading.token? (.punctuation .semicolon) b semicolon c) :
    ReadsStmt .declaration (keyword :: a) (.var decl) c
  /-- A statement that declares nothing. -/
  | stmt {s : Stmt} {a b : List Token} (h : ReadsStmt .statement a s b) :
    ReadsStmt .declaration a s b
  /-- A loop `for` with a header in parentheses. -/
  | forParens {keyword lparen : Token} {header : LoopHeader} {body : Stmt} {a b c : List Token}
      (hkeyword : keyword.kind = .keyword .for) (hlparen : lparen.kind = .punctuation .lparen)
      (hheader : ReadsHeader true a header b) (hbody : ReadsStmt .statement b body c) :
    ReadsStmt .statement (keyword :: lparen :: a) (header.loop keyword body) c
  /-- A loop `for` with a bare header. -/
  | forBare {keyword : Token} {header : LoopHeader} {body : Stmt} {a b c : List Token}
      (hkeyword : keyword.kind = .keyword .for)
      (ha : headKind? a ≠ some (.punctuation .lparen))
      (hheader : ReadsHeader false a header b) (hbody : ReadsStmt .statement b body c) :
    ReadsStmt .statement (keyword :: a) (header.loop keyword body) c
  /-- A choice with one branch. -/
  | ifThen {keyword : Token} {condition : Expr} {yes : Stmt} {a b c : List Token}
      (hkeyword : keyword.kind = .keyword .if) (hcondition : ReadsExpr .expression a condition b)
      (hyes : ReadsStmt .statement b yes c) (hc : headKind? c ≠ some (.keyword .else)) :
    ReadsStmt .statement (keyword :: a) (.ifElse keyword condition yes none) c
  /-- A choice with two branches. -/
  | ifElse {keyword word : Token} {condition : Expr} {yes no : Stmt} {a b c d : List Token}
      (hkeyword : keyword.kind = .keyword .if) (hcondition : ReadsExpr .expression a condition b)
      (hyes : ReadsStmt .statement b yes (word :: c)) (hword : word.kind = .keyword .else)
      (hno : ReadsStmt .statement c no d) :
    ReadsStmt .statement (keyword :: a) (.ifElse keyword condition yes (some no)) d
  /-- The end of a function. -/
  | ret {keyword : Token} {value : Option Expr} {semicolon : Option Token} {a b c : List Token}
      (hkeyword : keyword.kind = .keyword .return) (hvalue : ReadsExpr? a value b)
      (hsemicolon : Reading.token? (.punctuation .semicolon) b semicolon c) :
    ReadsStmt .statement (keyword :: a) (.ret keyword value) c
  /-- A loop whose condition is tested after its body. -/
  | doWhile {keyword word : Token} {condition : Expr} {body : Stmt} {a b c : List Token}
      (hkeyword : keyword.kind = .keyword .do) (hword : word.kind = .keyword .while)
      (hcondition : ReadsCondition a condition b) (hbody : ReadsStmt .statement b body c) :
    ReadsStmt .statement (keyword :: word :: a) (.whileLoop keyword condition body true) c
  /-- A loop whose condition is tested before its body. -/
  | whileLoop {keyword : Token} {condition : Expr} {body : Stmt} {a b c : List Token}
      (hkeyword : keyword.kind = .keyword .while) (hcondition : ReadsCondition a condition b)
      (hbody : ReadsStmt .statement b body c) :
    ReadsStmt .statement (keyword :: a) (.whileLoop keyword condition body false) c
  /-- The end of a loop. -/
  | breakOut {keyword : Token} {semicolon : Option Token} {a b : List Token}
      (hkeyword : keyword.kind = .keyword .break)
      (hsemicolon : Reading.token? (.punctuation .semicolon) a semicolon b) :
    ReadsStmt .statement (keyword :: a) (.breakOut keyword) b
  /-- The next round of a loop. -/
  | continueOn {keyword : Token} {semicolon : Option Token} {a b : List Token}
      (hkeyword : keyword.kind = .keyword .continue)
      (hsemicolon : Reading.token? (.punctuation .semicolon) a semicolon b) :
    ReadsStmt .statement (keyword :: a) (.continueOn keyword) b
  /-- A choice by value. -/
  | switch {keyword lbrace close : Token} {subject : Expr} {cases : List SwitchCase}
      {default : Option Block} {a b c : List Token} (hkeyword : keyword.kind = .keyword .switch)
      (hsubject : ReadsExpr .expression a subject (lbrace :: b))
      (hlbrace : lbrace.kind = .punctuation .lbrace)
      (hcases : ReadsStmt (.cases none) b (cases, default) (close :: c))
      (hclose : close.kind = .punctuation .rbrace) :
    ReadsStmt .statement (keyword :: a) (.switch keyword subject cases default close) c
  /-- A block. -/
  | blockStmt {lbrace : Token} {body : Block} {a b : List Token}
      (hlbrace : lbrace.kind = .punctuation .lbrace) (h : ReadsStmt (.block lbrace) a body b) :
    ReadsStmt .statement (lbrace :: a) (.block body) b
  /-- An expression. -/
  | expression {e : Expr} {semicolon : Option Token} {a b c : List Token}
      (he : ReadsExpr .expression a e b)
      (hsemicolon : Reading.token? (.punctuation .semicolon) b semicolon c) :
    ReadsStmt .statement a (.expression e) c
  /-- Declarations up to the closing brace. -/
  | block {lbrace rbrace : Token} {statements : List Stmt} {a b : List Token}
      (h : ReadsStmt .body a statements (rbrace :: b))
      (hrbrace : rbrace.kind = .punctuation .rbrace) :
    ReadsStmt (.block lbrace) a ⟨lbrace, statements, rbrace⟩ b
  /-- No more declarations. -/
  | bodyEnd {a : List Token} (ha : AtClose a) : ReadsStmt .body a [] a
  /-- One more declaration. -/
  | bodyMore {s : Stmt} {statements : List Stmt} {a b c : List Token}
      (h : ReadsStmt .declaration a s b) (hmore : ReadsStmt .body b statements c) :
    ReadsStmt .body a (s :: statements) c
  /-- The parts of a function. -/
  | function {keyword name lparen lbrace : Token} {generics : Option TypeList}
      {params : List Param} {returnType : Option TypeRef} {body : Block}
      {a b c d e : List Token} (hname : name.kind = .identifier)
      (hgenerics : ReadsType .list? a generics (lparen :: b))
      (hlparen : lparen.kind = .punctuation .lparen) (hparams : ReadsParameters b params c)
      (hreturn : ReadsType (.after? .arrow) c returnType (lbrace :: d))
      (hlbrace : lbrace.kind = .punctuation .lbrace) (hbody : ReadsStmt (.block lbrace) d body e) :
    ReadsStmt (.function keyword) (name :: a) ⟨keyword, name, generics, params, returnType, body⟩ e
  /-- No more cases. -/
  | casesEnd {default : Option Block} {a : List Token} (ha : AtClose a) :
    ReadsStmt (.cases default) a ([], default) a
  /-- The default, of which there is at most one. -/
  | casesDefault {name arrow lbrace : Token} {body : Block} {r : List SwitchCase × Option Block}
      {a b c : List Token} (hclose : name.kind ≠ .punctuation .rbrace) (hname : name.lexeme = "_")
      (harrow : arrow.kind = .punctuation .arrow) (hlbrace : lbrace.kind = .punctuation .lbrace)
      (hbody : ReadsStmt (.block lbrace) a body b) (hmore : ReadsStmt (.cases (some body)) b r c) :
    ReadsStmt (.cases none) (name :: arrow :: lbrace :: a) r c
  /-- One more case. -/
  | casesMore {default : Option Block} {value : Expr} {arrow lbrace : Token} {body : Block}
      {cases : List SwitchCase} {default' : Option Block} {a b c d : List Token}
      (ha : ¬ AtDefault a) (hvalue : ReadsExpr .expression a value (arrow :: lbrace :: b))
      (harrow : arrow.kind = .punctuation .arrow) (hlbrace : lbrace.kind = .punctuation .lbrace)
      (hbody : ReadsStmt (.block lbrace) b body c)
      (hmore : ReadsStmt (.cases default) c (cases, default') d) :
    ReadsStmt (.cases default) a (⟨value, arrow, body⟩ :: cases, default') d
  /-- No more members. -/
  | membersEnd {a : List Token} (ha : AtClose a) : ReadsStmt .members a ([], []) a
  /-- One more method. -/
  | method {keyword : Token} {decl : FunctionDecl} {fields : List VarDecl}
      {methods : List FunctionDecl} {a b c : List Token} (hkeyword : keyword.kind = .keyword .fn)
      (h : ReadsStmt (.function keyword) a decl b)
      (hmore : ReadsStmt .members b (fields, methods) c) :
    ReadsStmt .members (keyword :: a) (fields, decl :: methods) c
  /-- One more field. -/
  | field {keyword : Token} {decl : VarDecl} {semicolon : Option Token} {fields : List VarDecl}
      {methods : List FunctionDecl} {a b c d : List Token}
      (hkeyword : keyword.kind = .keyword .var) (hdecl : ReadsVar keyword a decl b)
      (hsemicolon : Reading.token? (.punctuation .semicolon) b semicolon c)
      (hmore : ReadsStmt .members c (fields, methods) d) :
    ReadsStmt .members (keyword :: a) (decl :: fields, methods) d
  /-- A semicolon by itself. -/
  | stray {semicolon : Token} {r : List VarDecl × List FunctionDecl} {a b : List Token}
      (hsemicolon : semicolon.kind = .punctuation .semicolon) (hmore : ReadsStmt .members a r b) :
    ReadsStmt .members (semicolon :: a) r b

/-- Tokens that are read to the statements of a file, up to the end. -/
inductive ReadsFile : List Token → List Stmt → Prop
  /-- No more statements. -/
  | done : ReadsFile [] []
  /-- One more statement. -/
  | more {a b : List Token} {s : Stmt} {statements : List Stmt}
      (h : ReadsStmt .declaration a s b) (hmore : ReadsFile b statements) :
    ReadsFile a (s :: statements)

namespace Reader

variable {c : Cursor}

/-! ### Variables -/

theorem meets_varHead (n : Nat) (keyword : Token) :
    Meets c n always (varHead keyword) (varHead keyword) (ReadsVarHead keyword) := by
  refine Meets.congr ((meets_accept? n (.keyword .mut)).bind_option
    (fun _ => (meets_expectName _ .variableName).bind_always fun name => meets_pure _ _ rfl)
    ((meets_expectName n .variableName).bind_always fun name => meets_pure _ _ rfl)) ?_
  intro tokens decl rest
  constructor
  · rintro (⟨word, _, ⟨rfl, hword⟩, name, _, ⟨rfl, hname⟩, rfl, rfl⟩ |
      ⟨_, ⟨-, rfl⟩, name, _, ⟨rfl, hname⟩, rfl, rfl⟩)
    · exact .mutable hword hname
    · exact .fixed hname
  · intro h
    cases h with
    | mutable hword hname => exact .inl ⟨_, _, ⟨rfl, hword⟩, _, _, ⟨rfl, hname⟩, rfl, rfl⟩
    | fixed hname =>
      exact .inr ⟨_, ⟨by simp [hname], rfl⟩, _, _, ⟨rfl, hname⟩, rfl, rfl⟩

/-- A variable that has no value and cannot get one later is complained about. -/
theorem meets_withoutValue (n : Nat) (decl : VarDecl) :
    Meets c n never (withoutValue decl) (withoutValue decl)
      (fun tokens d rest => decl.mutable = true ∧ d = decl ∧ rest = tokens) := by
  unfold withoutValue
  by_cases hmutable : decl.mutable = true
  · simp only [hmutable, if_true, true_and]
    exact meets_pure n decl rfl
  · simp only [hmutable, Bool.false_eq_true, if_false, false_and]
    exact meets_reportHere n _ (meets_pure n decl rfl)

theorem meets_varValue (n : Nat) (decl : VarDecl) :
    Meets c n never (varValue decl) (varValue decl) (ReadsVarValue decl) := by
  refine Meets.congr ((meets_accept? n (.operator .equals)).bind_option
    (fun _ => (meets_expression _).bind_always fun e => meets_pure _ _ rfl)
    (meets_withoutValue n decl)) ?_
  intro tokens d rest
  constructor
  · rintro (⟨equals, _, ⟨rfl, hequals⟩, e, _, he, rfl, rfl⟩ | ⟨_, ⟨hno, rfl⟩, hmutable, rfl, rfl⟩)
    · exact .value hequals he
    · exact .none hno hmutable
  · intro h
    cases h with
    | value hequals he => exact .inl ⟨_, _, ⟨rfl, hequals⟩, _, _, he, rfl, rfl⟩
    | none hno hmutable => exact .inr ⟨_, ⟨hno, rfl⟩, hmutable, rfl, rfl⟩

theorem meets_varDecl (n : Nat) (keyword : Token) :
    Meets c n always (varDecl keyword) (varDecl keyword) (ReadsVar keyword) := by
  refine Meets.congr ((meets_varHead n keyword).bind_always fun head =>
    (meets_acceptMark? _ .colon).bind_option
      (fun _ => (meets_typeRef _).bind_always fun type => meets_varValue _ _)
      (meets_varValue _ head)) ?_
  intro tokens decl rest
  constructor
  · rintro ⟨head, _, hhead, ⟨colon, _, ⟨rfl, hcolon⟩, type, _, htype, hvalue⟩ |
      ⟨_, ⟨hno, rfl⟩, hvalue⟩⟩
    · exact .typed hhead hcolon htype hvalue
    · exact .untyped hhead hno hvalue
  · intro h
    cases h with
    | typed hhead hcolon htype hvalue =>
      exact ⟨_, _, hhead, .inl ⟨_, _, ⟨rfl, hcolon⟩, _, _, htype, hvalue⟩⟩
    | untyped hhead hno hvalue => exact ⟨_, _, hhead, .inr ⟨_, ⟨hno, rfl⟩, hvalue⟩⟩

/-! ### Conditions -/

theorem meets_optional (n : Nat) :
    Meets c n Option.isSome expression? expression? ReadsExpr? := by
  refine (meets_expression? n).congr fun tokens o rest => ?_
  constructor
  · rintro (⟨e, he, rfl⟩ | ⟨hno, rfl, rfl⟩)
    · exact .some he
    · exact .none hno
  · intro h
    cases h with
    | some he => exact .inl ⟨_, he, rfl⟩
    | none hno => exact .inr ⟨hno, rfl, rfl⟩

/-- Before a token with which no expression begins, a condition is made up. -/
theorem condition_eq_of_absent {s : ReaderState} (h : startsExpression s.cursor.here = false) :
    condition s =
      .ok (absentCondition s.cursor.here) (s.note (.missingCondition s.cursor.here)) := by
  have hnone : expression? s = .ok none s := by
    refine (bind_ok rfl).trans ?_
    rw [if_neg (by simp [h])]
    rfl
  exact bind_ok hnone

theorem condition_eq_of_starts {s : ReaderState} (h : startsExpression s.cursor.here = true) :
    condition s = expression s := by
  have hsome : expression? s = (some <$> expression) s := by
    refine (bind_ok rfl).trans ?_
    rw [if_pos h]
  refine (bind_congr hsome _).trans ?_
  rcases hrun : expression s with ⟨e, t⟩ | ⟨e, t⟩
  · have hmap : (some <$> expression) s = .ok (some e) t := by
      change EStateM.map some expression s = _
      simp only [EStateM.map, hrun]
    exact bind_ok hmap
  · have hmap : (some <$> expression) s = .error e t := by
      change EStateM.map some expression s = _
      simp only [EStateM.map, hrun]
    exact bind_error hmap

/-- A condition and what follows it, which is not the end. -/
theorem meets_condition_bind {β : Type} {n : Nat} {moves : β → Bool} {f f' : Expr → Reader β}
    {Q : Expr → Reading β} (hf : ∀ e, Meets c n moves (f e) (f' e) (Q e))
    (hQ : ∀ e b rest, ¬ Q e [] b rest) :
    Meets c n moves (do f (← condition)) (do f' (← condition))
      (Reading.andThen ReadsCondition Q) := by
  intro s hs hn
  rcases hstarts : startsExpression s.cursor.here with _ | _
  · have hcondition := condition_eq_of_absent hstarts
    have hnote : Meets c n moves
        (do note (.missingCondition s.cursor.here); f (absentCondition s.cursor.here))
        (do note (.missingCondition s.cursor.here); f' (absentCondition s.cursor.here)) _ :=
      (meets_note (e := .missingCondition s.cursor.here) n (fun _ => trivial) rfl).bind_never
        fun _ => hf (absentCondition s.cursor.here)
    refine ((hnote s hs hn).congr fun b rest => ?_).of_eq (bind_ok hcondition) (bind_ok hcondition)
    rcases hahead : s.cursor.ahead with _ | ⟨t, more⟩
    · constructor
      · rintro ⟨_, _, ⟨rfl, rfl⟩, h⟩
        exact absurd h (hQ _ b rest)
      · rintro ⟨e, between, h, -⟩
        cases h with
        | written h => exact absurd rfl (h.begins rfl).ne_nil
    · rw [here_of_cons hahead] at hstarts ⊢
      constructor
      · rintro ⟨_, _, ⟨rfl, rfl⟩, h⟩
        exact ⟨_, _, .absent hstarts, h⟩
      · rintro ⟨e, between, hcond, h⟩
        cases hcond with
        | absent => exact ⟨_, _, ⟨rfl, rfl⟩, h⟩
        | written hwritten =>
          obtain ⟨_, _, heq, ht, -⟩ := hwritten.begins rfl
          cases heq
          rw [hstarts] at ht
          cases ht
  · have hcondition := condition_eq_of_starts hstarts
    have hwritten : Meets c n moves (do f (← expression)) (do f' (← expression)) _ :=
      (meets_expression n).relax.bind_never hf
    refine ((hwritten s hs hn).congr fun b rest => ?_).of_eq (bind_congr hcondition _)
      (bind_congr hcondition _)
    constructor
    · rintro ⟨e, between, he, h⟩
      exact ⟨e, between, .written he, h⟩
    · rintro ⟨e, between, hcond, h⟩
      generalize hahead : s.cursor.ahead = tokens at hcond
      cases hcond with
      | written he => exact ⟨e, between, he, h⟩
      | absent ht =>
        rw [here_of_cons hahead, ht] at hstarts
        cases hstarts

/-! ### Headers -/

theorem meets_closeHeader (n : Nat) (parenthesized : Bool) (what : Expectation) :
    Meets c n never (closeHeader parenthesized what) (closeHeader parenthesized what)
      (ReadsClose parenthesized) := by
  cases parenthesized with
  | false =>
    exact (meets_pure n () rfl).congr fun tokens _ rest => by simp [Reading.done, ReadsClose]
  | true =>
    refine ((meets_expectMark n .rparen what).bind_always fun _ => meets_pure _ () rfl).congr ?_
    intro tokens _ rest
    constructor
    · rintro ⟨close, _, ⟨rfl, hclose⟩, -, rfl⟩
      exact ⟨close, rfl, hclose⟩
    · rintro ⟨close, rfl, hclose⟩
      exact ⟨close, rest, ⟨rfl, hclose⟩, rfl, rfl⟩

theorem atTypeEnd_eq (s : ReaderState) :
    atTypeEnd s = .ok (decide (EndsLoopType s.cursor.ahead)) s := by
  refine (bind_ok (check_eq _ s)).trans ((bind_ok (check_eq _ s)).trans ?_)
  change EStateM.Result.ok _ s = _
  congr 1
  rw [Bool.eq_iff_iff, decide_eq_true_iff]
  simp [EndsLoopType]

/-- The type of the variable of a counting loop is kept exactly if `=` or `;` follows. -/
theorem loopType?_cases (keyword : Token) (s : ReaderState) :
    (∃ type t, typeRef s = .ok type t ∧ EndsLoopType t.cursor.ahead ∧
      loopType? keyword s = .ok (some type) t) ∨
    (∀ type t, typeRef s = .ok type t → ¬ EndsLoopType t.cursor.ahead) ∧
    ∃ e : ReaderEvent, (∀ quiet, e.Fits quiet) ∧ e.isComplaint = false ∧
      loopType? keyword s = .ok none (takenBack s (endState (typeRef s)) e) := by
  rcases hrun : typeRef s with ⟨type, t⟩ | ⟨e, t⟩
  · have houtcome : outcome typeRef s = .ok (.ok type) t := by simp only [outcome, hrun]
    have hloop : loopType? keyword s = _ :=
      (bind_ok houtcome).trans (bind_ok (atTypeEnd_eq t))
    by_cases hends : EndsLoopType t.cursor.ahead
    · refine .inl ⟨type, t, rfl, hends, ?_⟩
      rw [hloop, decide_eq_true hends]
      rfl
    · refine .inr ⟨?_, .forEachLoop keyword, fun _ => trivial, rfl, ?_⟩
      · intro type' t' h
        cases h
        exact hends
      · rw [hloop, decide_eq_false hends]
        rfl
  · have houtcome : outcome typeRef s = .ok (.error e) t := by simp only [outcome, hrun]
    refine .inr ⟨by simp, .forEachLoop keyword, fun _ => trivial, rfl, ?_⟩
    exact (bind_ok houtcome).trans (bind_ok (atTypeEnd_eq t))

theorem meets_loopType? (n : Nat) (keyword : Token) :
    Meets c n Option.isSome (loopType? keyword) (loopType? keyword)
      ((ReadsType .ref).keptIf EndsLoopType) :=
  fun s hs hn => meetsAt_tried (meets_typeRef n s hs hn) silent_typeRef (loopType?_cases keyword s)

/-! ### How statements begin -/

/-- Whether some tokens begin as statements do. -/
def BeginsStatement (tokens : List Token) : Prop :=
  ∃ t rest, tokens = t :: rest ∧ t.kind ≠ .punctuation .rbrace ∧ t.kind ≠ .keyword .klass ∧
    t.kind ≠ .keyword .var ∧ (t.kind = .keyword .fn → headKind? rest ≠ some .identifier)

theorem begins_of_expression {tokens : List Token} (h : BeginsExpression tokens) :
    BeginsStatement tokens := by
  obtain ⟨t, rest, rfl, ht, hfn⟩ := h
  refine ⟨t, rest, rfl, ?_, ?_, ?_, hfn⟩
  all_goals
    intro hkind
    simp [startsExpression, hkind] at ht

theorem begins_of_statement {tokens rest : List Token} {s : Stmt}
    (h : ReadsStmt .statement tokens s rest) : BeginsStatement tokens := by
  cases h with
  | forParens hkeyword | forBare hkeyword | ifThen hkeyword | ifElse hkeyword | ret hkeyword
  | doWhile hkeyword | whileLoop hkeyword | breakOut hkeyword | continueOn hkeyword
  | switch hkeyword | blockStmt hkeyword =>
    exact ⟨_, _, rfl, by simp [hkeyword], by simp [hkeyword], by simp [hkeyword],
      by simp [hkeyword]⟩
  | expression he => exact begins_of_expression (he.begins rfl)

/-- No list in braces ends where a declaration begins. -/
theorem not_atClose_of_declaration {tokens rest : List Token} {s : Stmt}
    (h : ReadsStmt .declaration tokens s rest) : ¬ AtClose tokens := by
  cases h with
  | classDecl hkeyword | functionDecl hkeyword | var hkeyword => simp [AtClose, hkeyword]
  | stmt h =>
    obtain ⟨t, more, rfl, ht, -⟩ := begins_of_statement h
    simp [AtClose, ht]

/-! ### Loops -/

/-- The tokens that a rule reads. -/
def StmtRule.reads : StmtRule → Reading Stmt
  | .statement => ReadsStmt .statement
  | .declaration => ReadsStmt .declaration

section Rules

variable {n fuel fuel' : Nat} {again again' : StmtRule → Reader Stmt}
  (hagain : ∀ rule, Meets c n always (again rule) (again' rule) rule.reads)
  (hfuel : n ≤ fuel + 1) (hfuel' : n ≤ fuel' + 1)

include hagain

theorem meets_again_statement :
    Meets c n always (again .statement) (again' .statement) (ReadsStmt .statement) :=
  hagain .statement

theorem meets_whileStatement (keyword : Token) (testedAfter : Bool) :
    Meets c n never (whileStatement again keyword testedAfter)
      (whileStatement again' keyword testedAfter)
      (fun tokens s rest => ∃ condition between body, ReadsCondition tokens condition between ∧
        ReadsStmt .statement between body rest ∧
        s = .whileLoop keyword condition body testedAfter) := by
  refine Meets.congr (meets_condition_bind (fun condition =>
    (meets_again_statement hagain).bind_always fun body => meets_pure _ _ rfl) ?_) ?_
  · rintro condition s rest ⟨body, _, hbody, -⟩
    obtain ⟨_, _, h, -⟩ := begins_of_statement hbody
    cases h
  · intro tokens s rest
    constructor
    · rintro ⟨condition, between, hcondition, body, _, hbody, rfl, rfl⟩
      exact ⟨condition, between, body, hcondition, hbody, rfl⟩
    · rintro ⟨condition, between, body, hcondition, hbody, rfl⟩
      exact ⟨condition, between, hcondition, body, _, hbody, rfl, rfl⟩

theorem meets_forClauses (keyword : Token) (parenthesized : Bool) (init : Option LoopInit) :
    Meets c n never (forClauses again keyword parenthesized init)
      (forClauses again' keyword parenthesized init)
      (fun tokens s rest => ∃ header between body,
        ReadsClauses parenthesized init tokens header between ∧
        ReadsStmt .statement between body rest ∧ s = header.loop keyword body) := by
  refine Meets.congr (meets_condition_bind (fun condition =>
    (meets_expectMark n .semicolon .loopConditionEnd).bind_always fun semicolon =>
      (meets_optional _).relax.bind_never fun step =>
        (meets_closeHeader _ parenthesized .forClausesEnd).bind_never fun _ =>
          ((meets_again_statement hagain).mono (Nat.sub_le n 1)).bind_always fun body =>
            meets_pure _ _ rfl) ?_) ?_
  · rintro condition s rest ⟨semicolon, _, ⟨h, -⟩, -⟩
    cases h
  · intro tokens s rest
    constructor
    · rintro ⟨condition, _, hcondition, semicolon, _, ⟨rfl, hsemicolon⟩, step, _, hstep, _, between,
        hclose, body, _, hbody, rfl, rfl⟩
      exact ⟨_, between, body, ⟨hcondition, hsemicolon, hstep, hclose⟩, hbody, rfl⟩
    · rintro ⟨_, between, body, ⟨hcondition, hsemicolon, hstep, hclose⟩, hbody, rfl⟩
      exact ⟨_, _, hcondition, _, _, ⟨rfl, hsemicolon⟩, _, _, hstep, _, _, hclose, _, _, hbody, rfl,
        rfl⟩

theorem meets_forEachClause (keyword : Token) (parenthesized : Bool) (binding : VarDecl)
    (colon : Token) :
    Meets c n never (forEachClause again keyword parenthesized binding colon)
      (forEachClause again' keyword parenthesized binding colon)
      (fun tokens s rest => ∃ iterable after between body,
        ReadsExpr .expression tokens iterable after ∧ ReadsClose parenthesized after () between ∧
        ReadsStmt .statement between body rest ∧
        s = .forEach keyword binding colon iterable body) := by
  refine Meets.congr ((meets_expression n).bind_always fun iterable =>
    (meets_closeHeader _ parenthesized .forEachEnd).bind_never fun _ =>
      ((meets_again_statement hagain).mono (Nat.sub_le n 1)).bind_always fun body =>
        meets_pure _ _ rfl) ?_
  intro tokens s rest
  constructor
  · rintro ⟨iterable, after, hiterable, _, between, hclose, body, _, hbody, rfl, rfl⟩
    exact ⟨iterable, after, between, body, hiterable, hclose, hbody, rfl⟩
  · rintro ⟨iterable, after, between, body, hiterable, hclose, hbody, rfl⟩
    exact ⟨iterable, after, hiterable, (), between, hclose, body, _, hbody, rfl, rfl⟩

theorem meets_forVar (keyword : Token) (parenthesized : Bool) (binding : VarDecl) :
    Meets c n never (forVar again keyword parenthesized binding)
      (forVar again' keyword parenthesized binding)
      (fun tokens s rest => ∃ decl semicolon after header between body,
        ReadsVarValue binding tokens decl (semicolon :: after) ∧
        semicolon.kind = .punctuation .semicolon ∧
        ReadsClauses parenthesized (some (.var decl)) after header between ∧
        ReadsStmt .statement between body rest ∧ s = header.loop keyword body) := by
  refine Meets.congr ((meets_varValue n binding).bind_never fun decl =>
    (meets_expectMark n .semicolon .loopInitEnd).bind_always fun semicolon =>
      (meets_forClauses hagain keyword parenthesized (some (.var decl))).mono (Nat.sub_le n 1)) ?_
  intro tokens s rest
  constructor
  · rintro ⟨decl, _, hvalue, semicolon, after, ⟨rfl, hsemicolon⟩, header, between, body, h⟩
    exact ⟨decl, semicolon, after, header, between, body, hvalue, hsemicolon, h⟩
  · rintro ⟨decl, semicolon, after, header, between, body, hvalue, hsemicolon, h⟩
    exact ⟨decl, _, hvalue, semicolon, after, ⟨rfl, hsemicolon⟩, header, between, body, h⟩

theorem meets_forDeclared (keyword : Token) (parenthesized : Bool) {varKeyword : Token}
    (hvar : varKeyword.kind = .keyword .var) :
    Meets c n never (forDeclared again keyword parenthesized varKeyword)
      (forDeclared again' keyword parenthesized varKeyword)
      (fun tokens s rest => ∃ header between body,
        ReadsHeader parenthesized (varKeyword :: tokens) header between ∧
        ReadsStmt .statement between body rest ∧ s = header.loop keyword body) := by
  have hle : n - 1 ≤ n := Nat.sub_le n 1
  have hle' : n - 1 - 1 ≤ n := by omega
  refine Meets.congr ((meets_varHead n varKeyword).bind_always fun binding =>
    (meets_acceptMark? _ .colon).bind_option
      (fun colon => (meets_loopType? _ keyword).bind_option
        (fun type => (meets_forVar hagain keyword parenthesized
          { binding with type := some type }).mono (by omega))
        ((meets_forEachClause hagain keyword parenthesized binding colon).mono hle'))
      ((meets_forVar hagain keyword parenthesized binding).mono hle)) ?_
  intro tokens s rest
  constructor
  · rintro ⟨binding, _, hhead, ⟨colon, _, ⟨rfl, hcolon⟩, h⟩ | ⟨_, ⟨hno, rfl⟩, h⟩⟩
    · rcases h with ⟨type, _, ⟨htype, -⟩, decl, semicolon, after, header, between, body, hvalue,
        hsemicolon, hclauses, hbody, rfl⟩ | ⟨_, ⟨hno, rfl⟩, iterable, after, between, body,
        hiterable, hclose, hbody, rfl⟩
      · exact ⟨header, between, body,
          .typedVar hvar hhead hcolon htype hvalue hsemicolon hclauses, hbody, rfl⟩
      · exact ⟨_, between, body, .each hvar hhead hcolon hno hiterable hclose, hbody, rfl⟩
    · obtain ⟨decl, semicolon, after, header, between, body, hvalue, hsemicolon, hclauses, hbody,
        rfl⟩ := h
      exact ⟨header, between, body, .untypedVar hvar hhead hno hvalue hsemicolon hclauses, hbody,
        rfl⟩
  · rintro ⟨header, between, body, hheader, hbody, rfl⟩
    cases hheader with
    | bare hsemicolon => simp [hvar] at hsemicolon
    | typedVar _ hhead hcolon htype hvalue hsemicolon hclauses =>
      refine ⟨_, _, hhead, .inl ⟨_, _, ⟨rfl, hcolon⟩, .inl ⟨_, _, ⟨htype, ?_⟩, _, _, _, _, _, _,
        hvalue, hsemicolon, hclauses, hbody, rfl⟩⟩⟩
      cases hvalue with
      | value hequals => simp [EndsLoopType, hequals]
      | none => simp [EndsLoopType, hsemicolon]
    | untypedVar _ hhead hb hvalue hsemicolon hclauses =>
      exact ⟨_, _, hhead, .inr ⟨_, ⟨hb, rfl⟩, _, _, _, _, _, _, hvalue, hsemicolon, hclauses, hbody,
        rfl⟩⟩
    | expression hfirst =>
      exact absurd (by simp [hvar]) ((hfirst.begins rfl).headKind?_ne (.keyword .var)
        (by simp +contextual [startsExpression]))
    | each _ hhead hcolon hb hiterable hclose =>
      exact ⟨_, _, hhead, .inl ⟨_, _, ⟨rfl, hcolon⟩, .inr ⟨_, ⟨hb, rfl⟩, _, _, _, _, hiterable,
        hclose, hbody, rfl⟩⟩⟩

theorem meets_forExpression (keyword : Token) (parenthesized : Bool) :
    Meets c n never (forExpression again keyword parenthesized)
      (forExpression again' keyword parenthesized)
      (fun tokens s rest => ∃ first semicolon after header between body,
        ReadsExpr .expression tokens first (semicolon :: after) ∧
        semicolon.kind = .punctuation .semicolon ∧
        ReadsClauses parenthesized (some (.expression first)) after header between ∧
        ReadsStmt .statement between body rest ∧ s = header.loop keyword body) := by
  refine Meets.congr ((meets_expression n).bind_always fun first =>
    (meets_expectMark _ .semicolon .loopInitEnd).bind_always fun semicolon =>
      (meets_forClauses hagain keyword parenthesized _).mono (by omega)) ?_
  intro tokens s rest
  constructor
  · rintro ⟨first, _, hfirst, semicolon, after, ⟨rfl, hsemicolon⟩, header, between, body, h⟩
    exact ⟨first, semicolon, after, header, between, body, hfirst, hsemicolon, h⟩
  · rintro ⟨first, semicolon, after, header, between, body, hfirst, hsemicolon, h⟩
    exact ⟨first, _, hfirst, semicolon, after, ⟨rfl, hsemicolon⟩, header, between, body, h⟩

theorem meets_forHeader (keyword : Token) (parenthesized : Bool) :
    Meets c n never (forHeader again keyword parenthesized) (forHeader again' keyword parenthesized)
      (fun tokens s rest => ∃ header between body,
        ReadsHeader parenthesized tokens header between ∧
        ReadsStmt .statement between body rest ∧ s = header.loop keyword body) := by
  refine Meets.congr (meets_accept?_bind (.punctuation .semicolon)
    (fun semicolon _ => (meets_forClauses hagain keyword parenthesized none).mono (Nat.sub_le n 1))
    (meets_accept?_bind (.keyword .var)
      (fun varKeyword hvar =>
        (meets_forDeclared hagain keyword parenthesized hvar).mono (Nat.sub_le n 1))
      (meets_forExpression hagain keyword parenthesized))) ?_
  intro tokens s rest
  constructor
  · rintro (⟨semicolon, _, rfl, hsemicolon, header, between, body, hclauses, hbody, rfl⟩ |
      ⟨-, ⟨varKeyword, _, rfl, -, h⟩ | ⟨-, first, semicolon, after, header, between, body, hfirst,
        hsemicolon, hclauses, hbody, rfl⟩⟩)
    · exact ⟨header, between, body, .bare hsemicolon hclauses, hbody, rfl⟩
    · exact h
    · exact ⟨header, between, body, .expression hfirst hsemicolon hclauses, hbody, rfl⟩
  · rintro ⟨header, between, body, hheader, hbody, rfl⟩
    have hwhole := hheader
    cases hheader with
    | bare hsemicolon hclauses =>
      exact .inl ⟨_, _, rfl, hsemicolon, header, between, body, hclauses, hbody, rfl⟩
    | typedVar hkeyword | untypedVar hkeyword | each hkeyword =>
      exact .inr ⟨by simp [hkeyword], .inl ⟨_, _, rfl, hkeyword, _, between, body, hwhole, hbody,
        rfl⟩⟩
    | expression hfirst hsemicolon hclauses =>
      have hbegins := hfirst.begins rfl
      refine .inr ⟨hbegins.headKind?_ne _ (by simp +contextual [startsExpression]), .inr
        ⟨hbegins.headKind?_ne _ (by simp +contextual [startsExpression]), ?_⟩⟩
      exact ⟨_, _, _, header, between, body, hfirst, hsemicolon, hclauses, hbody, rfl⟩

/-- A loop `for`, after its opening word. -/
theorem meets_forStatement {keyword : Token} (hkeyword : keyword.kind = .keyword .for) :
    Meets c n never (forStatement again keyword) (forStatement again' keyword)
      (fun tokens s rest => ReadsStmt .statement (keyword :: tokens) s rest) := by
  refine Meets.congr (meets_accept?_bind (.punctuation .lparen)
    (fun _ _ => (meets_forHeader hagain keyword true).mono (Nat.sub_le n 1))
    (meets_forHeader hagain keyword false)) ?_
  intro tokens s rest
  constructor
  · rintro (⟨lparen, _, rfl, hlparen, header, between, body, hheader, hbody, rfl⟩ |
      ⟨hno, header, between, body, hheader, hbody, rfl⟩)
    · exact .forParens hkeyword hlparen hheader hbody
    · exact .forBare hkeyword hno hheader hbody
  · intro h
    cases h with
    | forParens _ hlparen hheader hbody =>
      exact .inl ⟨_, _, rfl, hlparen, _, _, _, hheader, hbody, rfl⟩
    | forBare _ hno hheader hbody => exact .inr ⟨hno, _, _, _, hheader, hbody, rfl⟩
    | expression he =>
      exact absurd (by simp [hkeyword]) ((he.begins rfl).headKind?_ne (.keyword .for)
        (by simp +contextual [startsExpression]))
    | ifThen h | ifElse h | ret h | doWhile h | whileLoop h | breakOut h | continueOn h | switch h
    | blockStmt h => simp [hkeyword] at h

/-! ### Blocks -/

omit hagain in
theorem atClose_eq (s : ReaderState) :
    atClose s = .ok (decide (AtClose s.cursor.ahead)) s := by
  refine (bind_ok (check_eq _ s)).trans ?_
  change EStateM.Result.ok _ s = _
  congr 1
  rw [Bool.eq_iff_iff, decide_eq_true_iff]
  simp [AtClose, Cursor.atEnd, or_comm]

omit hagain in
/-- A choice by whether a list in braces ends here. -/
theorem meets_unlessClose {α : Type} {m : Nat} {moves : α → Bool} {r q q' : Reader α}
    {P N : Reading α} (hyes : Meets c m moves r r P)
    (hno : ∀ s : ReaderState, s.cursor.From c → s.cursor.remaining < m →
      ¬ AtClose s.cursor.ahead → MeetsAt s moves q q' (N s.cursor.ahead)) :
    Meets c m moves (do if ← atClose then r else q) (do if ← atClose then r else q')
      (fun tokens a rest => (AtClose tokens ∧ P tokens a rest) ∨
        (¬ AtClose tokens ∧ N tokens a rest)) := by
  intro s hs hm
  have hrun : ∀ q : Reader α, (do if ← atClose then r else q) s =
      if AtClose s.cursor.ahead then r s else q s := by
    intro q
    rw [bind_ok (atClose_eq s)]
    by_cases hclose : AtClose s.cursor.ahead <;> simp [hclose]
  by_cases hclose : AtClose s.cursor.ahead
  · refine ((hyes s hs hm).congr fun a rest => ?_).of_eq ((hrun q).trans (if_pos hclose))
      ((hrun q').trans (if_pos hclose))
    simp [hclose]
  · refine ((hno s hs hm hclose).congr fun a rest => ?_).of_eq ((hrun q).trans (if_neg hclose))
      ((hrun q').trans (if_neg hclose))
    simp [hclose]

omit hagain in
/-- At the end a list in braces has no more to read. -/
theorem unlessClose_at_end {α : Type} {s : ReaderState} (h : s.cursor.remaining ≤ 0) (a : α)
    (r : Reader α) : (do if ← atClose then return a else r : Reader α) s = .ok a s := by
  rw [bind_ok (atClose_eq s), decide_eq_true (.inl (ahead_eq_nil h))]
  rfl

/-- One declaration of a block and those after it.  Less is left to read after a declaration, be
it one that failed. -/
theorem meetsAt_blockItem {m : Nat} (hm : m + 1 ≤ n) {more more' : Reader (List Stmt)}
    (hmore : Meets c m never more more' (ReadsStmt .body)) {s : ReaderState} (hs : s.cursor.From c)
    (hn : s.cursor.remaining < m + 1) (hne : s.cursor.ahead ≠ []) :
    MeetsAt s never (blockItem again more) (blockItem again' more') (fun stmts rest =>
      ∃ stmt between, ReadsStmt .declaration s.cursor.ahead stmt between ∧
        ∃ others, ReadsStmt .body between others rest ∧ stmts = stmt :: others) := by
  have hsome : ∀ stmt, Meets c m never (do return stmt :: (← more)) (do return stmt :: (← more'))
      (fun tokens stmts rest => ∃ others, ReadsStmt .body tokens others rest ∧
        stmts = stmt :: others) := by
    intro stmt
    refine (hmore.bind_never fun others => meets_pure m (stmt :: others) rfl).congr ?_
    intro tokens stmts rest
    constructor
    · rintro ⟨others, _, hbody, rfl, rfl⟩
      exact ⟨others, hbody, rfl⟩
    · rintro ⟨others, hbody, rfl⟩
      exact ⟨others, _, hbody, rfl, rfl⟩
  exact meetsAt_recovered_bind hs hn hne (hagain .declaration s hs (by omega)) hsome hmore

/-- The declarations of a block, by induction on what is left to read. -/
theorem meets_blockBody {m : Nat} (hm : m ≤ n) {count count' : Nat} (hcount : m ≤ count + 1)
    (hcount' : m ≤ count' + 1) :
    Meets c m never (blockBody again count) (blockBody again' count') (ReadsStmt .body) := by
  induction m generalizing count count' with
  | zero => exact fun s _ hn => absurd hn (Nat.not_lt_zero _)
  | succ m ih =>
    have hmore : Meets c m never (blockBody again (count - 1)) (blockBody again' (count' - 1))
        (ReadsStmt .body) := ih (by omega) (by omega) (by omega)
    have hstep : Meets c (m + 1) never
        (do if ← atClose then return [] else blockItem again (blockBody again (count - 1)))
        (do if ← atClose then return [] else blockItem again' (blockBody again' (count' - 1)))
        _ :=
      meets_unlessClose (N := fun tokens stmts rest => ∃ stmt between,
        ReadsStmt .declaration tokens stmt between ∧
          ∃ others, ReadsStmt .body between others rest ∧ stmts = stmt :: others)
        (meets_pure _ [] rfl) fun s hs hlt hclose =>
          meetsAt_blockItem hagain hm hmore hs hlt fun h => hclose (.inl h)
    refine (hstep.congr fun tokens stmts rest => ?_).of_eq ?_ ?_
    · constructor
      · rintro (⟨hclose, rfl, rfl⟩ | ⟨-, stmt, _, hstmt, others, hothers, rfl⟩)
        · exact .bodyEnd hclose
        · exact .bodyMore hstmt hothers
      · intro h
        cases h with
        | bodyEnd hclose => exact .inl ⟨hclose, rfl, rfl⟩
        | bodyMore hstmt hothers =>
          exact .inr ⟨not_atClose_of_declaration hstmt, _, _, hstmt, _, hothers, rfl⟩
    · intro s hs hn
      cases count with
      | zero => exact (unlessClose_at_end (by omega) [] _).symm
      | succ count => rfl
    · intro s hs hn
      cases count' with
      | zero => exact (unlessClose_at_end (by omega) [] _).symm
      | succ count' => rfl

include hfuel hfuel'

theorem meets_block (lbrace : Token) :
    Meets c n always (block fuel again lbrace) (block fuel' again' lbrace)
      (ReadsStmt (.block lbrace)) := by
  refine Meets.congr ((meets_blockBody hagain (Nat.le_refl n) hfuel hfuel').bind_never
    fun statements => (meets_expectMark n .rbrace .blockEnd).bind_always fun rbrace =>
      meets_pure _ _ rfl) ?_
  intro tokens body rest
  constructor
  · rintro ⟨statements, _, hbody, rbrace, _, ⟨rfl, hrbrace⟩, rfl, rfl⟩
    exact .block hbody hrbrace
  · intro h
    cases h with
    | block hbody hrbrace => exact ⟨_, _, hbody, _, _, ⟨rfl, hrbrace⟩, rfl, rfl⟩

theorem meets_function (keyword : Token) :
    Meets c n always (function fuel again keyword) (function fuel' again' keyword)
      (ReadsStmt (.function keyword)) := by
  refine Meets.congr ((meets_expectName n .functionName).bind_always fun name =>
    (meets_typeParameters? _).relax.bind_never fun generics =>
      (meets_expectMark _ .lparen .functionParameters).bind_always fun lparen =>
        (meets_parameters _).bind_always fun params =>
          (meets_returnType? _).relax.bind_never fun returnType =>
            (meets_expectMark _ .lbrace .functionBody).bind_always fun lbrace =>
              ((meets_block hagain hfuel hfuel' lbrace).mono (by omega)).bind_always fun body =>
                meets_pure _ _ rfl) ?_
  intro tokens decl rest
  constructor
  · rintro ⟨name, _, ⟨rfl, hname⟩, generics, _, hgenerics, lparen, _, ⟨rfl, hlparen⟩, params, _,
      hparams, returnType, _, hreturn, lbrace, _, ⟨rfl, hlbrace⟩, body, _, hbody, rfl, rfl⟩
    exact .function hname hgenerics hlparen hparams hreturn hlbrace hbody
  · intro h
    cases h with
    | function hname hgenerics hlparen hparams hreturn hlbrace hbody =>
      exact ⟨_, _, ⟨rfl, hname⟩, _, _, hgenerics, _, _, ⟨rfl, hlparen⟩, _, _, hparams, _, _,
        hreturn, _, _, ⟨rfl, hlbrace⟩, _, _, hbody, rfl, rfl⟩

/-! ### Choices by value -/

omit hagain hfuel hfuel' in
theorem atDefault_eq {s : ReaderState} (hs : s.cursor.From c) :
    ∃ found, atDefault s = .ok found s ∧ (found = true ↔ AtDefault s.cursor.ahead) := by
  refine ⟨_, rfl, ?_⟩
  have hstop : s.cursor.stop.kind = .endOfFile := by simpa [Token.isEnd] using hs.placed.stop_isEnd
  rcases hahead : s.cursor.ahead with _ | ⟨name, _ | ⟨arrow, rest⟩⟩
  · simp [AtDefault, Cursor.second, hahead, hstop]
  · simp [AtDefault, Cursor.second, hahead, hstop]
  · simp [AtDefault, Cursor.here, Cursor.second, hahead]

omit hagain hfuel hfuel' in
/-- A second default is complained about. -/
theorem meets_refuseSecond (m : Nat) (default : Option Block) :
    Meets c m never (refuseSecond default) (refuseSecond default)
      (fun tokens _ rest => default = none ∧ rest = tokens) := by
  rcases default with _ | body
  · exact (meets_pure m () rfl).congr fun tokens _ rest => by simp [Reading.done]
  · intro s hs hm
    refine ((meets_report m { cause := .duplicateDefault, token := s.cursor.here } s hs hm).congr
      fun _ rest => ?_).of_eq rfl rfl
    simp

omit hagain hfuel hfuel' in
theorem cursor_refuseSecond {default : Option Block} {s t : ReaderState} {u : Unit}
    (h : refuseSecond default s = .ok u t) : t.cursor = s.cursor := by
  rcases default with _ | body
  · cases h
    rfl
  · cases h
    rfl

theorem meetsAt_switchDefault {s : ReaderState} {name arrow : Token} {rest : List Token}
    (hs : s.cursor.From c) (hn : s.cursor.remaining < n + 1)
    (hahead : s.cursor.ahead = name :: arrow :: rest) :
    MeetsAt s always (switchDefault fuel again) (switchDefault fuel' again')
      (fun body left => ∃ lbrace between, rest = lbrace :: between ∧
        lbrace.kind = .punctuation .lbrace ∧ ReadsStmt (.block lbrace) between body left) := by
  have hblock : Meets c n never
      (do block fuel again (← expectMark .lbrace .caseBody))
      (do block fuel' again' (← expectMark .lbrace .caseBody)) _ :=
    (meets_expectMark n .lbrace .caseBody).bind_always fun lbrace =>
      ((meets_block hagain hfuel hfuel' lbrace).mono (Nat.sub_le n 1)).relax
  have hlt := remaining_past hahead
  refine (meetsAt_advance_step hahead (meetsAt_advance_bind ((leads_past s).from_cursor hs)
    (by omega) (ahead_past hahead) hblock)).congr fun body left => ?_
  constructor
  · rintro ⟨lbrace, between, ⟨rfl, hlbrace⟩, hbody⟩
    exact ⟨lbrace, between, rfl, hlbrace, hbody⟩
  · rintro ⟨lbrace, between, rfl, hlbrace, hbody⟩
    exact ⟨lbrace, between, ⟨rfl, hlbrace⟩, hbody⟩

theorem meets_switchCase :
    Meets c n always (switchCase fuel again) (switchCase fuel' again')
      (fun tokens c rest => ∃ value arrow lbrace between body,
        ReadsExpr .expression tokens value (arrow :: lbrace :: between) ∧
        arrow.kind = .punctuation .arrow ∧ lbrace.kind = .punctuation .lbrace ∧
        ReadsStmt (.block lbrace) between body rest ∧ c = ⟨value, arrow, body⟩) := by
  refine Meets.congr ((meets_expression n).bind_always fun value =>
    (meets_expectMark _ .arrow .caseArrow).bind_always fun arrow =>
      (meets_expectMark _ .lbrace .caseBody).bind_always fun lbrace =>
        ((meets_block hagain hfuel hfuel' lbrace).mono (by omega)).bind_always fun body =>
          meets_pure _ _ rfl) ?_
  intro tokens c rest
  constructor
  · rintro ⟨value, _, hvalue, arrow, _, ⟨rfl, harrow⟩, lbrace, _, ⟨rfl, hlbrace⟩, body, _, hbody,
      rfl, rfl⟩
    exact ⟨value, arrow, lbrace, _, body, hvalue, harrow, hlbrace, hbody, rfl⟩
  · rintro ⟨value, arrow, lbrace, _, body, hvalue, harrow, hlbrace, hbody, rfl⟩
    exact ⟨value, _, hvalue, arrow, _, ⟨rfl, harrow⟩, lbrace, _, ⟨rfl, hlbrace⟩, body, _, hbody,
      rfl, rfl⟩

/-- The default of a choice by value and the cases after it. -/
theorem meetsAt_defaultAndMore {m : Nat} (hm : m ≤ n) {default : Option Block}
    {more more' : Option Block → Reader (List SwitchCase × Option Block)}
    (hmore : ∀ d, Meets c m never (more d) (more' d) (ReadsStmt (.cases d))) {s : ReaderState}
    {name arrow : Token} {rest : List Token} (hs : s.cursor.From c)
    (hn : s.cursor.remaining < m + 1) (hahead : s.cursor.ahead = name :: arrow :: rest) :
    MeetsAt s never
      (do
        refuseSecond default
        let body ← switchDefault fuel again
        more (default.or (some body)))
      (do
        refuseSecond default
        let body ← switchDefault fuel' again'
        more' (default.or (some body)))
      (fun r left => default = none ∧ ∃ lbrace between body after, rest = lbrace :: between ∧
        lbrace.kind = .punctuation .lbrace ∧ ReadsStmt (.block lbrace) between body after ∧
        ReadsStmt (.cases (some body)) after r left) := by
  have hbody : ∀ t : ReaderState, t.cursor = s.cursor → t.cursor.From c →
      MeetsAt t never
        (do more (default.or (some (← switchDefault fuel again))))
        (do more' (default.or (some (← switchDefault fuel' again'))))
        (fun r left => ∃ body after, (∃ lbrace between, rest = lbrace :: between ∧
          lbrace.kind = .punctuation .lbrace ∧ ReadsStmt (.block lbrace) between body after) ∧
          ReadsStmt (.cases (default.or (some body))) after r left) := by
    intro t ht htp
    refine MeetsAt.bind htp (meetsAt_switchDefault hagain hfuel hfuel' htp (by rw [ht]; omega)
      (by rw [ht, hahead])) fun body u _ hup hle => ?_
    refine (hmore (default.or (some body)) u hup ?_).weaken (by simp)
    simp only [Bool.toNat_true, ht] at hle
    omega
  refine MeetsAt.congr (MeetsAt.bind (Q := fun _ _ r left => ∃ body after,
      (∃ lbrace between, rest = lbrace :: between ∧ lbrace.kind = .punctuation .lbrace ∧
        ReadsStmt (.block lbrace) between body after) ∧
      ReadsStmt (.cases (default.or (some body))) after r left) hs
    (meets_refuseSecond (m + 1) default s hs hn)
    fun _ t ht htp _ => (hbody t (cursor_refuseSecond ht) htp).weaken (by simp)) ?_
  intro r left
  constructor
  · rintro ⟨_, _, ⟨rfl, -⟩, body, after, ⟨lbrace, between, hrest, hlbrace, hblock⟩, hcases⟩
    exact ⟨rfl, lbrace, between, body, after, hrest, hlbrace, hblock, hcases⟩
  · rintro ⟨rfl, lbrace, between, body, after, hrest, hlbrace, hblock, hcases⟩
    exact ⟨(), _, ⟨rfl, rfl⟩, body, after, ⟨lbrace, between, hrest, hlbrace, hblock⟩, hcases⟩

/-- One case or the default, and the cases after it. -/
theorem meetsAt_switchArm {m : Nat} (hm : m + 1 ≤ n) {default : Option Block}
    {more more' : Option Block → Reader (List SwitchCase × Option Block)}
    (hmore : ∀ d, Meets c m never (more d) (more' d) (ReadsStmt (.cases d))) {s : ReaderState}
    (hs : s.cursor.From c) (hn : s.cursor.remaining < m + 1) (hclose : ¬ AtClose s.cursor.ahead) :
    MeetsAt s never (switchArm fuel again more default) (switchArm fuel' again' more' default)
      (ReadsStmt (.cases default) s.cursor.ahead) := by
  obtain ⟨found, hfound, hdefault⟩ := atDefault_eq hs
  by_cases hd : AtDefault s.cursor.ahead
  · rw [hdefault.mpr hd] at hfound
    obtain ⟨name, arrow, rest, hahead, hname, harrow⟩ := hd
    refine ((meetsAt_defaultAndMore hagain hfuel hfuel' (by omega) hmore hs hn hahead).congr
      fun r left => ?_).of_eq (bind_ok hfound) (bind_ok hfound)
    rw [hahead] at hclose ⊢
    constructor
    · rintro ⟨rfl, lbrace, between, body, after, rfl, hlbrace, hblock, hcases⟩
      refine .casesDefault ?_ hname harrow hlbrace hblock hcases
      intro hkind
      exact hclose (.inr (by simp [hkind]))
    · intro h
      cases h with
      | casesEnd ha => exact absurd ha hclose
      | casesDefault _ _ _ hlbrace hblock hcases =>
        exact ⟨rfl, _, _, _, _, rfl, hlbrace, hblock, hcases⟩
      | casesMore ha => exact absurd ⟨name, arrow, rest, rfl, hname, harrow⟩ ha
  · have hfalse : found = false := by
      rw [← Bool.not_eq_true]
      exact fun h => hd (hdefault.mp h)
    rw [hfalse] at hfound
    have hcase : Meets c (m + 1) never
        (do
          let first ← switchCase fuel again
          let others ← more default
          return (first :: others.1, others.2))
        (do
          let first ← switchCase fuel' again'
          let others ← more' default
          return (first :: others.1, others.2)) _ :=
      ((meets_switchCase hagain hfuel hfuel').mono hm).bind_always fun first =>
        (hmore default).bind_never fun r => meets_pure _ (first :: r.1, r.2) rfl
    refine ((hcase s hs hn).congr fun r left => ?_).of_eq (bind_ok hfound) (bind_ok hfound)
    constructor
    · rintro ⟨first, _, ⟨value, arrow, lbrace, between, body, hvalue, harrow, hlbrace, hblock, rfl⟩,
        ⟨cases, default'⟩, _, hcases, rfl, rfl⟩
      exact .casesMore hd hvalue harrow hlbrace hblock hcases
    · intro h
      generalize hahead : s.cursor.ahead = tokens at h
      rw [hahead] at hclose hd
      cases h with
      | casesEnd ha => exact absurd ha hclose
      | casesDefault _ hname harrow => exact absurd ⟨_, _, _, rfl, hname, harrow⟩ hd
      | casesMore _ hvalue harrow hlbrace hblock hcases =>
        exact ⟨_, _, ⟨_, _, _, _, _, hvalue, harrow, hlbrace, hblock, rfl⟩, _, _, hcases, rfl, rfl⟩

/-- The cases of a choice by value, by induction on what is left to read. -/
theorem meets_switchBody {m : Nat} (hm : m ≤ n) {count count' : Nat} (hcount : m ≤ count + 1)
    (hcount' : m ≤ count' + 1) (default : Option Block) :
    Meets c m never (switchBody fuel again count default) (switchBody fuel' again' count' default)
      (ReadsStmt (.cases default)) := by
  induction m generalizing count count' default with
  | zero => exact fun s _ hn => absurd hn (Nat.not_lt_zero _)
  | succ m ih =>
    have hmore : ∀ d, Meets c m never (switchBody fuel again (count - 1) d)
        (switchBody fuel' again' (count' - 1) d) (ReadsStmt (.cases d)) :=
      fun d => ih (by omega) (by omega) (by omega) d
    have hstep : Meets c (m + 1) never
        (do
          if ← atClose then return ([], default)
          else switchArm fuel again (switchBody fuel again (count - 1)) default)
        (do
          if ← atClose then return ([], default)
          else switchArm fuel' again' (switchBody fuel' again' (count' - 1)) default) _ :=
      meets_unlessClose (meets_pure _ ([], default) rfl) fun s hs hlt hclose =>
        meetsAt_switchArm hagain hfuel hfuel' hm hmore hs hlt hclose
    refine (hstep.congr fun tokens r rest => ?_).of_eq ?_ ?_
    · constructor
      · rintro (⟨hclose, rfl, rfl⟩ | ⟨-, h⟩)
        · exact .casesEnd hclose
        · exact h
      · intro h
        by_cases hclose : AtClose tokens
        · refine .inl ⟨hclose, ?_⟩
          cases h with
          | casesEnd => exact ⟨rfl, rfl⟩
          | casesDefault hkind => simp [AtClose, hkind] at hclose
          | casesMore _ hvalue =>
            obtain ⟨t, more, rfl, ht, -⟩ := begins_of_expression (hvalue.begins rfl)
            simp [AtClose, ht] at hclose
        · exact .inr ⟨hclose, h⟩
    · intro s hs hn
      cases count with
      | zero => exact (unlessClose_at_end (by omega) ([], default) _).symm
      | succ count => rfl
    · intro s hs hn
      cases count' with
      | zero => exact (unlessClose_at_end (by omega) ([], default) _).symm
      | succ count' => rfl

theorem meets_switchStatement {keyword : Token} (hkeyword : keyword.kind = .keyword .switch) :
    Meets c n never (switchStatement fuel again keyword) (switchStatement fuel' again' keyword)
      (fun tokens s rest => ReadsStmt .statement (keyword :: tokens) s rest) := by
  have hclose : ∀ (m : Nat) (stmt : Token → Stmt), Meets c m never
      (do return stmt (← expectMark .rbrace .switchEnd))
      (do return stmt (← expectMark .rbrace .switchEnd)) _ :=
    fun m stmt => (meets_expectMark m .rbrace .switchEnd).bind_always fun close =>
      meets_pure _ (stmt close) rfl
  refine Meets.congr ((meets_expression n).bind_always fun subject =>
    (meets_expectMark _ .lbrace .switchBody).bind_always fun lbrace =>
      (meets_switchBody hagain hfuel hfuel' (by omega) (by omega) (by omega) none).bind_never
        fun r => hclose _ (.switch keyword subject r.1 r.2)) ?_
  intro tokens s rest
  constructor
  · rintro ⟨subject, _, hsubject, lbrace, _, ⟨rfl, hlbrace⟩, ⟨cases, default⟩, _, hcases, close, _,
      ⟨rfl, hclose⟩, rfl, rfl⟩
    exact .switch hkeyword hsubject hlbrace hcases hclose
  · intro h
    cases h with
    | switch _ hsubject hlbrace hcases hclose =>
      exact ⟨_, _, hsubject, _, _, ⟨rfl, hlbrace⟩, _, _, hcases, _, _, ⟨rfl, hclose⟩, rfl, rfl⟩
    | expression he =>
      exact absurd (by simp [hkeyword]) ((he.begins rfl).headKind?_ne (.keyword .switch)
        (by simp +contextual [startsExpression]))
    | ifThen h | ifElse h | ret h | doWhile h | whileLoop h | breakOut h | continueOn h
    | forParens h | forBare h | blockStmt h => simp [hkeyword] at h

/-! ### Classes -/

omit hagain hfuel hfuel' in
theorem meets_superclass? (m : Nat) :
    Meets c m Option.isSome superclass? superclass? ReadsSuperclass := by
  refine Meets.congr ((meets_acceptMark? m .colon).bind_option
    (fun _ => (meets_expectName _ .superclassName).bind_always fun name => meets_pure _ _ rfl)
    (meets_pure m none rfl)) ?_
  intro tokens o rest
  constructor
  · rintro (⟨colon, _, ⟨rfl, hcolon⟩, name, _, ⟨rfl, hname⟩, rfl, rfl⟩ | ⟨_, ⟨hno, rfl⟩, rfl, rfl⟩)
    · exact .some hcolon hname
    · exact .none hno
  · intro h
    cases h with
    | some hcolon hname => exact .inl ⟨_, _, ⟨rfl, hcolon⟩, _, _, ⟨rfl, hname⟩, rfl, rfl⟩
    | none hno => exact .inr ⟨_, ⟨hno, rfl⟩, rfl, rfl⟩

/-- One member, and the members after it. -/
theorem meets_classMember {m : Nat} (hm : m + 1 ≤ n)
    {more more' : Reader (List VarDecl × List FunctionDecl)}
    (hmore : Meets c m never more more' (ReadsStmt .members)) :
    Meets c (m + 1) never (classMember fuel again more) (classMember fuel' again' more')
      (fun tokens r rest => ¬ AtClose tokens ∧ ReadsStmt .members tokens r rest) := by
  refine Meets.congr (meets_accept?_bind (.keyword .fn)
    (fun keyword _ => ((meets_function hagain hfuel hfuel' keyword).mono (by omega)).bind_always
      fun method => (hmore.mono (Nat.sub_le m 1)).bind_never fun r =>
        meets_pure _ (r.1, method :: r.2) rfl)
    (meets_accept?_bind (.keyword .var)
      (fun keyword _ => (meets_varDecl m keyword).bind_always fun field =>
        (meets_acceptMark? _ .semicolon).relax.bind_never fun _ =>
          (hmore.mono (Nat.sub_le m 1)).bind_never fun r => meets_pure _ (field :: r.1, r.2) rfl)
      (meets_accept?_bind (.punctuation .semicolon) (fun _ _ => hmore) (meets_fail _ _ _)))) ?_
  intro tokens r rest
  constructor
  · rintro (⟨keyword, _, rfl, hkeyword, method, _, hmethod, ⟨fields, methods⟩, _, hmore, rfl, rfl⟩ |
      ⟨-, ⟨keyword, _, rfl, hkeyword, field, _, hfield, semicolon, _, hsemicolon,
        ⟨fields, methods⟩, _, hmore, rfl, rfl⟩ |
      ⟨-, ⟨semicolon, _, rfl, hsemicolon, hmore⟩ | ⟨-, h⟩⟩⟩)
    · exact ⟨by simp [AtClose, hkeyword], .method hkeyword hmethod hmore⟩
    · exact ⟨by simp [AtClose, hkeyword], .field hkeyword hfield hsemicolon hmore⟩
    · exact ⟨by simp [AtClose, hsemicolon], .stray hsemicolon hmore⟩
    · exact h.elim
  · rintro ⟨hclose, h⟩
    cases h with
    | membersEnd ha => exact absurd ha hclose
    | method hkeyword hmethod hmore =>
      exact .inl ⟨_, _, rfl, hkeyword, _, _, hmethod, _, _, hmore, rfl, rfl⟩
    | field hkeyword hfield hsemicolon hmore =>
      exact .inr ⟨by simp [hkeyword], .inl ⟨_, _, rfl, hkeyword, _, _, hfield, _, _, hsemicolon, _,
        _, hmore, rfl, rfl⟩⟩
    | stray hsemicolon hmore =>
      exact .inr ⟨by simp [hsemicolon], .inr ⟨by simp [hsemicolon], .inl ⟨_, _, rfl, hsemicolon,
        hmore⟩⟩⟩

/-- The members of a class, by induction on what is left to read. -/
theorem meets_classBody {m : Nat} (hm : m ≤ n) {count count' : Nat} (hcount : m ≤ count + 1)
    (hcount' : m ≤ count' + 1) :
    Meets c m never (classBody fuel again count) (classBody fuel' again' count')
      (ReadsStmt .members) := by
  induction m generalizing count count' with
  | zero => exact fun s _ hn => absurd hn (Nat.not_lt_zero _)
  | succ m ih =>
    have hmore : Meets c m never (classBody fuel again (count - 1))
        (classBody fuel' again' (count' - 1)) (ReadsStmt .members) :=
      ih (by omega) (by omega) (by omega)
    have hstep : Meets c (m + 1) never
        (do
          if ← atClose then return ([], [])
          else classMember fuel again (classBody fuel again (count - 1)))
        (do
          if ← atClose then return ([], [])
          else classMember fuel' again' (classBody fuel' again' (count' - 1))) _ :=
      meets_unlessClose
        (N := fun tokens r rest => ¬ AtClose tokens ∧ ReadsStmt .members tokens r rest)
        (meets_pure _ ([], []) rfl) fun s hs hlt _ =>
          meets_classMember hagain hfuel hfuel' hm hmore s hs hlt
    refine (hstep.congr fun tokens r rest => ?_).of_eq ?_ ?_
    · constructor
      · rintro (⟨hclose, rfl, rfl⟩ | ⟨-, -, h⟩)
        · exact .membersEnd hclose
        · exact h
      · intro h
        by_cases hclose : AtClose tokens
        · refine .inl ⟨hclose, ?_⟩
          cases h with
          | membersEnd => exact ⟨rfl, rfl⟩
          | method hkind | field hkind | stray hkind => simp [AtClose, hkind] at hclose
        · exact .inr ⟨hclose, hclose, h⟩
    · intro s hs hn
      cases count with
      | zero => exact (unlessClose_at_end (by omega) ([], []) _).symm
      | succ count => rfl
    · intro s hs hn
      cases count' with
      | zero => exact (unlessClose_at_end (by omega) ([], []) _).symm
      | succ count' => rfl

theorem meets_classDeclaration {keyword : Token} (hkeyword : keyword.kind = .keyword .klass) :
    Meets c n never (classDeclaration fuel again keyword) (classDeclaration fuel' again' keyword)
      (fun tokens s rest => ReadsStmt .declaration (keyword :: tokens) s rest) := by
  have hclose : ∀ (m : Nat) (decl : Token → Stmt), Meets c m never
      (do return decl (← expectMark .rbrace .classEnd))
      (do return decl (← expectMark .rbrace .classEnd)) _ :=
    fun m decl => (meets_expectMark m .rbrace .classEnd).bind_always fun close =>
      meets_pure _ (decl close) rfl
  refine Meets.congr ((meets_expectName n .className).bind_always fun name =>
    (meets_typeParameters? _).relax.bind_never fun generics =>
      (meets_superclass? _).relax.bind_never fun superclass =>
        (meets_expectMark _ .lbrace .classBody).bind_always fun lbrace =>
          (meets_classBody hagain hfuel hfuel' (by omega) (by omega) (by omega)).bind_never
            fun r => hclose _ (.classDecl keyword name generics superclass r.1 r.2)) ?_
  intro tokens s rest
  constructor
  · rintro ⟨name, _, ⟨rfl, hname⟩, generics, _, hgenerics, superclass, _, hsuperclass, lbrace, _,
      ⟨rfl, hlbrace⟩, ⟨fields, methods⟩, _, hmembers, close, _, ⟨rfl, hclose⟩, rfl, rfl⟩
    exact .classDecl hkeyword hname hgenerics hsuperclass hlbrace hmembers hclose
  · intro h
    cases h with
    | classDecl _ hname hgenerics hsuperclass hlbrace hmembers hclose =>
      exact ⟨_, _, ⟨rfl, hname⟩, _, _, hgenerics, _, _, hsuperclass, _, _, ⟨rfl, hlbrace⟩, _, _,
        hmembers, _, _, ⟨rfl, hclose⟩, rfl, rfl⟩
    | functionDecl h | var h => simp [hkeyword] at h
    | stmt h =>
      obtain ⟨_, _, heq, -, hne, -⟩ := begins_of_statement h
      cases heq
      exact absurd hkeyword hne

/-! ### Statements -/

omit hfuel hfuel' in
theorem meets_ifStatement {keyword : Token} (hkeyword : keyword.kind = .keyword .if) :
    Meets c n never (ifStatement again keyword) (ifStatement again' keyword)
      (fun tokens s rest => ReadsStmt .statement (keyword :: tokens) s rest) := by
  refine Meets.congr ((meets_expression n).bind_always fun condition =>
    ((meets_again_statement hagain).mono (Nat.sub_le n 1)).bind_always fun yes =>
      (meets_accept? _ (.keyword .else)).bind_option
        (fun _ => ((meets_again_statement hagain).mono (by omega)).bind_always fun no =>
          meets_pure _ _ rfl) (meets_pure _ _ rfl)) ?_
  intro tokens s rest
  constructor
  · rintro ⟨condition, _, hcondition, yes, _, hyes, ⟨word, _, ⟨rfl, hword⟩, no, _, hno, rfl, rfl⟩ |
      ⟨_, ⟨hno, rfl⟩, rfl, rfl⟩⟩
    · exact .ifElse hkeyword hcondition hyes hword hno
    · exact .ifThen hkeyword hcondition hyes hno
  · intro h
    cases h with
    | ifThen _ hcondition hyes hno =>
      exact ⟨_, _, hcondition, _, _, hyes, .inr ⟨_, ⟨hno, rfl⟩, rfl, rfl⟩⟩
    | ifElse _ hcondition hyes hword hno =>
      exact ⟨_, _, hcondition, _, _, hyes, .inl ⟨_, _, ⟨rfl, hword⟩, _, _, hno, rfl, rfl⟩⟩
    | expression he =>
      exact absurd (by simp [hkeyword]) ((he.begins rfl).headKind?_ne (.keyword .if)
        (by simp +contextual [startsExpression]))
    | forParens h | forBare h | ret h | doWhile h | whileLoop h | breakOut h | continueOn h
    | switch h | blockStmt h => simp [hkeyword] at h

omit hagain hfuel hfuel' in
theorem meets_returnStatement (m : Nat) {keyword : Token}
    (hkeyword : keyword.kind = .keyword .return) :
    Meets c m never (returnStatement keyword) (returnStatement keyword)
      (fun tokens s rest => ReadsStmt .statement (keyword :: tokens) s rest) := by
  refine Meets.congr ((meets_optional m).relax.bind_never fun value =>
    (meets_acceptMark? m .semicolon).relax.bind_never fun _ => meets_pure m _ rfl) ?_
  intro tokens s rest
  constructor
  · rintro ⟨value, _, hvalue, semicolon, _, hsemicolon, rfl, rfl⟩
    exact .ret hkeyword hvalue hsemicolon
  · intro h
    cases h with
    | ret _ hvalue hsemicolon => exact ⟨_, _, hvalue, _, _, hsemicolon, rfl, rfl⟩
    | expression he =>
      exact absurd (by simp [hkeyword]) ((he.begins rfl).headKind?_ne (.keyword .return)
        (by simp +contextual [startsExpression]))
    | forParens h | forBare h | ifThen h | ifElse h | doWhile h | whileLoop h | breakOut h
    | continueOn h | switch h | blockStmt h => simp [hkeyword] at h

omit hfuel hfuel' in
theorem meets_doStatement {keyword : Token} (hkeyword : keyword.kind = .keyword .do) :
    Meets c n never (doStatement again keyword) (doStatement again' keyword)
      (fun tokens s rest => ReadsStmt .statement (keyword :: tokens) s rest) := by
  refine Meets.congr ((meets_expect n (.keyword .while) .whileAfterDo).bind_always fun word =>
    (meets_whileStatement hagain keyword true).mono (Nat.sub_le n 1)) ?_
  intro tokens s rest
  constructor
  · rintro ⟨word, _, ⟨rfl, hword⟩, condition, between, body, hcondition, hbody, rfl⟩
    exact .doWhile hkeyword hword hcondition hbody
  · intro h
    cases h with
    | doWhile _ hword hcondition hbody =>
      exact ⟨_, _, ⟨rfl, hword⟩, _, _, _, hcondition, hbody, rfl⟩
    | expression he =>
      exact absurd (by simp [hkeyword]) ((he.begins rfl).headKind?_ne (.keyword .do)
        (by simp +contextual [startsExpression]))
    | forParens h | forBare h | ifThen h | ifElse h | ret h | whileLoop h | breakOut h
    | continueOn h | switch h | blockStmt h => simp [hkeyword] at h

omit hfuel hfuel' in
theorem meets_whileLoop {keyword : Token} (hkeyword : keyword.kind = .keyword .while) :
    Meets c n never (whileStatement again keyword false) (whileStatement again' keyword false)
      (fun tokens s rest => ReadsStmt .statement (keyword :: tokens) s rest) := by
  refine (meets_whileStatement hagain keyword false).congr fun tokens s rest => ?_
  constructor
  · rintro ⟨condition, between, body, hcondition, hbody, rfl⟩
    exact .whileLoop hkeyword hcondition hbody
  · intro h
    cases h with
    | whileLoop _ hcondition hbody => exact ⟨_, _, _, hcondition, hbody, rfl⟩
    | expression he =>
      exact absurd (by simp [hkeyword]) ((he.begins rfl).headKind?_ne (.keyword .while)
        (by simp +contextual [startsExpression]))
    | forParens h | forBare h | ifThen h | ifElse h | ret h | doWhile h | breakOut h
    | continueOn h | switch h | blockStmt h => simp [hkeyword] at h

omit hagain hfuel hfuel' in
theorem meets_wordStatement (m : Nat) (stmt : Stmt) :
    Meets c m never (wordStatement stmt) (wordStatement stmt) (fun tokens s rest =>
      ∃ semicolon, Reading.token? (.punctuation .semicolon) tokens semicolon rest ∧ s = stmt) := by
  refine Meets.congr ((meets_acceptMark? m .semicolon).relax.bind_never fun _ =>
    meets_pure m stmt rfl) ?_
  intro tokens s rest
  constructor
  · rintro ⟨semicolon, _, hsemicolon, rfl, rfl⟩
    exact ⟨semicolon, hsemicolon, rfl⟩
  · rintro ⟨semicolon, hsemicolon, rfl⟩
    exact ⟨semicolon, _, hsemicolon, rfl, rfl⟩

omit hagain hfuel hfuel' in
theorem meets_breakStatement (m : Nat) {keyword : Token}
    (hkeyword : keyword.kind = .keyword .break) :
    Meets c m never (wordStatement (.breakOut keyword)) (wordStatement (.breakOut keyword))
      (fun tokens s rest => ReadsStmt .statement (keyword :: tokens) s rest) := by
  refine (meets_wordStatement m _).congr fun tokens s rest => ?_
  constructor
  · rintro ⟨semicolon, hsemicolon, rfl⟩
    exact .breakOut hkeyword hsemicolon
  · intro h
    cases h with
    | breakOut _ hsemicolon => exact ⟨_, hsemicolon, rfl⟩
    | expression he =>
      exact absurd (by simp [hkeyword]) ((he.begins rfl).headKind?_ne (.keyword .break)
        (by simp +contextual [startsExpression]))
    | forParens h | forBare h | ifThen h | ifElse h | ret h | doWhile h | whileLoop h
    | continueOn h | switch h | blockStmt h => simp [hkeyword] at h

omit hagain hfuel hfuel' in
theorem meets_continueStatement (m : Nat) {keyword : Token}
    (hkeyword : keyword.kind = .keyword .continue) :
    Meets c m never (wordStatement (.continueOn keyword)) (wordStatement (.continueOn keyword))
      (fun tokens s rest => ReadsStmt .statement (keyword :: tokens) s rest) := by
  refine (meets_wordStatement m _).congr fun tokens s rest => ?_
  constructor
  · rintro ⟨semicolon, hsemicolon, rfl⟩
    exact .continueOn hkeyword hsemicolon
  · intro h
    cases h with
    | continueOn _ hsemicolon => exact ⟨_, hsemicolon, rfl⟩
    | expression he =>
      exact absurd (by simp [hkeyword]) ((he.begins rfl).headKind?_ne (.keyword .continue)
        (by simp +contextual [startsExpression]))
    | forParens h | forBare h | ifThen h | ifElse h | ret h | doWhile h | whileLoop h
    | breakOut h | switch h | blockStmt h => simp [hkeyword] at h

theorem meets_blockStatement {lbrace : Token} (hlbrace : lbrace.kind = .punctuation .lbrace) :
    Meets c n never (.block <$> block fuel again lbrace) (.block <$> block fuel' again' lbrace)
      (fun tokens s rest => ReadsStmt .statement (lbrace :: tokens) s rest) := by
  refine ((meets_block hagain hfuel hfuel' lbrace).map Stmt.block (by simp)).congr ?_
  intro tokens s rest
  constructor
  · rintro ⟨body, hbody, rfl⟩
    exact .blockStmt hlbrace hbody
  · intro h
    cases h with
    | blockStmt _ hbody => exact ⟨_, hbody, rfl⟩
    | expression he =>
      exact absurd (by simp [hlbrace]) ((he.begins rfl).headKind?_ne (.punctuation .lbrace)
        (by simp +contextual [startsExpression]))
    | forParens h | forBare h | ifThen h | ifElse h | ret h | doWhile h | whileLoop h
    | breakOut h | continueOn h | switch h => simp [hlbrace] at h

omit hagain hfuel hfuel' in
theorem meets_expressionStatement (m : Nat) :
    Meets c m always expressionStatement expressionStatement (fun tokens s rest =>
      ∃ e semicolon between, ReadsExpr .expression tokens e between ∧
        Reading.token? (.punctuation .semicolon) between semicolon rest ∧ s = .expression e) := by
  refine Meets.congr ((meets_expression m).bind_always fun e =>
    (meets_acceptMark? _ .semicolon).relax.bind_never fun _ => meets_pure _ _ rfl) ?_
  intro tokens s rest
  constructor
  · rintro ⟨e, between, he, semicolon, _, hsemicolon, rfl, rfl⟩
    exact ⟨e, semicolon, between, he, hsemicolon, rfl⟩
  · rintro ⟨e, semicolon, between, he, hsemicolon, rfl⟩
    exact ⟨e, between, he, semicolon, _, hsemicolon, rfl, rfl⟩

/-- Whether a token opens a statement that is no expression. -/
def opensStatement (t : Token) : Bool :=
  match t.kind with
  | .keyword word =>
    [Keyword.for, .if, .return, .do, .while, .break, .continue, .switch].contains word
  | .punctuation mark => mark == .lbrace
  | _ => false

omit hagain hfuel hfuel' in
theorem statement_eq_expression (fuel : Nat) (again : StmtRule → Reader Stmt) {s : ReaderState}
    (h : opensStatement s.cursor.here = false) :
    statement fuel again s = expressionStatement s := by
  refine (bind_ok rfl).trans ?_
  rcases hkind : s.cursor.here.kind with _ | word | _ | mark | _ | _
  case keyword => cases word <;> first | rfl | simp [opensStatement, hkind] at h
  case punctuation => cases mark <;> first | rfl | simp [opensStatement, hkind] at h
  all_goals rfl

theorem meets_statement :
    Meets c (n + 1) always (statement fuel again) (statement fuel' again')
      (ReadsStmt .statement) := by
  intro s hs hn
  by_cases hopens : opensStatement s.cursor.here = true
  · rcases hahead : s.cursor.ahead with _ | ⟨t, rest⟩
    · simp [opensStatement, here_kind_of_nil hs hahead] at hopens
    have hhere := here_of_cons hahead
    have hrun : ∀ fuel again, statement fuel again s = _ := fun fuel again => bind_ok rfl
    rw [hhere] at hopens hrun
    rcases hkind : t.kind with op | word | kind | mark | _ | _
    all_goals simp only [hkind] at hrun
    case keyword =>
      cases word
      case «for» =>
        exact (meetsAt_advance_bind hs hn hahead (meets_forStatement hagain hkind)).of_eq
          (hrun _ _) (hrun _ _)
      case «if» =>
        exact (meetsAt_advance_bind hs hn hahead (meets_ifStatement hagain hkind)).of_eq
          (hrun _ _) (hrun _ _)
      case «return» =>
        exact (meetsAt_advance_bind hs hn hahead (meets_returnStatement n hkind)).of_eq
          (hrun _ _) (hrun _ _)
      case «do» =>
        exact (meetsAt_advance_bind hs hn hahead (meets_doStatement hagain hkind)).of_eq
          (hrun _ _) (hrun _ _)
      case «while» =>
        exact (meetsAt_advance_bind hs hn hahead (meets_whileLoop hagain hkind)).of_eq
          (hrun _ _) (hrun _ _)
      case «break» =>
        exact (meetsAt_advance_bind hs hn hahead (meets_breakStatement n hkind)).of_eq
          (hrun _ _) (hrun _ _)
      case «continue» =>
        exact (meetsAt_advance_bind hs hn hahead (meets_continueStatement n hkind)).of_eq
          (hrun _ _) (hrun _ _)
      case switch =>
        exact (meetsAt_advance_bind hs hn hahead
          (meets_switchStatement hagain hfuel hfuel' hkind)).of_eq (hrun _ _) (hrun _ _)
      all_goals simp [opensStatement, hkind] at hopens
    case punctuation =>
      cases mark
      case lbrace =>
        exact (meetsAt_advance_bind hs hn hahead
          (meets_blockStatement hagain hfuel hfuel' hkind)).of_eq (hrun _ _) (hrun _ _)
      all_goals simp [opensStatement, hkind] at hopens
    all_goals simp [opensStatement, hkind] at hopens
  · rw [Bool.not_eq_true] at hopens
    refine ((meets_expressionStatement (n + 1) s hs hn).congr fun stmt rest => ?_).of_eq
      (statement_eq_expression fuel again hopens) (statement_eq_expression fuel' again' hopens)
    constructor
    · rintro ⟨e, semicolon, between, he, hsemicolon, rfl⟩
      exact .expression he hsemicolon
    · intro h
      generalize hahead : s.cursor.ahead = tokens at h
      cases h with
      | expression he hsemicolon => exact ⟨_, _, _, he, hsemicolon, rfl⟩
      | forParens h | forBare h | ifThen h | ifElse h | ret h | doWhile h | whileLoop h
      | breakOut h | continueOn h | switch h | blockStmt h =>
        rw [here_of_cons hahead] at hopens
        simp [opensStatement, h] at hopens

/-! ### Declarations -/

omit hagain hfuel hfuel' in
theorem meets_varStatement (m : Nat) {keyword : Token} (hkeyword : keyword.kind = .keyword .var) :
    Meets c m never (varStatement keyword) (varStatement keyword)
      (fun tokens s rest => ReadsStmt .declaration (keyword :: tokens) s rest) := by
  refine Meets.congr ((meets_varDecl m keyword).bind_always fun decl =>
    (meets_acceptMark? _ .semicolon).relax.bind_never fun _ => meets_pure _ _ rfl) ?_
  intro tokens s rest
  constructor
  · rintro ⟨decl, _, hdecl, semicolon, _, hsemicolon, rfl, rfl⟩
    exact .var hkeyword hdecl hsemicolon
  · intro h
    cases h with
    | var _ hdecl hsemicolon => exact ⟨_, _, hdecl, _, _, hsemicolon, rfl, rfl⟩
    | classDecl h | functionDecl h => simp [hkeyword] at h
    | stmt h =>
      obtain ⟨_, _, heq, -, -, hne, -⟩ := begins_of_statement h
      cases heq
      exact absurd hkeyword hne

/-- A variable or a statement, where neither a class nor a function is declared. -/
theorem meets_varOrStatement :
    Meets c (n + 1) always (varOrStatement fuel again) (varOrStatement fuel' again')
      (fun tokens s rest =>
        (∃ keyword between, tokens = keyword :: between ∧ keyword.kind = .keyword .var ∧
          ReadsStmt .declaration tokens s rest) ∨ ReadsStmt .statement tokens s rest) := by
  refine Meets.congr (meets_accept?_bind (.keyword .var) (fun keyword hkeyword =>
    meets_varStatement n hkeyword) (meets_statement hagain hfuel hfuel')) ?_
  intro tokens s rest
  constructor
  · rintro (⟨keyword, between, rfl, hkeyword, h⟩ | ⟨-, h⟩)
    · exact .inl ⟨keyword, between, rfl, hkeyword, h⟩
    · exact .inr h
  · rintro (⟨keyword, between, rfl, hkeyword, h⟩ | h)
    · exact .inl ⟨keyword, between, rfl, hkeyword, h⟩
    · obtain ⟨t, more, rfl, -, -, hne, -⟩ := begins_of_statement h
      exact .inr ⟨by simpa using hne, h⟩

/-- Whether the declaration of a function comes first. -/
def AtFunction (tokens : List Token) : Prop :=
  ∃ keyword name rest, tokens = keyword :: name :: rest ∧ keyword.kind = .keyword .fn ∧
    name.kind = .identifier

omit hagain hfuel hfuel' in
theorem atFunction_eq {s : ReaderState} (hs : s.cursor.From c) :
    ∃ found, atFunction s = .ok found s ∧ (found = true ↔ AtFunction s.cursor.ahead) := by
  refine ⟨_, (bind_ok (check_eq _ s)).trans rfl, ?_⟩
  have hstop : s.cursor.stop.kind = .endOfFile := by simpa [Token.isEnd] using hs.placed.stop_isEnd
  rcases hahead : s.cursor.ahead with _ | ⟨keyword, _ | ⟨name, rest⟩⟩
  · simp [AtFunction]
  · simp [AtFunction, Cursor.second, hahead, hstop]
  · simp [AtFunction, Cursor.second, hahead]

omit hagain hfuel hfuel' in
theorem atFunction_of_function {keyword : Token} {tokens rest : List Token} {decl : FunctionDecl}
    (hkeyword : keyword.kind = .keyword .fn)
    (h : ReadsStmt (.function keyword) tokens decl rest) : AtFunction (keyword :: tokens) := by
  cases h with
  | function hname => exact ⟨keyword, _, _, rfl, hkeyword, hname⟩

omit hagain hfuel hfuel' in
/-- A statement that declares nothing does not begin as a function does. -/
theorem not_atFunction_of_statement {tokens rest : List Token} {s : Stmt}
    (h : ReadsStmt .statement tokens s rest) : ¬ AtFunction tokens := by
  rintro ⟨keyword, name, more, rfl, hkeyword, hname⟩
  obtain ⟨_, _, heq, -, -, -, hfn⟩ := begins_of_statement h
  cases heq
  exact hfn hkeyword (by simp [hname])

theorem meets_functionOrStatement :
    Meets c (n + 1) always (functionOrStatement fuel again) (functionOrStatement fuel' again')
      (fun tokens s rest => headKind? tokens ≠ some (.keyword .klass) ∧
        ReadsStmt .declaration tokens s rest) := by
  intro s hs hn
  obtain ⟨found, hfound, hfunction⟩ := atFunction_eq hs
  by_cases hf : AtFunction s.cursor.ahead
  · rw [hfunction.mpr hf] at hfound
    obtain ⟨keyword, name, rest, hahead, hkeyword, hname⟩ := hf
    refine ((meetsAt_advance_bind hs hn hahead ((meets_function hagain hfuel hfuel' keyword).map
      Stmt.function (by simp))).congr fun stmt left => ?_).of_eq (bind_ok hfound) (bind_ok hfound)
    rw [hahead]
    constructor
    · rintro ⟨decl, hdecl, rfl⟩
      exact ⟨by simp [hkeyword], .functionDecl hkeyword hdecl⟩
    · rintro ⟨-, h⟩
      cases h with
      | functionDecl _ hdecl => exact ⟨_, hdecl, rfl⟩
      | classDecl h | var h => simp [hkeyword] at h
      | stmt h =>
        exact absurd ⟨keyword, name, rest, rfl, hkeyword, hname⟩ (not_atFunction_of_statement h)
  · have hfalse : found = false := by
      rw [← Bool.not_eq_true]
      exact fun h => hf (hfunction.mp h)
    rw [hfalse] at hfound
    refine ((meets_varOrStatement hagain hfuel hfuel' s hs hn).congr fun stmt left => ?_).of_eq
      (bind_ok hfound) (bind_ok hfound)
    constructor
    · rintro (⟨keyword, between, hahead, hkeyword, h⟩ | h)
      · exact ⟨by simp [hahead, hkeyword], h⟩
      · obtain ⟨t, more, hahead, -, hne, -⟩ := begins_of_statement h
        exact ⟨by simpa [hahead] using hne, .stmt h⟩
    · rintro ⟨hklass, h⟩
      have hdecl := h
      generalize hahead : s.cursor.ahead = tokens at h hklass hf
      cases h with
      | classDecl h => simp [h] at hklass
      | functionDecl hkeyword h => exact absurd (atFunction_of_function hkeyword h) hf
      | var hkeyword =>
        rw [hahead] at hdecl
        exact .inl ⟨_, _, rfl, hkeyword, hdecl⟩
      | stmt h => exact .inr h

theorem meets_declarationOrStatement :
    Meets c (n + 1) always (declarationOrStatement fuel again) (declarationOrStatement fuel' again')
      (ReadsStmt .declaration) := by
  refine Meets.congr (meets_accept?_bind (.keyword .klass)
    (fun keyword hkeyword => meets_classDeclaration hagain hfuel hfuel' hkeyword)
    (meets_functionOrStatement hagain hfuel hfuel')) ?_
  intro tokens s rest
  constructor
  · rintro (⟨keyword, between, rfl, -, h⟩ | ⟨-, -, h⟩)
    · exact h
    · exact h
  · intro h
    by_cases hklass : headKind? tokens = some (.keyword .klass)
    · obtain ⟨keyword, between, rfl, hkeyword⟩ := headKind?_eq_some_iff.mp hklass
      exact .inl ⟨keyword, between, rfl, hkeyword, h⟩
    · exact .inr ⟨hklass, hklass, h⟩

/-- A rule keeps its contract if those that it calls again keep theirs where less is left. -/
theorem meets_stmtBody (rule : StmtRule) :
    Meets c (n + 1) always (rule.body fuel again) (rule.body fuel' again') rule.reads := by
  cases rule with
  | statement => exact meets_statement hagain hfuel hfuel'
  | declaration => exact meets_declarationOrStatement hagain hfuel hfuel'

end Rules

/-! ### Without a bound -/

/-- At the end no statement begins. -/
theorem stmtBody_at_end (fuel : Nat) (again : StmtRule → Reader Stmt) (rule : StmtRule)
    {s : ReaderState} (hs : s.cursor.From c) (hend : s.cursor.ahead = []) :
    rule.body fuel again s = fail .expectedExpression s := by
  have haccept : ∀ kind, accept? kind s = .ok none s := fun kind => by simp [accept?_eq, hend]
  have hexpression : expression s = fail .expectedExpression s := by
    exact (ruleAt_eq hs (Nat.le_refl _) .expression).trans (ruleBody_at_end _ _ .expression hs hend)
  have hstatement : statement fuel again s = fail .expectedExpression s := by
    refine (statement_eq_expression fuel again ?_).trans (bind_error hexpression)
    simp [opensStatement, here_kind_of_nil hs hend]
  have hfunction : atFunction s = .ok false s := by
    obtain ⟨found, hfound, hiff⟩ := atFunction_eq hs
    have hfalse : found = false := by
      rw [← Bool.not_eq_true, hiff, hend]
      rintro ⟨_, _, _, h, -⟩
      cases h
    rw [hfound, hfalse]
  cases rule with
  | statement => exact hstatement
  | declaration =>
    exact (bind_ok (haccept _)).trans ((bind_ok hfunction).trans
      ((bind_ok (haccept _)).trans hstatement))

/-- With a bound that is large enough, a rule is read as if there were none. -/
theorem stmtAt_eq {fuel : Nat} {s : ReaderState} (hs : s.cursor.From c)
    (hfuel : s.cursor.remaining ≤ fuel) (rule : StmtRule) :
    stmtAt fuel rule s = rule.body (fuel - 1) (stmtAt (fuel - 1)) s := by
  cases fuel with
  | succ fuel => rfl
  | zero =>
    rw [stmtBody_at_end _ _ rule hs (ahead_eq_nil hfuel)]
    rfl

/-- The rules for statements, by induction on what is left to read. -/
theorem meets_stmtAt (n : Nat) {fuel fuel' : Nat} (hfuel : n ≤ fuel + 1) (hfuel' : n ≤ fuel' + 1)
    (rule : StmtRule) : Meets c n always (stmtAt fuel rule) (stmtAt fuel' rule) rule.reads := by
  induction n generalizing fuel fuel' rule with
  | zero => exact fun s _ hn => absurd hn (Nat.not_lt_zero _)
  | succ n ih =>
    have hagain : ∀ rule, Meets c n always (stmtAt (fuel - 1) rule) (stmtAt (fuel' - 1) rule)
        rule.reads := fun rule => ih (by omega) (by omega) rule
    exact (meets_stmtBody hagain (by omega) (by omega) rule).of_eq
      (fun s hs hn => stmtAt_eq hs (by omega) rule) (fun s hs hn => stmtAt_eq hs (by omega) rule)

/-! ### Whole files -/

/-- One declaration of a file, with its failure caught. -/
theorem meetsAt_declaration {s : ReaderState} (hs : s.cursor.From c) (hne : s.cursor.ahead ≠ []) :
    MeetsAt s always (recovered (stmtAt s.cursor.remaining .declaration))
      (recovered (stmtAt s.cursor.remaining .declaration))
      (fun o rest => ∃ stmt, ReadsStmt .declaration s.cursor.ahead stmt rest ∧ o = some stmt) :=
  meetsAt_recovered (meets_stmtAt _ (Nat.le_refl _) (Nat.le_refl _) .declaration s hs
    (Nat.lt_succ_self _)) hne

theorem recovered_declaration (s : ReaderState) :
    recovered (stmtAt s.cursor.remaining .declaration) s =
      .ok (declaration s).1 (declaration s).2 := rfl

theorem leads_declaration {s : ReaderState} (hs : s.cursor.From c) (hne : s.cursor.ahead ≠ []) :
    s.Leads (declaration s).2 :=
  (meetsAt_declaration hs hne).leads

/-- Every declaration, be it one that fails, leaves less to read. -/
theorem remaining_declaration_lt {s : ReaderState} (hs : s.cursor.From c)
    (hne : s.cursor.ahead ≠ []) :
    (declaration s).2.cursor.remaining < s.cursor.remaining :=
  (meetsAt_declaration hs hne).moved _ _ (recovered_declaration s) rfl

/-- Nothing is read to no statements. -/
theorem readsFile_nil_iff {stmts : List Stmt} : ReadsFile [] stmts ↔ stmts = [] := by
  constructor
  · intro h
    cases h with
    | done => rfl
    | more h => exact absurd (.inl rfl) (not_atClose_of_declaration h)
  · rintro rfl
    exact .done

/-- A declaration that fails is complained about, and the tokens are not those of a file. -/
theorem hadError_of_declaration_none {s t : ReaderState} (hs : s.cursor.From c)
    (hne : s.cursor.ahead ≠ []) (hclean : s.hadError = false) (h : declaration s = (none, t)) :
    t.hadError = true ∧ ∀ stmts, ¬ ReadsFile s.cursor.ahead stmts := by
  have hmeets := meetsAt_declaration hs hne
  have hrecovered : recovered (stmtAt s.cursor.remaining .declaration) s = .ok none t := by
    rw [recovered_declaration, h]
  constructor
  · by_contra hterr
    obtain ⟨stmt, -, hstmt⟩ := (hmeets.clean hclean none _).mp
      ⟨t, hrecovered, Bool.eq_false_iff.mpr hterr, rfl⟩
    cases hstmt
  · intro stmts hfile
    generalize hahead : s.cursor.ahead = tokens at hfile
    cases hfile with
    | done => exact hne hahead
    | more hstmt =>
      rw [← hahead] at hstmt
      obtain ⟨t', ht', -⟩ := (hmeets.clean hclean (some _) _).mpr ⟨_, hstmt, rfl⟩
      rw [hrecovered] at ht'
      cases ht'

/-- A declaration that does not fail is the first statement of a file exactly if it is not
complained about. -/
theorem readsFile_iff_of_declaration {s t : ReaderState} (hs : s.cursor.From c)
    (hne : s.cursor.ahead ≠ []) (hclean : s.hadError = false) {stmt : Stmt}
    (h : declaration s = (some stmt, t)) (stmts : List Stmt) :
    ReadsFile s.cursor.ahead stmts ↔
      t.hadError = false ∧ ∃ more, stmts = stmt :: more ∧ ReadsFile t.cursor.ahead more := by
  have hmeets := meetsAt_declaration hs hne
  have hrecovered : recovered (stmtAt s.cursor.remaining .declaration) s = .ok (some stmt) t := by
    rw [recovered_declaration, h]
  constructor
  · intro hfile
    generalize hahead : s.cursor.ahead = tokens at hfile
    cases hfile with
    | done => exact absurd hahead hne
    | more hstmt hmore =>
      rw [← hahead] at hstmt
      obtain ⟨u, hu, herror, hrest⟩ := (hmeets.clean hclean (some _) _).mpr ⟨_, hstmt, rfl⟩
      rw [hrecovered] at hu
      cases hu
      exact ⟨herror, _, rfl, hrest ▸ hmore⟩
  · rintro ⟨hterr, more, rfl, hmore⟩
    obtain ⟨_, hstmt, heq⟩ := (hmeets.clean hclean (some stmt) _).mp ⟨t, hrecovered, hterr, rfl⟩
    cases heq
    exact .more hstmt hmore

/-- What all declarations of a file come to, by induction on their bound. -/
theorem declarations_spec {count : Nat} {s : ReaderState} (hs : s.cursor.From c)
    (hcount : s.cursor.remaining ≤ count) :
    s.Leads (declarations count s).2 ∧ (declarations count s).2.cursor.ahead = [] ∧
      (s.hadError = false → ∀ stmts,
        ((declarations count s).1 = stmts ∧ (declarations count s).2.hadError = false) ↔
          ReadsFile s.cursor.ahead stmts) := by
  induction count generalizing s with
  | zero =>
    have hend := ahead_eq_nil hcount
    refine ⟨.refl s, hend, fun hclean stmts => ?_⟩
    rw [hend, readsFile_nil_iff, declarations, and_iff_left hclean, eq_comm]
  | succ count ih =>
    by_cases hend : s.cursor.ahead = []
    · have hrun : declarations (count + 1) s = ([], s) := by
        simp [declarations, Cursor.atEnd, hend]
      rw [hrun]
      refine ⟨.refl s, hend, fun hclean stmts => ?_⟩
      rw [hend, readsFile_nil_iff, and_iff_left hclean, eq_comm]
    · have hleads := leads_declaration hs hend
      have hlt := remaining_declaration_lt hs hend
      have hatEnd : s.cursor.atEnd = false := by simpa [Cursor.atEnd] using hend
      rcases hdecl : declaration s with ⟨_ | stmt, t⟩
      · rw [hdecl] at hleads hlt
        obtain ⟨hmore, hfinal, -⟩ := ih (hleads.from_cursor hs) (by omega)
        have hrun : declarations (count + 1) s = declarations count t := by
          simp [declarations, hatEnd, hdecl]
        rw [hrun]
        refine ⟨hleads.trans hmore, hfinal, fun hclean stmts => ?_⟩
        obtain ⟨hterr, hno⟩ := hadError_of_declaration_none hs hend hclean hdecl
        refine iff_of_false ?_ (hno stmts)
        rintro ⟨-, herror⟩
        rw [hmore.hadError_eq_false herror] at hterr
        cases hterr
      · rw [hdecl] at hleads hlt
        let t' := t.note (.parsed stmt.name)
        have hnote : t.Leads t' := t.leads_note _ trivial rfl
        obtain ⟨hmore, hfinal, hiff⟩ := ih (s := t') ((hleads.trans hnote).from_cursor hs)
          (Nat.le_of_lt_succ (Nat.lt_of_lt_of_le hlt hcount))
        have hrun : declarations (count + 1) s =
            (stmt :: (declarations count t').1, (declarations count t').2) := by
          simp [declarations, hatEnd, hdecl, t']
        rw [hrun]
        refine ⟨(hleads.trans hnote).trans hmore, hfinal, fun hclean stmts => ?_⟩
        rw [readsFile_iff_of_declaration hs hend hclean hdecl]
        constructor
        · rintro ⟨rfl, herror⟩
          have hterr : t.hadError = false := hmore.hadError_eq_false herror
          exact ⟨hterr, _, rfl, (hiff hterr _).mp ⟨rfl, herror⟩⟩
        · rintro ⟨hterr, more, rfl, hothers⟩
          obtain ⟨rfl, herror⟩ := (hiff hterr _).mpr hothers
          exact ⟨rfl, herror⟩

/-- **A file is parsed without complaint exactly to the statements that its tokens are read
to.** -/
theorem parse_clean_iff {s : ReaderState} (hs : s.cursor.From c) (hclean : s.hadError = false)
    (stmts : List Stmt) :
    ((parse s).1 = stmts ∧ (parse s).2.hadError = false) ↔ ReadsFile s.cursor.ahead stmts :=
  (declarations_spec hs (Nat.le_refl _)).2.2 hclean stmts

end Reader
end CurlyScript
