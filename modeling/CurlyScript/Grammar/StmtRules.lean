import CurlyScript.Grammar.ExprRules
import CurlyScript.Tree.Stmt

/-!
# Rules for statements and declarations

```text
declaration := class | function | 'var' var ';'? | statement
statement   := for | if | return | while | 'break' ';'? | 'continue' ';'? | switch | block
             | expression ';'?
block       := '{' declaration* '}'
```

A declaration inside a block that fails is reported, and the block goes on with the next one.

## Main definitions

* `Reader.StmtRule`, `Reader.stmtAt` — the rules that call each other again, by what is left to
  read.
* `Reader.declaration` — a declaration or statement.
* `Reader.parse` — all declarations of a file.

## References

`SPEC_FULL.md`, sections 4.3 and 4.3.2, section E6, items 4 to 6, and section E7.
-/

namespace CurlyScript
namespace Reader

/-! ### Variables -/

/-- The head of the declaration of a variable, after its opening word. -/
def varHead (keyword : Token) : Reader VarDecl := do
  let mutable := (← accept? (.keyword .mut)).isSome
  return { keyword, name := ← expectName .variableName, mutable }

/-- A variable without a value.  One that cannot be assigned to later is reported. -/
def withoutValue (decl : VarDecl) : Reader VarDecl := do
  if decl.mutable then return decl
  else
    report { cause := .uninitialized, token := ← here, span := decl.name.span }
    return decl

/-- The value of a variable.  One that cannot be assigned to later has to have one. -/
def varValue (decl : VarDecl) : Reader VarDecl := do
  match ← accept? (.operator .equals) with
  | some _ => return { decl with value := some (← expression) }
  | none => withoutValue decl

/-- The declaration of a variable, after its opening word. -/
def varDecl (keyword : Token) : Reader VarDecl := do
  let head ← varHead keyword
  match ← acceptMark? .colon with
  | some _ => varValue { head with type := some (← typeRef) }
  | none => varValue head

/-! ### Conditions -/

/-- The truth value that stands for the condition that is missing before a token. -/
def absentCondition (found : Token) : Expr :=
  .literal (.bool true) (found.recast (.keyword .true) Keyword.true.lexeme)

/-- The condition of a loop.  Where no expression can begin it is `true`. -/
def condition : Reader Expr := do
  match ← expression? with
  | some e => return e
  | none =>
    let found ← here
    note (.missingCondition found)
    return absentCondition found

/-! ### The rules

Every rule takes the rules that it calls again as `again`, and calls them only after it has
moved past a token.  `fuel` bounds what is left to read then. -/

/-- The rules that others call again. -/
inductive StmtRule
  /-- A statement that declares nothing. -/
  | statement
  /-- A declaration or statement. -/
  | declaration

/-- Whether a list in braces ends here, at its closing brace or at the end of the file. -/
def atClose : Reader Bool := do
  return (← check (.punctuation .rbrace)) || (← atEnd)

/-- One declaration of a block and those after it.  One that fails is passed over. -/
def blockItem (again : StmtRule → Reader Stmt) (more : Reader (List Stmt)) :
    Reader (List Stmt) := do
  match ← recovered (again .declaration) with
  | some stmt => return stmt :: (← more)
  | none => more

/-- The declarations of a block, up to its closing brace or the end.  The number bounds how many
there can be. -/
def blockBody (again : StmtRule → Reader Stmt) : Nat → Reader (List Stmt)
  | 0 => return []
  | count + 1 => do
    if ← atClose then return [] else blockItem again (blockBody again count)

/-- A block, after its opening brace. -/
def block (fuel : Nat) (again : StmtRule → Reader Stmt) (lbrace : Token) : Reader Block := do
  let statements ← blockBody again fuel
  return { lbrace, statements, rbrace := ← expectMark .rbrace .blockEnd }

/-- A choice between two statements, after its opening word. -/
def ifStatement (again : StmtRule → Reader Stmt) (keyword : Token) : Reader Stmt := do
  let condition ← expression
  let yes ← again .statement
  match ← accept? (.keyword .else) with
  | some _ => return .ifElse keyword condition yes (some (← again .statement))
  | none => return .ifElse keyword condition yes none

/-- A loop with a condition, after the word `while`. -/
def whileStatement (again : StmtRule → Reader Stmt) (keyword : Token) (testedAfter : Bool) :
    Reader Stmt := do
  let condition ← condition
  return .whileLoop keyword condition (← again .statement) testedAfter

/-- The written body of a counting loop with its step after it.  The braces are made up and
cover the written body. -/
def bodyWithStep (body : Stmt) (step : Expr) : Stmt :=
  let brace (mark : Punctuation) : Token :=
    { kind := .punctuation mark, lexeme := mark.lexeme, span := body.span }
  .block
    { lbrace := brace .lbrace, statements := [body, .expression step], rbrace := brace .rbrace }

/-- The end of the header of a loop: a parenthesis, if one opened it. -/
def closeHeader (parenthesized : Bool) (what : Expectation) : Reader Unit := do
  if parenthesized then
    let _ ← expectMark .rparen what
    return ()
  else return ()

/-- The written body of a loop, with its step after it if it has one. -/
def loopBody (body : Stmt) : Option Expr → Stmt
  | some step => bodyWithStep body step
  | none => body

/-- A counting loop, after what it does first. -/
def forClauses (again : StmtRule → Reader Stmt) (keyword : Token) (parenthesized : Bool)
    (init : Option LoopInit) : Reader Stmt := do
  let condition ← condition
  let _ ← expectMark .semicolon .loopConditionEnd
  let step ← expression?
  closeHeader parenthesized .forClausesEnd
  let body ← again .statement
  return .forLoop keyword init condition step (loopBody body step)

/-- A loop over elements, after the colon. -/
def forEachClause (again : StmtRule → Reader Stmt) (keyword : Token) (parenthesized : Bool)
    (binding : VarDecl) (colon : Token) : Reader Stmt := do
  let iterable ← expression
  closeHeader parenthesized .forEachEnd
  return .forEach keyword binding colon iterable (← again .statement)

/-- Whether the type of the variable of a counting loop ends here, at `=` or `;`. -/
def atTypeEnd : Reader Bool := do
  return (← check (.operator .equals)) || (← check (.punctuation .semicolon))

/-- The type of the variable of a counting loop, after the colon: a type that `=` or `;` follows.
If there is none the cursor goes back, and the loop runs over elements. -/
def loopType? (keyword : Token) : Reader (Option TypeRef) := do
  let start ← checkpoint
  let attempt ← outcome typeRef
  let closed ← atTypeEnd
  match attempt, closed with
  | .ok type, true => return some type
  | _, _ =>
    note (.forEachLoop keyword)
    restore start
    return none

/-- A counting loop that declares a variable, from the value of the variable on. -/
def forVar (again : StmtRule → Reader Stmt) (keyword : Token) (parenthesized : Bool)
    (binding : VarDecl) : Reader Stmt := do
  let decl ← varValue binding
  let _ ← expectMark .semicolon .loopInitEnd
  forClauses again keyword parenthesized (some (.var decl))

/-- A counting loop or a loop over elements that declares a variable, after the word `var`. -/
def forDeclared (again : StmtRule → Reader Stmt) (keyword : Token) (parenthesized : Bool)
    (varKeyword : Token) : Reader Stmt := do
  let binding ← varHead varKeyword
  match ← acceptMark? .colon with
  | some colon =>
    match ← loopType? keyword with
    | some type => forVar again keyword parenthesized { binding with type := some type }
    | none => forEachClause again keyword parenthesized binding colon
  | none => forVar again keyword parenthesized binding

/-- A counting loop that evaluates an expression first. -/
def forExpression (again : StmtRule → Reader Stmt) (keyword : Token) (parenthesized : Bool) :
    Reader Stmt := do
  let first ← expression
  let _ ← expectMark .semicolon .loopInitEnd
  forClauses again keyword parenthesized (some (.expression first))

/-- A counting loop or a loop over elements, after the parenthesis if one opens its header. -/
def forHeader (again : StmtRule → Reader Stmt) (keyword : Token) (parenthesized : Bool) :
    Reader Stmt := do
  match ← acceptMark? .semicolon with
  | some _ => forClauses again keyword parenthesized none
  | none =>
    match ← accept? (.keyword .var) with
    | some varKeyword => forDeclared again keyword parenthesized varKeyword
    | none => forExpression again keyword parenthesized

/-- A counting loop or a loop over elements, after its opening word. -/
def forStatement (again : StmtRule → Reader Stmt) (keyword : Token) : Reader Stmt := do
  forHeader again keyword (← acceptMark? .lparen).isSome

/-- Reports that a choice has two defaults, if one has been met. -/
def refuseSecond (default : Option Block) : Reader Unit := do
  if default.isSome then report { cause := .duplicateDefault, token := ← here } else return ()

/-- One case of a choice by value. -/
def switchCase (fuel : Nat) (again : StmtRule → Reader Stmt) : Reader SwitchCase := do
  let value ← expression
  let arrow ← expectMark .arrow .caseArrow
  let lbrace ← expectMark .lbrace .caseBody
  return { value, arrow, body := ← block fuel again lbrace }

/-- The default of a choice by value, the cursor being before its name and its arrow. -/
def switchDefault (fuel : Nat) (again : StmtRule → Reader Stmt) : Reader Block := do
  let _ ← advance
  let _ ← advance
  let lbrace ← expectMark .lbrace .caseBody
  block fuel again lbrace

/-- Whether the default of a choice by value is next. -/
def atDefault : Reader Bool := do
  return (← here).lexeme == "_" && (← second).kind == .punctuation .arrow

/-- One case or the default of a choice by value and the cases after it, given the default that
has been met.  Of several defaults the first one stays. -/
def switchArm (fuel : Nat) (again : StmtRule → Reader Stmt)
    (more : Option Block → Reader (List SwitchCase × Option Block)) (default : Option Block) :
    Reader (List SwitchCase × Option Block) := do
  if ← atDefault then
    refuseSecond default
    let body ← switchDefault fuel again
    more (default.or (some body))
  else
    let first ← switchCase fuel again
    let (cases, default) ← more default
    return (first :: cases, default)

/-- The cases of a choice by value, up to the closing brace or the end, given the default that
has been met.  The number bounds how many cases there can be. -/
def switchBody (fuel : Nat) (again : StmtRule → Reader Stmt) :
    Nat → Option Block → Reader (List SwitchCase × Option Block)
  | 0, default => return ([], default)
  | count + 1, default => do
    if ← atClose then return ([], default)
    else switchArm fuel again (switchBody fuel again count) default

/-- A choice by value, after its opening word. -/
def switchStatement (fuel : Nat) (again : StmtRule → Reader Stmt) (keyword : Token) :
    Reader Stmt := do
  let subject ← expression
  let _ ← expectMark .lbrace .switchBody
  let (cases, default) ← switchBody fuel again fuel none
  return .switch keyword subject cases default (← expectMark .rbrace .switchEnd)

/-- The declaration of a function, after its opening word. -/
def function (fuel : Nat) (again : StmtRule → Reader Stmt) (keyword : Token) :
    Reader FunctionDecl := do
  let name ← expectName .functionName
  let generics ← typeParameters?
  let _ ← expectMark .lparen .functionParameters
  let params ← parameters
  let returnType ← returnType?
  let lbrace ← expectMark .lbrace .functionBody
  return { keyword, name, generics, params, returnType, body := ← block fuel again lbrace }

/-- One member of a class and those after it. -/
def classMember (fuel : Nat) (again : StmtRule → Reader Stmt)
    (more : Reader (List VarDecl × List FunctionDecl)) :
    Reader (List VarDecl × List FunctionDecl) := do
  match ← accept? (.keyword .fn) with
  | some keyword =>
    let method ← function fuel again keyword
    let (fields, methods) ← more
    return (fields, method :: methods)
  | none =>
    match ← accept? (.keyword .var) with
    | some keyword =>
      let field ← varDecl keyword
      let _ ← acceptMark? .semicolon
      let (fields, methods) ← more
      return (field :: fields, methods)
    | none =>
      match ← acceptMark? .semicolon with
      | some _ => more
      | none => fail (.expected .classMember)

/-- The members of a class, up to the closing brace or the end: its fields and its methods.  The
number bounds how many there can be. -/
def classBody (fuel : Nat) (again : StmtRule → Reader Stmt) :
    Nat → Reader (List VarDecl × List FunctionDecl)
  | 0 => return ([], [])
  | count + 1 => do
    if ← atClose then return ([], []) else classMember fuel again (classBody fuel again count)

/-- The name of a superclass, if a colon is next. -/
def superclass? : Reader (Option Expr) := do
  match ← acceptMark? .colon with
  | some _ => return some (.ident (← expectName .superclassName))
  | none => return none

/-- The declaration of a class, after its opening word. -/
def classDeclaration (fuel : Nat) (again : StmtRule → Reader Stmt) (keyword : Token) :
    Reader Stmt := do
  let name ← expectName .className
  let generics ← typeParameters?
  let superclass ← superclass?
  let _ ← expectMark .lbrace .classBody
  let (fields, methods) ← classBody fuel again fuel
  let close ← expectMark .rbrace .classEnd
  return .classDecl keyword name generics superclass fields methods close

/-- The end of a function, after its opening word. -/
def returnStatement (keyword : Token) : Reader Stmt := do
  let value ← expression?
  let _ ← acceptMark? .semicolon
  return .ret keyword value

/-- A statement of one word, after this word. -/
def wordStatement (stmt : Stmt) : Reader Stmt := do
  let _ ← acceptMark? .semicolon
  return stmt

/-- A loop whose condition is tested after its body, after its opening word. -/
def doStatement (again : StmtRule → Reader Stmt) (keyword : Token) : Reader Stmt := do
  let _ ← expect (.keyword .while) .whileAfterDo
  whileStatement again keyword true

/-- An expression as a statement. -/
def expressionStatement : Reader Stmt := do
  let e ← expression
  let _ ← acceptMark? .semicolon
  return .expression e

/-- A statement that declares nothing. -/
def statement (fuel : Nat) (again : StmtRule → Reader Stmt) : Reader Stmt := do
  match (← here).kind with
  | .keyword .for => forStatement again (← advance)
  | .keyword .if => ifStatement again (← advance)
  | .keyword .return => returnStatement (← advance)
  | .keyword .do => doStatement again (← advance)
  | .keyword .while => whileStatement again (← advance) false
  | .keyword .break => wordStatement (.breakOut (← advance))
  | .keyword .continue => wordStatement (.continueOn (← advance))
  | .keyword .switch => switchStatement fuel again (← advance)
  | .punctuation .lbrace => .block <$> block fuel again (← advance)
  | _ => expressionStatement

/-- The declaration of a variable as a statement, after its opening word. -/
def varStatement (keyword : Token) : Reader Stmt := do
  let decl ← varDecl keyword
  let _ ← acceptMark? .semicolon
  return .var decl

/-- The declaration of a variable, or a statement. -/
def varOrStatement (fuel : Nat) (again : StmtRule → Reader Stmt) : Reader Stmt := do
  match ← accept? (.keyword .var) with
  | some keyword => varStatement keyword
  | none => statement fuel again

/-- Whether the declaration of a function is next: the word `fn` before a name.  Before anything
else it begins an expression. -/
def atFunction : Reader Bool := do
  return (← check (.keyword .fn)) && (← second).kind == .identifier

/-- The declaration of a function or a variable, or a statement. -/
def functionOrStatement (fuel : Nat) (again : StmtRule → Reader Stmt) : Reader Stmt := do
  if ← atFunction then .function <$> function fuel again (← advance)
  else varOrStatement fuel again

/-- A declaration or statement. -/
def declarationOrStatement (fuel : Nat) (again : StmtRule → Reader Stmt) : Reader Stmt := do
  match ← accept? (.keyword .klass) with
  | some keyword => classDeclaration fuel again keyword
  | none => functionOrStatement fuel again

/-- A rule, given the rules that it calls again. -/
def StmtRule.body (fuel : Nat) (again : StmtRule → Reader Stmt) : StmtRule → Reader Stmt
  | .statement => Reader.statement fuel again
  | .declaration => Reader.declarationOrStatement fuel again

/-- A rule, where at most `fuel` is left to read.  Once that is nothing, no statement begins. -/
def stmtAt : Nat → StmtRule → Reader Stmt
  | 0, _ => fail .expectedExpression
  | fuel + 1, rule => rule.body fuel (stmtAt fuel)

/-! ### Whole files -/

/-- A declaration or statement.  A failure is reported, and reading goes on at the next one. -/
def declaration (s : ReaderState) : Option Stmt × ReaderState :=
  recover (stmtAt s.cursor.remaining .declaration) s

/-- All declarations up to the end.  The number bounds how many there can be. -/
def declarations : Nat → ReaderState → List Stmt × ReaderState
  | 0, s => ([], s)
  | count + 1, s =>
    if s.cursor.atEnd then ([], s)
    else
      match declaration s with
      | (some stmt, s) =>
        let (stmts, s) := declarations count (s.note (.parsed stmt.name))
        (stmt :: stmts, s)
      | (none, s) => declarations count s

/-- All declarations up to the end. -/
def parse (s : ReaderState) : List Stmt × ReaderState :=
  let (stmts, s) := declarations s.cursor.remaining s
  (stmts, s.note (.finished stmts.length s.hadError))

end Reader
end CurlyScript
