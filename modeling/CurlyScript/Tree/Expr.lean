import CurlyScript.Tree.Types

/-!
# Expressions

## Main definitions

* `Constant` — the value of a literal expression.
* `Expr` — an expression with the tokens that it is made of.
* `Expr.span` — from the first token of an expression to the last one.
* `Expr.isPlace` — whether an expression can be assigned to.
* `Expr.same` — sameness up to the place.

An assignment with an operator, `x += v`, keeps the operator and has the written-out `x + v`
as its value.

## References

`SPEC_FULL.md`, section 3, under `Expr`, and section E6, items 3 and 8.
-/

namespace CurlyScript

/-- The value of a literal expression. -/
inductive Constant
  /-- A whole number. -/
  | int (value : Int)
  /-- A binary floating point number. -/
  | float (value : Binary64)
  /-- The contents of a quoted text. -/
  | str (value : String)
  /-- A truth value. -/
  | bool (value : Bool)
  deriving DecidableEq

namespace Constant

/-- The constant that a literal token stands for. -/
def ofLiteral : Literal → Constant
  | .int value => .int value
  | .float value => .float value
  | .str value => .str value

/-- Sameness of values: numbers are compared as numbers. -/
def same : Constant → Constant → Bool
  | .int a, .int b => a == b
  | .float a, .float b => a.same b
  | .str a, .str b => a == b
  | .bool a, .bool b => a == b
  | _, _ => false

end Constant

/-- An expression. -/
inductive Expr
  /-- A literal value. -/
  | literal (value : Constant) (token : Token)
  /-- Two operands with an operator between them. -/
  | binary (left : Expr) (op : Token) (right : Expr)
  /-- An operator before its operand. -/
  | unary (op : Token) (operand : Expr)
  /-- An increment or decrement after its operand. -/
  | postUnary (operand : Expr) (op : Token)
  /-- An expression in parentheses. -/
  | grouping (lparen : Token) (inner : Expr) (rparen : Token)
  /-- A variable. -/
  | ident (name : Token)
  /-- An assignment to a variable. -/
  | assign (target : Token) (compound : Option Operator) (value : Expr)
  /-- A call, with type arguments if they are written, up to its closing parenthesis. -/
  | call (callee : Expr) (generics : Option TypeList) (args : List Expr) (paren : Token)
  /-- A member of an object. -/
  | get (object : Expr) (member : Token)
  /-- An assignment to a member of an object. -/
  | set (object : Expr) (member : Token) (compound : Option Operator) (value : Expr)
  /-- A choice, `condition ? yes : no`. -/
  | ternary (condition : Expr) (yes : Expr) (colon : Token) (no : Expr)
  /-- The object whose method is running. -/
  | this (keyword : Token)
  /-- A list of elements in brackets. -/
  | array (bracket : Token) (elements : List Expr) (close : Token)
  /-- An element of an array, up to the closing bracket. -/
  | index (base : Expr) (position : Expr) (bracket : Token)
  /-- A function without a name. -/
  | lambda (keyword : Token) (generics : Option TypeList) (params : List Param)
      (returnType : Option TypeRef) (body : Expr)

namespace Expr

/-- From the first token of an expression to the last one. -/
def span : Expr → Span
  | .literal _ token => token.span
  | .binary left _ right => left.span.cover right.span
  | .unary op operand => op.span.cover operand.span
  | .postUnary operand op => operand.span.cover op.span
  | .grouping lparen _ rparen => lparen.span.cover rparen.span
  | .ident name => name.span
  | .assign target _ value => target.span.cover value.span
  | .call callee _ _ paren => callee.span.cover paren.span
  | .get object member => object.span.cover member.span
  | .set object _ _ value => object.span.cover value.span
  | .ternary condition _ _ no => condition.span.cover no.span
  | .this keyword => keyword.span
  | .array bracket _ close => bracket.span.cover close.span
  | .index base _ bracket => base.span.cover bracket.span
  | .lambda keyword _ _ _ body => keyword.span.cover body.span

/-- Whether an expression can be assigned to: a variable or a member. -/
def isPlace : Expr → Bool
  | .ident _ => true
  | .get _ _ => true
  | _ => false

mutual

/-- Sameness of expressions up to the place. -/
def same : Expr → Expr → Bool
  | .literal valueA tokenA, .literal valueB tokenB => valueA.same valueB && tokenA.same tokenB
  | .binary leftA opA rightA, .binary leftB opB rightB =>
    leftA.same leftB && opA.same opB && rightA.same rightB
  | .unary opA operandA, .unary opB operandB => opA.same opB && operandA.same operandB
  | .postUnary operandA opA, .postUnary operandB opB => operandA.same operandB && opA.same opB
  | .grouping lparenA innerA rparenA, .grouping lparenB innerB rparenB =>
    lparenA.same lparenB && innerA.same innerB && rparenA.same rparenB
  | .ident nameA, .ident nameB => nameA.same nameB
  | .assign targetA compoundA valueA, .assign targetB compoundB valueB =>
    targetA.same targetB && compoundA == compoundB && valueA.same valueB
  | .call calleeA genericsA argsA parenA, .call calleeB genericsB argsB parenB =>
    calleeA.same calleeB && sameOption TypeList.same genericsA genericsB &&
      sameAll argsA argsB && parenA.same parenB
  | .get objectA memberA, .get objectB memberB => objectA.same objectB && memberA.same memberB
  | .set objectA memberA compoundA valueA, .set objectB memberB compoundB valueB =>
    objectA.same objectB && memberA.same memberB && compoundA == compoundB && valueA.same valueB
  | .ternary conditionA yesA colonA noA, .ternary conditionB yesB colonB noB =>
    conditionA.same conditionB && yesA.same yesB && colonA.same colonB && noA.same noB
  | .this keywordA, .this keywordB => keywordA.same keywordB
  | .array bracketA elementsA closeA, .array bracketB elementsB closeB =>
    bracketA.same bracketB && sameAll elementsA elementsB && closeA.same closeB
  | .index baseA positionA bracketA, .index baseB positionB bracketB =>
    baseA.same baseB && positionA.same positionB && bracketA.same bracketB
  | .lambda keywordA genericsA paramsA returnA bodyA,
      .lambda keywordB genericsB paramsB returnB bodyB =>
    keywordA.same keywordB && sameOption TypeList.same genericsA genericsB &&
      sameList Param.same paramsA paramsB && sameOption TypeRef.same returnA returnB &&
      bodyA.same bodyB
  | _, _ => false

/-- Sameness of expressions one by one. -/
def sameAll : List Expr → List Expr → Bool
  | [], [] => true
  | a :: as, b :: bs => a.same b && sameAll as bs
  | _, _ => false

end

end Expr
end CurlyScript
