import CurlyScript.Token.Basic

/-!
# Syntax errors

## Main definitions

* `Expectation` — what a rule of the grammar wants to see next.
* `Cause` — why the tokens at some place fit no rule.
* `SyntaxError` — a cause, the token at which it was found, and the span that is reported.

## References

`SPEC_FULL.md`, section 7, and section E2, under `ErrorKind`.
-/

namespace CurlyScript

/-- What a rule of the grammar wants to see next. -/
inductive Expectation
  /-- The name of a type. -/
  | typeName
  /-- The bracket that opens a list of types. -/
  | openAngle
  /-- The name of a type parameter. -/
  | typeParameter
  /-- More of a list of types, or its end. -/
  | moreTypes
  /-- The name of a parameter. -/
  | parameterName
  /-- The type of a parameter. -/
  | parameterType
  /-- The end of the parameters. -/
  | parametersEnd
  /-- The second branch of a choice. -/
  | ternaryColon
  /-- The name of a member. -/
  | memberName
  /-- The end of an index. -/
  | indexEnd
  /-- The end of the arguments of a call. -/
  | argumentsEnd
  /-- The end of an expression in parentheses. -/
  | groupingEnd
  /-- The end of an array. -/
  | arrayEnd
  /-- The parameters of a function without a name. -/
  | lambdaParameters
  /-- The loop after the word that announces it. -/
  | whileAfterDo
  /-- The end of a block. -/
  | blockEnd
  /-- The end of what a loop does first. -/
  | loopInitEnd
  /-- The end of the header of a loop over elements. -/
  | forEachEnd
  /-- The end of the condition of a loop. -/
  | loopConditionEnd
  /-- The end of the header of a counting loop. -/
  | forClausesEnd
  /-- The cases of a choice by value. -/
  | switchBody
  /-- The body of a case. -/
  | caseBody
  /-- The arrow after the value of a case. -/
  | caseArrow
  /-- The end of the cases. -/
  | switchEnd
  /-- The name of a class. -/
  | className
  /-- The name of a superclass. -/
  | superclassName
  /-- The body of a class. -/
  | classBody
  /-- A member of a class. -/
  | classMember
  /-- The end of a class. -/
  | classEnd
  /-- The name of a function. -/
  | functionName
  /-- The parameters of a function. -/
  | functionParameters
  /-- The body of a function. -/
  | functionBody
  /-- The name of a variable. -/
  | variableName
  deriving DecidableEq

/-- The wording of an expectation. -/
def Expectation.message : Expectation → String
  | .typeName => "Expect type name."
  | .openAngle => "Expect '<'."
  | .typeParameter => "Expect generic parameter name."
  | .moreTypes => "Expect ',' or '>'."
  | .parameterName => "Expect parameter name."
  | .parameterType => "Expect ':' after parameter name."
  | .parametersEnd => "Expect ')' after parameters."
  | .ternaryColon => "Expect ':' after then branch of ternary."
  | .memberName => "Expect property name after '.'."
  | .indexEnd => "Expect ']' after index."
  | .argumentsEnd => "Expect ')' after arguments."
  | .groupingEnd => "Expect ')' after expression."
  | .arrayEnd => "Expect ']' after array elements."
  | .lambdaParameters => "Expect '(' after 'fn'."
  | .whileAfterDo => "Expect \"while\" after \"do\"."
  | .blockEnd => "Expect '\x7d' after block."
  | .loopInitEnd => "Expect ';' after loop initializer."
  | .forEachEnd => "Expect ')' after for-each clause."
  | .loopConditionEnd => "Expect ';' after loop condition."
  | .forClausesEnd => "Expect ')' after for clauses."
  | .switchBody => "Expect '\x7b' after switch value."
  | .caseBody => "Expect '\x7b' after '->'."
  | .caseArrow => "Expect '->' after case value."
  | .switchEnd => "Expect '\x7d' after switch cases."
  | .className => "Expect class name."
  | .superclassName => "Expect superclass name."
  | .classBody => "Expect '\x7b' before class body."
  | .classMember => "Expect 'fn' or 'var' in class body."
  | .classEnd => "Expect '\x7d' after class body."
  | .functionName => "Expect function name."
  | .functionParameters => "Expect '(' after function name."
  | .functionBody => "Expect '\x7b' before function body."
  | .variableName => "Expect variable name."

/-- Why the tokens at some place fit no rule. -/
inductive Cause
  /-- A rule wants to see something else. -/
  | expected (what : Expectation)
  /-- No expression begins here. -/
  | expectedExpression
  /-- Something is assigned to that is neither a variable nor a member. -/
  | invalidTarget
  /-- One comparison follows another at the same level. -/
  | chainedComparison
  /-- A choice by value has a second default. -/
  | duplicateDefault
  /-- A variable that cannot be assigned to has no value. -/
  | uninitialized
  deriving DecidableEq

/-- The wording of a cause. -/
def Cause.message : Cause → String
  | .expected what => what.message
  | .expectedExpression => "Expect expression."
  | .invalidTarget => "Invalid assignment target."
  | .chainedComparison => "Comparison operators can't be chained."
  | .duplicateDefault => "Default case already exists."
  | .uninitialized => "'const' declarations must be initialized."

/-- A cause with its place. -/
structure SyntaxError where
  /-- What is wrong. -/
  cause : Cause
  /-- The token at which it was found. -/
  token : Token
  /-- The span that is reported, mostly that of the token. -/
  span : Span := token.span
  deriving DecidableEq

end CurlyScript
