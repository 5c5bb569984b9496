import CurlyScript.Grammar.TypeRules
import CurlyScript.Tree.Expr

/-!
# Rules for expressions

```text
expression := ternary (ASSIGN expression)?
ternary    := binary ('?' expression ':' ternary)?
power      := unary ('**' power)?
unary      := PREFIX unary | primary suffix*
```

Between the choice and the power stand the levels of binary operators, from `||` up to `*`.
Most of them group to the left; at the two levels of comparisons operators do not follow each
other.  A `<` after a variable or a member opens type arguments if a list of types and a `(`
follow, and compares otherwise.

## Main definitions

* `Level`, `binaryLevels` — the levels of binary operators, the loosest first.
* `prefixOperators` — the operators before an operand.
* `Reader.startsExpression` — whether an expression can begin here.
* `Reader.Rule`, `Reader.ruleAt` — the rules that call each other again, by what is left to
  read.
* `Reader.expression` — an expression.

## References

`SPEC_FULL.md`, sections 4.3 and 4.3.1, section E6, items 2 and 3, and section E7.
-/

namespace CurlyScript

/-! ### Operators -/

/-- A level of binary operators. -/
structure Level where
  /-- The operators of the level. -/
  operators : List Operator
  /-- Whether operators of the level may follow each other, grouping to the left. -/
  chains : Bool

/-- The levels of binary operators, the loosest first. -/
def binaryLevels : List Level :=
  [⟨[.logicOr], true⟩,
   ⟨[.logicAnd], true⟩,
   ⟨[.or], true⟩,
   ⟨[.xor], true⟩,
   ⟨[.and], true⟩,
   ⟨[.eqEq, .notEq], false⟩,
   ⟨[.less, .lessEq, .greater, .greaterEq], false⟩,
   ⟨[.lsh, .rsh], true⟩,
   ⟨[.plus, .minus], true⟩,
   ⟨[.star, .slash, .mod], true⟩]

/-- The operators that stand before their operand. -/
def prefixOperators : List Operator := [.bang, .inv, .minus, .increment, .decrement]

/-- The operators that stand after their operand. -/
def suffixOperators : List Operator := [.increment, .decrement]

namespace Reader

/-- Whether an expression can begin with a token. -/
def startsExpression (t : Token) : Bool :=
  match t.kind with
  | .literal _ => true
  | .keyword word => [Keyword.true, .false, .this, .fn].contains word
  | .operator op => prefixOperators.contains op
  | .punctuation mark => mark == .lparen || mark == .lbracket
  | .endOfFile => false
  | .bad => false

/-! ### Type arguments -/

/-- Type arguments of a call.  They are kept only if a call follows; otherwise the cursor goes
back. -/
def keptTypeArguments? (start : Checkpoint) : Reader (Option TypeList) := do
  match ← outcome typeArguments with
  | .ok generics =>
    if ← check (.punctuation .lparen) then return some generics
    else
      note .genericsWithoutCall
      restore start
      return none
  | .error e =>
    note (.notGenerics e)
    restore start
    return none

/-- Type arguments of a call, if there are some, the cursor being before a `<`. -/
def callTypeArguments? : Reader (Option TypeList) := do
  let start ← checkpoint
  note (.tryingGenerics (← here).span)
  keptTypeArguments? start

/-! ### The rules

Every rule takes the rules that it calls again as `again`, and calls them only after it has
moved past a token.  `fuel` bounds what is left to read then. -/

/-- The rules that others call again. -/
inductive Rule
  /-- A whole expression. -/
  | expression
  /-- An expression without an assignment of its own. -/
  | ternary
  /-- An operand of a multiplication. -/
  | power
  /-- An operand of a power. -/
  | unary

/-- A function without a name, after its opening word. -/
def lambda (again : Rule → Reader Expr) (keyword : Token) : Reader Expr := do
  let generics ← typeParameters?
  let _ ← expectMark .lparen .lambdaParameters
  let params ← parameters
  let returnType ← returnType?
  return .lambda keyword generics params returnType (← again .expression)

/-- An expression in parentheses, after the opening one. -/
def grouping (again : Rule → Reader Expr) (lparen : Token) : Reader Expr := do
  let inner ← again .expression
  return .grouping lparen inner (← expectMark .rparen .groupingEnd)

/-- An array, after its opening bracket. -/
def array (fuel : Nat) (again : Rule → Reader Expr) (bracket : Token) : Reader Expr := do
  let elements ← listUpTo .rbracket (again .expression) fuel
  return .array bracket elements (← expectMark .rbracket .arrayEnd)

/-- An expression that is no operation: a literal, a name, a function, or one in brackets. -/
def primary (fuel : Nat) (again : Rule → Reader Expr) : Reader Expr := do
  let token ← here
  match token.kind with
  | .keyword .true => return .literal (.bool true) (← advance)
  | .keyword .false => return .literal (.bool false) (← advance)
  | .keyword .this => return .this (← advance)
  | .keyword .fn => lambda again (← advance)
  | .literal .identifier => return .ident (← advance)
  | .literal _ =>
    match token.literal with
    | some value => return .literal (.ofLiteral value) (← advance)
    | none => fail .expectedExpression
  | .punctuation .lparen => grouping again (← advance)
  | .punctuation .lbracket => array fuel again (← advance)
  | _ => fail .expectedExpression

/-- The arguments of a call, after the opening parenthesis. -/
def finishCall (fuel : Nat) (again : Rule → Reader Expr) (callee : Expr)
    (generics : Option TypeList) : Reader Expr := do
  let args ← listUpTo .rparen (again .expression) fuel
  return .call callee generics args (← expectMark .rparen .argumentsEnd)

/-- A call with type arguments, the cursor being before a `<`.  There is none when no type
arguments follow. -/
def genericCall? (fuel : Nat) (again : Rule → Reader Expr) (callee : Expr) :
    Reader (Option Expr) := do
  match ← callTypeArguments? with
  | some generics =>
    let _ ← advance
    some <$> finishCall fuel again callee (some generics)
  | none => return none

/-- A suffix that only a place can have: a call with type arguments, or an increment or
decrement.  There is none when nothing of the kind follows. -/
def placeSuffix? (fuel : Nat) (again : Rule → Reader Expr) (e : Expr) : Reader (Option Expr) := do
  if ← check (.operator .less) then genericCall? fuel again e
  else
    match ← acceptOperator? suffixOperators with
    | some op => return some (.postUnary e op)
    | none => return none

/-- One suffix of an expression: a member, a call, an index, or an increment or decrement.
There is none when nothing of the kind follows. -/
def suffix? (fuel : Nat) (again : Rule → Reader Expr) (e : Expr) : Reader (Option Expr) := do
  if (← acceptMark? .dot).isSome then
    return some (.get e (← expectName .memberName))
  else if (← acceptMark? .lparen).isSome then
    some <$> finishCall fuel again e none
  else if (← acceptMark? .lbracket).isSome then
    let position ← again .expression
    return some (.index e position (← expectMark .rbracket .indexEnd))
  else if e.isPlace then placeSuffix? fuel again e
  else return none

/-- All suffixes of an expression.  The first number bounds how many there can be. -/
def suffixes (fuel : Nat) (again : Rule → Reader Expr) : Nat → Expr → Reader Expr
  | 0, e => return e
  | count + 1, e => do
    match ← suffix? fuel again e with
    | some longer => suffixes fuel again count longer
    | none => return e

/-- An operator before an operand, or an expression with its suffixes. -/
def unary (fuel : Nat) (again : Rule → Reader Expr) : Reader Expr := do
  match ← acceptOperator? prefixOperators with
  | some op => return .unary op (← again .unary)
  | none => suffixes fuel again fuel (← primary fuel again)

/-- A power, which groups to the right. -/
def power (fuel : Nat) (again : Rule → Reader Expr) : Reader Expr := do
  let base ← unary fuel again
  match ← acceptOperator? [.power] with
  | some op => return .binary base op (← again .power)
  | none => return base

/-- More operands of a level that groups to the left.  The number bounds how many there can
be. -/
def chain (operators : List Operator) (operand : Reader Expr) : Nat → Expr → Reader Expr
  | 0, left => return left
  | count + 1, left => do
    match ← acceptOperator? operators with
    | some op => chain operators operand count (.binary left op (← operand))
    | none => return left

/-- At most one comparison. -/
def comparison (operators : List Operator) (operand : Reader Expr) (left : Expr) : Reader Expr := do
  match ← acceptOperator? operators with
  | none => return left
  | some op =>
    let right ← operand
    match (← here).kind with
    | .operator another =>
      if operators.contains another then fail .chainedComparison
      else return .binary left op right
    | _ => return .binary left op right

/-- The operations of some levels, the first of them being the loosest. -/
def binary (fuel : Nat) (again : Rule → Reader Expr) : List Level → Reader Expr
  | [] => power fuel again
  | level :: tighter => do
    let left ← binary fuel again tighter
    if level.chains then chain level.operators (binary fuel again tighter) fuel left
    else comparison level.operators (binary fuel again tighter) left

/-- A choice, which groups to the right. -/
def ternary (fuel : Nat) (again : Rule → Reader Expr) : Reader Expr := do
  let condition ← binary fuel again binaryLevels
  match ← acceptMark? .questionMark with
  | none => return condition
  | some _ =>
    let yes ← again .expression
    let colon ← expectMark .colon .ternaryColon
    return .ternary condition yes colon (← again .ternary)

/-- The value of an assignment: for a compound one, the operation on what the target reads. -/
def assignedValue (read : Expr) (op : Token) (compound : Option Operator) (value : Expr) : Expr :=
  match compound with
  | some base => .binary read (op.recast (.operator base) base.lexeme) value
  | none => value

/-- The assignment of a value to a target.  A target that cannot be assigned to is reported, and
stands for the whole. -/
def assignTo (target : Expr) (op : Token) (compound : Option Operator) (value : Expr) :
    Reader Expr := do
  let value := assignedValue target op compound value
  match target with
  | .ident name => return .assign name compound value
  | .get object member => return .set object member compound value
  | other =>
    report { cause := .invalidTarget, token := op, span := other.span }
    return other

/-- The assignment to a target, if one follows, or else the target. -/
def assigned (again : Rule → Reader Expr) (target : Expr) : Reader Expr := do
  match (← here).kind with
  | .operator op =>
    if op.isAssignment then
      let token ← advance
      let value ← again .expression
      assignTo target token op.compoundBase? value
    else return target
  | _ => return target

/-- An assignment, which groups to the right, or an expression without one. -/
def assignment (fuel : Nat) (again : Rule → Reader Expr) : Reader Expr := do
  assigned again (← ternary fuel again)

/-- A rule, given the rules that it calls again. -/
def Rule.body (fuel : Nat) (again : Rule → Reader Expr) : Rule → Reader Expr
  | .expression => assignment fuel again
  | .ternary => Reader.ternary fuel again
  | .power => Reader.power fuel again
  | .unary => Reader.unary fuel again

/-- A rule, where at most `fuel` is left to read.  Once that is nothing, no expression begins. -/
def ruleAt : Nat → Rule → Reader Expr
  | 0, _ => fail .expectedExpression
  | fuel + 1, rule => rule.body fuel (ruleAt fuel)

/-- An expression. -/
def expression : Reader Expr := do ruleAt (← remaining) .expression

/-- An expression, if one can begin here. -/
def expression? : Reader (Option Expr) := do
  if startsExpression (← here) then some <$> expression else pure none

end Reader
end CurlyScript
