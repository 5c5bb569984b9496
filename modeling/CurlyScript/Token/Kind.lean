/-!
# Kinds of tokens

Every token is of one kind: an operator, a reserved word, a literal, a mark of punctuation,
the end of the file, or a bad token.  Operators, reserved words and punctuation have one
fixed spelling each.

## Main definitions

* `Operator`, `Keyword`, `LiteralKind`, `Punctuation` — the four families with members.
* `Kind` — the kind of a token.
* `Kind.lexeme?` — the fixed spelling of a kind, if it has one.
* `Operator.compoundBase?` — the binary operator inside a compound assignment.
* `Kind.text`, `Kind.label` — a kind as a reader and as a dump sees it.

## References

`SPEC_FULL.md`, section 3, under `Token`, with the additions of section E6, items 1 and 2.
-/

namespace CurlyScript

/-! ### Operators -/

/-- Arithmetic, shift, relational, bitwise, logical, assignment and unary operators. -/
inductive Operator
  /-- The operator `**`. -/
  | power
  /-- The operator `++`. -/
  | increment
  /-- The operator `--`. -/
  | decrement
  /-- The operator `*`. -/
  | star
  /-- The operator `/`. -/
  | slash
  /-- The operator `%`. -/
  | mod
  /-- The operator `-`. -/
  | minus
  /-- The operator `+`. -/
  | plus
  /-- The operator `>>`. -/
  | rsh
  /-- The operator `<<`. -/
  | lsh
  /-- The operator `>`. -/
  | greater
  /-- The operator `>=`. -/
  | greaterEq
  /-- The operator `<`. -/
  | less
  /-- The operator `<=`. -/
  | lessEq
  /-- The operator `==`. -/
  | eqEq
  /-- The operator `!=`. -/
  | notEq
  /-- The operator `&`. -/
  | and
  /-- The operator `^`. -/
  | xor
  /-- The operator `|`. -/
  | or
  /-- The operator `||`. -/
  | logicOr
  /-- The operator `&&`. -/
  | logicAnd
  /-- The operator `=`. -/
  | equals
  /-- The operator `+=`. -/
  | plusEq
  /-- The operator `-=`. -/
  | minusEq
  /-- The operator `*=`. -/
  | starEq
  /-- The operator `/=`. -/
  | slashEq
  /-- The operator `**=`. -/
  | powerEq
  /-- The operator `%=`. -/
  | modEq
  /-- The operator `^=`. -/
  | xorEq
  /-- The operator `|=`. -/
  | orEq
  /-- The operator `&=`. -/
  | andEq
  /-- The operator `<<=`. -/
  | lshEq
  /-- The operator `>>=`. -/
  | rshEq
  /-- The operator `~`. -/
  | inv
  /-- The operator `!`. -/
  | bang
  deriving DecidableEq

namespace Operator

/-- Every operator, in the order of declaration. -/
def all : List Operator :=
  [.power, .increment, .decrement, .star, .slash, .mod, .minus, .plus, .rsh, .lsh, .greater,
   .greaterEq, .less, .lessEq, .eqEq, .notEq, .and, .xor, .or, .logicOr, .logicAnd, .equals,
   .plusEq, .minusEq, .starEq, .slashEq, .powerEq, .modEq, .xorEq, .orEq, .andEq, .lshEq,
   .rshEq, .inv, .bang]

/-- The spelling of an operator. -/
def lexeme : Operator → String
  | .power => "**"
  | .increment => "++"
  | .decrement => "--"
  | .star => "*"
  | .slash => "/"
  | .mod => "%"
  | .minus => "-"
  | .plus => "+"
  | .rsh => ">>"
  | .lsh => "<<"
  | .greater => ">"
  | .greaterEq => ">="
  | .less => "<"
  | .lessEq => "<="
  | .eqEq => "=="
  | .notEq => "!="
  | .and => "&"
  | .xor => "^"
  | .or => "|"
  | .logicOr => "||"
  | .logicAnd => "&&"
  | .equals => "="
  | .plusEq => "+="
  | .minusEq => "-="
  | .starEq => "*="
  | .slashEq => "/="
  | .powerEq => "**="
  | .modEq => "%="
  | .xorEq => "^="
  | .orEq => "|="
  | .andEq => "&="
  | .lshEq => "<<="
  | .rshEq => ">>="
  | .inv => "~"
  | .bang => "!"

/-- The name of an operator in a dump. -/
def label : Operator → String
  | .power => "Power"
  | .increment => "Increment"
  | .decrement => "Decrement"
  | .star => "Star"
  | .slash => "Slash"
  | .mod => "Mod"
  | .minus => "Minus"
  | .plus => "Plus"
  | .rsh => "Rsh"
  | .lsh => "Lsh"
  | .greater => "Greater"
  | .greaterEq => "GreaterEq"
  | .less => "Less"
  | .lessEq => "LessEq"
  | .eqEq => "EqEq"
  | .notEq => "NotEq"
  | .and => "And"
  | .xor => "Xor"
  | .or => "Or"
  | .logicOr => "LogicOr"
  | .logicAnd => "LogicAnd"
  | .equals => "Equals"
  | .plusEq => "PlusEq"
  | .minusEq => "MinusEq"
  | .starEq => "StarEq"
  | .slashEq => "SlashEq"
  | .powerEq => "PowerEq"
  | .modEq => "ModEq"
  | .xorEq => "XorEq"
  | .orEq => "OrEq"
  | .andEq => "AndEq"
  | .lshEq => "LshEq"
  | .rshEq => "RshEq"
  | .inv => "Inv"
  | .bang => "Bang"

/-- For a compound assignment `X=`, the binary operator `X`. -/
def compoundBase? : Operator → Option Operator
  | .plusEq => some .plus
  | .minusEq => some .minus
  | .starEq => some .star
  | .slashEq => some .slash
  | .powerEq => some .power
  | .modEq => some .mod
  | .xorEq => some .xor
  | .orEq => some .or
  | .andEq => some .and
  | .lshEq => some .lsh
  | .rshEq => some .rsh
  | _ => none

/-- Whether the operator is `=` or a compound assignment. -/
def isAssignment (op : Operator) : Bool := op == .equals || op.compoundBase?.isSome

theorem mem_all (op : Operator) : op ∈ all := by cases op <;> decide

end Operator

/-! ### Reserved words -/

/-- The words that are never identifiers. -/
inductive Keyword
  /-- The word `var`. -/
  | var
  /-- The word `mut`. -/
  | mut
  /-- The word `for`. -/
  | for
  /-- The word `while`. -/
  | while
  /-- The word `do`. -/
  | do
  /-- The word `if`. -/
  | if
  /-- The word `else`. -/
  | else
  /-- The word `fn`. -/
  | fn
  /-- The word `class`. -/
  | klass
  /-- The word `interface`. -/
  | interface
  /-- The word `true`. -/
  | true
  /-- The word `false`. -/
  | false
  /-- The word `type`. -/
  | type
  /-- The word `switch`. -/
  | switch
  /-- The word `async`. -/
  | async
  /-- The word `await`. -/
  | await
  /-- The word `return`. -/
  | return
  /-- The word `break`. -/
  | break
  /-- The word `continue`. -/
  | continue
  /-- The word `this`. -/
  | this
  deriving DecidableEq

namespace Keyword

/-- Every reserved word, in the order of declaration. -/
def all : List Keyword :=
  [.var, .mut, .for, .while, .do, .if, .else, .fn, .klass, .interface, .true, .false, .type,
   .switch, .async, .await, .return, .break, .continue, .this]

/-- The spelling of a reserved word. -/
def lexeme : Keyword → String
  | .var => "var"
  | .mut => "mut"
  | .for => "for"
  | .while => "while"
  | .do => "do"
  | .if => "if"
  | .else => "else"
  | .fn => "fn"
  | .klass => "class"
  | .interface => "interface"
  | .true => "true"
  | .false => "false"
  | .type => "type"
  | .switch => "switch"
  | .async => "async"
  | .await => "await"
  | .return => "return"
  | .break => "break"
  | .continue => "continue"
  | .this => "this"

/-- The name of a reserved word in a dump. -/
def label : Keyword → String
  | .var => "Var"
  | .mut => "Mut"
  | .for => "For"
  | .while => "While"
  | .do => "Do"
  | .if => "If"
  | .else => "Else"
  | .fn => "Fn"
  | .klass => "Class"
  | .interface => "Interface"
  | .true => "True"
  | .false => "False"
  | .type => "Type"
  | .switch => "Switch"
  | .async => "Async"
  | .await => "Await"
  | .return => "Return"
  | .break => "Break"
  | .continue => "Continue"
  | .this => "This"

theorem mem_all (word : Keyword) : word ∈ all := by cases word <;> decide

end Keyword

/-! ### Literals and punctuation -/

/-- The kinds of tokens that carry a value. -/
inductive LiteralKind
  /-- A whole number. -/
  | int
  /-- A number with a fraction or a negative exponent. -/
  | float
  /-- A truth value.  The reserved words `true` and `false` stand for these in a text. -/
  | bool
  /-- A quoted text. -/
  | string
  /-- A name. -/
  | identifier
  deriving DecidableEq

namespace LiteralKind

/-- Every kind of literal, in the order of declaration. -/
def all : List LiteralKind := [.int, .float, .bool, .string, .identifier]

/-- A kind of literal in words. -/
def text : LiteralKind → String
  | .int => "integer literal"
  | .float => "float literal"
  | .bool => "boolean literal"
  | .string => "string literal"
  | .identifier => "identifier"

/-- The name of a kind of literal in a dump. -/
def label : LiteralKind → String
  | .int => "Int"
  | .float => "Float"
  | .bool => "Bool"
  | .string => "String"
  | .identifier => "Identifier"

end LiteralKind

/-- Marks that are not operators. -/
inductive Punctuation
  /-- The mark `.`. -/
  | dot
  /-- The mark `:`. -/
  | colon
  /-- The mark `;`. -/
  | semicolon
  /-- The mark `?`. -/
  | questionMark
  /-- The mark `->`. -/
  | arrow
  /-- The mark `,`. -/
  | comma
  /-- The mark `(`. -/
  | lparen
  /-- The mark `)`. -/
  | rparen
  /-- The mark `[`. -/
  | lbracket
  /-- The mark `]`. -/
  | rbracket
  /-- The mark `{`. -/
  | lbrace
  /-- The mark `}`. -/
  | rbrace
  deriving DecidableEq

namespace Punctuation

/-- Every mark, in the order of declaration. -/
def all : List Punctuation :=
  [.dot, .colon, .semicolon, .questionMark, .arrow, .comma, .lparen, .rparen, .lbracket,
   .rbracket, .lbrace, .rbrace]

/-- The spelling of a mark. -/
def lexeme : Punctuation → String
  | .dot => "."
  | .colon => ":"
  | .semicolon => ";"
  | .questionMark => "?"
  | .arrow => "->"
  | .comma => ","
  | .lparen => "("
  | .rparen => ")"
  | .lbracket => "["
  | .rbracket => "]"
  | .lbrace => "\x7b"
  | .rbrace => "\x7d"

/-- The name of a mark in a dump. -/
def label : Punctuation → String
  | .dot => "Dot"
  | .colon => "Colon"
  | .semicolon => "Semicolon"
  | .questionMark => "QuestionMark"
  | .arrow => "Arrow"
  | .comma => "Comma"
  | .lparen => "LParen"
  | .rparen => "RParen"
  | .lbracket => "LBracket"
  | .rbracket => "RBracket"
  | .lbrace => "LBrace"
  | .rbrace => "RBrace"

theorem mem_all (mark : Punctuation) : mark ∈ all := by cases mark <;> decide

end Punctuation

/-! ### Kinds -/

/-- The kind of a token. -/
inductive Kind
  /-- An operator. -/
  | operator (op : Operator)
  /-- A reserved word. -/
  | keyword (word : Keyword)
  /-- A token that carries a value. -/
  | literal (kind : LiteralKind)
  /-- A mark of punctuation. -/
  | punctuation (mark : Punctuation)
  /-- The end of the file. -/
  | endOfFile
  /-- A token that no text is scanned to. -/
  | bad
  deriving DecidableEq

namespace Kind

/-- The kind of names. -/
abbrev identifier : Kind := .literal .identifier

/-- Every kind: operators, reserved words, literals, punctuation, and the two others. -/
def all : List Kind :=
  Operator.all.map .operator ++ Keyword.all.map .keyword ++ LiteralKind.all.map .literal ++
    Punctuation.all.map .punctuation ++ [.endOfFile, .bad]

/-- The spelling that all tokens of a kind share. -/
def lexeme? : Kind → Option String
  | .operator op => some op.lexeme
  | .keyword word => some word.lexeme
  | .punctuation mark => some mark.lexeme
  | .literal _ => none
  | .endOfFile => none
  | .bad => none

/-- A kind as a reader of messages sees it. -/
def text : Kind → String
  | .operator op => s!"'{op.lexeme}'"
  | .keyword word => s!"'{word.lexeme}'"
  | .punctuation mark => s!"'{mark.lexeme}'"
  | .literal kind => kind.text
  | .endOfFile => "end of file"
  | .bad => "bad token"

/-- The spelling or the description of a kind, without quotes. -/
def innerText : Kind → String
  | .operator op => op.lexeme
  | .keyword word => word.lexeme
  | .punctuation mark => mark.lexeme
  | .literal kind => kind.text
  | .endOfFile => "<eof>"
  | .bad => "<bad>"

/-- The name of a kind in a dump: its family, then its own name. -/
def label : Kind → String
  | .operator op => s!"Operator({op.label})"
  | .keyword word => s!"Keyword({word.label})"
  | .literal kind => s!"Literal({kind.label})"
  | .punctuation mark => s!"Other({mark.label})"
  | .endOfFile => "Other(Eof)"
  | .bad => "Other(Bad)"

/-- The kind with a given name. -/
def ofLabel? (name : String) : Option Kind := all.find? fun kind => kind.label == name

end Kind
end CurlyScript
