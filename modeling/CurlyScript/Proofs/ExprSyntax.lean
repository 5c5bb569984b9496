import CurlyScript.Grammar.ExprRules
import CurlyScript.Proofs.TypeSyntax

/-!
# The syntax of expressions

The rules for expressions read exactly the expressions of a grammar, as the rules for types do.
A part of an expression ends where the next token cannot continue it; after a variable or a
member this depends on whether a whole list of types and a parenthesis follow.

## Main definitions

* `ExprForm` — the forms of the grammar, from a whole expression down to one that is no
  operation.
* `ReadsExpr` — the tokens that are read to an expression of some form.

## Main results

* `Reader.meets_callTypeArguments?` — type arguments are taken exactly if a list of types and a
  parenthesis follow, and otherwise nothing has happened.
* `Reader.meets_ruleAt`, `Reader.meets_expression` — the contracts of the rules.
-/

namespace CurlyScript

/-! ### The grammar -/

/-- The forms of the grammar of expressions. -/
inductive ExprForm
  /-- A whole expression. -/
  | expression
  /-- An expression without an assignment of its own. -/
  | ternary
  /-- The operations of some levels. -/
  | levels (ls : List Level)
  /-- More operands of a level after a left operand, the operands being those of some levels. -/
  | chain (ops : List Operator) (ls : List Level) (left : Expr)
  /-- An operand of a multiplication. -/
  | power
  /-- An operand of a power. -/
  | unary
  /-- The suffixes of an expression. -/
  | suffixes (e : Expr)
  /-- An expression that is no operation. -/
  | primary
  /-- Expressions with commas between them, or none before a closing mark. -/
  | list (close : Punctuation)
  /-- Expressions with commas between them. -/
  | items

/-- What the tokens of a form are read to. -/
abbrev ExprForm.Result : ExprForm → Type
  | .list _ => List Expr
  | .items => List Expr
  | _ => Expr

/-- Whether no assignment comes first. -/
def NoAssignment (tokens : List Token) : Prop :=
  ∀ op : Operator, headKind? tokens = some (.operator op) → op.isAssignment = false

/-- Whether type arguments of a call come first: a list of types and a parenthesis. -/
def OpensTypeArguments (tokens : List Token) : Prop :=
  ∃ l rest, ReadsType .list tokens l rest ∧ headKind? rest = some (.punctuation .lparen)

/-- Whether no suffix of an expression comes first. -/
structure NoSuffix (e : Expr) (tokens : List Token) : Prop where
  /-- No member follows. -/
  dot : headKind? tokens ≠ some (.punctuation .dot)
  /-- No call follows. -/
  lparen : headKind? tokens ≠ some (.punctuation .lparen)
  /-- No index follows. -/
  lbracket : headKind? tokens ≠ some (.punctuation .lbracket)
  /-- No increment or decrement of a place follows. -/
  postUnary : e.isPlace = true → NoOperator suffixOperators tokens
  /-- No call of a place with type arguments follows. -/
  typeArguments : e.isPlace = true → ¬ OpensTypeArguments tokens

/-- Tokens that are read to an expression, and what is left of them. -/
inductive ReadsExpr : (form : ExprForm) → Reading form.Result
  /-- An expression that is no assignment. -/
  | plain {a b : List Token} {e : Expr} (h : ReadsExpr .ternary a e b) (hb : NoAssignment b) :
    ReadsExpr .expression a e b
  /-- An assignment to a variable. -/
  | assign {name op : Token} {o : Operator} {a b c : List Token} {value : Expr}
      (htarget : ReadsExpr .ternary a (.ident name) (op :: b)) (hop : op.kind = .operator o)
      (ho : o.isAssignment = true) (hvalue : ReadsExpr .expression b value c) :
    ReadsExpr .expression a (.assign name o.compoundBase?
      (Reader.assignedValue (.ident name) op o.compoundBase? value)) c
  /-- An assignment to a member. -/
  | set {object : Expr} {member op : Token} {o : Operator} {a b c : List Token} {value : Expr}
      (htarget : ReadsExpr .ternary a (.get object member) (op :: b))
      (hop : op.kind = .operator o) (ho : o.isAssignment = true)
      (hvalue : ReadsExpr .expression b value c) :
    ReadsExpr .expression a (.set object member o.compoundBase?
      (Reader.assignedValue (.get object member) op o.compoundBase? value)) c
  /-- An expression that is no choice. -/
  | noChoice {a b : List Token} {e : Expr} (h : ReadsExpr (.levels binaryLevels) a e b)
      (hb : headKind? b ≠ some (.punctuation .questionMark)) :
    ReadsExpr .ternary a e b
  /-- A choice. -/
  | choice {mark colon : Token} {a b c d : List Token} {condition yes no : Expr}
      (hcondition : ReadsExpr (.levels binaryLevels) a condition (mark :: b))
      (hmark : mark.kind = .punctuation .questionMark)
      (hyes : ReadsExpr .expression b yes (colon :: c)) (hcolon : colon.kind = .punctuation .colon)
      (hno : ReadsExpr .ternary c no d) :
    ReadsExpr .ternary a (.ternary condition yes colon no) d
  /-- No level is left. -/
  | noLevel {a b : List Token} {e : Expr} (h : ReadsExpr .power a e b) :
    ReadsExpr (.levels []) a e b
  /-- A level that groups to the left. -/
  | level {l : Level} {ls : List Level} {a b c : List Token} {left e : Expr}
      (hl : l.chains = true) (hleft : ReadsExpr (.levels ls) a left b)
      (hchain : ReadsExpr (.chain l.operators ls left) b e c) :
    ReadsExpr (.levels (l :: ls)) a e c
  /-- A level of comparisons without one. -/
  | noComparison {l : Level} {ls : List Level} {a b : List Token} {e : Expr}
      (hl : l.chains = false) (h : ReadsExpr (.levels ls) a e b)
      (hb : NoOperator l.operators b) :
    ReadsExpr (.levels (l :: ls)) a e b
  /-- A comparison, which no other one follows. -/
  | comparison {l : Level} {ls : List Level} {op : Token} {o : Operator} {a b c : List Token}
      {left right : Expr} (hl : l.chains = false) (hleft : ReadsExpr (.levels ls) a left (op :: b))
      (hop : op.kind = .operator o) (ho : o ∈ l.operators)
      (hright : ReadsExpr (.levels ls) b right c) (hc : NoOperator l.operators c) :
    ReadsExpr (.levels (l :: ls)) a (.binary left op right) c
  /-- No more operand. -/
  | chainEnd {ops : List Operator} {ls : List Level} {left : Expr} {a : List Token}
      (ha : NoOperator ops a) :
    ReadsExpr (.chain ops ls left) a left a
  /-- One more operand. -/
  | chainMore {ops : List Operator} {ls : List Level} {op : Token} {o : Operator}
      {left right e : Expr} {a b c : List Token} (hop : op.kind = .operator o) (ho : o ∈ ops)
      (hright : ReadsExpr (.levels ls) a right b)
      (hmore : ReadsExpr (.chain ops ls (.binary left op right)) b e c) :
    ReadsExpr (.chain ops ls left) (op :: a) e c
  /-- An expression that is no power. -/
  | noPower {a b : List Token} {e : Expr} (h : ReadsExpr .unary a e b)
      (hb : NoOperator [.power] b) :
    ReadsExpr .power a e b
  /-- A power. -/
  | power {op : Token} {a b c : List Token} {base exponent : Expr}
      (hbase : ReadsExpr .unary a base (op :: b)) (hop : op.kind = .operator .power)
      (hexponent : ReadsExpr .power b exponent c) :
    ReadsExpr .power a (.binary base op exponent) c
  /-- An operator before its operand. -/
  | prefixed {op : Token} {o : Operator} {a b : List Token} {operand : Expr}
      (hop : op.kind = .operator o) (ho : o ∈ prefixOperators)
      (h : ReadsExpr .unary a operand b) :
    ReadsExpr .unary (op :: a) (.unary op operand) b
  /-- An expression with its suffixes. -/
  | suffixed {a b c : List Token} {e e' : Expr} (ha : NoOperator prefixOperators a)
      (h : ReadsExpr .primary a e b) (hsuffixes : ReadsExpr (.suffixes e) b e' c) :
    ReadsExpr .unary a e' c
  /-- No suffix. -/
  | noSuffix {e : Expr} {a : List Token} (ha : NoSuffix e a) :
    ReadsExpr (.suffixes e) a e a
  /-- A member. -/
  | get {e e' : Expr} {dot member : Token} {a b : List Token}
      (hdot : dot.kind = .punctuation .dot) (hmember : member.kind = .identifier)
      (h : ReadsExpr (.suffixes (.get e member)) a e' b) :
    ReadsExpr (.suffixes e) (dot :: member :: a) e' b
  /-- A call. -/
  | call {e e' : Expr} {lparen paren : Token} {args : List Expr} {a b c : List Token}
      (hlparen : lparen.kind = .punctuation .lparen)
      (hargs : ReadsExpr (.list .rparen) a args (paren :: b))
      (hparen : paren.kind = .punctuation .rparen)
      (h : ReadsExpr (.suffixes (.call e none args paren)) b e' c) :
    ReadsExpr (.suffixes e) (lparen :: a) e' c
  /-- An element. -/
  | index {e e' position : Expr} {lbracket bracket : Token} {a b c : List Token}
      (hlbracket : lbracket.kind = .punctuation .lbracket)
      (hposition : ReadsExpr .expression a position (bracket :: b))
      (hbracket : bracket.kind = .punctuation .rbracket)
      (h : ReadsExpr (.suffixes (.index e position bracket)) b e' c) :
    ReadsExpr (.suffixes e) (lbracket :: a) e' c
  /-- A call with type arguments. -/
  | genericCall {e e' : Expr} {lparen paren : Token} {generics : TypeList} {args : List Expr}
      {a b c d : List Token} (he : e.isPlace = true)
      (hgenerics : ReadsType .list a generics (lparen :: b))
      (hlparen : lparen.kind = .punctuation .lparen)
      (hargs : ReadsExpr (.list .rparen) b args (paren :: c))
      (hparen : paren.kind = .punctuation .rparen)
      (h : ReadsExpr (.suffixes (.call e (some generics) args paren)) c e' d) :
    ReadsExpr (.suffixes e) a e' d
  /-- An increment or decrement. -/
  | postUnary {e e' : Expr} {op : Token} {o : Operator} {a b : List Token}
      (he : e.isPlace = true) (hop : op.kind = .operator o) (ho : o ∈ suffixOperators)
      (h : ReadsExpr (.suffixes (.postUnary e op)) a e' b) :
    ReadsExpr (.suffixes e) (op :: a) e' b
  /-- The truth value `true`. -/
  | yes {t : Token} {a : List Token} (ht : t.kind = .keyword .true) :
    ReadsExpr .primary (t :: a) (.literal (.bool true) t) a
  /-- The truth value `false`. -/
  | no {t : Token} {a : List Token} (ht : t.kind = .keyword .false) :
    ReadsExpr .primary (t :: a) (.literal (.bool false) t) a
  /-- The object whose method is running. -/
  | this {t : Token} {a : List Token} (ht : t.kind = .keyword .this) :
    ReadsExpr .primary (t :: a) (.this t) a
  /-- A function without a name. -/
  | lambda {keyword lparen : Token} {generics : Option TypeList} {params : List Param}
      {returnType : Option TypeRef} {body : Expr} {a b c d e : List Token}
      (hkeyword : keyword.kind = .keyword .fn)
      (hgenerics : ReadsType .list? a generics (lparen :: b))
      (hlparen : lparen.kind = .punctuation .lparen) (hparams : ReadsParameters b params c)
      (hreturn : ReadsType (.after? .arrow) c returnType d)
      (hbody : ReadsExpr .expression d body e) :
    ReadsExpr .primary (keyword :: a) (.lambda keyword generics params returnType body) e
  /-- A variable. -/
  | ident {t : Token} {a : List Token} (ht : t.kind = .identifier) :
    ReadsExpr .primary (t :: a) (.ident t) a
  /-- Another literal. -/
  | literal {t : Token} {kind : LiteralKind} {value : Literal} {a : List Token}
      (ht : t.kind = .literal kind) (hkind : kind ≠ .identifier)
      (hvalue : t.literal = some value) :
    ReadsExpr .primary (t :: a) (.literal (.ofLiteral value) t) a
  /-- An expression in parentheses. -/
  | grouping {lparen rparen : Token} {inner : Expr} {a b : List Token}
      (hlparen : lparen.kind = .punctuation .lparen)
      (hinner : ReadsExpr .expression a inner (rparen :: b))
      (hrparen : rparen.kind = .punctuation .rparen) :
    ReadsExpr .primary (lparen :: a) (.grouping lparen inner rparen) b
  /-- An array. -/
  | array {bracket close : Token} {elements : List Expr} {a b : List Token}
      (hbracket : bracket.kind = .punctuation .lbracket)
      (helements : ReadsExpr (.list .rbracket) a elements (close :: b))
      (hclose : close.kind = .punctuation .rbracket) :
    ReadsExpr .primary (bracket :: a) (.array bracket elements close) b
  /-- No expression before the closing mark. -/
  | noItems {close : Punctuation} {a : List Token}
      (ha : headKind? a = some (.punctuation close)) :
    ReadsExpr (.list close) a [] a
  /-- At least one expression. -/
  | someItems {close : Punctuation} {a b : List Token} {items : List Expr}
      (ha : headKind? a ≠ some (.punctuation close)) (h : ReadsExpr .items a items b) :
    ReadsExpr (.list close) a items b
  /-- The last expression. -/
  | lastItem {a b : List Token} {item : Expr} (h : ReadsExpr .expression a item b)
      (hb : headKind? b ≠ some (.punctuation .comma)) :
    ReadsExpr .items a [item] b
  /-- An expression, a comma and more expressions. -/
  | moreItems {comma : Token} {a b c : List Token} {item : Expr} {items : List Expr}
      (h : ReadsExpr .expression a item (comma :: b)) (hcomma : comma.kind = .punctuation .comma)
      (hmore : ReadsExpr .items b items c) :
    ReadsExpr .items a (item :: items) c

/-! ### How expressions begin -/

/-- Whether some tokens begin as expressions do.  The word `fn` of an expression is not followed
by a name. -/
def BeginsExpression (tokens : List Token) : Prop :=
  ∃ t rest, tokens = t :: rest ∧ Reader.startsExpression t = true ∧
    (t.kind = .keyword .fn → headKind? rest ≠ some .identifier)

/-- The forms that stand for one expression from its first token on. -/
def ExprForm.isExpression : ExprForm → Bool
  | .expression | .ternary | .levels _ | .power | .unary | .primary => true
  | _ => false

/-- The tokens of an expression begin as expressions do. -/
theorem ReadsExpr.begins {form : ExprForm} {tokens rest : List Token} {v : form.Result}
    (h : ReadsExpr form tokens v rest) (hform : form.isExpression = true) :
    BeginsExpression tokens := by
  induction h with
  | plain _ _ ih | noChoice _ _ ih | noLevel _ ih | noComparison _ _ _ ih | noPower _ _ ih =>
    exact ih rfl
  | assign _ _ _ _ ih | set _ _ _ _ ih | choice _ _ _ _ _ ih | level _ _ _ ih
  | comparison _ _ _ _ _ _ ih | power _ _ _ ih | suffixed _ _ _ ih => exact ih rfl
  | prefixed hop ho _ _ =>
    refine ⟨_, _, rfl, ?_, by simp [hop]⟩
    simpa [Reader.startsExpression, hop] using ho
  | yes ht | no ht | this ht | ident ht | literal ht | grouping ht | array ht =>
    exact ⟨_, _, rfl, by simp [Reader.startsExpression, ht], by simp [ht]⟩
  | lambda hkeyword hgenerics hlparen _ _ _ _ =>
    refine ⟨_, _, rfl, by simp [Reader.startsExpression, hkeyword], fun _ => ?_⟩
    cases hgenerics with
    | noList => simp [hlparen]
    | someList h =>
      cases h with
      | list hangle => simp [hangle]
  | chainEnd | chainMore | noSuffix | get | call | index | genericCall | postUnary | noItems
  | someItems | lastItem | moreItems => cases hform

theorem BeginsExpression.ne_nil {tokens : List Token} (h : BeginsExpression tokens) :
    tokens ≠ [] := by
  obtain ⟨t, rest, rfl, -⟩ := h
  simp

/-- No expression begins with a token of one of the other kinds. -/
theorem BeginsExpression.headKind?_ne {tokens : List Token} (h : BeginsExpression tokens)
    (kind : Kind) (hkind : ∀ t : Token, t.kind = kind → Reader.startsExpression t = false) :
    headKind? tokens ≠ some kind := by
  obtain ⟨t, rest, rfl, hstarts, -⟩ := h
  simp only [headKind?_cons, ne_eq, Option.some.injEq]
  intro ht
  rw [hkind t ht] at hstarts
  cases hstarts

namespace Reader

variable {c : Cursor}

/-! ### Type arguments -/

/-- A list of types is kept exactly if a parenthesis follows, and otherwise taken back. -/
theorem keptTypeArguments?_cases (s : ReaderState) :
    (∃ l t, typeArguments s = .ok l t ∧ headKind? t.cursor.ahead = some (.punctuation .lparen) ∧
      keptTypeArguments? s.cursor.checkpoint s = .ok (some l) t) ∨
    (∀ l t, typeArguments s = .ok l t →
      headKind? t.cursor.ahead ≠ some (.punctuation .lparen)) ∧
    ∃ e : ReaderEvent, (∀ quiet, e.Fits quiet) ∧ e.isComplaint = false ∧
      keptTypeArguments? s.cursor.checkpoint s =
        .ok none (takenBack s (endState (typeArguments s)) e) := by
  unfold keptTypeArguments?
  rcases hrun : typeArguments s with ⟨l, t⟩ | ⟨e, t⟩
  · have houtcome : outcome typeArguments s = .ok (.ok l) t := by simp only [outcome, hrun]
    rw [bind_ok houtcome]
    dsimp only
    rw [bind_ok (check_eq _ t)]
    by_cases hparen : headKind? t.cursor.ahead = some (.punctuation .lparen)
    · refine .inl ⟨l, t, rfl, hparen, ?_⟩
      rw [if_pos (by simpa using hparen)]
      rfl
    · refine .inr ⟨?_, .genericsWithoutCall, fun _ => trivial, rfl, ?_⟩
      · intro a u hu
        cases hu
        exact hparen
      · rw [if_neg (by simpa using hparen)]
        rfl
  · have houtcome : outcome typeArguments s = .ok (.error e) t := by simp only [outcome, hrun]
    rw [bind_ok houtcome]
    exact .inr ⟨by simp, .notGenerics e, fun _ => trivial, rfl, rfl⟩

/-- Type arguments are taken exactly if a list of types and a parenthesis follow. -/
theorem meets_callTypeArguments? (n : Nat) :
    Meets c n Option.isSome callTypeArguments? callTypeArguments?
      ((ReadsType .list).keptIf fun rest => headKind? rest = some (.punctuation .lparen)) := by
  intro s hs hn
  let trying : ReaderEvent := .tryingGenerics s.cursor.here.span
  have hnote : MeetsAt s never (note trying) (note trying) (Reading.done () s.cursor.ahead) :=
    meets_note (e := trying) n (fun _ => trivial) rfl s hs hn
  have hall : MeetsAt s Option.isSome
      (note trying >>= fun _ => keptTypeArguments? s.cursor.checkpoint)
      (note trying >>= fun _ => keptTypeArguments? s.cursor.checkpoint)
      (fun o rest => ∃ a between, Reading.done () s.cursor.ahead a between ∧
        (ReadsType .list).keptIf (fun rest => headKind? rest = some (.punctuation .lparen))
          between o rest) := by
    refine hnote.bind hs ?_
    intro _ t ht htp hle
    cases ht
    exact meetsAt_tried (meets_typeArguments _ _ htp (Nat.lt_succ_self _)) silent_typeArguments
      (keptTypeArguments?_cases _)
  refine (hall.congr fun o rest => ?_).of_eq rfl rfl
  simp [Reading.done]

/-! ### Rules that are called again -/

/-- The tokens that a rule reads. -/
def Rule.reads : Rule → Reading Expr
  | .expression => ReadsExpr .expression
  | .ternary => ReadsExpr .ternary
  | .power => ReadsExpr .power
  | .unary => ReadsExpr .unary

section Rules

variable {n fuel fuel' : Nat} {again again' : Rule → Reader Expr}
  (hagain : ∀ rule, Meets c n always (again rule) (again' rule) rule.reads)
  (hfuel : n ≤ fuel + 1) (hfuel' : n ≤ fuel' + 1)

include hagain

theorem meets_again_expression :
    Meets c n always (again .expression) (again' .expression) (ReadsExpr .expression) :=
  hagain .expression

/-! ### Lists -/

omit hagain in
theorem readsExpr_items_iff {tokens rest : List Token} {items : List Expr} :
    ReadsExpr .items tokens items rest ↔
      (∃ item, ReadsExpr .expression tokens item rest ∧
        headKind? rest ≠ some (.punctuation .comma) ∧ items = [item]) ∨
      ∃ item comma between more, ReadsExpr .expression tokens item (comma :: between) ∧
        comma.kind = .punctuation .comma ∧ ReadsExpr .items between more rest ∧
        items = item :: more := by
  constructor
  · intro h
    cases h with
    | lastItem h hb => exact .inl ⟨_, h, hb, rfl⟩
    | moreItems h hcomma hmore => exact .inr ⟨_, _, _, _, h, hcomma, hmore, rfl⟩
  · rintro (⟨item, h, hb, rfl⟩ | ⟨item, comma, between, more, h, hcomma, hmore, rfl⟩)
    · exact .lastItem h hb
    · exact .moreItems h hcomma hmore

include hfuel hfuel'

theorem meets_listUpTo (close : Punctuation) :
    Meets c n never (listUpTo close (again .expression) fuel)
      (listUpTo close (again' .expression) fuel') (ReadsExpr (.list close)) := by
  refine Meets.congr (Meets.branch (meets_pure n [] rfl) (meets_commaSeparated
    (fun _ _ _ => readsExpr_items_iff) (meets_again_expression hagain) hfuel hfuel').relax) ?_
  intro tokens items rest
  constructor
  · rintro (⟨hclose, rfl, rfl⟩ | ⟨hno, h⟩)
    · exact .noItems hclose
    · exact .someItems hno h
  · intro h
    cases h with
    | noItems hclose => exact .inl ⟨hclose, rfl, rfl⟩
    | someItems hno h => exact .inr ⟨hno, h⟩

/-! ### Expressions that are no operations -/

omit hagain hfuel hfuel' in
/-- An expression that is no operation does not begin with an operator. -/
theorem kind_ne_operator_of_primary {t : Token} {tokens rest : List Token} {e : Expr}
    (h : ReadsExpr .primary (t :: tokens) e rest) (op : Operator) : t.kind ≠ .operator op := by
  cases h with
  | yes ht | no ht | this ht | ident ht | lambda ht | grouping ht | array ht | literal ht =>
    simp [ht]

omit hfuel hfuel' in
theorem meets_lambda {keyword : Token} (hkeyword : keyword.kind = .keyword .fn) :
    Meets c n never (lambda again keyword) (lambda again' keyword)
      (fun tokens e rest => ReadsExpr .primary (keyword :: tokens) e rest) := by
  refine Meets.congr ((meets_typeParameters? n).relax.bind_never fun generics =>
    (meets_expectMark n .lparen _).bind_always fun lparen =>
      (meets_parameters _).bind_always fun params =>
        (meets_returnType? _).relax.bind_never fun returnType =>
          ((hagain .expression).mono (by omega)).bind_always fun body => meets_pure _ _ rfl) ?_
  intro tokens e rest
  constructor
  · rintro ⟨generics, _, hgenerics, lparen, _, ⟨rfl, hlparen⟩, params, _, hparams, returnType, _,
      hreturn, body, _, hbody, rfl, rfl⟩
    exact .lambda hkeyword hgenerics hlparen hparams hreturn hbody
  · intro h
    cases h with
    | lambda _ hgenerics hlparen hparams hreturn hbody =>
      exact ⟨_, _, hgenerics, _, _, ⟨rfl, hlparen⟩, _, _, hparams, _, _, hreturn, _, _, hbody, rfl,
        rfl⟩
    | yes ht | no ht | this ht | ident ht | literal ht | grouping ht | array ht =>
      simp [hkeyword] at ht

omit hfuel hfuel' in
theorem meets_grouping {lparen : Token} (hlparen : lparen.kind = .punctuation .lparen) :
    Meets c n never (grouping again lparen) (grouping again' lparen)
      (fun tokens e rest => ReadsExpr .primary (lparen :: tokens) e rest) := by
  refine Meets.congr ((meets_again_expression hagain).bind_always fun inner =>
    (meets_expectMark _ .rparen _).bind_always fun rparen => meets_pure _ _ rfl) ?_
  intro tokens e rest
  constructor
  · rintro ⟨inner, _, hinner, rparen, _, ⟨rfl, hrparen⟩, rfl, rfl⟩
    exact .grouping hlparen hinner hrparen
  · intro h
    cases h with
    | grouping _ hinner hrparen => exact ⟨_, _, hinner, _, _, ⟨rfl, hrparen⟩, rfl, rfl⟩
    | yes ht | no ht | this ht | ident ht | literal ht | lambda ht | array ht =>
      simp [hlparen] at ht

theorem meets_array {bracket : Token} (hbracket : bracket.kind = .punctuation .lbracket) :
    Meets c n never (array fuel again bracket) (array fuel' again' bracket)
      (fun tokens e rest => ReadsExpr .primary (bracket :: tokens) e rest) := by
  refine Meets.congr ((meets_listUpTo hagain hfuel hfuel' .rbracket).bind_never fun elements =>
    (meets_expectMark _ .rbracket _).bind_always fun close => meets_pure _ _ rfl) ?_
  intro tokens e rest
  constructor
  · rintro ⟨elements, _, helements, close, _, ⟨rfl, hclose⟩, rfl, rfl⟩
    exact .array hbracket helements hclose
  · intro h
    cases h with
    | array _ helements hclose => exact ⟨_, _, helements, _, _, ⟨rfl, hclose⟩, rfl, rfl⟩
    | yes ht | no ht | this ht | ident ht | literal ht | lambda ht | grouping ht =>
      simp [hbracket] at ht

omit hagain hfuel hfuel' in
/-- Where a rule fails and nothing can be read. -/
theorem meetsAt_fail {s : ReaderState} {moves : Expr → Bool} {r r' : Reader Expr} {cause : Cause}
    {P : Expr → List Token → Prop} (hr : r s = fail cause s) (hr' : r' s = fail cause s)
    (hP : ∀ e rest, ¬ P e rest) : MeetsAt s moves r r' P := by
  refine ⟨by rw [hr, hr'], by rw [hr]; exact .refl s, ?_, ?_⟩
  · intro e t ht
    rw [hr] at ht
    cases ht
  · intro _ e rest
    rw [hr]
    constructor
    · rintro ⟨t, ht, -⟩
      cases ht
    · intro h
      exact absurd h (hP e rest)

omit hagain hfuel hfuel' in
/-- Where a token makes an expression by itself. -/
theorem meetsAt_take {s : ReaderState} {t : Token} {rest : List Token} {r r' : Reader Expr}
    {P : Expr → List Token → Prop} (hs : s.cursor.From c) (hahead : s.cursor.ahead = t :: rest)
    (e : Token → Expr) (hr : r s = (do return e (← advance) : Reader Expr) s)
    (hr' : r' s = (do return e (← advance) : Reader Expr) s)
    (hP : ∀ e' left, P e' left ↔ e' = e t ∧ left = rest) : MeetsAt s always r r' P := by
  have hdone : MeetsAt s always (do return e (← advance)) (do return e (← advance))
      (Reading.done (e t) rest) :=
    meetsAt_advance_bind hs (Nat.lt_succ_self _) hahead (meets_pure _ (e t) rfl)
  exact (hdone.congr fun e' left => (hP e' left).symm).of_eq hr hr'

omit hagain hfuel hfuel' in
/-- A literal before the cursor. -/
theorem meetsAt_literal {s : ReaderState} {t : Token} {rest : List Token} {kind : LiteralKind}
    {r r' : Reader Expr} (hs : s.cursor.From c) (hahead : s.cursor.ahead = t :: rest)
    (hkind : t.kind = .literal kind) (hne : kind ≠ .identifier)
    (hr : r s = (match t.literal with
      | some value => (do return .literal (.ofLiteral value) (← advance))
      | none => fail .expectedExpression : Reader Expr) s)
    (hr' : r' s = (match t.literal with
      | some value => (do return .literal (.ofLiteral value) (← advance))
      | none => fail .expectedExpression : Reader Expr) s) :
    MeetsAt s always r r' (ReadsExpr .primary (t :: rest)) := by
  rcases hvalue : t.literal with _ | value
  · rw [hvalue] at hr hr'
    refine meetsAt_fail hr hr' fun e left h => ?_
    cases h with
    | literal _ _ h => simp [hvalue] at h
    | ident ht => simp [hkind, hne] at ht
    | yes ht | no ht | this ht | lambda ht | grouping ht | array ht => simp [hkind] at ht
  · rw [hvalue] at hr hr'
    refine meetsAt_take hs hahead (.literal (.ofLiteral value)) hr hr' fun e left =>
      ⟨fun h => ?_, ?_⟩
    · cases h with
      | literal _ _ h =>
        rw [hvalue] at h
        cases h
        exact ⟨rfl, rfl⟩
      | ident ht => simp [hkind, hne] at ht
      | yes ht | no ht | this ht | lambda ht | grouping ht | array ht => simp [hkind] at ht
    · rintro ⟨rfl, rfl⟩
      exact .literal hkind hne hvalue

/-- The rule for expressions that are no operations, before a token. -/
theorem meetsAt_primary {s : ReaderState} {t : Token} {rest : List Token} (hs : s.cursor.From c)
    (hn : s.cursor.remaining < n + 1) (hahead : s.cursor.ahead = t :: rest) :
    MeetsAt s always (primary fuel again) (primary fuel' again')
      (ReadsExpr .primary (t :: rest)) := by
  have hhere := here_of_cons hahead
  have hrun : ∀ fuel again, primary fuel again s = _ := fun fuel again => bind_ok rfl
  rw [hhere] at hrun
  have hnone : startsExpression t = false ∨ (∃ op, t.kind = .operator op) →
      ∀ e left, ¬ ReadsExpr .primary (t :: rest) e left := by
    intro hno e left h
    obtain ⟨_, _, heq, hstarts, -⟩ := h.begins rfl
    cases heq
    rcases hno with hno | ⟨op, hno⟩
    · rw [hstarts] at hno
      cases hno
    · exact kind_ne_operator_of_primary h op hno
  rcases hkind : t.kind with op | word | kind | mark | _ | _
  all_goals simp only [hkind] at hrun
  case operator => exact meetsAt_fail (hrun _ _) (hrun _ _) (hnone (.inr ⟨op, hkind⟩))
  case keyword =>
    cases word
    case true =>
      refine meetsAt_take hs hahead (.literal (.bool true)) (hrun _ _) (hrun _ _)
        fun e left => ⟨fun h => ?_, ?_⟩
      · cases h with
        | yes => exact ⟨rfl, rfl⟩
        | no ht | this ht | ident ht | literal ht | lambda ht | grouping ht | array ht =>
          simp [hkind] at ht
      · rintro ⟨rfl, rfl⟩
        exact .yes hkind
    case false =>
      refine meetsAt_take hs hahead (.literal (.bool false)) (hrun _ _) (hrun _ _)
        fun e left => ⟨fun h => ?_, ?_⟩
      · cases h with
        | no => exact ⟨rfl, rfl⟩
        | yes ht | this ht | ident ht | literal ht | lambda ht | grouping ht | array ht =>
          simp [hkind] at ht
      · rintro ⟨rfl, rfl⟩
        exact .no hkind
    case this =>
      refine meetsAt_take hs hahead .this (hrun _ _) (hrun _ _) fun e left => ⟨fun h => ?_, ?_⟩
      · cases h with
        | this => exact ⟨rfl, rfl⟩
        | yes ht | no ht | ident ht | literal ht | lambda ht | grouping ht | array ht =>
          simp [hkind] at ht
      · rintro ⟨rfl, rfl⟩
        exact .this hkind
    case fn =>
      exact (meetsAt_advance_bind hs hn hahead (meets_lambda hagain hkind)).of_eq (hrun _ _)
        (hrun _ _)
    all_goals
      exact meetsAt_fail (hrun _ _) (hrun _ _) (hnone (.inl (by simp [startsExpression, hkind])))
  case literal =>
    cases kind
    case identifier =>
      refine meetsAt_take hs hahead .ident (hrun _ _) (hrun _ _) fun e left => ⟨fun h => ?_, ?_⟩
      · cases h with
        | ident => exact ⟨rfl, rfl⟩
        | literal ht hne => exact absurd (by simpa [hkind] using ht.symm) hne
        | yes ht | no ht | this ht | lambda ht | grouping ht | array ht => simp [hkind] at ht
      · rintro ⟨rfl, rfl⟩
        exact .ident hkind
    all_goals exact meetsAt_literal hs hahead hkind (by simp) (hrun _ _) (hrun _ _)
  case punctuation =>
    cases mark
    case lparen =>
      exact (meetsAt_advance_bind hs hn hahead (meets_grouping hagain hkind)).of_eq (hrun _ _)
        (hrun _ _)
    case lbracket =>
      exact (meetsAt_advance_bind hs hn hahead (meets_array hagain hfuel hfuel' hkind)).of_eq
        (hrun _ _) (hrun _ _)
    all_goals
      exact meetsAt_fail (hrun _ _) (hrun _ _) (hnone (.inl (by simp [startsExpression, hkind])))
  all_goals
    exact meetsAt_fail (hrun _ _) (hrun _ _) (hnone (.inl (by simp [startsExpression, hkind])))

theorem meets_primary :
    Meets c (n + 1) always (primary fuel again) (primary fuel' again') (ReadsExpr .primary) := by
  intro s hs hn
  rcases hahead : s.cursor.ahead with _ | ⟨t, rest⟩
  · have hkind := here_kind_of_nil hs hahead
    have hrun : ∀ fuel again, primary fuel again s = fail .expectedExpression s := by
      intro fuel again
      refine (bind_ok rfl).trans ?_
      rw [hkind]
    refine meetsAt_fail (hrun _ _) (hrun _ _) fun e left h => ?_
    cases h
  · exact meetsAt_primary hagain hfuel hfuel' hs hn hahead

/-! ### Suffixes -/

theorem meets_finishCall (callee : Expr) (generics : Option TypeList) :
    Meets c n never (finishCall fuel again callee generics)
      (finishCall fuel' again' callee generics)
      (fun tokens e rest => ∃ args paren, ReadsExpr (.list .rparen) tokens args (paren :: rest) ∧
        paren.kind = .punctuation .rparen ∧ e = .call callee generics args paren) := by
  refine Meets.congr ((meets_listUpTo hagain hfuel hfuel' .rparen).bind_never fun args =>
    (meets_expectMark _ .rparen _).bind_always fun paren => meets_pure _ _ rfl) ?_
  intro tokens e rest
  constructor
  · rintro ⟨args, _, hargs, paren, _, ⟨rfl, hparen⟩, rfl, rfl⟩
    exact ⟨args, paren, hargs, hparen, rfl⟩
  · rintro ⟨args, paren, hargs, hparen, rfl⟩
    exact ⟨args, _, hargs, paren, _, ⟨rfl, hparen⟩, rfl, rfl⟩

omit hagain hfuel hfuel' in
/-- Type arguments are only found before a parenthesis. -/
theorem head_of_callTypeArguments? {s t : ReaderState} {l : TypeList}
    (h : callTypeArguments? s = .ok (some l) t) :
    headKind? t.cursor.ahead = some (.punctuation .lparen) := by
  have hkept : keptTypeArguments? s.cursor.checkpoint
      (s.note (.tryingGenerics s.cursor.here.span)) = .ok (some l) t := h
  rcases keptTypeArguments?_cases (s.note (.tryingGenerics s.cursor.here.span)) with
    ⟨l', t', -, hhead, hrun⟩ | ⟨-, e, -, -, hrun⟩
  · cases hkept.symm.trans hrun
    exact hhead
  · cases hkept.symm.trans hrun

/-- What follows type arguments that have been found. -/
theorem meetsAt_genericCall {s t : ReaderState} {l : TypeList} (callee : Expr)
    (ht : callTypeArguments? s = .ok (some l) t) (htp : t.cursor.From c)
    (htn : t.cursor.remaining < n) :
    MeetsAt t never (do let _ ← advance; some <$> finishCall fuel again callee (some l))
      (do let _ ← advance; some <$> finishCall fuel' again' callee (some l))
      (fun o rest => ∃ lparen between args paren, t.cursor.ahead = lparen :: between ∧
        lparen.kind = .punctuation .lparen ∧
        ReadsExpr (.list .rparen) between args (paren :: rest) ∧
        paren.kind = .punctuation .rparen ∧ o = some (.call callee (some l) args paren)) := by
  obtain ⟨lparen, between, hahead, hlparen⟩ :=
    headKind?_eq_some_iff.mp (head_of_callTypeArguments? ht)
  refine MeetsAt.congr (meetsAt_advance_bind htp (by omega) hahead
    ((meets_finishCall hagain hfuel hfuel' callee (some l)).map some (by simp))) ?_
  intro o rest
  constructor
  · rintro ⟨e, ⟨args, paren, hargs, hparen, rfl⟩, rfl⟩
    exact ⟨lparen, between, args, paren, hahead, hlparen, hargs, hparen, rfl⟩
  · rintro ⟨lparen', between', args, paren, hahead', -, hargs, hparen, rfl⟩
    cases hahead.symm.trans hahead'
    exact ⟨_, ⟨args, paren, hargs, hparen, rfl⟩, rfl⟩

/-- One suffix of an expression, if one comes first. -/
inductive ReadsSuffix (e : Expr) : Reading (Option Expr)
  /-- None. -/
  | none {a : List Token} (ha : NoSuffix e a) : ReadsSuffix e a none a
  /-- A member. -/
  | get {dot member : Token} {a : List Token} (hdot : dot.kind = .punctuation .dot)
      (hmember : member.kind = .identifier) :
    ReadsSuffix e (dot :: member :: a) (some (.get e member)) a
  /-- A call. -/
  | call {lparen paren : Token} {args : List Expr} {a b : List Token}
      (hlparen : lparen.kind = .punctuation .lparen)
      (hargs : ReadsExpr (.list .rparen) a args (paren :: b))
      (hparen : paren.kind = .punctuation .rparen) :
    ReadsSuffix e (lparen :: a) (some (.call e .none args paren)) b
  /-- An element. -/
  | index {lbracket bracket : Token} {position : Expr} {a b : List Token}
      (hlbracket : lbracket.kind = .punctuation .lbracket)
      (hposition : ReadsExpr .expression a position (bracket :: b))
      (hbracket : bracket.kind = .punctuation .rbracket) :
    ReadsSuffix e (lbracket :: a) (some (.index e position bracket)) b
  /-- A call with type arguments. -/
  | genericCall {lparen paren : Token} {l : TypeList} {args : List Expr} {a b c : List Token}
      (he : e.isPlace = true) (hgenerics : ReadsType .list a l (lparen :: b))
      (hlparen : lparen.kind = .punctuation .lparen)
      (hargs : ReadsExpr (.list .rparen) b args (paren :: c))
      (hparen : paren.kind = .punctuation .rparen) :
    ReadsSuffix e a (some (.call e (some l) args paren)) c
  /-- An increment or decrement. -/
  | postUnary {op : Token} {o : Operator} {a : List Token} (he : e.isPlace = true)
      (hop : op.kind = .operator o) (ho : o ∈ suffixOperators) :
    ReadsSuffix e (op :: a) (some (.postUnary e op)) a

omit hagain hfuel hfuel' in
/-- The suffixes of an expression are one suffix and those of the longer expression. -/
theorem readsExpr_suffixes_iff {e e' : Expr} {tokens rest : List Token} :
    ReadsExpr (.suffixes e) tokens e' rest ↔
      (∃ longer between, ReadsSuffix e tokens (some longer) between ∧
        ReadsExpr (.suffixes longer) between e' rest) ∨
      (ReadsSuffix e tokens none rest ∧ e' = e) := by
  constructor
  · intro h
    cases h with
    | noSuffix ha => exact .inr ⟨.none ha, rfl⟩
    | get hdot hmember h => exact .inl ⟨_, _, .get hdot hmember, h⟩
    | call hlparen hargs hparen h => exact .inl ⟨_, _, .call hlparen hargs hparen, h⟩
    | index hlbracket hposition hbracket h =>
      exact .inl ⟨_, _, .index hlbracket hposition hbracket, h⟩
    | genericCall he hgenerics hlparen hargs hparen h =>
      exact .inl ⟨_, _, .genericCall he hgenerics hlparen hargs hparen, h⟩
    | postUnary he hop ho h => exact .inl ⟨_, _, .postUnary he hop ho, h⟩
  · rintro (⟨longer, between, hsuffix, h⟩ | ⟨hnone, rfl⟩)
    · cases hsuffix with
      | get hdot hmember => exact .get hdot hmember h
      | call hlparen hargs hparen => exact .call hlparen hargs hparen h
      | index hlbracket hposition hbracket => exact .index hlbracket hposition hbracket h
      | genericCall he hgenerics hlparen hargs hparen =>
        exact .genericCall he hgenerics hlparen hargs hparen h
      | postUnary he hop ho => exact .postUnary he hop ho h
    · cases hnone with
      | none ha => exact .noSuffix ha

/-- What is read after an attempt at type arguments: the arguments of the call, or nothing. -/
def ReadsArguments (callee : Expr) : Option TypeList → Reading (Option Expr)
  | some l, tokens, o, rest => ∃ lparen between args paren, tokens = lparen :: between ∧
      lparen.kind = .punctuation .lparen ∧
      ReadsExpr (.list .rparen) between args (paren :: rest) ∧
      paren.kind = .punctuation .rparen ∧ o = some (.call callee (some l) args paren)
  | none, tokens, o, rest => o = none ∧ rest = tokens

theorem meets_genericCall? (callee : Expr) :
    Meets c (n + 1) Option.isSome (genericCall? fuel again callee)
      (genericCall? fuel' again' callee)
      (fun tokens o rest =>
        (∃ l lparen between args paren, ReadsType .list tokens l (lparen :: between) ∧
          lparen.kind = .punctuation .lparen ∧
          ReadsExpr (.list .rparen) between args (paren :: rest) ∧
          paren.kind = .punctuation .rparen ∧ o = some (.call callee (some l) args paren)) ∨
        (¬ OpensTypeArguments tokens ∧ o = none ∧ rest = tokens)) := by
  intro s hs hn
  refine MeetsAt.congr (MeetsAt.bind (Q := ReadsArguments callee) hs
    (meets_callTypeArguments? (n + 1) s hs hn) ?_) ?_
  · intro found t ht htp hle
    rcases found with _ | l
    · exact meetsAt_of_stay rfl rfl rfl
    · exact (meetsAt_genericCall hagain hfuel hfuel' callee ht htp
        (by simp only [Option.isSome_some, Bool.toNat_true] at hle; omega)).weaken (by simp)
  · intro o rest
    constructor
    · rintro ⟨_ | l, between, ⟨hlist, hhead⟩, h⟩
      · obtain ⟨rfl, rfl⟩ := h
        exact .inr ⟨hlist, rfl, hhead⟩
      · obtain ⟨lparen, after, args, paren, rfl, hlparen, hargs, hparen, rfl⟩ := h
        exact .inl ⟨l, lparen, after, args, paren, hlist, hlparen, hargs, hparen, rfl⟩
    · rintro (⟨l, lparen, after, args, paren, hlist, hlparen, hargs, hparen, rfl⟩ |
        ⟨hno, rfl, rfl⟩)
      · exact ⟨some l, _, ⟨hlist, by simp [hlparen]⟩, lparen, after, args, paren, rfl, hlparen,
          hargs, hparen, rfl⟩
      · exact ⟨none, _, ⟨hno, rfl⟩, rfl, rfl⟩

/-- What follows a place: type arguments with a call, an increment or decrement, or nothing. -/
theorem meets_placeSuffix? (e : Expr) :
    Meets c (n + 1) Option.isSome (placeSuffix? fuel again e) (placeSuffix? fuel' again' e)
      (fun tokens o rest =>
        (∃ l lparen between args paren, ReadsType .list tokens l (lparen :: between) ∧
          lparen.kind = .punctuation .lparen ∧
          ReadsExpr (.list .rparen) between args (paren :: rest) ∧
          paren.kind = .punctuation .rparen ∧ o = some (.call e (some l) args paren)) ∨
        (∃ op k, tokens = op :: rest ∧ op.kind = .operator k ∧ k ∈ suffixOperators ∧
          o = some (.postUnary e op)) ∨
        (¬ OpensTypeArguments tokens ∧ NoOperator suffixOperators tokens ∧ o = none ∧
          rest = tokens)) := by
  refine Meets.congr (Meets.branch (meets_genericCall? hagain hfuel hfuel' e)
    ((meets_acceptOperator? (n + 1) suffixOperators).bind_option
      (fun op => meets_pure _ _ rfl) (meets_pure _ _ rfl))) ?_
  intro tokens o rest
  have hopens : ∀ {l : TypeList} {rest : List Token}, ReadsType .list tokens l rest →
      headKind? tokens = some (.operator .less) := by
    intro l rest h
    cases h with
    | list hangle => simp [hangle]
  constructor
  · rintro (⟨hless, h | ⟨hno, rfl, rfl⟩⟩ | ⟨hless, ⟨op, _, ⟨rfl, k, hk, hop⟩, rfl, rfl⟩ |
      ⟨_, ⟨hno, rfl⟩, rfl, rfl⟩⟩)
    · exact .inl h
    · refine .inr (.inr ⟨hno, ?_, rfl, rfl⟩)
      simp [NoOperator, hless, suffixOperators]
    · exact .inr (.inl ⟨op, k, rfl, hop, hk, rfl⟩)
    · refine .inr (.inr ⟨?_, hno, rfl, rfl⟩)
      rintro ⟨l, left, hlist, -⟩
      exact hless (hopens hlist)
  · rintro (⟨l, lparen, between, args, paren, hlist, h⟩ | ⟨op, k, rfl, hop, hk, rfl⟩ |
      ⟨hno, hnop, rfl, rfl⟩)
    · exact .inl ⟨hopens hlist, .inl ⟨l, lparen, between, args, paren, hlist, h⟩⟩
    · refine .inr ⟨?_, .inl ⟨op, _, ⟨rfl, k, hk, hop⟩, rfl, rfl⟩⟩
      simp only [headKind?_cons, hop, ne_eq, Option.some.injEq, Kind.operator.injEq]
      rintro rfl
      simp [suffixOperators] at hk
    · by_cases hless : headKind? rest = some (.operator .less)
      · exact .inl ⟨hless, .inr ⟨hno, rfl, rfl⟩⟩
      · exact .inr ⟨hless, .inr ⟨_, ⟨hnop, rfl⟩, rfl, rfl⟩⟩

/-- The last choice for a suffix. -/
theorem meets_lastSuffix? (e : Expr) :
    Meets c (n + 1) Option.isSome
      (if e.isPlace then placeSuffix? fuel again e else return none)
      (if e.isPlace then placeSuffix? fuel' again' e else return none)
      (fun tokens o rest =>
        (e.isPlace = true ∧
          ((∃ l lparen between args paren, ReadsType .list tokens l (lparen :: between) ∧
            lparen.kind = .punctuation .lparen ∧
            ReadsExpr (.list .rparen) between args (paren :: rest) ∧
            paren.kind = .punctuation .rparen ∧ o = some (.call e (some l) args paren)) ∨
          (∃ op k, tokens = op :: rest ∧ op.kind = .operator k ∧ k ∈ suffixOperators ∧
            o = some (.postUnary e op)))) ∨
        ((e.isPlace = true → ¬ OpensTypeArguments tokens) ∧
          (e.isPlace = true → NoOperator suffixOperators tokens) ∧ o = none ∧ rest = tokens)) := by
  by_cases he : e.isPlace = true
  · simp only [he, if_true, true_and, forall_const]
    exact (meets_placeSuffix? hagain hfuel hfuel' e).congr fun tokens o rest => or_assoc.symm
  · simp only [he, Bool.false_eq_true, if_false, false_and, false_or, false_implies, true_and]
    exact meets_pure _ none rfl

theorem meets_suffix? (e : Expr) :
    Meets c (n + 1) Option.isSome (suffix? fuel again e) (suffix? fuel' again' e)
      (ReadsSuffix e) := by
  have hget : Meets c n never (do return some (Expr.get e (← expectName .memberName)))
      (do return some (Expr.get e (← expectName .memberName))) _ :=
    (meets_expectName n .memberName).bind_always fun member => meets_pure _ _ rfl
  have hindex : Meets c n never
      (do
        let position ← again .expression
        return some (Expr.index e position (← expectMark .rbracket .indexEnd)))
      (do
        let position ← again' .expression
        return some (Expr.index e position (← expectMark .rbracket .indexEnd))) _ :=
    (meets_again_expression hagain).bind_always fun position =>
      (meets_expectMark _ .rbracket .indexEnd).bind_always fun bracket => meets_pure _ _ rfl
  refine Meets.congr ((meets_acceptMark? (n + 1) .dot).bind_option (fun _ => hget)
    ((meets_acceptMark? (n + 1) .lparen).bind_option
      (fun _ => (meets_finishCall hagain hfuel hfuel' e none).map some (by simp))
      ((meets_acceptMark? (n + 1) .lbracket).bind_option (fun _ => hindex)
        (meets_lastSuffix? hagain hfuel hfuel' e)))) ?_
  intro tokens o rest
  constructor
  · rintro (⟨dot, _, ⟨rfl, hdot⟩, member, _, ⟨rfl, hmember⟩, rfl, rfl⟩ | ⟨_, ⟨hdot, rfl⟩, h⟩)
    · exact .get hdot hmember
    rcases h with ⟨lparen, _, ⟨rfl, hlparen⟩, _, ⟨args, paren, hargs, hparen, rfl⟩, rfl⟩ |
      ⟨_, ⟨hlparen, rfl⟩, h⟩
    · exact .call hlparen hargs hparen
    rcases h with ⟨lbracket, _, ⟨rfl, hlbracket⟩, position, _, hposition, bracket, _,
      ⟨rfl, hbracket⟩, rfl, rfl⟩ | ⟨_, ⟨hlbracket, rfl⟩, h⟩
    · exact .index hlbracket hposition hbracket
    rcases h with ⟨he, ⟨l, lparen, between, args, paren, hlist, hparen, hargs, hclose, rfl⟩ |
      ⟨op, k, rfl, hop, hk, rfl⟩⟩ | ⟨hopens, hnop, rfl, rfl⟩
    · exact .genericCall he hlist hparen hargs hclose
    · exact .postUnary he hop hk
    · exact .none ⟨hdot, hlparen, hlbracket, hnop, hopens⟩
  · intro h
    cases h with
    | none ha =>
      exact .inr ⟨_, ⟨ha.dot, rfl⟩, .inr ⟨_, ⟨ha.lparen, rfl⟩, .inr ⟨_, ⟨ha.lbracket, rfl⟩,
        .inr ⟨ha.typeArguments, ha.postUnary, rfl, rfl⟩⟩⟩⟩
    | get hdot hmember => exact .inl ⟨_, _, ⟨rfl, hdot⟩, _, _, ⟨rfl, hmember⟩, rfl, rfl⟩
    | call hlparen hargs hparen =>
      refine .inr ⟨_, ⟨by simp [hlparen], rfl⟩, .inl ⟨_, _, ⟨rfl, hlparen⟩, _, ?_, rfl⟩⟩
      exact ⟨_, _, hargs, hparen, rfl⟩
    | index hlbracket hposition hbracket =>
      refine .inr ⟨_, ⟨by simp [hlbracket], rfl⟩, .inr ⟨_, ⟨by simp [hlbracket], rfl⟩, .inl ?_⟩⟩
      exact ⟨_, _, ⟨rfl, hlbracket⟩, _, _, hposition, _, _, ⟨rfl, hbracket⟩, rfl, rfl⟩
    | genericCall he hlist hlparen hargs hparen =>
      have hless : headKind? tokens = some (.operator .less) := by
        cases hlist with
        | list hangle => simp [hangle]
      refine .inr ⟨_, ⟨by simp [hless], rfl⟩, .inr ⟨_, ⟨by simp [hless], rfl⟩, .inr ⟨_,
        ⟨by simp [hless], rfl⟩, .inl ⟨he, .inl ?_⟩⟩⟩⟩
      exact ⟨_, _, _, _, _, hlist, hlparen, hargs, hparen, rfl⟩
    | postUnary he hop ho =>
      refine .inr ⟨_, ⟨by simp [hop], rfl⟩, .inr ⟨_, ⟨by simp [hop], rfl⟩, .inr ⟨_,
        ⟨by simp [hop], rfl⟩, .inl ⟨he, .inr ?_⟩⟩⟩⟩
      exact ⟨_, _, rfl, hop, ho, rfl⟩

omit hagain hfuel hfuel' in
/-- At the end there is no suffix. -/
theorem suffix?_at_end (fuel : Nat) (again : Rule → Reader Expr) (e : Expr) {s : ReaderState}
    (hs : s.cursor.From c) (hend : s.cursor.ahead = []) : suffix? fuel again e s = .ok none s := by
  have haccept : ∀ kind, accept? kind s = .ok none s := fun kind => by simp [accept?_eq, hend]
  have hplace : placeSuffix? fuel again e s = .ok none s := by
    have hoperator : acceptOperator? suffixOperators s = .ok none s := by
      rcases acceptOperator?_cases suffixOperators hs with ⟨t, rest, op, hahead, -⟩ | ⟨-, h⟩
      · rw [hend] at hahead
        cases hahead
      · exact h
    refine (bind_ok (check_eq _ s)).trans ?_
    rw [if_neg (by simp [hend])]
    exact bind_ok hoperator
  refine (bind_ok (haccept _)).trans ((bind_ok (haccept _)).trans ((bind_ok (haccept _)).trans ?_))
  by_cases he : e.isPlace = true
  · simpa [he] using hplace
  · simp only [he]
    rfl

omit hagain hfuel hfuel' in
/-- With a bound that is large enough, all suffixes are read. -/
theorem suffixes_eq (fuel : Nat) (again : Rule → Reader Expr) {count : Nat} (e : Expr)
    {s : ReaderState} (hs : s.cursor.From c) (hcount : s.cursor.remaining ≤ count) :
    suffixes fuel again count e s =
      (do
        match ← suffix? fuel again e with
        | some longer => suffixes fuel again (count - 1) longer
        | none => return e : Reader Expr) s := by
  cases count with
  | succ count => rfl
  | zero =>
    rw [bind_ok (suffix?_at_end fuel again e hs (ahead_eq_nil hcount))]
    rfl

/-- The suffixes of an expression, by induction on what is left to read. -/
theorem meets_suffixes {m : Nat} (hm : m ≤ n + 1) {count count' : Nat} (hcount : m ≤ count + 1)
    (hcount' : m ≤ count' + 1) (e : Expr) :
    Meets c m never (suffixes fuel again count e) (suffixes fuel' again' count' e)
      (ReadsExpr (.suffixes e)) := by
  induction m generalizing count count' e with
  | zero => exact fun s _ hn => absurd hn (Nat.not_lt_zero _)
  | succ m ih =>
    have hmore : ∀ longer, Meets c m never (suffixes fuel again (count - 1) longer)
        (suffixes fuel' again' (count' - 1) longer) (ReadsExpr (.suffixes longer)) :=
      fun longer => ih (by omega) (by omega) (by omega) longer
    have hstep : Meets c (m + 1) never
        (do
          match ← suffix? fuel again e with
          | some longer => suffixes fuel again (count - 1) longer
          | none => return e)
        (do
          match ← suffix? fuel' again' e with
          | some longer => suffixes fuel' again' (count' - 1) longer
          | none => return e) _ :=
      ((meets_suffix? hagain hfuel hfuel' e).mono hm).bind_option hmore (meets_pure _ e rfl)
    refine (hstep.congr fun tokens e' rest => ?_).of_eq
      (fun s hs hn => suffixes_eq fuel again e hs (by omega))
      (fun s hs hn => suffixes_eq fuel' again' e hs (by omega))
    rw [readsExpr_suffixes_iff]
    refine or_congr_right ⟨?_, ?_⟩
    · rintro ⟨_, h, rfl, rfl⟩
      exact ⟨h, rfl⟩
    · rintro ⟨h, rfl⟩
      exact ⟨_, h, rfl, rfl⟩

/-! ### Operators -/

theorem meets_unary :
    Meets c (n + 1) always (unary fuel again) (unary fuel' again') (ReadsExpr .unary) := by
  have hplain : Meets c (n + 1) always
      (do suffixes fuel again fuel (← primary fuel again))
      (do suffixes fuel' again' fuel' (← primary fuel' again')) _ :=
    (meets_primary hagain hfuel hfuel').bind_always fun e =>
      meets_suffixes hagain hfuel hfuel' (Nat.le_succ n) hfuel hfuel' e
  refine Meets.congr ((meets_acceptOperator? (n + 1) prefixOperators).bind_option
    (fun op => (hagain .unary).bind_always fun operand => meets_pure _ _ rfl) hplain) ?_
  intro tokens e rest
  constructor
  · rintro (⟨op, _, ⟨rfl, o, ho, hop⟩, operand, _, h, rfl, rfl⟩ |
      ⟨_, ⟨hno, rfl⟩, e', between, hprimary, hsuffixes⟩)
    · exact .prefixed hop ho h
    · exact .suffixed hno hprimary hsuffixes
  · intro h
    cases h with
    | prefixed hop ho h => exact .inl ⟨_, _, ⟨rfl, _, ho, hop⟩, _, _, h, rfl, rfl⟩
    | suffixed hno hprimary hsuffixes =>
      exact .inr ⟨_, ⟨hno, rfl⟩, _, _, hprimary, hsuffixes⟩

theorem meets_power :
    Meets c (n + 1) always (power fuel again) (power fuel' again') (ReadsExpr .power) := by
  refine Meets.congr ((meets_unary hagain hfuel hfuel').bind_always fun base =>
    (meets_acceptOperator? n [.power]).bind_option
      (fun op => ((hagain .power).mono (Nat.sub_le n 1)).bind_always fun exponent =>
        meets_pure _ _ rfl) (meets_pure n base rfl)) ?_
  intro tokens e rest
  constructor
  · rintro ⟨base, _, hbase, ⟨op, _, ⟨rfl, o, ho, hop⟩, exponent, _, hexponent, rfl, rfl⟩ |
      ⟨_, ⟨hno, rfl⟩, rfl, rfl⟩⟩
    · rw [List.mem_singleton] at ho
      subst ho
      exact .power hbase hop hexponent
    · exact .noPower hbase hno
  · intro h
    cases h with
    | noPower hbase hno => exact ⟨_, _, hbase, .inr ⟨_, ⟨hno, rfl⟩, rfl, rfl⟩⟩
    | power hbase hop hexponent =>
      exact ⟨_, _, hbase, .inl ⟨_, _, ⟨rfl, _, List.mem_singleton.mpr rfl, hop⟩, _, _, hexponent,
        rfl, rfl⟩⟩

omit hagain hfuel hfuel' in
/-- With a bound that is large enough, all operands of a level are read. -/
theorem chain_eq (ops : List Operator) (operand : Reader Expr) {count : Nat} (left : Expr)
    {s : ReaderState} (hs : s.cursor.From c) (hcount : s.cursor.remaining ≤ count) :
    chain ops operand count left s =
      (do
        match ← acceptOperator? ops with
        | some op => chain ops operand (count - 1) (.binary left op (← operand))
        | none => return left : Reader Expr) s := by
  cases count with
  | succ count => rfl
  | zero =>
    rcases acceptOperator?_cases ops hs with ⟨t, rest, op, hahead, -⟩ | ⟨-, hnone⟩
    · rw [ahead_eq_nil hcount] at hahead
      cases hahead
    · rw [bind_ok hnone]
      rfl

omit hagain hfuel hfuel' in
/-- The operands of a level, by induction on what is left to read. -/
theorem meets_chain {m : Nat} (ops : List Operator) {ls : List Level}
    {operand operand' : Reader Expr}
    (hoperand : Meets c m always operand operand' (ReadsExpr (.levels ls))) {count count' : Nat}
    (hcount : m ≤ count + 1) (hcount' : m ≤ count' + 1) (left : Expr) :
    Meets c m never (chain ops operand count left) (chain ops operand' count' left)
      (ReadsExpr (.chain ops ls left)) := by
  induction m generalizing count count' left with
  | zero => exact fun s _ hn => absurd hn (Nat.not_lt_zero _)
  | succ m ih =>
    have hmore : ∀ op, Meets c m never
        (do chain ops operand (count - 1) (.binary left op (← operand)))
        (do chain ops operand' (count' - 1) (.binary left op (← operand'))) _ :=
      fun op => (hoperand.mono (Nat.le_succ m)).bind_always fun right =>
        (ih (hoperand.mono (Nat.le_succ m)) (by omega) (by omega) _).mono (Nat.sub_le m 1)
    have hstep : Meets c (m + 1) never
        (do
          match ← acceptOperator? ops with
          | some op => chain ops operand (count - 1) (.binary left op (← operand))
          | none => return left)
        (do
          match ← acceptOperator? ops with
          | some op => chain ops operand' (count' - 1) (.binary left op (← operand'))
          | none => return left) _ :=
      (meets_acceptOperator? (m + 1) ops).bind_option hmore (meets_pure _ left rfl)
    refine (hstep.congr fun tokens e rest => ?_).of_eq
      (fun s hs hn => chain_eq ops operand left hs (by omega))
      (fun s hs hn => chain_eq ops operand' left hs (by omega))
    constructor
    · rintro (⟨op, _, ⟨rfl, o, ho, hop⟩, right, between, hright, hmore⟩ | ⟨_, ⟨hno, rfl⟩, rfl, rfl⟩)
      · exact .chainMore hop ho hright hmore
      · exact .chainEnd hno
    · intro h
      cases h with
      | chainEnd hno => exact .inr ⟨_, ⟨hno, rfl⟩, rfl, rfl⟩
      | chainMore hop ho hright hmore =>
        exact .inl ⟨_, _, ⟨rfl, _, ho, hop⟩, _, _, hright, hmore⟩

omit hagain hfuel hfuel' in
/-- A result that stands only if none of some operators follows. -/
theorem meets_unlessOperator (m : Nat) (ops : List Operator) (cause : Cause) (e : Expr) :
    Meets c m never
      (do
        match (← here).kind with
        | .operator another => if ops.contains another then fail cause else return e
        | _ => return e)
      (do
        match (← here).kind with
        | .operator another => if ops.contains another then fail cause else return e
        | _ => return e)
      (fun tokens e' rest => NoOperator ops tokens ∧ e' = e ∧ rest = tokens) := by
  intro s hs hm
  have hkind := kind_here hs
  by_cases hop : ∃ op ∈ ops, headKind? s.cursor.ahead = some (.operator op)
  · obtain ⟨op, hmem, hhead⟩ := hop
    rw [hhead, Option.getD_some] at hkind
    have hrun : (do
        match (← here).kind with
        | .operator another => if ops.contains another then fail cause else return e
        | _ => return e : Reader Expr) s = fail cause s := by
      refine (bind_ok rfl).trans ?_
      simp [hkind, hmem]
    exact meetsAt_fail hrun hrun fun e' rest h => h.1 op hmem hhead
  · have hno : NoOperator ops s.cursor.ahead := fun op hmem hhead => hop ⟨op, hmem, hhead⟩
    have hrun : (do
        match (← here).kind with
        | .operator another => if ops.contains another then fail cause else return e
        | _ => return e : Reader Expr) s = .ok e s := by
      refine (bind_ok rfl).trans ?_
      rcases hhere : s.cursor.here.kind with op | _ | _ | _ | _ | _
      case operator =>
        have hmem : op ∉ ops := by
          intro hmem
          refine hno op hmem ?_
          rw [hhere] at hkind
          rcases hhead : headKind? s.cursor.ahead with _ | k
          · simp [hhead] at hkind
          · simpa [hhead] using hkind.symm
        simp [hmem]
        rfl
      all_goals rfl
    refine (meetsAt_of_stay hrun hrun rfl).congr fun e' rest => ?_
    simp [hno]

omit hagain hfuel hfuel' in
theorem meets_comparison {m : Nat} (l : Level) {ls : List Level}
    {operand operand' : Reader Expr}
    (hoperand : Meets c m always operand operand' (ReadsExpr (.levels ls))) (left : Expr) :
    Meets c m never (comparison l.operators operand left) (comparison l.operators operand' left)
      (fun tokens e rest => (NoOperator l.operators tokens ∧ e = left ∧ rest = tokens) ∨
        ∃ op o between right, tokens = op :: between ∧ op.kind = .operator o ∧ o ∈ l.operators ∧
          ReadsExpr (.levels ls) between right rest ∧ NoOperator l.operators rest ∧
          e = .binary left op right) := by
  refine Meets.congr ((meets_acceptOperator? m l.operators).bind_option
    (fun op => (hoperand.mono (Nat.sub_le m 1)).bind_always fun right =>
      meets_unlessOperator _ l.operators .chainedComparison (.binary left op right))
    (meets_pure m left rfl)) ?_
  intro tokens e rest
  constructor
  · rintro (⟨op, _, ⟨rfl, o, ho, hop⟩, right, _, hright, hno, rfl, rfl⟩ | ⟨_, ⟨hno, rfl⟩, rfl, rfl⟩)
    · exact .inr ⟨op, o, _, right, rfl, hop, ho, hright, hno, rfl⟩
    · exact .inl ⟨hno, rfl, rfl⟩
  · rintro (⟨hno, rfl, rfl⟩ | ⟨op, o, between, right, rfl, hop, ho, hright, hno, rfl⟩)
    · exact .inr ⟨_, ⟨hno, rfl⟩, rfl, rfl⟩
    · exact .inl ⟨op, _, ⟨rfl, o, ho, hop⟩, right, _, hright, hno, rfl, rfl⟩

/-- The operations of some levels, by induction on the levels. -/
theorem meets_binary (ls : List Level) :
    Meets c (n + 1) always (binary fuel again ls) (binary fuel' again' ls)
      (ReadsExpr (.levels ls)) := by
  induction ls with
  | nil =>
    refine (meets_power hagain hfuel hfuel').congr fun tokens e rest => ⟨.noLevel, ?_⟩
    rintro (⟨h⟩)
    assumption
  | cons l ls ih =>
    by_cases hl : l.chains = true
    · have hrun : ∀ fuel again, binary fuel again (l :: ls) = (do
          let left ← binary fuel again ls
          chain l.operators (binary fuel again ls) fuel left) := by
        intro fuel again
        simp only [binary, hl, if_true]
      rw [hrun, hrun]
      refine Meets.congr (ih.bind_always fun left =>
        meets_chain l.operators (ih.mono (Nat.le_succ n)) hfuel hfuel' left) ?_
      intro tokens e rest
      constructor
      · rintro ⟨left, _, hleft, hchain⟩
        exact .level hl hleft hchain
      · intro h
        cases h with
        | level _ hleft hchain => exact ⟨_, _, hleft, hchain⟩
        | noComparison hl' => simp [hl] at hl'
        | comparison hl' => simp [hl] at hl'
    · rw [Bool.not_eq_true] at hl
      have hrun : ∀ fuel again, binary fuel again (l :: ls) = (do
          let left ← binary fuel again ls
          comparison l.operators (binary fuel again ls) left) := by
        intro fuel again
        simp only [binary, hl, Bool.false_eq_true, if_false]
      rw [hrun, hrun]
      refine Meets.congr (ih.bind_always fun left =>
        meets_comparison l (ih.mono (Nat.le_succ n)) left) ?_
      intro tokens e rest
      constructor
      · rintro ⟨left, _, hleft, ⟨hno, rfl, rfl⟩ | ⟨op, o, between, right, rfl, hop, ho, hright, hno,
          rfl⟩⟩
        · exact .noComparison hl hleft hno
        · exact .comparison hl hleft hop ho hright hno
      · intro h
        cases h with
        | level hl' => simp [hl] at hl'
        | noComparison _ hleft hno => exact ⟨_, _, hleft, .inl ⟨hno, rfl, rfl⟩⟩
        | comparison _ hleft hop ho hright hno =>
          exact ⟨_, _, hleft, .inr ⟨_, _, _, _, rfl, hop, ho, hright, hno, rfl⟩⟩

theorem meets_ternary :
    Meets c (n + 1) always (ternary fuel again) (ternary fuel' again') (ReadsExpr .ternary) := by
  refine Meets.congr ((meets_binary hagain hfuel hfuel' binaryLevels).bind_always fun condition =>
    (meets_acceptMark? n .questionMark).bind_option
      (fun _ => ((hagain .expression).mono (Nat.sub_le n 1)).bind_always fun yes =>
        (meets_expectMark _ .colon .ternaryColon).bind_always fun colon =>
          ((hagain .ternary).mono (by omega)).bind_always fun no => meets_pure _ _ rfl)
      (meets_pure n condition rfl)) ?_
  intro tokens e rest
  constructor
  · rintro ⟨condition, _, hcondition, ⟨mark, _, ⟨rfl, hmark⟩, yes, _, hyes, colon, _, ⟨rfl, hcolon⟩,
      no, _, hno, rfl, rfl⟩ | ⟨_, ⟨hno, rfl⟩, rfl, rfl⟩⟩
    · exact .choice hcondition hmark hyes hcolon hno
    · exact .noChoice hcondition hno
  · intro h
    cases h with
    | noChoice hcondition hno => exact ⟨_, _, hcondition, .inr ⟨_, ⟨hno, rfl⟩, rfl, rfl⟩⟩
    | choice hcondition hmark hyes hcolon hno =>
      exact ⟨_, _, hcondition, .inl ⟨_, _, ⟨rfl, hmark⟩, _, _, hyes, _, _, ⟨rfl, hcolon⟩, _, _, hno,
        rfl, rfl⟩⟩

/-! ### Assignments -/

omit hagain hfuel hfuel' in
/-- Only a variable or a member is assigned to without complaint. -/
theorem meets_assignTo (m : Nat) (target : Expr) (op : Token) (compound : Option Operator)
    (value : Expr) :
    Meets c m never (assignTo target op compound value) (assignTo target op compound value)
      (fun tokens e rest => rest = tokens ∧
        ((∃ name, target = .ident name ∧
          e = .assign name compound (assignedValue target op compound value)) ∨
        ∃ object member, target = .get object member ∧
          e = .set object member compound (assignedValue target op compound value))) := by
  cases target
  case ident name =>
    refine (meets_pure m _ rfl).congr fun tokens e rest => ?_
    simp [Reading.done, and_comm]
  case get object member =>
    refine (meets_pure m _ rfl).congr fun tokens e rest => ?_
    simp [Reading.done, and_comm]
  all_goals
    refine ((meets_report m _).bind_never fun _ => meets_pure m _ rfl).congr fun tokens e rest => ?_
    simp [Reading.andThen]

omit hfuel hfuel' in
theorem meets_assigned (target : Expr) :
    Meets c n never (assigned again target) (assigned again' target)
      (fun tokens e rest => (NoAssignment tokens ∧ e = target ∧ rest = tokens) ∨
        ∃ op o between value, tokens = op :: between ∧ op.kind = .operator o ∧
          o.isAssignment = true ∧ ReadsExpr .expression between value rest ∧
          ((∃ name, target = .ident name ∧
            e = .assign name o.compoundBase? (assignedValue target op o.compoundBase? value)) ∨
          ∃ object member, target = .get object member ∧
            e = .set object member o.compoundBase?
              (assignedValue target op o.compoundBase? value))) := by
  intro s hs hn
  have hkind := kind_here hs
  by_cases hop : ∃ o, headKind? s.cursor.ahead = some (.operator o) ∧ o.isAssignment = true
  · obtain ⟨o, hhead, ho⟩ := hop
    obtain ⟨op, between, hahead, hopkind⟩ := headKind?_eq_some_iff.mp hhead
    rw [hhead, Option.getD_some] at hkind
    have hrun : ∀ again, assigned again target s = (do
        let token ← advance
        let value ← again .expression
        assignTo target token o.compoundBase? value : Reader Expr) s := by
      intro again
      refine (bind_ok rfl).trans ?_
      simp [hkind, ho]
    have hvalue : Meets c n never
        (do assignTo target op o.compoundBase? (← again .expression))
        (do assignTo target op o.compoundBase? (← again' .expression)) _ :=
      (hagain .expression).bind_always fun value => meets_assignTo _ target op _ value
    refine ((meetsAt_advance_bind hs (Nat.lt_succ_of_lt hn) hahead hvalue).congr
      fun e rest => ?_).of_eq (hrun again) (hrun again')
    rw [hahead]
    constructor
    · rintro ⟨value, _, hvalue, rfl, h⟩
      exact .inr ⟨op, o, between, value, rfl, hopkind, ho, hvalue, h⟩
    · rintro (⟨hno, -⟩ | ⟨op', o', between', value, heq, hop', -, hvalue, h⟩)
      · have := hno o (by simp [hopkind])
        rw [ho] at this
        cases this
      · cases heq
        cases hopkind.symm.trans hop'
        exact ⟨value, _, hvalue, rfl, h⟩
  · have hno : NoAssignment s.cursor.ahead := by
      intro o hhead
      by_contra ho
      exact hop ⟨o, hhead, by simpa using ho⟩
    have hrun : ∀ again, assigned again target s = .ok target s := by
      intro again
      refine (bind_ok rfl).trans ?_
      rcases hhead : headKind? s.cursor.ahead with _ | k
      · rw [hhead] at hkind
        rw [hkind]
        rfl
      · rw [hhead, Option.getD_some] at hkind
        rw [hkind]
        cases k
        case operator o =>
          simp only [hno o hhead, Bool.false_eq_true, if_false]
          rfl
        all_goals rfl
    refine (meetsAt_of_stay (hrun again) (hrun again') rfl).congr fun e rest => ?_
    constructor
    · rintro ⟨rfl, rfl⟩
      exact .inl ⟨hno, rfl, rfl⟩
    · rintro (⟨-, h⟩ | ⟨op, o, between, value, hahead, hop', ho, -⟩)
      · exact h
      · exact absurd ⟨o, by rw [hahead, headKind?_cons, hop'], ho⟩ hop

theorem meets_assignment :
    Meets c (n + 1) always (assignment fuel again) (assignment fuel' again')
      (ReadsExpr .expression) := by
  refine Meets.congr ((meets_ternary hagain hfuel hfuel').bind_always fun target =>
    meets_assigned hagain target) ?_
  intro tokens e rest
  constructor
  · rintro ⟨target, _, htarget, ⟨hno, rfl, rfl⟩ | ⟨op, o, between, value, rfl, hop, ho, hvalue, h⟩⟩
    · exact .plain htarget hno
    · rcases h with ⟨name, rfl, rfl⟩ | ⟨object, member, rfl, rfl⟩
      · exact .assign htarget hop ho hvalue
      · exact .set htarget hop ho hvalue
  · intro h
    cases h with
    | plain htarget hno => exact ⟨_, _, htarget, .inl ⟨hno, rfl, rfl⟩⟩
    | assign htarget hop ho hvalue =>
      exact ⟨_, _, htarget, .inr ⟨_, _, _, _, rfl, hop, ho, hvalue, .inl ⟨_, rfl, rfl⟩⟩⟩
    | set htarget hop ho hvalue =>
      exact ⟨_, _, htarget, .inr ⟨_, _, _, _, rfl, hop, ho, hvalue, .inr ⟨_, _, rfl, rfl⟩⟩⟩

/-- A rule keeps its contract if those that it calls again keep theirs where less is left. -/
theorem meets_ruleBody (rule : Rule) :
    Meets c (n + 1) always (rule.body fuel again) (rule.body fuel' again') rule.reads := by
  cases rule with
  | expression => exact meets_assignment hagain hfuel hfuel'
  | ternary => exact meets_ternary hagain hfuel hfuel'
  | power => exact meets_power hagain hfuel hfuel'
  | unary => exact meets_unary hagain hfuel hfuel'

end Rules

/-! ### Without a bound -/

/-- Where the first operand fails, so does every rule. -/
theorem ruleBody_of_error {fuel : Nat} {again : Rule → Reader Expr} {s s' : ReaderState}
    {e : SyntaxError} (h : unary fuel again s = .error e s') (rule : Rule) :
    rule.body fuel again s = .error e s' := by
  have hpower : power fuel again s = .error e s' := bind_error h
  have hbinary : ∀ ls, binary fuel again ls s = .error e s' := by
    intro ls
    induction ls with
    | nil => exact hpower
    | cons l ls ih => exact bind_error ih
  have hternary : ternary fuel again s = .error e s' := bind_error (hbinary _)
  cases rule with
  | expression => exact bind_error hternary
  | ternary => exact hternary
  | power => exact hpower
  | unary => exact h

/-- At the end no expression begins. -/
theorem ruleBody_at_end (fuel : Nat) (again : Rule → Reader Expr) (rule : Rule) {s : ReaderState}
    (hs : s.cursor.From c) (hend : s.cursor.ahead = []) :
    rule.body fuel again s = fail .expectedExpression s := by
  have hprimary : primary fuel again s = fail .expectedExpression s := by
    refine (bind_ok rfl).trans ?_
    rw [here_kind_of_nil hs hend]
  refine ruleBody_of_error ?_ rule
  rcases acceptOperator?_cases prefixOperators hs with ⟨t, rest, op, hahead, -⟩ | ⟨-, hnone⟩
  · rw [hend] at hahead
    cases hahead
  · exact (bind_ok hnone).trans (bind_error hprimary)

/-- With a bound that is large enough, a rule is read as if there were none. -/
theorem ruleAt_eq {fuel : Nat} {s : ReaderState} (hs : s.cursor.From c)
    (hfuel : s.cursor.remaining ≤ fuel) (rule : Rule) :
    ruleAt fuel rule s = rule.body (fuel - 1) (ruleAt (fuel - 1)) s := by
  cases fuel with
  | succ fuel => rfl
  | zero =>
    rw [ruleBody_at_end _ _ rule hs (ahead_eq_nil hfuel)]
    rfl

/-- The rules for expressions, by induction on what is left to read. -/
theorem meets_ruleAt (n : Nat) {fuel fuel' : Nat} (hfuel : n ≤ fuel + 1) (hfuel' : n ≤ fuel' + 1)
    (rule : Rule) : Meets c n always (ruleAt fuel rule) (ruleAt fuel' rule) rule.reads := by
  induction n generalizing fuel fuel' rule with
  | zero => exact fun s _ hn => absurd hn (Nat.not_lt_zero _)
  | succ n ih =>
    have hagain : ∀ rule, Meets c n always (ruleAt (fuel - 1) rule) (ruleAt (fuel' - 1) rule)
        rule.reads := fun rule => ih (by omega) (by omega) rule
    exact (meets_ruleBody hagain (by omega) (by omega) rule).of_eq
      (fun s hs hn => ruleAt_eq hs (by omega) rule) (fun s hs hn => ruleAt_eq hs (by omega) rule)

theorem meets_expression (n : Nat) :
    Meets c n always expression expression (ReadsExpr .expression) :=
  meets_remaining fun fuel => meets_ruleAt (fuel + 1) (Nat.le_refl _) (Nat.le_refl _) .expression

/-- An expression, if one begins here. -/
theorem meets_expression? (n : Nat) :
    Meets c n Option.isSome expression? expression? (fun tokens o rest =>
      (∃ e, ReadsExpr .expression tokens e rest ∧ o = some e) ∨
        ((∀ t more, tokens = t :: more → startsExpression t = false) ∧ o = none ∧
          rest = tokens)) := by
  intro s hs hn
  by_cases hstarts : startsExpression s.cursor.here = true
  · have hrun : expression? s = (some <$> expression) s := by
      refine (bind_ok rfl).trans ?_
      rw [if_pos hstarts]
    refine (((meets_expression n).map some (by simp) s hs hn).congr
      fun o rest => ?_).of_eq hrun hrun
    constructor
    · exact .inl
    · rintro (h | ⟨hno, rfl, rfl⟩)
      · exact h
      · rcases hahead : s.cursor.ahead with _ | ⟨t, more⟩
        · simp [startsExpression, here_kind_of_nil hs hahead] at hstarts
        · rw [here_of_cons hahead, hno t more hahead] at hstarts
          cases hstarts
  · have hrun : expression? s = .ok none s := by
      refine (bind_ok rfl).trans ?_
      rw [if_neg hstarts]
      rfl
    refine (meetsAt_of_stay hrun hrun rfl).congr fun o rest => ?_
    constructor
    · rintro ⟨rfl, rfl⟩
      refine .inr ⟨fun t more hahead => ?_, rfl, rfl⟩
      rw [here_of_cons hahead] at hstarts
      simpa using hstarts
    · rintro (⟨e, h, rfl⟩ | ⟨-, h⟩)
      · obtain ⟨t, more, hahead, ht, -⟩ := h.begins rfl
        rw [here_of_cons hahead] at hstarts
        exact absurd ht hstarts
      · exact h

end Reader
end CurlyScript
