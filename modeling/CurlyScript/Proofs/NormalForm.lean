import CurlyScript.Proofs.Precedence
import CurlyScript.Proofs.Steady

/-!
# Precedence normal form

Parentheses are kept in the tree, as groupings.  So a tree that comes from a text has its operands
where the table of levels allows them without parentheses, and nowhere else.  This holds of every
expression that the rules return, also after errors that are reported while reading goes on: a
target that cannot be assigned to stands for the whole assignment.

The operation that is written out for a compound assignment is the one exception.  Its left operand
is what the target reads, and its right operand is the whole value that is assigned.

## Main definitions

* `Expr.BindsAt` — an expression that may stand where a level is asked for.
* `Expr.Normal` — all operands of an expression bind at the levels of their places.
* `Stmt.Normal` — all expressions in a statement are normal forms.
* `Reader.Rule.Returns` — what is said of the results of a rule.

## Main results

* `Reader.steady_ruleAt`, `Reader.steady_stmtAt` — the rules for expressions and statements are
  steady, and return normal forms.
* `Reader.steady_parse` — a whole file is read alike in two runs that agree on the tokens.
* `Reader.normal_of_read` — every expression that is read is in precedence normal form.
-/

namespace CurlyScript

/-! ### Normal forms -/

namespace Expr

/-- Whether an expression is an assignment. -/
def isAssignment : Expr → Bool
  | .assign .. => true
  | .set .. => true
  | _ => false

/-- An expression that may stand where a level is asked for. -/
structure BindsAt (least : Nat) (e : Expr) : Prop where
  /-- An assignment stands nowhere. -/
  not_assignment : e.isAssignment = false
  /-- The expression binds as tightly as the level, or more tightly. -/
  le_level : least ≤ e.level

/-- The operands of all operations bind at the levels of their places. -/
inductive Normal : Expr → Prop
  /-- A constant has no operands. -/
  | literal {value : Constant} {token : Token} : Normal (.literal value token)
  /-- A variable has no operands. -/
  | ident {name : Token} : Normal (.ident name)
  /-- The object whose method is running has no operands. -/
  | this {keyword : Token} : Normal (.this keyword)
  /-- Anything may stand in parentheses. -/
  | grouping {lparen rparen : Token} {inner : Expr} (h : Normal inner) :
    Normal (.grouping lparen inner rparen)
  /-- Anything may stand in an array. -/
  | array {bracket close : Token} {elements : List Expr} (h : ∀ e ∈ elements, Normal e) :
    Normal (.array bracket elements close)
  /-- Anything may be the body of a function. -/
  | lambda {keyword : Token} {generics : Option TypeList} {params : List Param}
      {returnType : Option TypeRef} {body : Expr} (h : Normal body) :
    Normal (.lambda keyword generics params returnType body)
  /-- The operand of a prefix operator is at the prefix level or higher. -/
  | unary {op : Token} {operand : Expr} (h : Normal operand)
      (hbinds : operand.BindsAt prefixLevel) : Normal (.unary op operand)
  /-- The operands of a binary operator are at the levels that its own level asks for. -/
  | binary {left right : Expr} {op : Token} {o : Operator} {n : Nat} (hop : op.kind = .operator o)
      (ho : o.level? = some n) (hleft : Normal left) (hleftBinds : left.BindsAt (leftLeast n))
      (hright : Normal right) (hrightBinds : right.BindsAt (rightLeast n)) :
    Normal (.binary left op right)
  /-- The condition of a choice is at the level of `||` or higher, and its last part is a choice
  or higher. -/
  | ternary {condition yes no : Expr} {colon : Token} (hcondition : Normal condition)
      (hconditionBinds : condition.BindsAt 1) (hyes : Normal yes) (hno : Normal no)
      (hnoBinds : no.BindsAt 0) : Normal (.ternary condition yes colon no)
  /-- An object is no operation. -/
  | get {object : Expr} {member : Token} (h : Normal object)
      (hbinds : object.BindsAt primaryLevel) : Normal (.get object member)
  /-- What is indexed is no operation. -/
  | index {base position : Expr} {bracket : Token} (hbase : Normal base)
      (hbinds : base.BindsAt primaryLevel) (hposition : Normal position) :
    Normal (.index base position bracket)
  /-- What is called is no operation, and with type arguments it is a variable or a member. -/
  | call {callee : Expr} {generics : Option TypeList} {args : List Expr} {paren : Token}
      (h : Normal callee) (hbinds : callee.BindsAt primaryLevel)
      (hplace : generics.isSome = true → callee.isPlace = true) (hargs : ∀ e ∈ args, Normal e) :
    Normal (.call callee generics args paren)
  /-- What is incremented or decremented in place is a variable or a member. -/
  | postUnary {operand : Expr} {op : Token} (h : Normal operand)
      (hplace : operand.isPlace = true) : Normal (.postUnary operand op)
  /-- Anything may be assigned to a variable. -/
  | assign {target : Token} {value : Expr} (h : Normal value) : Normal (.assign target none value)
  /-- Anything may be assigned to a member of an object that is no operation. -/
  | set {object value : Expr} {member : Token} (hobject : Normal object)
      (hbinds : object.BindsAt primaryLevel) (h : Normal value) :
    Normal (.set object member none value)
  /-- The value of a compound assignment to a variable is the operation on what the variable
  reads, written out with a token of its own. -/
  | assignCompound {target op : Token} {base : Operator} {right : Expr}
      (hop : op.kind = .operator base) (hlexeme : op.lexeme = base.lexeme)
      (hliteral : op.literal = none) (h : Normal right) :
    Normal (.assign target (some base) (.binary (.ident target) op right))
  /-- The value of a compound assignment to a member is the operation on what the member reads. -/
  | setCompound {object right : Expr} {member op : Token} {base : Operator}
      (hobject : Normal object) (hbinds : object.BindsAt primaryLevel)
      (hop : op.kind = .operator base) (hlexeme : op.lexeme = base.lexeme)
      (hliteral : op.literal = none) (h : Normal right) :
    Normal (.set object member (some base) (.binary (.get object member) op right))

/-- A normal form that may stand where a level is asked for. -/
structure NormalAt (least : Nat) (e : Expr) : Prop where
  /-- All operands bind at the levels of their places. -/
  normal : e.Normal
  /-- So does the expression itself. -/
  binds : e.BindsAt least

theorem BindsAt.mono {n m : Nat} {e : Expr} (h : e.BindsAt m) (hle : n ≤ m) : e.BindsAt n :=
  ⟨h.not_assignment, Nat.le_trans hle h.le_level⟩

theorem NormalAt.mono {n m : Nat} {e : Expr} (h : e.NormalAt m) (hle : n ≤ m) : e.NormalAt n :=
  ⟨h.normal, h.binds.mono hle⟩

/-- An operation stands where its own level is asked for. -/
theorem normalAt_binary {left right : Expr} {op : Token} {o : Operator} {n : Nat}
    (hop : op.kind = .operator o) (ho : o.level? = some n) (hleft : left.NormalAt (leftLeast n))
    (hright : right.NormalAt (rightLeast n)) : (Expr.binary left op right).NormalAt n := by
  have hlevel : (Expr.binary left op right).level = n := level_of_kind hop ho
  exact ⟨.binary hop ho hleft.normal hleft.binds hright.normal hright.binds, rfl,
    Nat.le_of_eq hlevel.symm⟩

end Expr

namespace Reader

open CurlyScript.Expr

/-! ### What the rules return -/

/-- What is said of the results of a rule. -/
def Rule.Returns : Rule → Expr → Prop
  | .expression => Normal
  | .ternary => NormalAt 0
  | .power => NormalAt 11
  | .unary => NormalAt prefixLevel

section ExprRules

variable {fuel : Nat} {again : Rule → Reader Expr}
  (hagain : ∀ rule, Steady rule.Returns (again rule))

include hagain

theorem steady_lambda (keyword : Token) :
    Steady (NormalAt primaryLevel) (lambda again keyword) :=
  steady_typeParameters?.bind fun _ _ => (steady_expectMark _ _).bind fun _ _ =>
    steady_parameters.bind fun _ _ => steady_returnType?.bind fun _ _ =>
      (hagain .expression).bind fun _ hbody => steady_pure ⟨.lambda hbody, rfl, Nat.le_refl _⟩

theorem steady_grouping (lparen : Token) :
    Steady (NormalAt primaryLevel) (grouping again lparen) :=
  (hagain .expression).bind fun _ hinner => (steady_expectMark _ _).bind fun _ _ =>
    steady_pure ⟨.grouping hinner, rfl, Nat.le_refl _⟩

theorem steady_array (bracket : Token) :
    Steady (NormalAt primaryLevel) (array fuel again bracket) :=
  (steady_listUpTo _ (hagain .expression) fuel).bind fun _ helements =>
    (steady_expectMark _ _).bind fun _ _ => steady_pure ⟨.array helements, rfl, Nat.le_refl _⟩

theorem steady_primary : Steady (NormalAt primaryLevel) (primary fuel again) := by
  have hconstant : ∀ {value : Constant} {t : Token}, (Expr.literal value t).NormalAt primaryLevel :=
    ⟨.literal, rfl, Nat.le_refl _⟩
  refine steady_here (fun t => ?_) (steady_fail .expectedExpression) fun t ht => by rw [ht]
  cases hkind : t.kind with
  | keyword word =>
    cases word with
    | true => exact steadyBefore_advance (steady_pure hconstant)
    | false => exact steadyBefore_advance (steady_pure hconstant)
    | this => exact steadyBefore_advance (steady_pure ⟨.this, rfl, Nat.le_refl _⟩)
    | fn => exact steadyBefore_advance (steady_lambda hagain t)
    | _ => exact (steady_fail _).before t
  | literal kind =>
    cases kind with
    | identifier => exact steadyBefore_advance (steady_pure ⟨.ident, rfl, Nat.le_refl _⟩)
    | _ =>
      dsimp only
      cases t.literal with
      | none => exact (steady_fail _).before t
      | some value => exact steadyBefore_advance (steady_pure hconstant)
  | punctuation mark =>
    cases mark with
    | lparen => exact steadyBefore_advance (steady_grouping hagain t)
    | lbracket => exact steadyBefore_advance (steady_array hagain t)
    | _ => exact (steady_fail _).before t
  | _ => exact (steady_fail _).before t

section Suffixes

variable {e : Expr} (he : e.NormalAt primaryLevel)

include he

theorem steady_finishCall {generics : Option TypeList}
    (hplace : generics.isSome = true → e.isPlace = true) :
    Steady (NormalAt primaryLevel) (finishCall fuel again e generics) :=
  (steady_listUpTo _ (hagain .expression) fuel).bind fun _ hargs =>
    (steady_expectMark _ _).bind fun _ _ =>
      steady_pure ⟨.call he.normal he.binds hplace hargs, rfl, Nat.le_refl _⟩

theorem steady_placeSuffix? (hplace : e.isPlace = true) :
    Steady (optional (NormalAt primaryLevel)) (placeSuffix? fuel again e) := by
  refine (steady_check _).ite ?_ ?_
  · refine steady_callTypeArguments?.bind_option (fun generics _ => ?_) (steady_pure optional_none)
    exact steady_skip ((steady_finishCall hagain he fun _ => hplace).map fun _ => optional_some)
  · refine (steady_acceptOperator? _).bind_option (fun op _ => ?_) (steady_pure optional_none)
    exact steady_pure (optional_some ⟨.postUnary he.normal hplace, rfl, Nat.le_refl _⟩)

theorem steady_suffix? : Steady (optional (NormalAt primaryLevel)) (suffix? fuel again e) := by
  refine (steady_acceptMark? .dot).bind_option (fun _ _ => ?_) ?_
  · exact (steady_expectName _).bind fun _ _ =>
      steady_pure (optional_some ⟨.get he.normal he.binds, rfl, Nat.le_refl _⟩)
  refine (steady_acceptMark? .lparen).bind_option (fun _ _ => ?_) ?_
  · have hcall : Steady (NormalAt primaryLevel) (finishCall fuel again e none) :=
      steady_finishCall hagain he nofun
    exact hcall.map fun _ => optional_some
  refine (steady_acceptMark? .lbracket).bind_option (fun _ _ => ?_) ?_
  · exact (hagain .expression).bind fun _ hposition => (steady_expectMark _ _).bind fun _ _ =>
      steady_pure (optional_some ⟨.index he.normal he.binds hposition, rfl, Nat.le_refl _⟩)
  · simp only [Option.isSome_none, Bool.false_eq_true, if_false]
    split
    · next hplace => exact steady_placeSuffix? hagain he hplace
    · exact steady_pure optional_none

end Suffixes

theorem steady_suffixes (count : Nat) {e : Expr} (he : e.NormalAt primaryLevel) :
    Steady (NormalAt primaryLevel) (suffixes fuel again count e) := by
  induction count generalizing e with
  | zero => exact steady_pure he
  | succ count ih =>
    exact (steady_suffix? hagain he).bind_option (fun _ hlonger => ih hlonger) (steady_pure he)

theorem steady_unary : Steady (NormalAt prefixLevel) (unary fuel again) := by
  refine (steady_acceptOperator? _).bind_option (fun op _ => ?_) ?_
  · exact (hagain .unary).bind fun _ hoperand =>
      steady_pure ⟨.unary hoperand.normal hoperand.binds, rfl, Nat.le_refl _⟩
  · refine (steady_primary hagain).bind fun e he => ?_
    exact (steady_suffixes hagain fuel he).weaken fun _ h => h.mono (Nat.le_succ _)

/-- The left operand of a power is at the prefix level, the right one at that of powers. -/
theorem steady_power : Steady (NormalAt 11) (power fuel again) := by
  refine (steady_unary hagain).bind fun base hbase => ?_
  refine (steady_acceptOperator? _).bind_option (fun op hop => ?_)
    (steady_pure (hbase.mono (Nat.le_succ _)))
  obtain ⟨o, ho, hkind⟩ := hop
  obtain rfl := List.mem_singleton.mp ho
  exact (hagain .power).bind fun exponent hexponent =>
    steady_pure (normalAt_binary hkind rfl hbase hexponent)

omit hagain in
/-- Operators that group to the left: the operands so far are at the level, the next is higher. -/
theorem steady_chain {ops : List Operator} {operand : Reader Expr} {n : Nat}
    (hops : ∀ o ∈ ops, o.level? = some n) (hleft : Associativity.ofLevel n = .left)
    (hoperand : Steady (NormalAt (n + 1)) operand) (count : Nat) {left : Expr}
    (h : left.NormalAt n) : Steady (NormalAt n) (chain ops operand count left) := by
  have hleast : leftLeast n = n ∧ rightLeast n = n + 1 := by
    rw [leftLeast, rightLeast, hleft]
    exact ⟨rfl, rfl⟩
  induction count generalizing left with
  | zero => exact steady_pure h
  | succ count ih =>
    refine (steady_acceptOperator? ops).bind_option (fun op hop => ?_) (steady_pure h)
    obtain ⟨o, ho, hkind⟩ := hop
    refine hoperand.bind fun right hright => ih (normalAt_binary hkind (hops o ho) ?_ ?_)
    · rw [hleast.1]
      exact h
    · rw [hleast.2]
      exact hright

omit hagain in
/-- Operators that do not follow each other: both operands are higher. -/
theorem steady_comparison {ops : List Operator} {operand : Reader Expr} {n : Nat}
    (hops : ∀ o ∈ ops, o.level? = some n) (hnone : Associativity.ofLevel n = .none)
    (hoperand : Steady (NormalAt (n + 1)) operand) {left : Expr} (h : left.NormalAt (n + 1)) :
    Steady (NormalAt n) (comparison ops operand left) := by
  have hleast : leftLeast n = n + 1 ∧ rightLeast n = n + 1 := by
    rw [leftLeast, rightLeast, hnone]
    exact ⟨rfl, rfl⟩
  refine (steady_acceptOperator? ops).bind_option (fun op hop => ?_)
    (steady_pure (h.mono (Nat.le_succ n)))
  obtain ⟨o, ho, hkind⟩ := hop
  refine hoperand.bind fun right hright => ?_
  -- it is whole before the next token is looked at, where another comparison is refused
  have hwhole : (Expr.binary left op right).NormalAt n := by
    refine normalAt_binary hkind (hops o ho) ?_ ?_
    · rw [hleast.1]
      exact h
    · rw [hleast.2]
      exact hright
  refine steady_here (fun t => ?_) (steady_pure hwhole) fun t ht => by rw [ht]
  cases t.kind with
  | operator another =>
    dsimp only
    split
    · exact (steady_fail _).before t
    · exact (steady_pure hwhole).before t
  | _ => exact (steady_pure hwhole).before t

/-- The operations from a level on are at that level or higher. -/
theorem steady_binary {k : Nat} (hk : k ≤ 10) :
    Steady (NormalAt (k + 1)) (binary fuel again (binaryLevels.drop k)) := by
  -- from the tightest level down to the loosest
  induction hgap : 10 - k generalizing k with
  | zero =>
    obtain rfl : k = 10 := by omega
    exact steady_power hagain
  | succ gap ih =>
    obtain ⟨level, hdrop, hops, hchains⟩ := drop_binaryLevels (k := k) (by omega)
    have htighter := ih (k := k + 1) (by omega) (by omega)
    rw [hdrop]
    refine htighter.bind fun left hleft => ?_
    have hlevel : ∀ o ∈ level.operators, o.level? = some (k + 1) := fun o ho => (hops o).mp ho
    by_cases hchain : level.chains = true
    · rw [if_pos hchain]
      exact steady_chain hlevel (hchains.mp hchain) htighter fuel (hleft.mono (Nat.le_succ _))
    · rw [if_neg hchain]
      have hnone : Associativity.ofLevel (k + 1) = .none := by
        have hright := Associativity.ofLevel_ne_right (n := k + 1) (by omega)
        cases hassoc : Associativity.ofLevel (k + 1) with
        | left => exact absurd (hchains.mpr hassoc) hchain
        | right => exact absurd hassoc hright
        | none => rfl
      exact steady_comparison hlevel hnone htighter hleft

theorem steady_ternary : Steady (NormalAt 0) (ternary fuel again) := by
  refine (steady_binary hagain (Nat.zero_le 10)).bind fun condition hcondition => ?_
  refine (steady_acceptMark? .questionMark).bind fun question _ => ?_
  cases question with
  | none => exact steady_pure (hcondition.mono (Nat.zero_le 1))
  | some _ =>
    exact (hagain .expression).bind fun _ hyes => (steady_expectMark _ _).bind fun _ _ =>
      (hagain .ternary).bind fun _ hno => steady_pure
        ⟨.ternary hcondition.normal hcondition.binds hyes hno.normal hno.binds, rfl,
          Nat.zero_le _⟩

omit hagain in
/-- The assignment of a normal form to one is one, be the target refused. -/
theorem steady_assignTo {target value : Expr} (htarget : target.Normal) (hvalue : value.Normal)
    (op : Token) (compound : Option Operator) :
    Steady Normal (assignTo target op compound value) := by
  unfold assignTo
  split
  · cases compound with
    | none => exact steady_pure (.assign hvalue)
    | some base => exact steady_pure (.assignCompound rfl rfl rfl hvalue)
  · cases htarget with
    | get hobject hbinds =>
      cases compound with
      | none => exact steady_pure (.set hobject hbinds hvalue)
      | some base => exact steady_pure (.setCompound hobject hbinds rfl rfl rfl hvalue)
  · -- the value is lost, and what was to be the target stands for all of it
    exact (steady_report _).bind fun _ _ => steady_pure htarget

theorem steady_assignment : Steady Normal (assignment fuel again) := by
  refine (steady_ternary hagain).bind fun target htarget => ?_
  refine steady_here (fun t => ?_) (steady_pure htarget.normal) fun t ht => by rw [ht]
  cases t.kind with
  | operator op =>
    dsimp only
    split
    · exact steadyBefore_advance ((hagain .expression).bind fun value hvalue =>
        steady_assignTo htarget.normal hvalue t op.compoundBase?)
    · exact (steady_pure htarget.normal).before t
  | _ => exact (steady_pure htarget.normal).before t

end ExprRules

/-- Every rule for expressions is steady, and returns normal forms of its level. -/
theorem steady_ruleAt (fuel : Nat) (rule : Rule) : Steady rule.Returns (ruleAt fuel rule) := by
  -- the induction is on the bound, which is lower for every rule inside of a rule
  induction fuel generalizing rule with
  | zero => exact steady_fail _
  | succ fuel ih =>
    cases rule with
    | expression => exact steady_assignment ih
    | ternary => exact steady_ternary ih
    | power => exact steady_power ih
    | unary => exact steady_unary ih

theorem steady_expression : Steady Normal expression :=
  steady_bounded fun fuel => steady_ruleAt fuel .expression

theorem steady_expression? : Steady (optional Normal) expression? := by
  refine steady_here (fun t => ?_) (steady_pure optional_none) fun t ht => ?_
  · refine Steady.before ?_ t
    split
    · exact steady_expression.map fun _ => optional_some
    · exact steady_pure optional_none
  · rw [startsExpression, ht]
    rfl

end Reader

/-! ### Statements -/

/-- The value of a variable is a normal form. -/
def VarDecl.Normal (decl : VarDecl) : Prop := ∀ e ∈ decl.value, e.Normal

/-- What a loop does first is a normal form. -/
def LoopInit.Normal : LoopInit → Prop
  | .var decl => decl.Normal
  | .expression e => e.Normal

mutual

/-- All expressions of a statement are normal forms. -/
def Stmt.Normal : Stmt → Prop
  | .block body => body.Normal
  | .expression e => e.Normal
  | .ifElse _ condition yes no => condition.Normal ∧ yes.Normal ∧ elseNormal no
  | .ret _ value => ∀ e ∈ value, e.Normal
  | .var decl => decl.Normal
  | .whileLoop _ condition body _ => condition.Normal ∧ body.Normal
  | .forLoop _ init condition step body =>
    (∀ first ∈ init, first.Normal) ∧ condition.Normal ∧ (∀ e ∈ step, e.Normal) ∧ body.Normal
  | .forEach _ binding _ iterable body => binding.Normal ∧ iterable.Normal ∧ body.Normal
  | .breakOut _ => True
  | .continueOn _ => True
  | .function decl => decl.Normal
  | .classDecl _ _ _ superclass fields methods _ =>
    (∀ e ∈ superclass, e.Normal) ∧ (∀ field ∈ fields, field.Normal) ∧ functionsNormal methods
  | .switch _ subject cases default _ =>
    subject.Normal ∧ casesNormal cases ∧ defaultNormal default

/-- All expressions of a block are normal forms. -/
def Block.Normal : Block → Prop
  | ⟨_, statements, _⟩ => stmtsNormal statements

/-- All expressions of a function are normal forms. -/
def FunctionDecl.Normal : FunctionDecl → Prop
  | ⟨_, _, _, _, _, body⟩ => body.Normal

/-- The value and all expressions of the body of a case are normal forms. -/
def SwitchCase.Normal : SwitchCase → Prop
  | ⟨value, _, body⟩ => value.Normal ∧ body.Normal

/-- All expressions of the second branch of a choice are normal forms. -/
def elseNormal : Option Stmt → Prop
  | none => True
  | some stmt => stmt.Normal

/-- All expressions of the default of a choice by value are normal forms. -/
def defaultNormal : Option Block → Prop
  | none => True
  | some body => body.Normal

/-- All expressions of some statements are normal forms. -/
def stmtsNormal : List Stmt → Prop
  | [] => True
  | stmt :: stmts => stmt.Normal ∧ stmtsNormal stmts

/-- All expressions of some functions are normal forms. -/
def functionsNormal : List FunctionDecl → Prop
  | [] => True
  | decl :: decls => decl.Normal ∧ functionsNormal decls

/-- All expressions of some cases are normal forms. -/
def casesNormal : List SwitchCase → Prop
  | [] => True
  | case :: cases => case.Normal ∧ casesNormal cases

end

namespace Reader

variable {β : Type} {Q : β → Prop}

/-! ### Conditions -/

/-- A reader that fails at the end of a file, as something has to follow. -/
def FailsAtEnd (cause : Cause) (r : Reader β) : Prop :=
  ∀ s : ReaderState, s.cursor.ahead = [] → s.cursor.here.kind = .endOfFile → r s = fail cause s

theorem FailsAtEnd.bind {γ : Type} {cause : Cause} {r : Reader β} (h : FailsAtEnd cause r)
    (f : β → Reader γ) : FailsAtEnd cause (r >>= f) :=
  fun s hahead hkind => bind_error (h s hahead hkind)

theorem failsAtEnd_expectMark (mark : Punctuation) (what : Expectation) :
    FailsAtEnd (.expected what) (expectMark mark what) := by
  intro s hahead _
  have hnone : accept? (.punctuation mark) s = .ok none s := by
    rw [accept?_eq, hahead]
    rfl
  exact bind_ok hnone

theorem failsAtEnd_expression : FailsAtEnd .expectedExpression expression := by
  intro s hahead _
  have hzero : s.cursor.remaining = 0 := congrArg Cursor.totalWeight hahead
  have hrun : expression s = ruleAt s.cursor.remaining .expression s := rfl
  rw [hrun, hzero]
  rfl

theorem failsAtEnd_stmtAt (fuel : Nat) :
    FailsAtEnd .expectedExpression (stmtAt fuel .statement) := by
  cases fuel with
  | zero => exact fun _ _ _ => rfl
  | succ fuel =>
    intro s hahead hkind
    have hrun : stmtAt (fuel + 1) .statement s = expressionStatement s :=
      statement_eq_expression fuel (stmtAt fuel) (by rw [opensStatement, hkind])
    rw [hrun]
    exact failsAtEnd_expression.bind _ s hahead hkind

theorem condition_bind (f : Expr → Reader β) :
    condition >>= f = (do
      match ← expression? with
      | some e => f e
      | none =>
        let found ← here
        note (.missingCondition found)
        f (absentCondition found) : Reader β) := by
  unfold condition
  rw [bind_assoc]
  refine congrArg (expression? >>= ·) (funext fun found => ?_)
  cases found <;> rfl

/-- A condition and what follows it.  A condition that is missing at the end of the file would be
made up from the token for the end, but then something else is missing, too. -/
theorem steady_condition_bind {f : Expr → Reader β} {cause : Cause}
    (hf : ∀ e, e.Normal → Steady Q (f e)) (hend : ∀ e, FailsAtEnd cause (f e)) :
    Steady Q (condition >>= f) := by
  rw [condition_bind]
  refine steady_expression?.bind_option hf ?_
  intro s s' hs
  change SameOutcome Q
    (f (absentCondition s.cursor.here) (s.note (.missingCondition s.cursor.here)))
    (f (absentCondition s'.cursor.here) (s'.note (.missingCondition s'.cursor.here)))
  rcases hs.here_cases with ⟨t, rest, hahead, hahead'⟩ | ⟨hahead, hkind, hkind'⟩
  · rw [here_of_cons hahead, here_of_cons hahead']
    exact hf _ .literal _ _ (hs.note rfl)
  · have hahead' : s'.cursor.ahead = [] := hs.ahead_eq.trans hahead
    rw [hend _ (s.note _) hahead hkind, hend _ (s'.note _) hahead' hkind']
    exact .error rfl (hs.note rfl)

/-! ### Variables -/

theorem steady_varHead (keyword : Token) : Steady VarDecl.Normal (varHead keyword) :=
  (steady_accept? _).bind fun _ _ => (steady_expectName _).bind fun _ _ => steady_pure nofun

theorem steady_withoutValue {decl : VarDecl} (hdecl : decl.Normal) :
    Steady VarDecl.Normal (withoutValue decl) := by
  unfold withoutValue
  split
  · exact steady_pure hdecl
  · exact steady_reportHere
      (f := fun t => { cause := .uninitialized, token := t, span := decl.name.span })
      (fun _ _ => rfl) (steady_pure hdecl)

theorem steady_varValue {decl : VarDecl} (hdecl : decl.Normal) :
    Steady VarDecl.Normal (varValue decl) := by
  refine (steady_accept? _).bind_option (fun _ _ => ?_) (steady_withoutValue hdecl)
  exact steady_expression.bind fun _ he => steady_pure (optional_some he)

theorem steady_varDecl (keyword : Token) : Steady VarDecl.Normal (varDecl keyword) := by
  refine (steady_varHead keyword).bind fun head hhead => ?_
  refine (steady_acceptMark? _).bind_option (fun _ _ => ?_) (steady_varValue hhead)
  refine steady_typeRef.bind fun type _ => ?_
  have htyped : ({ head with type := some type } : VarDecl).Normal := hhead
  exact steady_varValue htyped

/-! ### Tests -/

theorem steady_atClose : Steady anything atClose :=
  (steady_check _).bind fun _ _ => steady_atEnd.bind fun _ _ => steady_pure trivial

/-- A function is only read where a token for its opening word is next. -/
theorem steady_atFunction_bind {f : Token → Reader β} {r : Reader β} (hf : ∀ t, Steady Q (f t))
    (hr : Steady Q r) : Steady Q (do if ← atFunction then f (← advance) else r) := by
  intro s s' hs
  have htest : ∀ u : ReaderState, atFunction u = .ok (!u.cursor.atEnd &&
      u.cursor.here.kind == .keyword .fn && u.cursor.second.kind == .identifier) u := fun _ => rfl
  rw [bind_ok (htest s), bind_ok (htest s'), hs.atEnd_eq, ← hs.kind_second_eq]
  rcases hs.here_cases with ⟨t, rest, hahead, hahead'⟩ | ⟨hahead, -, -⟩
  · rw [here_of_cons hahead, here_of_cons hahead']
    split
    · exact steadyBefore_advance (hf t) s s' rest hs hahead hahead'
    · exact hr s s' hs
  · have hend : s.cursor.atEnd = true := by rw [Cursor.atEnd, hahead]; rfl
    rw [hend, Bool.not_true, Bool.false_and, Bool.false_and]
    exact hr s s' hs

/-- At the end of a file there is no default, whatever the text of the end is. -/
theorem steady_atDefault : Steady anything atDefault := by
  intro s s' hs
  change SameOutcome _
    (.ok (s.cursor.here.lexeme == "_" && s.cursor.second.kind == .punctuation .arrow) s)
    (.ok (s'.cursor.here.lexeme == "_" && s'.cursor.second.kind == .punctuation .arrow) s')
  rw [← hs.kind_second_eq]
  rcases hs.here_cases with ⟨t, rest, hahead, hahead'⟩ | ⟨hahead, hkind, -⟩
  · rw [here_of_cons hahead, here_of_cons hahead']
    exact .ok trivial hs
  · -- the token after the end is the end again, which is no arrow
    have hsecond : s.cursor.second = s.cursor.here := by
      rw [Cursor.second, Cursor.here, hahead]
      rfl
    have harrow : (s.cursor.second.kind == .punctuation .arrow) = false := by
      rw [hsecond, hkind]
      rfl
    rw [harrow, Bool.and_false, Bool.and_false]
    exact .ok trivial hs

theorem steady_refuseSecond (default : Option Block) : Steady anything (refuseSecond default) := by
  unfold refuseSecond
  split
  · exact steady_reportHere (f := fun t => { cause := .duplicateDefault, token := t })
      (fun _ _ => rfl) (r := pure ()) (steady_pure trivial)
  · exact steady_pure trivial

theorem steady_closeHeader (parenthesized : Bool) (what : Expectation) :
    Steady anything (closeHeader parenthesized what) := by
  unfold closeHeader
  split
  · exact (steady_expectMark _ _).bind fun _ _ => steady_pure trivial
  · exact steady_pure trivial

/-! ### The rules -/

section StmtRules

variable {fuel : Nat} {again : StmtRule → Reader Stmt}
  (hagain : ∀ rule, Steady Stmt.Normal (again rule))

include hagain

theorem steady_blockBody (count : Nat) : Steady stmtsNormal (blockBody again count) := by
  induction count with
  | zero => exact steady_pure trivial
  | succ count ih =>
    refine steady_atClose.ite (steady_pure trivial) ?_
    refine (steady_recovered (hagain .declaration)).bind_option (fun stmt hstmt => ?_) ih
    exact ih.bind fun _ hmore => steady_pure ⟨hstmt, hmore⟩

theorem steady_block (lbrace : Token) : Steady Block.Normal (block fuel again lbrace) :=
  (steady_blockBody hagain fuel).bind fun _ hstatements =>
    (steady_expectMark _ _).bind fun _ _ => steady_pure hstatements

theorem steady_switchCase : Steady SwitchCase.Normal (switchCase fuel again) :=
  steady_expression.bind fun _ hvalue => (steady_expectMark _ _).bind fun _ _ =>
    (steady_expectMark _ _).bind fun _ _ => (steady_block hagain _).bind fun _ hbody =>
      steady_pure ⟨hvalue, hbody⟩

theorem steady_switchDefault : Steady Block.Normal (switchDefault fuel again) :=
  steady_skip (steady_skip ((steady_expectMark _ _).bind fun _ _ => steady_block hagain _))

theorem steady_switchBody (count : Nat) {default : Option Block}
    (hdefault : defaultNormal default) :
    Steady (fun found : List SwitchCase × Option Block =>
      casesNormal found.1 ∧ defaultNormal found.2) (switchBody fuel again count default) := by
  induction count generalizing default with
  | zero => exact steady_pure ⟨trivial, hdefault⟩
  | succ count ih =>
    refine steady_atClose.ite (steady_pure ⟨trivial, hdefault⟩) ?_
    refine steady_atDefault.ite ?_ ?_
    · refine (steady_refuseSecond default).bind fun _ _ => ?_
      refine (steady_switchDefault hagain).bind fun body hbody => ih ?_
      -- a second default is read, but the first one stays
      cases default with
      | none => exact hbody
      | some first => exact hdefault
    · refine (steady_switchCase hagain).bind fun first hfirst => (ih hdefault).bind ?_
      rintro ⟨cases, found⟩ ⟨hcases, hfound⟩
      exact steady_pure ⟨⟨hfirst, hcases⟩, hfound⟩

theorem steady_switchStatement (keyword : Token) :
    Steady Stmt.Normal (switchStatement fuel again keyword) := by
  refine steady_expression.bind fun subject hsubject => (steady_expectMark _ _).bind fun _ _ => ?_
  have hnone : defaultNormal none := trivial
  refine (steady_switchBody hagain fuel hnone).bind ?_
  rintro ⟨cases, default⟩ ⟨hcases, hdefault⟩
  exact (steady_expectMark _ _).bind fun _ _ => steady_pure ⟨hsubject, hcases, hdefault⟩

theorem steady_ifStatement (keyword : Token) : Steady Stmt.Normal (ifStatement again keyword) := by
  refine steady_expression.bind fun _ hcondition => (hagain .statement).bind fun _ hyes => ?_
  refine (steady_accept? _).bind_option (fun _ _ => ?_) (steady_pure ⟨hcondition, hyes, trivial⟩)
  exact (hagain .statement).bind fun _ hno => steady_pure ⟨hcondition, hyes, hno⟩

theorem steady_forEachClause (keyword : Token) (parenthesized : Bool) {binding : VarDecl}
    (hbinding : binding.Normal) (colon : Token) :
    Steady Stmt.Normal (forEachClause again keyword parenthesized binding colon) :=
  steady_expression.bind fun _ hiterable => (steady_closeHeader _ _).bind fun _ _ =>
    (hagain .statement).bind fun _ hbody => steady_pure ⟨hbinding, hiterable, hbody⟩

theorem steady_function (keyword : Token) :
    Steady FunctionDecl.Normal (function fuel again keyword) :=
  (steady_expectName _).bind fun _ _ => steady_typeParameters?.bind fun _ _ =>
    (steady_expectMark _ _).bind fun _ _ => steady_parameters.bind fun _ _ =>
      steady_returnType?.bind fun _ _ => (steady_expectMark _ _).bind fun _ _ =>
        (steady_block hagain _).bind fun _ hbody => steady_pure hbody

/-- What is said of the fields and the methods of a class. -/
def membersNormal (members : List VarDecl × List FunctionDecl) : Prop :=
  (∀ field ∈ members.1, field.Normal) ∧ functionsNormal members.2

theorem steady_classMember {more : Reader (List VarDecl × List FunctionDecl)}
    (hmore : Steady membersNormal more) :
    Steady membersNormal (classMember fuel again more) := by
  refine (steady_accept? _).bind_option (fun keyword _ => ?_) ?_
  · refine (steady_function hagain keyword).bind fun method hmethod => hmore.bind ?_
    rintro ⟨fields, methods⟩ ⟨hfields, hmethods⟩
    exact steady_pure ⟨hfields, hmethod, hmethods⟩
  refine (steady_accept? _).bind_option (fun keyword _ => ?_) ?_
  · refine (steady_varDecl keyword).bind fun field hfield => (steady_acceptMark? _).bind
      fun _ _ => hmore.bind ?_
    rintro ⟨fields, methods⟩ ⟨hfields, hmethods⟩
    exact steady_pure ⟨List.forall_mem_cons.mpr ⟨hfield, hfields⟩, hmethods⟩
  · exact (steady_acceptMark? _).bind_option (fun _ _ => hmore) (steady_fail _)

theorem steady_classBody (count : Nat) : Steady membersNormal (classBody fuel again count) := by
  have hnone : membersNormal ([], []) := ⟨each_nil, trivial⟩
  induction count with
  | zero => exact steady_pure hnone
  | succ count ih => exact steady_atClose.ite (steady_pure hnone) (steady_classMember hagain ih)

omit hagain in
theorem steady_superclass? : Steady (optional Expr.Normal) superclass? := by
  refine (steady_acceptMark? _).bind_option (fun _ _ => ?_) (steady_pure optional_none)
  exact (steady_expectName _).bind fun _ _ => steady_pure (optional_some .ident)

theorem steady_classDeclaration (keyword : Token) :
    Steady Stmt.Normal (classDeclaration fuel again keyword) := by
  refine (steady_expectName _).bind fun _ _ => steady_typeParameters?.bind fun _ _ => ?_
  refine steady_superclass?.bind fun _ hsuperclass => (steady_expectMark _ _).bind fun _ _ => ?_
  refine (steady_classBody hagain fuel).bind ?_
  rintro ⟨fields, methods⟩ ⟨hfields, hmethods⟩
  exact (steady_expectMark _ _).bind fun _ _ => steady_pure ⟨hsuperclass, hfields, hmethods⟩

/-! ### Loops -/

variable (hstop : FailsAtEnd .expectedExpression (again .statement))

include hstop

theorem steady_whileStatement (keyword : Token) (testedAfter : Bool) :
    Steady Stmt.Normal (whileStatement again keyword testedAfter) := by
  refine steady_condition_bind (fun condition hcondition => ?_) fun _ => hstop.bind _
  exact (hagain .statement).bind fun _ hbody => steady_pure ⟨hcondition, hbody⟩

omit hstop in
theorem steady_forClauses (keyword : Token) (parenthesized : Bool) {init : Option LoopInit}
    (hinit : ∀ first ∈ init, first.Normal) :
    Steady Stmt.Normal (forClauses again keyword parenthesized init) := by
  refine steady_condition_bind (fun condition hcondition => ?_)
    fun _ => (failsAtEnd_expectMark _ _).bind _
  refine (steady_expectMark _ _).bind fun _ _ => steady_expression?.bind fun step hstep => ?_
  refine (steady_closeHeader _ _).bind fun _ _ => (hagain .statement).bind fun body hbody => ?_
  refine steady_pure ⟨hinit, hcondition, hstep, ?_⟩
  -- a step is also put behind the body
  cases step with
  | none => exact hbody
  | some e => exact ⟨hbody, hstep e rfl, trivial⟩

omit hstop in
theorem steady_forVar (keyword : Token) (parenthesized : Bool) {binding : VarDecl}
    (hbinding : binding.Normal) :
    Steady Stmt.Normal (forVar again keyword parenthesized binding) :=
  (steady_varValue hbinding).bind fun _ hdecl => (steady_expectMark _ _).bind fun _ _ =>
    steady_forClauses hagain keyword parenthesized (optional_some hdecl)

omit hstop in
theorem steady_forDeclared (keyword : Token) (parenthesized : Bool) (varKeyword : Token) :
    Steady Stmt.Normal (forDeclared again keyword parenthesized varKeyword) := by
  refine (steady_varHead varKeyword).bind fun binding hbinding => ?_
  refine (steady_acceptMark? _).bind_option (fun colon _ => ?_)
    (steady_forVar hagain keyword parenthesized hbinding)
  refine (steady_loopType? keyword).bind_option (fun type _ => ?_)
    (steady_forEachClause hagain keyword parenthesized hbinding colon)
  have htyped : ({ binding with type := some type } : VarDecl).Normal := hbinding
  exact steady_forVar hagain keyword parenthesized htyped

omit hstop in
theorem steady_forStatement (keyword : Token) :
    Steady Stmt.Normal (forStatement again keyword) := by
  have hheader : ∀ parenthesized, Steady Stmt.Normal (forHeader again keyword parenthesized) := by
    intro parenthesized
    refine (steady_acceptMark? _).bind_option
      (fun _ _ => steady_forClauses hagain keyword parenthesized optional_none) ?_
    refine (steady_accept? _).bind_option
      (fun varKeyword _ => steady_forDeclared hagain keyword parenthesized varKeyword) ?_
    exact steady_expression.bind fun _ hfirst => (steady_expectMark _ _).bind fun _ _ =>
      steady_forClauses hagain keyword parenthesized (optional_some hfirst)
  exact (steady_acceptMark? _).bind fun _ _ => hheader _

theorem steady_statement : Steady Stmt.Normal (statement fuel again) := by
  have hexpression : Steady Stmt.Normal expressionStatement :=
    steady_expression.bind fun _ he => (steady_acceptMark? _).bind fun _ _ => steady_pure he
  have hword : ∀ stmt : Stmt, stmt.Normal → Steady Stmt.Normal (wordStatement stmt) :=
    fun _ h => (steady_acceptMark? _).bind fun _ _ => steady_pure h
  refine steady_here (fun t => ?_) hexpression fun t ht => by rw [ht]
  cases t.kind with
  | keyword word =>
    cases word with
    | «for» => exact steadyBefore_advance (steady_forStatement hagain t)
    | «if» => exact steadyBefore_advance (steady_ifStatement hagain t)
    | «return» =>
      exact steadyBefore_advance (steady_expression?.bind fun _ hvalue =>
        (steady_acceptMark? _).bind fun _ _ => steady_pure hvalue)
    | «do» =>
      exact steadyBefore_advance ((steady_expect _ _).bind fun _ _ =>
        steady_whileStatement hagain hstop t true)
    | «while» => exact steadyBefore_advance (steady_whileStatement hagain hstop t false)
    | «break» => exact steadyBefore_advance (hword (.breakOut t) trivial)
    | «continue» => exact steadyBefore_advance (hword (.continueOn t) trivial)
    | switch => exact steadyBefore_advance (steady_switchStatement hagain t)
    | _ => exact hexpression.before t
  | punctuation mark =>
    cases mark with
    | lbrace => exact steadyBefore_advance ((steady_block hagain t).map fun _ hbody => hbody)
    | _ => exact hexpression.before t
  | _ => exact hexpression.before t

theorem steady_declarationOrStatement :
    Steady Stmt.Normal (declarationOrStatement fuel again) := by
  refine (steady_accept? _).bind_option
    (fun keyword _ => steady_classDeclaration hagain keyword) ?_
  have hother : Steady Stmt.Normal (varOrStatement fuel again) := by
    refine (steady_accept? _).bind_option (fun keyword _ => ?_) (steady_statement hagain hstop)
    exact (steady_varDecl keyword).bind fun _ hdecl => (steady_acceptMark? _).bind fun _ _ =>
      steady_pure hdecl
  exact steady_atFunction_bind
    (fun t => (steady_function hagain t).map fun _ hdecl => hdecl) hother

end StmtRules

theorem steady_stmtAt (fuel : Nat) (rule : StmtRule) :
    Steady Stmt.Normal (stmtAt fuel rule) := by
  induction fuel generalizing rule with
  | zero => exact steady_fail _
  | succ fuel ih =>
    cases rule with
    | statement => exact steady_statement ih (failsAtEnd_stmtAt fuel)
    | declaration => exact steady_declarationOrStatement ih (failsAtEnd_stmtAt fuel)

/-! ### Whole files -/

variable {s s' : ReaderState}

/-- All declarations up to the end are the same in both runs, and their expressions are normal
forms. -/
theorem steady_declarations (count : Nat) (hs : s.Alongside s') :
    (declarations count s').1 = (declarations count s).1 ∧
      (∀ stmt ∈ (declarations count s).1, stmt.Normal) ∧
      (declarations count s).2.Alongside (declarations count s').2 := by
  induction count generalizing s s' with
  | zero => exact ⟨rfl, List.forall_mem_nil _, hs⟩
  | succ count ih =>
    by_cases hend : s.cursor.atEnd = true
    · have hend' : s'.cursor.atEnd = true := hs.atEnd_eq.trans hend
      rw [declarations, declarations, if_pos hend, if_pos hend']
      exact ⟨rfl, List.forall_mem_nil _, hs⟩
    · have hend' : ¬ s'.cursor.atEnd = true := hs.atEnd_eq ▸ hend
      have hrun : (declaration s').1 = (declaration s).1 ∧ optional Stmt.Normal (declaration s).1 ∧
          (declaration s).2.Alongside (declaration s').2 := by
        unfold declaration
        rw [hs.remaining_eq]
        exact (steady_stmtAt _ .declaration).recover hs
      obtain ⟨hsame, hnormal, hnext⟩ := hrun
      rw [declarations, declarations, if_neg hend, if_neg hend']
      rcases hdecl : declaration s with ⟨found, t⟩
      rcases hdecl' : declaration s' with ⟨found', t'⟩
      rw [hdecl, hdecl'] at hsame hnext
      rw [hdecl] at hnormal
      obtain rfl : found' = found := hsame
      cases found' with
      | none => exact ih hnext
      | some stmt =>
        obtain ⟨hmore, hnormals, hfinal⟩ := ih (hnext.note (e := .parsed stmt.name) rfl)
        exact ⟨congrArg (stmt :: ·) hmore, List.forall_mem_cons.mpr ⟨hnormal stmt rfl, hnormals⟩,
          hfinal⟩

/-- A whole file is read to the same statements in both runs, for the same causes of errors, and
all expressions are normal forms. -/
theorem steady_parse (hs : s.Alongside s') :
    (parse s').1 = (parse s).1 ∧ (∀ stmt ∈ (parse s).1, stmt.Normal) ∧
      (parse s).2.Alongside (parse s').2 := by
  obtain ⟨hsame, hnormal, hfinal⟩ := steady_declarations s.cursor.remaining hs
  unfold parse
  rw [hs.remaining_eq]
  exact ⟨hsame, hnormal, hfinal.note rfl⟩

/-- The states of a run all end at the end of a file. -/
theorem stop_isEnd_of_leads {stream : TokenStream} (h : (ReaderState.ofStream stream).Leads s) :
    s.cursor.stop.isEnd = true := ((placed_ofStream stream).reaches h.reaches).stop_isEnd

/-- **Every expression that is read is in precedence normal form.**

This holds of all expressions in the statements of a file, whatever its tokens are and whatever
errors there were, and of what the rule for expressions returns in any state that a run can come
to. -/
theorem normal_of_read :
    (∀ (stream : TokenStream), ∀ stmt ∈ (parse (.ofStream stream)).1, stmt.Normal) ∧
    ∀ (stream : TokenStream) (s t : ReaderState) (e : Expr),
      (ReaderState.ofStream stream).Leads s → expression s = .ok e t → e.Normal := by
  constructor
  · intro stream
    have hself := stop_isEnd_of_leads (.refl (ReaderState.ofStream stream))
    exact (steady_parse (.self hself)).2.1
  · intro stream s t e hs hrun
    have hself := steady_expression s s (.self (stop_isEnd_of_leads hs))
    rw [hrun] at hself
    cases hself with
    | ok he ht => exact he

/-- A compound assignment to a member, whose value has operators of three levels, and an
assignment to a number, which is reported. -/
theorem normal_of_read_assignments :
    let stream := (Frontend.lex "a" "x.y -= 1 - 2 ** 3 * 4; 5 = 6").1
    (parse (.ofStream stream)).2.causes = [.invalidTarget] ∧
    (parse (.ofStream stream)).1.length = 2 ∧
    (∃ stmt ∈ (parse (.ofStream stream)).1, stmt.Normal) ∧
    ∃ e t, expression (.ofStream stream) = .ok e t ∧ e.Normal := by
  have hlex := Lexer.tokenize_eq_within 30 (l := .ofText "a" "x.y -= 1 - 2 ** 3 * 4; 5 = 6")
    (by decide)
  have hcauses : (parse (.ofStream
      (Frontend.lex "a" "x.y -= 1 - 2 ** 3 * 4; 5 = 6").1)).2.causes = [.invalidTarget] := by
    rw [Frontend.lex, hlex]
    decide +kernel
  have hlength : (parse (.ofStream
      (Frontend.lex "a" "x.y -= 1 - 2 ** 3 * 4; 5 = 6").1)).1.length = 2 := by
    rw [Frontend.lex, hlex]
    decide +kernel
  have hread : (match expression (.ofStream
      (Frontend.lex "a" "x.y -= 1 - 2 ** 3 * 4; 5 = 6").1) with
      | .ok _ _ => true
      | .error _ _ => false) = true := by
    rw [Frontend.lex, hlex]
    decide +kernel
  clear hlex
  generalize (Frontend.lex "a" "x.y -= 1 - 2 ** 3 * 4; 5 = 6").1 = stream at hcauses hlength hread
  refine ⟨hcauses, hlength, ?_, ?_⟩
  · have hmem := List.getElem_mem (l := (parse (.ofStream stream)).1) (n := 0) (by omega)
    exact ⟨_, hmem, normal_of_read.1 stream _ hmem⟩
  · cases hrun : expression (.ofStream stream) with
    | ok e t => exact ⟨e, t, rfl, normal_of_read.2 stream _ t e (.refl _) hrun⟩
    | error e t =>
      rw [hrun] at hread
      cases hread

end Reader
end CurlyScript
