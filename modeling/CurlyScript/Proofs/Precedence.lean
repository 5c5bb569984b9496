import CurlyScript.Proofs.Printer
import CurlyScript.Proofs.Reports
import Mathlib.Data.List.Chain
import Mathlib.Tactic.IntervalCases

/-!
# Precedence

How tightly the operators bind is said by a table: every binary operator has a level, and the
operators of a level group to the left, to the right or not at all.  A tree of operations is
written with parentheses around an operand exactly where the operand would otherwise bind less
tightly than its place asks for.  Read again, the tokens come to that tree with a grouping at
exactly these places.

The table is stated here without the list of levels that the rules go through; that the two agree
is what `drop_binaryLevels` says.  A variable before a `<` is left out, as there type arguments may
follow.

## Main definitions

* `Operator.level?`, `Associativity.ofLevel` — the table.
* `Expr.IsFormula` — a tree of operations on constants, variables and `this`.
* `Expr.grouped` — the tree with the groupings that the table asks for.
* `EndsLevel` — tokens before which an operand of a level ends.
* `ReadsBack`, `ReadsChain` — an expression that is read again from its tokens, alone and as the
  first operand of a chain.

## Main results

* `drop_binaryLevels` — the levels of the rules are those of the table.
* `Expr.IsFormula.readable` — every formula is read again at its own level.
* `Reader.expression_grouped` — reading what is written comes to the tree with its groupings.
-/

namespace CurlyScript

/-! ### The table -/

/-- The level of a binary operator, the loosest being one. -/
def Operator.level? : Operator → Option Nat
  | .logicOr => some 1
  | .logicAnd => some 2
  | .or => some 3
  | .xor => some 4
  | .and => some 5
  | .eqEq | .notEq => some 6
  | .less | .lessEq | .greater | .greaterEq => some 7
  | .lsh | .rsh => some 8
  | .plus | .minus => some 9
  | .star | .slash | .mod => some 10
  | .power => some 11
  | _ => none

/-- The level of operators before their operand. -/
def prefixLevel : Nat := 12

/-- The level of what is no operation. -/
def primaryLevel : Nat := 13

/-- How operators of one level follow each other. -/
inductive Associativity
  /-- They group to the left. -/
  | left
  /-- They group to the right. -/
  | right
  /-- They do not follow each other. -/
  | none
  deriving DecidableEq

/-- How the operators of a level follow each other. -/
def Associativity.ofLevel : Nat → Associativity
  | 6 | 7 => .none
  | 11 => .right
  | _ => .left

/-- The least level of a left operand without parentheses. -/
def leftLeast (level : Nat) : Nat :=
  if Associativity.ofLevel level = .left then level else level + 1

/-- The least level of a right operand without parentheses. -/
def rightLeast (level : Nat) : Nat :=
  if Associativity.ofLevel level = .right then level else level + 1

/-- The level of the binary operator that a token is. -/
def Token.level (op : Token) : Nat :=
  match op.kind with
  | .operator o => o.level?.getD 0
  | _ => 0

/-- The level of an expression. -/
def Expr.level : Expr → Nat
  | .ternary .. => 0
  | .binary _ op _ => op.level
  | .unary .. => prefixLevel
  | _ => primaryLevel

/-! ### Trees and their groupings -/

/-- A tree of operations on constants, variables and `this`. -/
inductive Expr.IsFormula : Expr → Prop
  /-- A number or a quoted text. -/
  | literal {t : Token} {kind : LiteralKind} {value : Literal} (ht : t.kind = .literal kind)
      (hkind : kind ≠ .identifier) (hvalue : t.literal = some value) :
    IsFormula (.literal (.ofLiteral value) t)
  /-- The truth value `true`. -/
  | yes {t : Token} (ht : t.kind = .keyword .true) : IsFormula (.literal (.bool true) t)
  /-- The truth value `false`. -/
  | no {t : Token} (ht : t.kind = .keyword .false) : IsFormula (.literal (.bool false) t)
  /-- The object whose method is running. -/
  | this {t : Token} (ht : t.kind = .keyword .this) : IsFormula (.this t)
  /-- A variable. -/
  | ident {t : Token} (ht : t.kind = .identifier) : IsFormula (.ident t)
  /-- An operator before its operand. -/
  | prefixed {op : Token} {o : Operator} {operand : Expr} (hop : op.kind = .operator o)
      (ho : o ∈ prefixOperators) (h : IsFormula operand) : IsFormula (.unary op operand)
  /-- A binary operator between its operands. -/
  | binary {op : Token} {o : Operator} {left right : Expr} (hop : op.kind = .operator o)
      (ho : o.level?.isSome = true) (hleft : IsFormula left) (hright : IsFormula right) :
    IsFormula (.binary left op right)
  /-- A choice. -/
  | ternary {colon : Token} {condition yes no : Expr} (hcolon : colon.kind = .punctuation .colon)
      (hcondition : IsFormula condition) (hyes : IsFormula yes) (hno : IsFormula no) :
    IsFormula (.ternary condition yes colon no)

/-- An expression in parentheses. -/
def Expr.inParens (e : Expr) : Expr :=
  .grouping (Piece.punct .lparen).token e (Piece.punct .rparen).token

/-- An expression at a place that asks for a level: in parentheses if its own level is less. -/
def Expr.atLeast (least : Nat) (e : Expr) : Expr := if e.level < least then e.inParens else e

/-- A tree with the groupings that the table asks for. -/
def Expr.grouped : Expr → Expr
  | .unary op operand => .unary op (operand.grouped.atLeast prefixLevel)
  | .binary left op right =>
    .binary (left.grouped.atLeast (leftLeast op.level)) op
      (right.grouped.atLeast (rightLeast op.level))
  | .ternary condition yes colon no =>
    .ternary (condition.grouped.atLeast 1) yes.grouped colon no.grouped
  | e => e

/-- The tokens of an expression. -/
def Expr.tokens (e : Expr) : List Token := tokensOf e.pieces

/-- Whether no `<` directly follows a variable. -/
def NoBareLess (tokens : List Token) : Prop :=
  tokens.IsChain fun t u => t.kind = .identifier → u.kind ≠ .operator .less

theorem NoBareLess.of_append {a b : List Token} (h : NoBareLess (a ++ b)) : NoBareLess b :=
  List.IsChain.right_of_append h

theorem NoBareLess.of_cons {t : Token} {a : List Token} (h : NoBareLess (t :: a)) : NoBareLess a :=
  NoBareLess.of_append (a := [t]) h

/-! ### The levels of the rules -/

/-- The levels that the rules go through are those of the table. -/
theorem drop_binaryLevels {k : Nat} (hk : k < 10) :
    ∃ l, binaryLevels.drop k = l :: binaryLevels.drop (k + 1) ∧
      (∀ o : Operator, o ∈ l.operators ↔ o.level? = some (k + 1)) ∧
      (l.chains = true ↔ Associativity.ofLevel (k + 1) = .left) := by
  have hall : ∀ l : Level, (∀ o ∈ Operator.all, o ∈ l.operators ↔ o.level? = some (k + 1)) →
      ∀ o : Operator, o ∈ l.operators ↔ o.level? = some (k + 1) :=
    fun l h o => h o o.mem_all
  interval_cases k <;> exact ⟨_, rfl, hall _ (by decide), by decide⟩

/-- No assignment is a binary operator, and no operator after its operand is. -/
theorem Operator.level?_eq_none {o : Operator} (h : o.isAssignment = true ∨ o ∈ suffixOperators) :
    o.level? = none := by
  revert h
  cases o <;> decide

theorem Operator.level?_eq_power {o : Operator} : o.level? = some 11 ↔ o = .power := by
  cases o <;> decide

theorem Operator.level?_le {o : Operator} {n : Nat} (h : o.level? = some n) : 0 < n ∧ n ≤ 11 := by
  cases o <;> cases h <;> decide

/-- Only powers group to the right. -/
theorem Associativity.ofLevel_ne_right {n : Nat} (hn : n ≤ 10) : ofLevel n ≠ .right := by
  unfold ofLevel
  split
  · nofun
  · nofun
  · omega
  · nofun

/-- What is read where a level is asked for. -/
def ReadsLevel : Nat → Reading Expr
  | 0 => ReadsExpr .ternary
  | k + 1 => if k < 11 then ReadsExpr (.levels (binaryLevels.drop k)) else ReadsExpr .unary

theorem readsLevel_binary {k : Nat} (hk : k ≤ 10) :
    ReadsLevel (k + 1) = ReadsExpr (.levels (binaryLevels.drop k)) :=
  if_pos (Nat.lt_succ_of_le hk)

theorem readsLevel_unary {k : Nat} (hk : 11 ≤ k) : ReadsLevel (k + 1) = ReadsExpr .unary :=
  if_neg (Nat.not_lt_of_le hk)

/-! ### Where operands end -/

/-- Tokens before which an operand of a level ends: nothing, the end of a grouping, a part of a
choice, or an operator that binds less tightly. -/
def EndsLevel (n : Nat) (tokens : List Token) : Prop :=
  ∀ t rest, tokens = t :: rest →
    t.kind = .punctuation .rparen ∨ t.kind = .punctuation .colon ∨
    (t.kind = .punctuation .questionMark ∧ 0 < n) ∨
    ∃ o m, t.kind = .operator o ∧ o.level? = some m ∧ m < n

namespace EndsLevel

variable {n m : Nat} {tokens rest : List Token} {t : Token}

theorem nil (n : Nat) : EndsLevel n [] := nofun

theorem rparen (ht : t.kind = .punctuation .rparen) : EndsLevel n (t :: rest) := by
  intro _ _ h
  cases h
  exact .inl ht

theorem colon (ht : t.kind = .punctuation .colon) : EndsLevel n (t :: rest) := by
  intro _ _ h
  cases h
  exact .inr (.inl ht)

theorem question (ht : t.kind = .punctuation .questionMark) (hn : 0 < n) :
    EndsLevel n (t :: rest) := by
  intro _ _ h
  cases h
  exact .inr (.inr (.inl ⟨ht, hn⟩))

theorem operator {o : Operator} (ht : t.kind = .operator o) (ho : o.level? = some m)
    (hm : m < n) : EndsLevel n (t :: rest) := by
  intro _ _ h
  cases h
  exact .inr (.inr (.inr ⟨o, m, ht, ho, hm⟩))

theorem mono (h : EndsLevel n tokens) (hle : n ≤ m) : EndsLevel m tokens := by
  intro t rest ht
  rcases h t rest ht with h | h | ⟨h, hn⟩ | ⟨o, k, h, ho, hk⟩
  · exact .inl h
  · exact .inr (.inl h)
  · exact .inr (.inr (.inl ⟨h, by omega⟩))
  · exact .inr (.inr (.inr ⟨o, k, h, ho, by omega⟩))

/-- An operator that comes next binds less tightly. -/
theorem level_lt (h : EndsLevel n tokens) {o : Operator}
    (ho : headKind? tokens = some (.operator o)) : ∃ m, o.level? = some m ∧ m < n := by
  obtain ⟨t, rest, ht, hkind⟩ := headKind?_eq_some_iff.mp ho
  rcases h t rest ht with h | h | ⟨h, -⟩ | ⟨o', m, h, ho', hm⟩
  · rw [hkind] at h
    cases h
  · rw [hkind] at h
    cases h
  · rw [hkind] at h
    cases h
  · rw [hkind] at h
    cases h
    exact ⟨m, ho', hm⟩

theorem noOperator (h : EndsLevel n tokens) {ops : List Operator}
    (hops : ∀ o ∈ ops, ∀ m, o.level? = some m → n ≤ m) : NoOperator ops tokens := by
  intro o ho hhead
  obtain ⟨m, hm, hlt⟩ := h.level_lt hhead
  have hle := hops o ho m hm
  omega

theorem noAssignment (h : EndsLevel n tokens) : NoAssignment tokens := by
  intro o hhead
  obtain ⟨m, hm, -⟩ := h.level_lt hhead
  rw [← Bool.not_eq_true]
  intro ho
  rw [Operator.level?_eq_none (.inl ho)] at hm
  cases hm

/-- Marks that never end an operand. -/
theorem headKind?_ne (h : EndsLevel n tokens) {mark : Punctuation} (hrparen : mark ≠ .rparen)
    (hcolon : mark ≠ .colon) (hquestion : mark ≠ .questionMark) :
    headKind? tokens ≠ some (.punctuation mark) := by
  intro hhead
  obtain ⟨t, rest, ht, hkind⟩ := headKind?_eq_some_iff.mp hhead
  rcases h t rest ht with h | h | ⟨h, -⟩ | ⟨o, m, h, -⟩
  · exact hrparen (Kind.punctuation.inj (hkind.symm.trans h))
  · exact hcolon (Kind.punctuation.inj (hkind.symm.trans h))
  · exact hquestion (Kind.punctuation.inj (hkind.symm.trans h))
  · rw [hkind] at h
    cases h

/-- At the loosest level no choice follows. -/
theorem headKind?_ne_question (h : EndsLevel 0 tokens) :
    headKind? tokens ≠ some (.punctuation .questionMark) := by
  intro hhead
  obtain ⟨t, rest, ht, hkind⟩ := headKind?_eq_some_iff.mp hhead
  rcases h t rest ht with h | h | ⟨-, h⟩ | ⟨o, m, -, -, h⟩
  · rw [hkind] at h
    cases h
  · rw [hkind] at h
    cases h
  · exact absurd h (Nat.lt_irrefl 0)
  · exact absurd h (Nat.not_lt_zero m)

/-- No suffix follows what is no variable. -/
theorem noSuffix (h : EndsLevel n tokens) {e : Expr} (he : e.isPlace = false) :
    NoSuffix e tokens where
  dot := h.headKind?_ne nofun nofun nofun
  lparen := h.headKind?_ne nofun nofun nofun
  lbracket := h.headKind?_ne nofun nofun nofun
  postUnary := by simp [he]
  typeArguments := by simp [he]

/-- No suffix follows a variable either, as no `<` does. -/
theorem noSuffix_ident (h : EndsLevel n tokens) {name : Token} (hname : name.kind = .identifier)
    (hless : NoBareLess (name :: tokens)) : NoSuffix (.ident name) tokens where
  dot := h.headKind?_ne nofun nofun nofun
  lparen := h.headKind?_ne nofun nofun nofun
  lbracket := h.headKind?_ne nofun nofun nofun
  postUnary := by
    intro _
    refine h.noOperator fun o ho m hm => ?_
    rw [Operator.level?_eq_none (.inr ho)] at hm
    cases hm
  typeArguments := by
    rintro - ⟨l, rest, hl, -⟩
    cases hl with
    | list hangle => exact List.IsChain.rel hless hname hangle

end EndsLevel

/-! ### Reading back -/

/-- Where a level is asked for, an expression is read again from its tokens. -/
def ReadsBack (e : Expr) (n : Nat) : Prop := ∀ rest, EndsLevel n rest →
  NoBareLess (e.tokens ++ rest) → ReadsLevel n (e.tokens ++ rest) e rest

/-- As the first operand of a level that groups to the left an expression is read again, and the
chain goes on from it. -/
def ReadsChain (e : Expr) (n : Nat) : Prop := ∀ l ls, binaryLevels.drop (n - 1) = l :: ls →
  l.chains = true → ∀ rest whole left, EndsLevel (n + 1) rest → NoBareLess (e.tokens ++ rest) →
  ReadsExpr (.chain l.operators ls e) rest whole left →
  ReadsExpr (.levels (l :: ls)) (e.tokens ++ rest) whole left

/-- An expression that is read again where its own level is asked for, and continues a chain of
that level. -/
structure Expr.Readable (e : Expr) : Prop where
  /-- It is read again by itself. -/
  back : ReadsBack e e.level
  /-- It is read again as the first operand of its level. -/
  chain : 0 < e.level → e.level ≤ 10 → ReadsChain e e.level

/-- What binds more tightly than it is asked for is read just as well. -/
theorem ReadsBack.descend {e : Expr} {n : Nat} (h : ReadsBack e (n + 1)) : ReadsBack e n := by
  intro rest hends hless
  have hread := h rest (hends.mono (Nat.le_succ n)) hless
  rcases n with _ | k
  · exact .noChoice hread hends.headKind?_ne_question
  · by_cases hk : k < 10
    · -- one of the levels of binary operators, none of which follows
      obtain ⟨l, hdrop, hops, -⟩ := drop_binaryLevels hk
      have hno : NoOperator l.operators rest := by
        refine hends.noOperator fun o ho m hm => ?_
        rw [(hops o).mp ho] at hm
        cases hm
        exact Nat.le_refl _
      rw [readsLevel_binary (by omega)] at hread
      rw [readsLevel_binary (by omega), hdrop]
      rcases hchains : l.chains with _ | _
      · exact .noComparison hchains hread hno
      · exact .level hchains hread (.chainEnd hno)
    · by_cases hpower : k = 10
      · subst hpower
        have hno : NoOperator [.power] rest := by
          refine hends.noOperator fun o ho m hm => ?_
          rw [List.mem_singleton.mp ho] at hm
          cases hm
          exact Nat.le_refl _
        exact .noLevel (.noPower hread hno)
      · rw [readsLevel_unary (by omega)] at hread ⊢
        exact hread

theorem ReadsBack.mono {e : Expr} {n m : Nat} (h : ReadsBack e m) (hle : n ≤ m) :
    ReadsBack e n := by
  -- one level at a time, as the rules go
  induction hle with
  | refl => exact h
  | step _ ih => exact ih h.descend

/-- What binds more tightly begins a chain. -/
theorem ReadsBack.chain {e : Expr} {n : Nat} (hn : 0 < n) (hn' : n ≤ 10)
    (h : ReadsBack e (n + 1)) : ReadsChain e n := by
  intro l ls hdrop hchains rest whole left hends hless hchain
  obtain ⟨k, rfl⟩ : ∃ k, n = k + 1 := ⟨n - 1, by omega⟩
  obtain ⟨l', hdrop', -⟩ := drop_binaryLevels (k := k) (by omega)
  rw [Nat.add_sub_cancel, hdrop', List.cons.injEq] at hdrop
  obtain ⟨rfl, rfl⟩ := hdrop
  have hread := h rest hends hless
  rw [readsLevel_binary (by omega)] at hread
  exact .level hchains hread hchain

namespace Expr.Readable

variable {e : Expr} {n : Nat}

theorem readsBack (h : e.Readable) (hn : n ≤ e.level) : ReadsBack e n := h.back.mono hn

theorem readsChain (h : e.Readable) (hpos : 0 < n) (hten : n ≤ 10) (hn : n ≤ e.level) :
    ReadsChain e n := by
  rcases Nat.eq_or_lt_of_le hn with rfl | hlt
  · exact h.chain hpos hten
  · exact (h.readsBack hlt).chain hpos hten

/-- What is no binary operation does not continue a chain of its own. -/
theorem of_back (h : ReadsBack e e.level) (hlevel : e.level = 0 ∨ 10 < e.level) :
    e.Readable :=
  ⟨h, fun hpos hten => by omega⟩

/-- A whole expression, before the end of what is around it. -/
theorem readsExpression (h : e.Readable) {rest : List Token} (hends : EndsLevel 0 rest)
    (hless : NoBareLess (e.tokens ++ rest)) :
    ReadsExpr .expression (e.tokens ++ rest) e rest :=
  .plain (h.readsBack (Nat.zero_le _) rest hends hless) hends.noAssignment

end Expr.Readable

/-! ### Operands -/

/-- What is no operation and no variable. -/
theorem readable_of_primary {e : Expr} {t : Token} (htokens : e.tokens = [t])
    (hlevel : e.level = primaryLevel) (hplace : e.isPlace = false)
    (h : ∀ rest, ReadsExpr .primary (t :: rest) e rest) : e.Readable := by
  refine .of_back ?_ (.inr (by rw [hlevel]; decide))
  rw [hlevel]
  intro rest hends hless
  rw [htokens]
  refine .suffixed ?_ (h rest) (.noSuffix (hends.noSuffix hplace))
  intro o _ hkind
  exact Reader.kind_ne_operator_of_primary (h rest) o (Option.some.inj hkind)

theorem readable_ident {name : Token} (hname : name.kind = .identifier) :
    (Expr.ident name).Readable := by
  refine .of_back ?_ (.inr (by decide : 10 < primaryLevel))
  intro rest hends hless
  refine .suffixed ?_ (.ident hname) (.noSuffix (hends.noSuffix_ident hname hless))
  intro o _ hkind
  have hname' : name.kind = .operator o := Option.some.inj hkind
  rw [hname] at hname'
  cases hname'

theorem tokens_inParens (e : Expr) (rest : List Token) :
    e.inParens.tokens ++ rest =
      (Piece.punct .lparen).token :: (e.tokens ++ (Piece.punct .rparen).token :: rest) := by
  simp [Expr.tokens, Expr.inParens, Expr.pieces]

/-- Parentheses make an operand of anything. -/
theorem Expr.Readable.inParens {e : Expr} (h : e.Readable) : e.inParens.Readable := by
  refine .of_back ?_ (.inr (by decide : 10 < primaryLevel))
  intro rest hends hless
  rw [tokens_inParens] at hless ⊢
  refine .suffixed ?_ (.grouping rfl (h.readsExpression (.rparen rfl) hless.of_cons) rfl)
    (.noSuffix (hends.noSuffix rfl))
  intro o _ hkind
  cases hkind

theorem Expr.Readable.atLeast {e : Expr} (h : e.Readable) (least : Nat) :
    (e.atLeast least).Readable := by
  unfold Expr.atLeast
  split
  · exact h.inParens
  · exact h

/-- Whatever stands at a place that asks for a level is of that level. -/
theorem Expr.le_level_atLeast {least : Nat} (hleast : least ≤ primaryLevel) (e : Expr) :
    least ≤ (e.atLeast least).level := by
  unfold Expr.atLeast
  split
  · exact hleast
  · next h => exact Nat.le_of_not_lt h

/-! ### Operations -/

theorem readable_unary {op : Token} {o : Operator} {operand : Expr} (hop : op.kind = .operator o)
    (ho : o ∈ prefixOperators) (h : operand.Readable) (hlevel : prefixLevel ≤ operand.level) :
    (Expr.unary op operand).Readable := by
  refine .of_back ?_ (.inr (by decide : 10 < prefixLevel))
  intro rest hends hless
  exact .prefixed hop ho (h.readsBack hlevel rest hends hless.of_cons)

theorem tokens_binary (left : Expr) (op : Token) (right : Expr) (rest : List Token) :
    (Expr.binary left op right).tokens ++ rest = left.tokens ++ op :: (right.tokens ++ rest) :=
  tokensOf_append_cons left.pieces right.pieces (.kept op) rest

theorem level_of_kind {op : Token} {o : Operator} {n : Nat} (hop : op.kind = .operator o)
    (ho : o.level? = some n) : op.level = n := by
  simp [Token.level, hop, ho]

section Binary

variable {op : Token} {o : Operator} {left right : Expr} {n : Nat} (hop : op.kind = .operator o)
  (ho : o.level? = some n) (hleft : left.Readable) (hright : right.Readable)
  (hleftLevel : leftLeast n ≤ left.level) (hrightLevel : rightLeast n ≤ right.level)

include hop ho hleft hright hleftLevel hrightLevel

/-- A power takes a prefixed operand on its left and a power on its right. -/
theorem readable_power (hn : n = 11) : (Expr.binary left op right).Readable := by
  subst hn
  have hlevel : (Expr.binary left op right).level = 11 := level_of_kind hop ho
  refine .of_back ?_ (.inr (by omega))
  rw [hlevel]
  intro rest hends hless
  rw [tokens_binary] at hless ⊢
  have hbase : ReadsExpr .unary _ left _ :=
    hleft.readsBack hleftLevel _ (.operator hop ho (Nat.lt_succ_self _)) hless
  have hexponent : ReadsExpr (.levels []) _ right _ :=
    hright.readsBack hrightLevel rest hends hless.of_append.of_cons
  -- below the binary levels only the rule for powers is left, which calls itself on the right
  cases hexponent with
  | noLevel hexponent =>
    exact .noLevel (.power hbase (by rw [hop, Operator.level?_eq_power.mp ho]) hexponent)

/-- A comparison takes operands that bind more tightly on both sides. -/
theorem readable_comparison (hn : n ≤ 10) (hassoc : Associativity.ofLevel n ≠ .left) :
    (Expr.binary left op right).Readable := by
  have hlevel : (Expr.binary left op right).level = n := level_of_kind hop ho
  have hpos := (Operator.level?_le ho).1
  obtain ⟨k, rfl⟩ : ∃ k, n = k + 1 := ⟨n - 1, by omega⟩
  obtain ⟨l, hdrop, hops, hchains⟩ := drop_binaryLevels (k := k) (by omega)
  rw [leftLeast, if_neg hassoc] at hleftLevel
  rw [rightLeast, if_neg (Associativity.ofLevel_ne_right hn)] at hrightLevel
  have hnochain : l.chains = false := by
    rw [← Bool.not_eq_true, hchains]
    exact hassoc
  constructor
  · rw [hlevel]
    intro rest hends hless
    rw [tokens_binary] at hless ⊢
    have hfirst := hleft.readsBack hleftLevel (op :: (right.tokens ++ rest))
      (.operator hop ho (Nat.lt_succ_self _)) hless
    have hsecond := hright.readsBack hrightLevel rest (hends.mono (Nat.le_succ _))
      hless.of_append.of_cons
    have hno : NoOperator l.operators rest := by
      refine hends.noOperator fun o' ho' m hm => ?_
      rw [(hops o').mp ho'] at hm
      cases hm
      exact Nat.le_refl _
    rw [readsLevel_binary (by omega)] at hfirst hsecond
    rw [readsLevel_binary (by omega), hdrop]
    exact .comparison hnochain hfirst hop ((hops o).mpr ho) hsecond hno
  · -- a level of comparisons has no chains
    intro _ _ l' ls hdrop' hchains'
    rw [hlevel, Nat.add_sub_cancel, hdrop, List.cons.injEq] at hdrop'
    rw [← hdrop'.1, hnochain] at hchains'
    cases hchains'

/-- An operation that groups to the left takes one of its own level on its left. -/
theorem readable_chain (hn : n ≤ 10) (hassoc : Associativity.ofLevel n = .left) :
    (Expr.binary left op right).Readable := by
  have hlevel : (Expr.binary left op right).level = n := level_of_kind hop ho
  have hpos := (Operator.level?_le ho).1
  obtain ⟨k, rfl⟩ : ∃ k, n = k + 1 := ⟨n - 1, by omega⟩
  obtain ⟨l, hdrop, hops, hchains⟩ := drop_binaryLevels (k := k) (by omega)
  have hchain : l.chains = true := hchains.mpr hassoc
  rw [leftLeast, if_pos hassoc] at hleftLevel
  rw [rightLeast, if_neg (by rw [hassoc]; nofun)] at hrightLevel
  -- the left operand begins the chain, and this operation is one more link of it
  have hlink : ReadsChain (.binary left op right) (k + 1) := by
    intro l' ls hdrop' hchains' rest whole remains hends hless hmore
    rw [Nat.add_sub_cancel, hdrop, List.cons.injEq] at hdrop'
    obtain ⟨rfl, rfl⟩ := hdrop'
    rw [tokens_binary] at hless ⊢
    have hsecond := hright.readsBack hrightLevel rest hends hless.of_append.of_cons
    rw [readsLevel_binary (by omega)] at hsecond
    exact hleft.readsChain hpos hn hleftLevel l _ hdrop hchain _ whole remains
      (.operator hop ho (Nat.lt_succ_self _)) hless
      (.chainMore hop ((hops o).mpr ho) hsecond hmore)
  constructor
  · rw [hlevel]
    intro rest hends hless
    have hno : NoOperator l.operators rest := by
      refine hends.noOperator fun o' ho' m hm => ?_
      rw [(hops o').mp ho'] at hm
      cases hm
      exact Nat.le_refl _
    rw [readsLevel_binary (by omega), hdrop]
    exact hlink l _ hdrop hchain rest _ rest (hends.mono (Nat.le_succ _)) hless (.chainEnd hno)
  · rw [hlevel]
    intro _ _
    exact hlink

theorem readable_binary : (Expr.binary left op right).Readable := by
  have hle := (Operator.level?_le ho).2
  by_cases hpower : n = 11
  · exact readable_power hop ho hleft hright hleftLevel hrightLevel hpower
  · by_cases hassoc : Associativity.ofLevel n = .left
    · exact readable_chain hop ho hleft hright hleftLevel hrightLevel (by omega) hassoc
    · exact readable_comparison hop ho hleft hright hleftLevel hrightLevel (by omega) hassoc

end Binary

theorem tokens_ternary (condition yes : Expr) (colon : Token) (no : Expr) (rest : List Token) :
    (Expr.ternary condition yes colon no).tokens ++ rest =
      condition.tokens ++ (Piece.punct .questionMark).token ::
        (yes.tokens ++ colon :: (no.tokens ++ rest)) := by
  simp [Expr.tokens, Expr.pieces]

theorem readable_ternary {condition yes no : Expr} {colon : Token}
    (hcolon : colon.kind = .punctuation .colon) (hcondition : condition.Readable)
    (hlevel : 1 ≤ condition.level) (hyes : yes.Readable) (hno : no.Readable) :
    (Expr.ternary condition yes colon no).Readable := by
  refine .of_back ?_ (.inl rfl)
  intro rest hends hless
  rw [tokens_ternary] at hless ⊢
  have hfirst := hcondition.readsBack hlevel _ (.question rfl Nat.one_pos) hless
  have hsecond := hyes.readsExpression (.colon hcolon) hless.of_append.of_cons
  have hthird := hno.readsBack (Nat.zero_le _) rest hends
    hless.of_append.of_cons.of_append.of_cons
  exact .choice hfirst rfl hsecond hcolon hthird

/-! ### Formulas -/

theorem leftLeast_le {n : Nat} (hn : n ≤ 11) : leftLeast n ≤ primaryLevel := by
  unfold leftLeast primaryLevel
  split <;> omega

theorem rightLeast_le {n : Nat} (hn : n ≤ 11) : rightLeast n ≤ primaryLevel := by
  unfold rightLeast primaryLevel
  split <;> omega

/-- Every formula is read again with its groupings. -/
theorem Expr.IsFormula.readable {e : Expr} (h : e.IsFormula) : e.grouped.Readable := by
  induction h with
  | literal ht hkind hvalue =>
    exact readable_of_primary rfl rfl rfl fun _ => .literal ht hkind hvalue
  | yes ht => exact readable_of_primary rfl rfl rfl fun _ => .yes ht
  | no ht => exact readable_of_primary rfl rfl rfl fun _ => .no ht
  | this ht => exact readable_of_primary rfl rfl rfl fun _ => .this ht
  | ident ht => exact readable_ident ht
  | prefixed hop ho _ ih =>
    exact readable_unary hop ho (ih.atLeast _) (le_level_atLeast (by decide) _)
  | @binary op o left right hop ho _ _ ihleft ihright =>
    obtain ⟨n, hn⟩ := Option.isSome_iff_exists.mp ho
    have hle := (Operator.level?_le hn).2
    rw [grouped, level_of_kind hop hn]
    exact readable_binary hop hn (ihleft.atLeast _) (ihright.atLeast _)
      (le_level_atLeast (leftLeast_le hle) _) (le_level_atLeast (rightLeast_le hle) _)
  | ternary hcolon _ _ _ ihcondition ihyes ihno =>
    exact readable_ternary hcolon (ihcondition.atLeast 1) (le_level_atLeast (by decide) _) ihyes
      ihno

/-- No token of a formula is an end. -/
theorem Expr.IsFormula.not_isEnd {e : Expr} (h : e.IsFormula) :
    ∀ t ∈ e.grouped.tokens, t.isEnd = false := by
  have hparens : ∀ (least : Nat) {x : Expr}, (∀ t ∈ x.tokens, t.isEnd = false) →
      ∀ t ∈ (x.atLeast least).tokens, t.isEnd = false := by
    intro least x hx t ht
    unfold Expr.atLeast at ht
    split at ht
    · rw [← List.append_nil x.inParens.tokens, tokens_inParens, List.mem_cons, List.mem_append,
        List.mem_singleton] at ht
      rcases ht with rfl | ht | rfl
      · rfl
      · exact hx t ht
      · rfl
    · exact hx t ht
  induction h with
  | literal ht | yes ht | no ht | this ht | ident ht =>
    intro u hu
    simp [List.mem_singleton.mp hu, Token.isEnd, ht]
  | prefixed hop _ _ ih =>
    intro u hu
    rcases List.mem_cons.mp hu with rfl | hu
    · simp [Token.isEnd, hop]
    · exact hparens _ ih u hu
  | binary hop _ _ _ ihleft ihright =>
    intro u hu
    rw [grouped, ← List.append_nil (Expr.tokens _), tokens_binary, List.append_nil,
      List.mem_append, List.mem_cons] at hu
    rcases hu with hu | rfl | hu
    · exact hparens _ ihleft u hu
    · simp [Token.isEnd, hop]
    · exact hparens _ ihright u hu
  | ternary hcolon _ _ _ ihcondition ihyes ihno =>
    intro u hu
    rw [grouped, ← List.append_nil (Expr.tokens _), tokens_ternary, List.append_nil,
      List.mem_append, List.mem_cons, List.mem_append, List.mem_cons] at hu
    rcases hu with hu | rfl | hu | rfl | hu
    · exact hparens 1 ihcondition u hu
    · rfl
    · exact ihyes u hu
    · simp [Token.isEnd, hcolon]
    · exact ihno u hu

/-- **Formulas are read as the table says.**

A formula is written with its groupings, and with any number of ends after it.  If no `<` directly
follows a variable there, reading an expression succeeds and returns the formula with its
groupings; nothing is left but the end, and nothing is reported. -/
theorem Reader.expression_grouped {e : Expr} (he : e.IsFormula)
    (hless : NoBareLess e.grouped.tokens) (ends : List Span) :
    ∃ s, expression (.ofStream ⟨e.grouped.tokens ++ ends.map .endOfFile, false⟩) =
        .ok e.grouped s ∧
      s.cursor.ahead = [] ∧ s.hadError = false ∧ findings s.remarks = [] := by
  let stream : TokenStream := ⟨e.grouped.tokens ++ ends.map .endOfFile, false⟩
  have hends : ∀ t ∈ ends.map Token.endOfFile, t.isEnd = true := by
    intro t ht
    obtain ⟨span, -, rfl⟩ := List.mem_map.mp ht
    rfl
  have hahead : (ReaderState.ofStream stream).cursor.ahead = e.grouped.tokens :=
    congrArg Cursor.ahead (Cursor.ofTokens_append_ends he.not_isEnd hends)
  have hread : ReadsExpr .expression e.grouped.tokens e.grouped [] := by
    have hnil := List.append_nil e.grouped.tokens
    have hwhole := he.readable.readsExpression (.nil 0) (hnil.symm ▸ hless)
    rwa [hnil] at hwhole
  have hmeets := meets_expression _ _ (placed_ofStream stream).from_self (Nat.lt_succ_self _)
  obtain ⟨s, hrun, herror, hrest⟩ :=
    (hmeets.clean rfl e.grouped []).mpr (by rw [hahead]; exact hread)
  have hleads : (ReaderState.ofStream stream).Leads s := by simpa [hrun] using hmeets.leads
  refine ⟨s, hrun, hrest, herror, ?_⟩
  rw [List.eq_nil_iff_forall_not_mem]
  intro f hf
  have := (hleads.hadError_iff_findings rfl rfl rfl).mpr ⟨f, hf⟩
  rw [herror] at this
  cases this

/-- A variable with a name. -/
def Expr.named (name : String) : Expr :=
  .ident { kind := .identifier, lexeme := name, span := .atOrigin "", literal := some (.str name) }

/-- A whole number. -/
def Expr.numbered (n : Nat) : Expr :=
  .literal (.int n)
    { kind := .literal .int, lexeme := toString n, span := .atOrigin "", literal := some (.int n) }

/-- The choice of a difference or a comparison, by a choice. -/
def Expr.mixed : Expr :=
  let word (w : Keyword) : Token := (Piece.mark (.keyword w)).token
  let binary (left : Expr) (o : Operator) (right : Expr) : Expr :=
    .binary left (Piece.mark (.operator o)).token right
  let colon : Token := (Piece.punct .colon).token
  .ternary (.ternary (named "a") (.literal (.bool true) (word .true)) colon (named "b"))
    (binary (binary (numbered 1) .minus (numbered 2)) .minus
      (binary (numbered 3) .minus (named "x"))) colon
    (binary (.this (word .this)) .less (binary (numbered 2) .power
      (binary (.unary (Piece.mark (.operator .minus)).token (named "x")) .power (named "y"))))

theorem Expr.isFormula_mixed : Expr.mixed.IsFormula := by
  have hname : ∀ name, (named name).IsFormula := fun _ => .ident rfl
  have hnumber : ∀ n, (numbered n).IsFormula := fun n =>
    @IsFormula.literal _ .int (.int n) rfl nofun rfl
  exact .ternary rfl (.ternary rfl (hname "a") (.yes rfl) (hname "b"))
    (.binary (o := .minus) rfl rfl
      (.binary (o := .minus) rfl rfl (hnumber 1) (hnumber 2))
      (.binary (o := .minus) rfl rfl (hnumber 3) (hname "x")))
    (.binary (o := .less) rfl rfl (.this rfl) (.binary (o := .power) rfl rfl (hnumber 2)
      (.binary (o := .power) rfl rfl (.prefixed (o := .minus) rfl (by decide) (hname "x"))
        (hname "y"))))

/-- Parentheses are written around the inner choice and the second difference only. -/
theorem Reader.expression_grouped_mixed :
    Expr.mixed.grouped.tokens.map Token.lexeme =
      ["(", "a", "?", "true", ":", "b", ")", "?", "1", "-", "2", "-", "(", "3", "-", "x", ")", ":",
       "this", "<", "2", "**", "-", "x", "**", "y"] ∧
    ∃ s, expression (.ofStream ⟨Expr.mixed.grouped.tokens ++ [].map .endOfFile, false⟩) =
        .ok Expr.mixed.grouped s ∧
      s.cursor.ahead = [] ∧ s.hadError = false ∧ findings s.remarks = [] :=
  ⟨by decide +kernel,
    expression_grouped Expr.isFormula_mixed (by unfold NoBareLess; decide +kernel) []⟩

end CurlyScript
