import CurlyScript.Proofs.Sameness

/-!
# Likeness

Two runs of the parser are compared part by part: the tokens that they read, the trees that they
build, the errors that they meet and the events that they note.  The parts may be identical, or
the same up to the place.  What is said about two runs is said for both kinds of likeness at once,
as it rests only on what the two have in common: alike trees have the same shape and alike parts,
and alike tokens have the same kind.

## Main definitions

* `HasSame` — types whose values are compared up to the place.
* `SyntaxError.same`, `ReaderEvent.same` — sameness of errors and events up to the place.
* `Likeness`, `Like` — the two kinds of likeness, and values that are alike.

## Main results

* `Like.map` — functions that respect sameness respect likeness.
* One lemma for each shape of tree, from the parts to the whole and back.
* `Like.place_cases` — of two alike expressions either both are places or none is.
-/

namespace CurlyScript

/-! ### Sameness -/

/-- Types whose values are compared up to the place. -/
class HasSame (α : Type) where
  /-- Sameness up to the place. -/
  same : α → α → Bool

/-- Sameness of errors up to the place. -/
def SyntaxError.same (a b : SyntaxError) : Bool := a.cause == b.cause && a.token.same b.token

/-- Sameness of events up to the place. -/
def ReaderEvent.same : ReaderEvent → ReaderEvent → Bool
  | .reported a, .reported b => a.same b
  | .suppressed a, .suppressed b => a.same b
  | .split _, .split _ => true
  | .tryingGenerics _, .tryingGenerics _ => true
  | .genericsWithoutCall, .genericsWithoutCall => true
  | .notGenerics a, .notGenerics b => a.same b
  | .missingCondition a, .missingCondition b => a.same b
  | .forEachLoop a, .forEachLoop b => a.same b
  | .resumed a, .resumed b => a.same b
  | .parsed a, .parsed b => a == b
  | .finished a errorA, .finished b errorB => a == b && errorA == errorB
  | _, _ => false

section Instances

variable {α β : Type}

instance : HasSame Unit := ⟨fun _ _ => true⟩
instance : HasSame Bool := ⟨(· == ·)⟩
instance : HasSame Nat := ⟨(· == ·)⟩
instance : HasSame Literal := ⟨Literal.same⟩
instance : HasSame Constant := ⟨Constant.same⟩
instance : HasSame Token := ⟨Token.same⟩
instance : HasSame TypeRef := ⟨TypeRef.same⟩
instance : HasSame TypeList := ⟨TypeList.same⟩
instance : HasSame Param := ⟨Param.same⟩
instance : HasSame Expr := ⟨Expr.same⟩
instance : HasSame VarDecl := ⟨VarDecl.same⟩
instance : HasSame LoopInit := ⟨LoopInit.same⟩
instance : HasSame Stmt := ⟨Stmt.same⟩
instance : HasSame Block := ⟨Block.same⟩
instance : HasSame FunctionDecl := ⟨FunctionDecl.same⟩
instance : HasSame SwitchCase := ⟨SwitchCase.same⟩
instance : HasSame SyntaxError := ⟨SyntaxError.same⟩
instance : HasSame ReaderEvent := ⟨ReaderEvent.same⟩
instance [HasSame α] : HasSame (Option α) := ⟨sameOption HasSame.same⟩
instance [HasSame α] : HasSame (List α) := ⟨sameList HasSame.same⟩
instance [HasSame α] [HasSame β] : HasSame (α × β) :=
  ⟨fun a b => HasSame.same a.1 b.1 && HasSame.same a.2 b.2⟩

end Instances

attribute [local simp] sameOption sameList

theorem sameTypes_eq (as bs : List TypeRef) : sameTypes as bs = sameList TypeRef.same as bs := by
  induction as generalizing bs with
  | nil => cases bs <;> simp [sameTypes]
  | cons a as ih => cases bs <;> simp [sameTypes, ih]

theorem sameAll_eq (as bs : List Expr) : Expr.sameAll as bs = sameList Expr.same as bs := by
  induction as generalizing bs with
  | nil => cases bs <;> simp [Expr.sameAll]
  | cons a as ih => cases bs <;> simp [Expr.sameAll, ih]

theorem sameStmts_eq (as bs : List Stmt) : sameStmts as bs = sameList Stmt.same as bs := by
  induction as generalizing bs with
  | nil => cases bs <;> simp [sameStmts]
  | cons a as ih => cases bs <;> simp [sameStmts, ih]

theorem sameFunctions_eq (as bs : List FunctionDecl) :
    sameFunctions as bs = sameList FunctionDecl.same as bs := by
  induction as generalizing bs with
  | nil => cases bs <;> simp [sameFunctions]
  | cons a as ih => cases bs <;> simp [sameFunctions, ih]

theorem sameCases_eq (as bs : List SwitchCase) :
    sameCases as bs = sameList SwitchCase.same as bs := by
  induction as generalizing bs with
  | nil => cases bs <;> simp [sameCases]
  | cons a as ih => cases bs <;> simp [sameCases, ih]

theorem sameElse_eq (a b : Option Stmt) : sameElse a b = sameOption Stmt.same a b := by
  cases a <;> cases b <;> simp [sameElse]

theorem sameDefault_eq (a b : Option Block) : sameDefault a b = sameOption Block.same a b := by
  cases a <;> cases b <;> simp [sameDefault]

/-! ### Likeness -/

/-- How much the parts of two runs have in common. -/
inductive Likeness
  /-- They are identical. -/
  | identical
  /-- They are the same up to the place. -/
  | upToPlace

/-- Two values that are alike. -/
def Like {α : Type} [HasSame α] (l : Likeness) (a b : α) : Prop :=
  match l with
  | .identical => a = b
  | .upToPlace => HasSame.same a b = true

variable {l : Likeness}

theorem like_identical {α : Type} [HasSame α] {a b : α} : Like .identical a b ↔ a = b := Iff.rfl

theorem like_upToPlace {α : Type} [HasSame α] {a b : α} :
    Like .upToPlace a b ↔ HasSame.same a b = true := Iff.rfl

-- what alike values have in common is shown for the two kinds of likeness in turn
attribute [local simp] like_identical like_upToPlace HasSame.same and_assoc

section Like

variable {α β : Type} [HasSame α] [HasSame β]

theorem Like.of_eq {a b : α} (h : a = b) (hsame : HasSame.same a b = true) : Like l a b := by
  cases l
  · exact h
  · exact hsame

/-- Functions that respect sameness respect likeness. -/
theorem Like.map {a b : α} (h : Like l a b) (f : α → β)
    (hf : ∀ a b, HasSame.same a b = true → HasSame.same (f a) (f b) = true) :
    Like l (f a) (f b) := by
  cases l with
  | identical => exact congrArg f h
  | upToPlace => exact hf a b h

/-! ### Parts without a place -/

@[simp] theorem like_bool_iff {a b : Bool} : Like l a b ↔ a = b := by
  cases l <;> simp

@[simp] theorem like_nat_iff {a b : Nat} : Like l a b ↔ a = b := by
  cases l <;> simp

@[simp] theorem like_unit (a b : Unit) : Like l a b := by
  cases l <;> simp

/-! ### Optional parts, lists and pairs -/

@[simp] theorem like_none : Like l (none : Option α) none := .of_eq rfl rfl

@[simp] theorem like_some {a b : α} : Like l (some a) (some b) ↔ Like l a b := by
  cases l <;> simp

@[simp] theorem not_like_none_some {a : α} : ¬ Like l none (some a) := by
  cases l <;> simp

@[simp] theorem not_like_some_none {a : α} : ¬ Like l (some a) none := by
  cases l <;> simp

@[simp] theorem like_nil : Like l ([] : List α) [] := .of_eq rfl rfl

@[simp] theorem like_cons {a b : α} {as bs : List α} :
    Like l (a :: as) (b :: bs) ↔ Like l a b ∧ Like l as bs := by
  cases l <;> simp

@[simp] theorem not_like_nil_cons {a : α} {as : List α} : ¬ Like l [] (a :: as) := by
  cases l <;> simp

@[simp] theorem not_like_cons_nil {a : α} {as : List α} : ¬ Like l (a :: as) [] := by
  cases l <;> simp

@[simp] theorem like_pair {a b : α} {c d : β} :
    Like l (a, c) (b, d) ↔ Like l a b ∧ Like l c d := by
  cases l <;> simp

/-- Two alike optional values are both missing, or both there and alike. -/
theorem Like.option_cases {o o' : Option α} (h : Like l o o') :
    (o = none ∧ o' = none) ∨ ∃ a b, o = some a ∧ o' = some b ∧ Like l a b := by
  rcases o with _ | a <;> rcases o' with _ | b
  · exact .inl ⟨rfl, rfl⟩
  · exact absurd h not_like_none_some
  · exact absurd h not_like_some_none
  · exact .inr ⟨a, b, rfl, rfl, like_some.mp h⟩

/-- Two alike lists are both empty, or begin alike and go on alike. -/
theorem Like.list_cases {as bs : List α} (h : Like l as bs) :
    (as = [] ∧ bs = []) ∨ ∃ a b as' bs', as = a :: as' ∧ bs = b :: bs' ∧ Like l a b ∧
      Like l as' bs' := by
  rcases as with _ | ⟨a, as⟩ <;> rcases bs with _ | ⟨b, bs⟩
  · exact .inl ⟨rfl, rfl⟩
  · exact absurd h not_like_nil_cons
  · exact absurd h not_like_cons_nil
  · obtain ⟨hab, hrest⟩ := like_cons.mp h
    exact .inr ⟨a, b, as, bs, rfl, rfl, hab, hrest⟩

theorem Like.append {as bs as' bs' : List α} (h : Like l as bs) (h' : Like l as' bs') :
    Like l (as ++ as') (bs ++ bs') := by
  induction as generalizing bs with
  | nil =>
    obtain ⟨-, rfl⟩ | ⟨_, _, _, _, hnil, -⟩ := h.list_cases
    · exact h'
    · cases hnil
  | cons a as ih =>
    obtain ⟨hnil, -⟩ | ⟨_, b, _, bs, heq, rfl, hab, hrest⟩ := h.list_cases
    · cases hnil
    · cases heq
      exact like_cons.mpr ⟨hab, ih hrest⟩

theorem Like.length_eq {as bs : List α} (h : Like l as bs) : as.length = bs.length := by
  induction as generalizing bs with
  | nil =>
    obtain ⟨-, rfl⟩ | ⟨_, _, _, _, hnil, -⟩ := h.list_cases
    · rfl
    · cases hnil
  | cons a as ih =>
    obtain ⟨hnil, -⟩ | ⟨_, b, _, bs, heq, rfl, -, hrest⟩ := h.list_cases
    · cases hnil
    · cases heq
      exact congrArg Nat.succ (ih hrest)

theorem like_reverse {as bs : List α} (h : Like l as bs) : Like l as.reverse bs.reverse := by
  induction as generalizing bs with
  | nil =>
    obtain ⟨-, rfl⟩ | ⟨_, _, _, _, hnil, -⟩ := h.list_cases
    · exact like_nil
    · cases hnil
  | cons a as ih =>
    obtain ⟨hnil, -⟩ | ⟨_, b, _, bs, heq, rfl, hab, hrest⟩ := h.list_cases
    · cases hnil
    · cases heq
      rw [List.reverse_cons, List.reverse_cons]
      exact (ih hrest).append (like_cons.mpr ⟨hab, like_nil⟩)

end Like

/-! ### Tokens -/

theorem like_token_iff {t u : Token} :
    Like l t u ↔ t.kind = u.kind ∧ t.lexeme = u.lexeme ∧ Like l t.literal u.literal ∧
      (l = .identical → t.span = u.span) := by
  cases l
  · rcases t with ⟨kind, lexeme, span, literal⟩
    rcases u with ⟨kind', lexeme', span', literal'⟩
    simp only [like_identical, Token.mk.injEq, true_imp_iff]
    constructor
    · rintro ⟨hkind, hlexeme, hspan, hliteral⟩
      exact ⟨hkind, hlexeme, hliteral, hspan⟩
    · rintro ⟨hkind, hlexeme, hliteral, hspan⟩
      exact ⟨hkind, hlexeme, hspan, hliteral⟩
  · simp [Token.same]

section Token

variable {t u : Token}

theorem Like.kind_eq (h : Like l t u) : t.kind = u.kind := (like_token_iff.mp h).1

theorem Like.lexeme_eq (h : Like l t u) : t.lexeme = u.lexeme := (like_token_iff.mp h).2.1

theorem Like.literal (h : Like l t u) : Like l t.literal u.literal := (like_token_iff.mp h).2.2.1

theorem Like.span_eq (h : Like l t u) : l = .identical → t.span = u.span :=
  (like_token_iff.mp h).2.2.2

/-- Tokens that are made at alike places. -/
theorem like_made {kind : Kind} {lexeme : String} {span span' : Span}
    (hspan : l = .identical → span = span') :
    Like l ({ kind, lexeme, span } : Token) { kind, lexeme, span := span' } :=
  like_token_iff.mpr ⟨rfl, rfl, like_none, hspan⟩

theorem Like.recast (h : Like l t u) (kind : Kind) (lexeme : String) :
    Like l (t.recast kind lexeme) (u.recast kind lexeme) := like_made h.span_eq

theorem Like.halfShift (h : Like l t u) (skip : Nat) :
    Like l (halfShift t skip) (halfShift u skip) :=
  h.map (CurlyScript.halfShift · skip) fun _ _ _ => rfl

end Token

/-! ### Types -/

@[simp] theorem like_typeRef {name name' : Token} {generics generics' : Option TypeList}
    {bound bound' : Option TypeRef} :
    Like l (⟨name, generics, bound⟩ : TypeRef) ⟨name', generics', bound'⟩ ↔
      Like l name name' ∧ Like l generics generics' ∧ Like l bound bound' := by
  cases l <;> simp [TypeRef.same, sameGenerics_eq, sameBound_eq]

@[simp] theorem like_typeList {angle angle' : Token} {entries entries' : List TypeRef} :
    Like l (⟨angle, entries⟩ : TypeList) ⟨angle', entries'⟩ ↔
      Like l angle angle' ∧ Like l entries entries' := by
  cases l <;> simp [TypeList.same, sameTypes_eq]

@[simp] theorem like_param {name name' : Token} {type type' : TypeRef} :
    Like l (⟨name, type⟩ : Param) ⟨name', type'⟩ ↔ Like l name name' ∧ Like l type type' := by
  cases l <;> simp [Param.same]

/-! ### Expressions -/

section Expr

attribute [local simp] Expr.same

variable {e e' left left' right right' : Expr} {t t' u u' : Token}

theorem Like.ofLiteral {value value' : Literal} (h : Like l value value') :
    Like l (Constant.ofLiteral value) (Constant.ofLiteral value') := by
  refine h.map Constant.ofLiteral fun a b hsame => ?_
  cases a <;> cases b <;> exact hsame

@[simp] theorem like_literal {value value' : Constant} :
    Like l (Expr.literal value t) (.literal value' t') ↔ Like l value value' ∧ Like l t t' := by
  cases l <;> simp

@[simp] theorem like_binary :
    Like l (Expr.binary left t right) (.binary left' t' right') ↔
      Like l left left' ∧ Like l t t' ∧ Like l right right' := by
  cases l <;> simp

@[simp] theorem like_unary :
    Like l (Expr.unary t e) (.unary t' e') ↔ Like l t t' ∧ Like l e e' := by
  cases l <;> simp

@[simp] theorem like_postUnary :
    Like l (Expr.postUnary e t) (.postUnary e' t') ↔ Like l e e' ∧ Like l t t' := by
  cases l <;> simp

@[simp] theorem like_grouping :
    Like l (Expr.grouping t e u) (.grouping t' e' u') ↔
      Like l t t' ∧ Like l e e' ∧ Like l u u' := by
  cases l <;> simp

@[simp] theorem like_ident : Like l (Expr.ident t) (.ident t') ↔ Like l t t' := by
  cases l <;> simp

@[simp] theorem like_assign {compound compound' : Option Operator} :
    Like l (Expr.assign t compound e) (.assign t' compound' e') ↔
      Like l t t' ∧ compound = compound' ∧ Like l e e' := by
  cases l <;> simp

@[simp] theorem like_call {generics generics' : Option TypeList} {args args' : List Expr} :
    Like l (Expr.call e generics args t) (.call e' generics' args' t') ↔
      Like l e e' ∧ Like l generics generics' ∧ Like l args args' ∧ Like l t t' := by
  cases l <;> simp [sameAll_eq]

@[simp] theorem like_get :
    Like l (Expr.get e t) (.get e' t') ↔ Like l e e' ∧ Like l t t' := by
  cases l <;> simp

@[simp] theorem like_set {compound compound' : Option Operator} {value value' : Expr} :
    Like l (Expr.set e t compound value) (.set e' t' compound' value') ↔
      Like l e e' ∧ Like l t t' ∧ compound = compound' ∧ Like l value value' := by
  cases l <;> simp

@[simp] theorem like_ternary :
    Like l (Expr.ternary e left t right) (.ternary e' left' t' right') ↔
      Like l e e' ∧ Like l left left' ∧ Like l t t' ∧ Like l right right' := by
  cases l <;> simp

@[simp] theorem like_this : Like l (Expr.this t) (.this t') ↔ Like l t t' := by
  cases l <;> simp

@[simp] theorem like_array {elements elements' : List Expr} :
    Like l (Expr.array t elements u) (.array t' elements' u') ↔
      Like l t t' ∧ Like l elements elements' ∧ Like l u u' := by
  cases l <;> simp [sameAll_eq]

@[simp] theorem like_index :
    Like l (Expr.index left right t) (.index left' right' t') ↔
      Like l left left' ∧ Like l right right' ∧ Like l t t' := by
  cases l <;> simp

@[simp] theorem like_lambda {generics generics' : Option TypeList} {params params' : List Param}
    {returnType returnType' : Option TypeRef} :
    Like l (Expr.lambda t generics params returnType e)
        (.lambda t' generics' params' returnType' e') ↔
      Like l t t' ∧ Like l generics generics' ∧ Like l params params' ∧
        Like l returnType returnType' ∧ Like l e e' := by
  cases l <;> simp

/-- Of two alike expressions both are variables, or both are members, or none is a place. -/
theorem Like.place_cases (h : Like l e e') :
    (∃ name name', e = .ident name ∧ e' = .ident name' ∧ Like l name name') ∨
    (∃ object object' member member', e = .get object member ∧ e' = .get object' member' ∧
      Like l object object' ∧ Like l member member') ∨
    (e.isPlace = false ∧ e'.isPlace = false) := by
  cases l with
  | identical =>
    cases h
    cases e with
    | ident name => exact .inl ⟨name, name, rfl, rfl, rfl⟩
    | get object member => exact .inr (.inl ⟨object, object, member, member, rfl, rfl, rfl, rfl⟩)
    | _ => exact .inr (.inr ⟨rfl, rfl⟩)
  | upToPlace =>
    have hsame : e.same e' = true := h
    unfold Expr.same at hsame
    split at hsame
    case h_6 => exact .inl ⟨_, _, rfl, rfl, hsame⟩
    case h_9 =>
      rw [Bool.and_eq_true] at hsame
      exact .inr (.inl ⟨_, _, _, _, rfl, rfl, hsame.1, hsame.2⟩)
    case h_16 => cases hsame
    all_goals exact .inr (.inr ⟨rfl, rfl⟩)

theorem Like.isPlace_eq (h : Like l e e') : e.isPlace = e'.isPlace := by
  obtain ⟨_, _, rfl, rfl, -⟩ | ⟨_, _, _, _, rfl, rfl, -⟩ | ⟨he, he'⟩ := h.place_cases
  · rfl
  · rfl
  · rw [he, he']

/-- The value of an assignment. -/
theorem Like.assignedValue {value value' : Expr} (h : Like l e e') (ht : Like l t t')
    (compound : Option Operator) (hvalue : Like l value value') :
    Like l (Reader.assignedValue e t compound value)
      (Reader.assignedValue e' t' compound value') := by
  cases compound with
  | none => exact hvalue
  | some base => exact like_binary.mpr ⟨h, ht.recast _ _, hvalue⟩

theorem like_span {s s' : Expr} (h : Like l s s') : l = .identical → s.span = s'.span := by
  rintro rfl
  exact congrArg Expr.span h

end Expr

/-! ### Statements -/

section Stmt

attribute [local simp] Stmt.same

variable {t t' u u' : Token} {e e' : Expr} {s s' : Stmt}

theorem like_varDecl {d d' : VarDecl} :
    Like l d d' ↔ Like l d.keyword d'.keyword ∧ Like l d.name d'.name ∧ d.mutable = d'.mutable ∧
      Like l d.type d'.type ∧ Like l d.value d'.value := by
  cases l
  · rcases d with ⟨keyword, name, mutable, type, value⟩
    rcases d' with ⟨keyword', name', mutable', type', value'⟩
    simp
  · simp [VarDecl.same]

@[simp] theorem like_initVar {d d' : VarDecl} :
    Like l (LoopInit.var d) (.var d') ↔ Like l d d' := by
  cases l <;> simp [LoopInit.same]

@[simp] theorem like_initExpression :
    Like l (LoopInit.expression e) (.expression e') ↔ Like l e e' := by
  cases l <;> simp [LoopInit.same]

@[simp] theorem like_block {statements statements' : List Stmt} :
    Like l (⟨t, statements, u⟩ : Block) ⟨t', statements', u'⟩ ↔
      Like l t t' ∧ Like l statements statements' ∧ Like l u u' := by
  cases l <;> simp [Block.same, sameStmts_eq]

@[simp] theorem like_functionDecl {generics generics' : Option TypeList}
    {params params' : List Param} {returnType returnType' : Option TypeRef} {body body' : Block} :
    Like l (⟨t, u, generics, params, returnType, body⟩ : FunctionDecl)
        ⟨t', u', generics', params', returnType', body'⟩ ↔
      Like l t t' ∧ Like l u u' ∧ Like l generics generics' ∧ Like l params params' ∧
        Like l returnType returnType' ∧ Like l body body' := by
  cases l <;> simp [FunctionDecl.same]

@[simp] theorem like_switchCase {body body' : Block} :
    Like l (⟨e, t, body⟩ : SwitchCase) ⟨e', t', body'⟩ ↔
      Like l e e' ∧ Like l t t' ∧ Like l body body' := by
  cases l <;> simp [SwitchCase.same]

@[simp] theorem like_blockStmt {body body' : Block} :
    Like l (Stmt.block body) (.block body') ↔ Like l body body' := by
  cases l <;> simp

@[simp] theorem like_expressionStmt :
    Like l (Stmt.expression e) (.expression e') ↔ Like l e e' := by
  cases l <;> simp

@[simp] theorem like_ifElse {no no' : Option Stmt} :
    Like l (Stmt.ifElse t e s no) (.ifElse t' e' s' no') ↔
      Like l t t' ∧ Like l e e' ∧ Like l s s' ∧ Like l no no' := by
  cases l <;> simp [sameElse_eq]

@[simp] theorem like_ret {value value' : Option Expr} :
    Like l (Stmt.ret t value) (.ret t' value') ↔ Like l t t' ∧ Like l value value' := by
  cases l <;> simp

@[simp] theorem like_varStmt {d d' : VarDecl} : Like l (Stmt.var d) (.var d') ↔ Like l d d' := by
  cases l <;> simp

@[simp] theorem like_whileLoop {testedAfter testedAfter' : Bool} :
    Like l (Stmt.whileLoop t e s testedAfter) (.whileLoop t' e' s' testedAfter') ↔
      Like l t t' ∧ Like l e e' ∧ Like l s s' ∧ testedAfter = testedAfter' := by
  cases l <;> simp

@[simp] theorem like_forLoop {init init' : Option LoopInit} {step step' : Option Expr} :
    Like l (Stmt.forLoop t init e step s) (.forLoop t' init' e' step' s') ↔
      Like l t t' ∧ Like l init init' ∧ Like l e e' ∧ Like l step step' ∧ Like l s s' := by
  cases l <;> simp

@[simp] theorem like_forEach {d d' : VarDecl} :
    Like l (Stmt.forEach t d u e s) (.forEach t' d' u' e' s') ↔
      Like l t t' ∧ Like l d d' ∧ Like l u u' ∧ Like l e e' ∧ Like l s s' := by
  cases l <;> simp

@[simp] theorem like_breakOut : Like l (Stmt.breakOut t) (.breakOut t') ↔ Like l t t' := by
  cases l <;> simp

@[simp] theorem like_continueOn : Like l (Stmt.continueOn t) (.continueOn t') ↔ Like l t t' := by
  cases l <;> simp

@[simp] theorem like_functionStmt {decl decl' : FunctionDecl} :
    Like l (Stmt.function decl) (.function decl') ↔ Like l decl decl' := by
  cases l <;> simp

@[simp] theorem like_classDecl {close close' : Token} {generics generics' : Option TypeList}
    {superclass superclass' : Option Expr} {fields fields' : List VarDecl}
    {methods methods' : List FunctionDecl} :
    Like l (Stmt.classDecl t u generics superclass fields methods close)
        (.classDecl t' u' generics' superclass' fields' methods' close') ↔
      Like l t t' ∧ Like l u u' ∧ Like l generics generics' ∧ Like l superclass superclass' ∧
        Like l fields fields' ∧ Like l methods methods' ∧ Like l close close' := by
  cases l <;> simp [sameFunctions_eq]

@[simp] theorem like_switch {cases cases' : List SwitchCase} {default default' : Option Block} :
    Like l (Stmt.switch t e cases default u) (.switch t' e' cases' default' u') ↔
      Like l t t' ∧ Like l e e' ∧ Like l cases cases' ∧ Like l default default' ∧ Like l u u' := by
  cases l <;> simp [sameCases_eq, sameDefault_eq]

/-- Alike statements are of the same kind. -/
theorem Like.name_eq (h : Like l s s') : s.name = s'.name := by
  cases l with
  | identical => exact congrArg Stmt.name h
  | upToPlace =>
    have hsame : s.same s' = true := h
    unfold Stmt.same at hsame
    split at hsame
    all_goals first | rfl | cases hsame

/-- The body of a loop, with its step. -/
theorem Like.loopBody {step step' : Option Expr} (h : Like l s s') (hstep : Like l step step') :
    Like l (Reader.loopBody s step) (Reader.loopBody s' step') := by
  obtain ⟨rfl, rfl⟩ | ⟨e, e', rfl, rfl, he⟩ := hstep.option_cases
  · exact h
  · have hbrace : ∀ mark : Punctuation,
        Like l ({ kind := .punctuation mark, lexeme := mark.lexeme, span := s.span } : Token)
          { kind := .punctuation mark, lexeme := mark.lexeme, span := s'.span } := by
      intro mark
      refine like_made ?_
      rintro rfl
      exact congrArg Stmt.span h
    simp [Reader.loopBody, Reader.bodyWithStep, h, he, hbrace]

end Stmt

/-! ### Errors and events -/

section Events

attribute [local simp] ReaderEvent.same

variable {a b : SyntaxError} {t u : Token}

/-- Errors with one cause at alike tokens. -/
theorem like_syntaxError (cause : Cause) {span span' : Span} (htoken : Like l t u)
    (hspan : l = .identical → span = span') :
    Like l ({ cause, token := t, span } : SyntaxError) { cause, token := u, span := span' } := by
  cases l with
  | identical =>
    cases htoken
    cases hspan rfl
    rfl
  | upToPlace =>
    have hsame : t.same u = true := htoken
    simp [SyntaxError.same, hsame]

@[simp] theorem like_reported :
    Like l (ReaderEvent.reported a) (.reported b) ↔ Like l a b := by
  cases l <;> simp

@[simp] theorem like_suppressed :
    Like l (ReaderEvent.suppressed a) (.suppressed b) ↔ Like l a b := by
  cases l <;> simp

@[simp] theorem like_notGenerics :
    Like l (ReaderEvent.notGenerics a) (.notGenerics b) ↔ Like l a b := by
  cases l <;> simp

@[simp] theorem like_missingCondition :
    Like l (ReaderEvent.missingCondition t) (.missingCondition u) ↔ Like l t u := by
  cases l <;> simp

@[simp] theorem like_forEachLoop :
    Like l (ReaderEvent.forEachLoop t) (.forEachLoop u) ↔ Like l t u := by
  cases l <;> simp

@[simp] theorem like_resumed : Like l (ReaderEvent.resumed t) (.resumed u) ↔ Like l t u := by
  cases l <;> simp

@[simp] theorem like_parsed {name name' : String} :
    Like l (ReaderEvent.parsed name) (.parsed name') ↔ name = name' := by
  cases l <;> simp

@[simp] theorem like_finished {n n' : Nat} {hadError hadError' : Bool} :
    Like l (ReaderEvent.finished n hadError) (.finished n' hadError') ↔
      n = n' ∧ hadError = hadError' := by
  cases l <;> simp

theorem like_split (h : Like l t u) :
    Like l (ReaderEvent.split t.span) (.split u.span) := by
  refine h.map (fun t => ReaderEvent.split t.span) fun _ _ _ => rfl

theorem like_tryingGenerics (h : Like l t u) :
    Like l (ReaderEvent.tryingGenerics t.span) (.tryingGenerics u.span) := by
  refine h.map (fun t => ReaderEvent.tryingGenerics t.span) fun _ _ _ => rfl

end Events

end CurlyScript
