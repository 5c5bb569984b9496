import CurlyScript.Proofs.Linearisation

/-!
# Trees are the same as themselves

Sameness up to the place compares numbers as numbers, and a value that is no number is not even
the same as itself.  No such value comes out of a text: a numeral is rounded to a number or to
infinity.  So whatever is read from the tokens of a text is the same as itself.

## Main definitions

* `Token.Regular` — a token that is no end and is the same as itself.

## Main results

* `Token.Scanned.regular` — all tokens of a text are regular.
* `ReadsType.same`, `ReadsExpr.same`, `ReadsStmt.same` — what is read from regular tokens is the
  same as itself.
-/

namespace CurlyScript

/-! ### Regular tokens -/

/-- A token that is no end and is the same as itself. -/
structure Token.Regular (t : Token) : Prop where
  /-- It is no end. -/
  kind_ne : t.kind ≠ .endOfFile
  /-- Its value, if it has one, is the same as itself. -/
  literal_same : sameOption Literal.same t.literal t.literal = true

theorem Token.same_self {t : Token} (h : sameOption Literal.same t.literal t.literal = true) :
    t.same t = true := by
  simp [same, h]

theorem Token.Regular.same {t : Token} (h : t.Regular) : t.same t = true :=
  Token.same_self h.literal_same

theorem regular_halfShift (t : Token) (skip : Nat) : (halfShift t skip).Regular := ⟨nofun, rfl⟩

/-- The operation inside a compound assignment has no value of its own. -/
theorem same_recast (t : Token) (kind : Kind) (lexeme : String) :
    (t.recast kind lexeme).same (t.recast kind lexeme) = true := Token.same_self rfl

/-! ### The tokens of a text -/

theorem Binary64.same_self {x : Binary64} (h : x.isNaN = false) : x.same x = true := by
  simp [same, h]

/-- Up to the magnitude of infinity, bits stand for a number or for infinity. -/
theorem Binary64.isNaN_ofNat {n : Nat} (h : n ≤ infiniteMagnitude) :
    (Binary64.mk (UInt64.ofNat n)).isNaN = false := by
  rw [isNaN, magnitude_ofNat h, decide_eq_false_iff_not]
  omega

/-- Decimal digits are rounded to a number or to infinity. -/
theorem Binary64.isNaN_ofDecimal (digits : Nat) (exponent : Int) :
    (ofDecimal digits exponent).isNaN = false := by
  unfold ofDecimal
  simp only
  split
  · rfl
  · split
    · exact isNaN_ofNat (Nat.le_refl _)
    · split
      · rfl
      · unfold ofRatio
        split
        · rfl
        · exact isNaN_ofNat (Nat.min_le_right _ _)

theorem Numeral.same_value {n : Numeral} {value : Literal} (h : n.value = .ok value) :
    value.same value = true := by
  unfold Numeral.value Numeral.literal at h
  split at h
  · split at h
    · cases h
    · next number hnumber =>
      cases h
      obtain ⟨d, -, rfl⟩ := Option.map_eq_some_iff.mp hnumber
      exact Binary64.same_self (Binary64.isNaN_ofDecimal _ _)
  · split at h
    · cases h
    · split at h <;> cases h
      exact beq_self_eq_true _

/-- The value of every lexeme is the same as itself. -/
theorem scan_literal_same {c : Char} {cs : List Char} {kind : Kind} {literal : Option Literal}
    (h : (scan c cs).outcome = .ok (kind, literal)) :
    sameOption Literal.same literal literal = true := by
  unfold scan at h
  split at h
  · cases h
    rfl
  · split at h
    · unfold scanString at h
      split at h <;> cases h
      exact beq_self_eq_true _
    · split at h
      · unfold scanWord at h
        simp only at h
        split at h <;> cases h
        · rfl
        · exact beq_self_eq_true _
      · split at h
        · unfold scanNumber at h
          split at h
          · cases h
          · next numeral _ =>
            simp only at h
            cases hvalue : numeral.value <;> rw [hvalue] at h <;> cases h
            exact Numeral.same_value hvalue
        · cases h

/-- All tokens of a text are regular. -/
theorem Token.Scanned.regular {t : Token} (h : t.Scanned) : t.Regular := by
  obtain ⟨c, cs, houtcome, -⟩ := h
  exact ⟨scan_kind_ne houtcome, scan_literal_same houtcome⟩

/-! ### What is left of regular tokens -/

theorem Spells.regular_rest {ps : List Piece} {a b : List Token} (h : Spells ps a b)
    (ha : ∀ t ∈ a, t.Regular) : ∀ t ∈ b, t.Regular := by
  induction h with
  | nil => exact ha
  | one _ _ ih | shift _ _ ih => exact ih (List.forall_mem_cons.mp ha).2

theorem SpellsHalf.regular_rest {ps : List Piece} {a b : List Token} (h : SpellsHalf ps a b)
    (ha : ∀ t ∈ a, t.Regular) : ∀ t ∈ b, t.Regular := by
  cases h with
  | whole h => exact h.regular_rest ha
  | half _ h =>
    have hrest := h.regular_rest ha
    exact List.forall_mem_cons.mpr ⟨regular_halfShift _ _, (List.forall_mem_cons.mp hrest).2⟩

/-! ### Types -/

/-- What the tokens of a form are read to is the same as itself. -/
abbrev TypeForm.Same : (form : TypeForm) → form.Result → Prop
  | .ref, type => type.same type = true
  | .list?, generics => sameOption TypeList.same generics generics = true
  | .after? _, type => sameOption TypeRef.same type type = true
  | .list, l => l.same l = true
  | .entries, types => sameTypes types types = true

theorem sameGenerics_eq (a b : Option TypeList) :
    sameGenerics a b = sameOption TypeList.same a b := by
  cases a <;> cases b <;> simp [sameGenerics, sameOption]

theorem sameBound_eq (a b : Option TypeRef) : sameBound a b = sameOption TypeRef.same a b := by
  cases a <;> cases b <;> simp [sameBound, sameOption]

theorem ReadsType.same {form : TypeForm} {a b : List Token} {v : form.Result}
    (h : ReadsType form a v b) (ha : ∀ t ∈ a, t.Regular) : form.Same v := by
  induction h with
  | ref hname hgenerics hbound ihgenerics ihbound =>
    obtain ⟨hfirst, hrest⟩ := List.forall_mem_cons.mp ha
    have hlist := ihgenerics hrest
    have htype := ihbound (hgenerics.spells.regular_rest hrest)
    simp only [TypeForm.Same] at hlist htype ⊢
    simp [TypeRef.same, sameGenerics_eq, sameBound_eq, hfirst.same, hlist, htype]
  | noList | notAfter => rfl
  | someList _ ih => exact ih ha
  | after _ _ ih => exact ih (List.forall_mem_cons.mp ha).2
  | list _ _ _ ih =>
    obtain ⟨hfirst, hrest⟩ := List.forall_mem_cons.mp ha
    have hentries := ih hrest
    simp only [TypeForm.Same] at hentries ⊢
    simp [TypeList.same, hfirst.same, hentries]
  | last _ _ ih =>
    have hentry := ih ha
    simp only [TypeForm.Same] at hentry ⊢
    simp [sameTypes, hentry]
  | more h _ _ ih ihmore =>
    have hentry := ih ha
    have hentries := ihmore (List.forall_mem_cons.mp (h.spells.regular_rest ha)).2
    simp only [TypeForm.Same] at hentry hentries ⊢
    simp [sameTypes, hentry, hentries]

theorem ReadsParams.same {a b : List Token} {params : List Param} (h : ReadsParams a params b)
    (ha : ∀ t ∈ a, t.Regular) : sameList Param.same params params = true := by
  induction h with
  | last _ _ htype _ =>
    obtain ⟨hname, hrest⟩ := List.forall_mem_cons.mp ha
    have htypeSame : TypeRef.same _ _ = true := htype.same (List.forall_mem_cons.mp hrest).2
    simp [Param.same, hname.same, htypeSame]
  | more _ _ htype _ _ ih =>
    obtain ⟨hname, hrest⟩ := List.forall_mem_cons.mp ha
    have hrest := (List.forall_mem_cons.mp hrest).2
    have htypeSame : TypeRef.same _ _ = true := htype.same hrest
    have hmore := ih (List.forall_mem_cons.mp (htype.spells.regular_rest hrest)).2
    simp [Param.same, hname.same, htypeSame, hmore]

theorem ReadsParameters.same {a b : List Token} {params : List Param}
    (h : ReadsParameters a params b) (ha : ∀ t ∈ a, t.Regular) :
    sameList Param.same params params = true := by
  cases h with
  | none => rfl
  | some _ h => exact h.same ha

/-! ### Expressions -/

/-- What the tokens of a form are read to is the same as itself, if what stands before is. -/
abbrev ExprForm.Same : (form : ExprForm) → form.Result → Prop
  | .chain _ _ left, e => left.same left = true → e.same e = true
  | .suffixes left, e => left.same left = true → e.same e = true
  | .expression, e => e.same e = true
  | .ternary, e => e.same e = true
  | .levels _, e => e.same e = true
  | .power, e => e.same e = true
  | .unary, e => e.same e = true
  | .primary, e => e.same e = true
  | .list _, es => Expr.sameAll es es = true
  | .items, es => Expr.sameAll es es = true

theorem ReadsExpr.regular_rest {form : ExprForm} {a b : List Token} {v : form.Result}
    (h : ReadsExpr form a v b) (ha : ∀ t ∈ a, t.Regular) : ∀ t ∈ b, t.Regular := by
  obtain ⟨ps, -, hspells⟩ := h.spelled
  exact hspells.regular_rest ha

/-- The value of an assignment is the same as itself. -/
theorem same_assignedValue {target value : Expr} (op : Token) (compound : Option Operator)
    (htarget : target.same target = true) (hvalue : value.same value = true) :
    (Reader.assignedValue target op compound value).same
      (Reader.assignedValue target op compound value) = true := by
  cases compound with
  | none => exact hvalue
  | some base => simp [Reader.assignedValue, Expr.same, htarget, hvalue, same_recast]

theorem Constant.same_ofLiteral {value : Literal} (h : value.same value = true) :
    (ofLiteral value).same (ofLiteral value) = true := by
  cases value <;> exact h

theorem ReadsExpr.same {form : ExprForm} {a b : List Token} {v : form.Result}
    (h : ReadsExpr form a v b) (ha : ∀ t ∈ a, t.Regular) : form.Same v := by
  induction h with
  | plain _ _ ih | noChoice _ _ ih | noLevel _ ih | noComparison _ _ _ ih | noPower _ _ ih
  | someItems _ _ ih => exact ih ha
  | assign htarget _ _ _ ihtarget ihvalue =>
    have hrest := (List.forall_mem_cons.mp (htarget.regular_rest ha)).2
    have hplace := ihtarget ha
    have hname : Expr.same (.ident _) (.ident _) = true := hplace
    simp only [Expr.same] at hname
    simp [ExprForm.Same, Expr.same, hname, same_assignedValue _ _ hplace (ihvalue hrest)]
  | set htarget _ _ _ ihtarget ihvalue =>
    have hrest := (List.forall_mem_cons.mp (htarget.regular_rest ha)).2
    have hplace := ihtarget ha
    have hmember : Expr.same (.get _ _) (.get _ _) = true := hplace
    simp only [Expr.same, Bool.and_eq_true] at hmember
    simp [ExprForm.Same, Expr.same, hmember, same_assignedValue _ _ hplace (ihvalue hrest)]
  | choice hcondition _ hyes _ _ ihcondition ihyes ihno =>
    have hbranches := (List.forall_mem_cons.mp (hcondition.regular_rest ha)).2
    obtain ⟨hcolon, hrest⟩ := List.forall_mem_cons.mp (hyes.regular_rest hbranches)
    simp [ExprForm.Same, Expr.same, ihcondition ha, ihyes hbranches, hcolon.same, ihno hrest]
  | level _ hleft _ ihleft ihchain => exact ihchain (hleft.regular_rest ha) (ihleft ha)
  | comparison _ hleft _ _ _ _ ihleft ihright =>
    obtain ⟨hop, hrest⟩ := List.forall_mem_cons.mp (hleft.regular_rest ha)
    simp [ExprForm.Same, Expr.same, ihleft ha, hop.same, ihright hrest]
  | chainEnd | noSuffix => exact id
  | chainMore _ _ hright _ ihright ihmore =>
    obtain ⟨hop, hrest⟩ := List.forall_mem_cons.mp ha
    intro hleft
    refine ihmore (hright.regular_rest hrest) ?_
    simp [Expr.same, hleft, hop.same, ihright hrest]
  | power hbase _ _ ihbase ihexponent =>
    obtain ⟨hop, hrest⟩ := List.forall_mem_cons.mp (hbase.regular_rest ha)
    simp [ExprForm.Same, Expr.same, ihbase ha, hop.same, ihexponent hrest]
  | prefixed _ _ _ ih =>
    obtain ⟨hop, hrest⟩ := List.forall_mem_cons.mp ha
    simp [ExprForm.Same, Expr.same, hop.same, ih hrest]
  | suffixed _ h _ ih ihsuffixes => exact ihsuffixes (h.regular_rest ha) (ih ha)
  | get _ _ _ ih =>
    obtain ⟨hmember, hrest⟩ := List.forall_mem_cons.mp (List.forall_mem_cons.mp ha).2
    intro he
    refine ih hrest ?_
    simp [Expr.same, he, hmember.same]
  | call _ hargs _ _ ihargs ih =>
    have hinside := (List.forall_mem_cons.mp ha).2
    obtain ⟨hparen, hrest⟩ := List.forall_mem_cons.mp (hargs.regular_rest hinside)
    intro he
    refine ih hrest ?_
    simp [Expr.same, he, ihargs hinside, hparen.same]
  | index _ hposition _ _ ihposition ih =>
    have hinside := (List.forall_mem_cons.mp ha).2
    obtain ⟨hbracket, hrest⟩ := List.forall_mem_cons.mp (hposition.regular_rest hinside)
    intro he
    refine ih hrest ?_
    simp [Expr.same, he, ihposition hinside, hbracket.same]
  | genericCall _ hgenerics _ hargs _ _ ihargs ih =>
    have hlist : TypeList.same _ _ = true := hgenerics.same ha
    have hinside := (List.forall_mem_cons.mp (hgenerics.spells.regular_rest ha)).2
    obtain ⟨hparen, hrest⟩ := List.forall_mem_cons.mp (hargs.regular_rest hinside)
    intro he
    refine ih hrest ?_
    simp [Expr.same, he, hlist, ihargs hinside, hparen.same]
  | postUnary _ _ _ _ ih =>
    obtain ⟨hop, hrest⟩ := List.forall_mem_cons.mp ha
    intro he
    refine ih hrest ?_
    simp [Expr.same, he, hop.same]
  | yes | no =>
    have ht := (List.forall_mem_cons.mp ha).1
    simp [ExprForm.Same, Expr.same, Constant.same, ht.same]
  | this | ident =>
    have ht := (List.forall_mem_cons.mp ha).1
    simp [ExprForm.Same, Expr.same, ht.same]
  | literal _ _ hvalue =>
    have ht := (List.forall_mem_cons.mp ha).1
    have hliteral := ht.literal_same
    rw [hvalue, sameOption_some] at hliteral
    simp [ExprForm.Same, Expr.same, Constant.same_ofLiteral hliteral, ht.same]
  | lambda _ hgenerics _ hparams hreturn _ ih =>
    obtain ⟨hkeyword, hrest⟩ := List.forall_mem_cons.mp ha
    have hlist : sameOption TypeList.same _ _ = true := hgenerics.same hrest
    have hinside := (List.forall_mem_cons.mp (hgenerics.spells.regular_rest hrest)).2
    have hafter := hparams.spells.regular_rest hinside
    have htype : sameOption TypeRef.same _ _ = true := hreturn.same hafter
    simp [ExprForm.Same, Expr.same, hkeyword.same, hlist, hparams.same hinside, htype,
      ih (hreturn.spells.regular_rest hafter)]
  | grouping _ hinner _ ih =>
    obtain ⟨hlparen, hrest⟩ := List.forall_mem_cons.mp ha
    have hrparen := (List.forall_mem_cons.mp (hinner.regular_rest hrest)).1
    simp [ExprForm.Same, Expr.same, hlparen.same, ih hrest, hrparen.same]
  | array _ helements _ ih =>
    obtain ⟨hbracket, hrest⟩ := List.forall_mem_cons.mp ha
    have hclose := (List.forall_mem_cons.mp (helements.regular_rest hrest)).1
    simp [ExprForm.Same, Expr.same, hbracket.same, ih hrest, hclose.same]
  | noItems => simp [ExprForm.Same, Expr.sameAll]
  | lastItem _ _ ih => simp [ExprForm.Same, Expr.sameAll, ih ha]
  | moreItems h _ _ ih ihmore =>
    have hrest := (List.forall_mem_cons.mp (h.regular_rest ha)).2
    simp [ExprForm.Same, Expr.sameAll, ih ha, ihmore hrest]

/-! ### Variables and headers -/

theorem ReadsVarHead.same {keyword : Token} {a b : List Token} {head : VarDecl}
    (h : ReadsVarHead keyword a head b) (ha : ∀ t ∈ keyword :: a, t.Regular) :
    head.same head = true := by
  obtain ⟨hkeyword, ha⟩ := List.forall_mem_cons.mp ha
  cases h with
  | mutable =>
    have hname := (List.forall_mem_cons.mp (List.forall_mem_cons.mp ha).2).1
    simp [VarDecl.same, hkeyword.same, hname.same]
  | fixed =>
    have hname := (List.forall_mem_cons.mp ha).1
    simp [VarDecl.same, hkeyword.same, hname.same]

theorem VarDecl.same_typed {decl : VarDecl} {type : TypeRef} (hdecl : decl.same decl = true)
    (htype : type.same type = true) :
    VarDecl.same { decl with type := some type } { decl with type := some type } = true := by
  simp only [VarDecl.same, Bool.and_eq_true] at hdecl ⊢
  exact ⟨⟨hdecl.1.1, htype⟩, hdecl.2⟩

theorem ReadsVarValue.same {decl d : VarDecl} {a b : List Token} (h : ReadsVarValue decl a d b)
    (ha : ∀ t ∈ a, t.Regular) (hdecl : decl.same decl = true) : d.same d = true := by
  cases h with
  | none => exact hdecl
  | value _ he =>
    have hvalue : Expr.same _ _ = true := he.same (List.forall_mem_cons.mp ha).2
    simp only [VarDecl.same, Bool.and_eq_true] at hdecl ⊢
    exact ⟨hdecl.1, hvalue⟩

/-- A declaration with a type is the same as itself. -/
theorem ReadsVarHead.same_typed {keyword colon : Token} {head decl : VarDecl} {type : TypeRef}
    {a b c d : List Token} (hhead : ReadsVarHead keyword a head (colon :: b))
    (htype : ReadsType .ref b type c)
    (hvalue : ReadsVarValue { head with type := some type } c decl d)
    (ha : ∀ t ∈ keyword :: a, t.Regular) : decl.same decl = true := by
  have hrest := (List.forall_mem_cons.mp (hhead.spells.2.2.regular_rest ha)).2
  exact hvalue.same (htype.spells.regular_rest hrest)
    (VarDecl.same_typed (hhead.same ha) (htype.same hrest))

/-- A declaration without a type is the same as itself. -/
theorem ReadsVarHead.same_untyped {keyword : Token} {head decl : VarDecl} {a b c : List Token}
    (hhead : ReadsVarHead keyword a head b) (hvalue : ReadsVarValue head b decl c)
    (ha : ∀ t ∈ keyword :: a, t.Regular) : decl.same decl = true :=
  hvalue.same (hhead.spells.2.2.regular_rest ha) (hhead.same ha)

theorem ReadsVar.same {keyword : Token} {a b : List Token} {decl : VarDecl}
    (h : ReadsVar keyword a decl b) (ha : ∀ t ∈ keyword :: a, t.Regular) :
    decl.same decl = true := by
  cases h with
  | typed hhead _ htype hvalue => exact hhead.same_typed htype hvalue ha
  | untyped hhead _ hvalue => exact hhead.same_untyped hvalue ha

theorem ReadsCondition.same {a b : List Token} {e : Expr} (h : ReadsCondition a e b)
    (ha : ∀ t ∈ a, t.Regular) : e.same e = true := by
  cases h with
  | written h => exact h.same ha
  | absent => simp [Reader.absentCondition, Expr.same, Constant.same, same_recast]

theorem ReadsExpr?.same {a b : List Token} {e : Option Expr} (h : ReadsExpr? a e b)
    (ha : ∀ t ∈ a, t.Regular) : sameOption Expr.same e e = true := by
  cases h with
  | some h => exact h.same ha
  | none => rfl

/-- A header is the same as itself. -/
def LoopHeader.Same : LoopHeader → Prop
  | .counting init condition step => sameOption LoopInit.same init init = true ∧
      condition.same condition = true ∧ sameOption Expr.same step step = true
  | .each binding colon iterable => binding.same binding = true ∧ colon.same colon = true ∧
      iterable.same iterable = true

theorem ReadsClauses.same {parenthesized : Bool} {init : Option LoopInit} {header : LoopHeader}
    {a b : List Token} (h : ReadsClauses parenthesized init a header b)
    (hinit : sameOption LoopInit.same init init = true) (ha : ∀ t ∈ a, t.Regular) :
    header.Same := by
  cases h with
  | mk hcondition _ hstep _ =>
    obtain ⟨ps, -, hps⟩ := hcondition.spells
    exact ⟨hinit, hcondition.same ha, hstep.same (List.forall_mem_cons.mp (hps.regular_rest ha)).2⟩

theorem ReadsHeader.same {parenthesized : Bool} {a b : List Token} {header : LoopHeader}
    (h : ReadsHeader parenthesized a header b) (ha : ∀ t ∈ a, t.Regular) : header.Same := by
  cases h with
  | bare _ h => exact h.same rfl (List.forall_mem_cons.mp ha).2
  | typedVar _ hhead hcolon htype hvalue hsemicolon h =>
    have hdecl := hvalue.spells hhead.spells.2.1 (hhead.spells_typed hcolon htype)
    exact h.same (hhead.same_typed htype hvalue ha)
      (List.forall_mem_cons.mp (hdecl.regular_rest ha)).2
  | untypedVar _ hhead _ hvalue _ h =>
    obtain ⟨-, hnovalue, hspells⟩ := hhead.spells
    have hdecl := hvalue.spells hnovalue (.whole hspells)
    exact h.same (hhead.same_untyped hvalue ha) (List.forall_mem_cons.mp (hdecl.regular_rest ha)).2
  | expression hfirst _ h =>
    exact h.same (hfirst.same ha) (List.forall_mem_cons.mp (hfirst.regular_rest ha)).2
  | each _ hhead _ _ hiterable _ =>
    obtain ⟨hcolon, hrest⟩ := List.forall_mem_cons.mp (hhead.spells.2.2.regular_rest ha)
    exact ⟨hhead.same ha, hcolon.same, hiterable.same hrest⟩

/-- A loop is the same as itself, with the step that was added to its body. -/
theorem LoopHeader.same_loop {header : LoopHeader} {keyword : Token} {body : Stmt}
    (hheader : header.Same) (hkeyword : keyword.same keyword = true)
    (hbody : body.same body = true) :
    (header.loop keyword body).same (header.loop keyword body) = true := by
  rcases header with ⟨init, condition, _ | step⟩ | ⟨binding, colon, iterable⟩
  · obtain ⟨hinit, hcondition, -⟩ := hheader
    simp [loop, Reader.loopBody, Stmt.same, hkeyword, hinit, hcondition, hbody]
  · obtain ⟨hinit, hcondition, hstep⟩ := hheader
    simp only [sameOption_some] at hstep
    have hbrace (mark : Punctuation) : Token.same
        { kind := .punctuation mark, lexeme := mark.lexeme, span := body.span }
        { kind := .punctuation mark, lexeme := mark.lexeme, span := body.span } = true :=
      Token.same_self rfl
    simp [loop, Reader.loopBody, Reader.bodyWithStep, Stmt.same, Block.same, sameStmts, hkeyword,
      hinit, hcondition, hstep, hbody, hbrace]
  · obtain ⟨hbinding, hcolon, hiterable⟩ := hheader
    simp [loop, Stmt.same, hkeyword, hbinding, hcolon, hiterable, hbody]

/-! ### Statements -/

/-- What the tokens of a form are read to is the same as itself, given what stands before. -/
abbrev StmtForm.Same : (form : StmtForm) → form.Result → Prop
  | .declaration, s => s.same s = true
  | .statement, s => s.same s = true
  | .block lbrace, braced => lbrace.same lbrace = true → braced.same braced = true
  | .body, statements => sameStmts statements statements = true
  | .function keyword, decl => keyword.same keyword = true → decl.same decl = true
  | .cases default, r => sameDefault default default = true →
      sameCases r.1 r.1 = true ∧ sameDefault r.2 r.2 = true
  | .members, r => sameList VarDecl.same r.1 r.1 = true ∧ sameFunctions r.2 r.2 = true

theorem ReadsStmt.regular_rest {form : StmtForm} {a b : List Token} {v : form.Result}
    (h : ReadsStmt form a v b) (ha : ∀ t ∈ a, t.Regular) : ∀ t ∈ b, t.Regular := by
  have hspelled := h.spelled
  cases form with
  | declaration =>
    obtain ⟨_, _, hps⟩ := hspelled
    exact hps.regular_rest ha
  | statement | block | body | function | members =>
    obtain ⟨_, _, hps⟩ := hspelled
    exact hps.regular_rest ha
  | cases default =>
    cases default with
    | none =>
      obtain ⟨_, _, hps⟩ := hspelled
      exact hps.regular_rest ha
    | some =>
      obtain ⟨_, _, _, hps⟩ := hspelled
      exact hps.regular_rest ha

theorem ReadsSuperclass.same {a b : List Token} {superclass : Option Expr}
    (h : ReadsSuperclass a superclass b) (ha : ∀ t ∈ a, t.Regular) :
    sameOption Expr.same superclass superclass = true := by
  cases h with
  | some =>
    have hname := (List.forall_mem_cons.mp (List.forall_mem_cons.mp ha).2).1
    simp [Expr.same, hname.same]
  | none => rfl

theorem regular_after_semicolon {semicolon : Option Token} {a b : List Token}
    (h : Reading.token? (.punctuation .semicolon) a semicolon b) (ha : ∀ t ∈ a, t.Regular) :
    ∀ t ∈ b, t.Regular := by
  obtain ⟨qs, -, hspells⟩ := spells_semicolon h
  exact hspells.regular_rest ha

theorem ReadsStmt.same {form : StmtForm} {a b : List Token} {v : form.Result}
    (h : ReadsStmt form a v b) (ha : ∀ t ∈ a, t.Regular) : form.Same v := by
  induction h with
  | classDecl _ _ hgenerics hsuperclass _ hmembers _ ih =>
    obtain ⟨hkeyword, hrest⟩ := List.forall_mem_cons.mp ha
    obtain ⟨hname, hrest⟩ := List.forall_mem_cons.mp hrest
    have hlist : sameOption TypeList.same _ _ = true := hgenerics.same hrest
    have hrest := hgenerics.spells.regular_rest hrest
    have hinside := (List.forall_mem_cons.mp (hsuperclass.spells.regular_rest hrest)).2
    have hclose := (List.forall_mem_cons.mp (hmembers.regular_rest hinside)).1
    simp [StmtForm.Same, Stmt.same, hkeyword.same, hname.same, hlist, hsuperclass.same hrest,
      ih hinside, hclose.same]
  | functionDecl _ _ ih =>
    obtain ⟨hkeyword, hrest⟩ := List.forall_mem_cons.mp ha
    simp [StmtForm.Same, Stmt.same, ih hrest hkeyword.same]
  | var _ hdecl _ => simp [StmtForm.Same, Stmt.same, hdecl.same ha]
  | stmt _ ih => exact ih ha
  | forParens _ _ hheader _ ih =>
    obtain ⟨hkeyword, hrest⟩ := List.forall_mem_cons.mp ha
    have hrest := (List.forall_mem_cons.mp hrest).2
    obtain ⟨ps, -, hps⟩ := hheader.spells
    exact LoopHeader.same_loop (hheader.same hrest) hkeyword.same (ih (hps.regular_rest hrest))
  | forBare _ _ hheader _ ih =>
    obtain ⟨hkeyword, hrest⟩ := List.forall_mem_cons.mp ha
    obtain ⟨ps, -, hps⟩ := hheader.spells
    exact LoopHeader.same_loop (hheader.same hrest) hkeyword.same (ih (hps.regular_rest hrest))
  | ifThen _ hcondition _ _ ih =>
    obtain ⟨hkeyword, hrest⟩ := List.forall_mem_cons.mp ha
    simp [StmtForm.Same, Stmt.same, sameElse, hkeyword.same, hcondition.same hrest,
      ih (hcondition.regular_rest hrest)]
  | ifElse _ hcondition hyes _ _ ihyes ihno =>
    obtain ⟨hkeyword, hrest⟩ := List.forall_mem_cons.mp ha
    have hbranches := hcondition.regular_rest hrest
    have hlast := (List.forall_mem_cons.mp (hyes.regular_rest hbranches)).2
    simp [StmtForm.Same, Stmt.same, sameElse, hkeyword.same, hcondition.same hrest,
      ihyes hbranches, ihno hlast]
  | ret _ hvalue _ =>
    obtain ⟨hkeyword, hrest⟩ := List.forall_mem_cons.mp ha
    simp [StmtForm.Same, Stmt.same, hkeyword.same, hvalue.same hrest]
  | doWhile _ _ hcondition _ ih =>
    obtain ⟨hkeyword, hrest⟩ := List.forall_mem_cons.mp ha
    have hrest := (List.forall_mem_cons.mp hrest).2
    obtain ⟨ps, -, hps⟩ := hcondition.spells
    simp [StmtForm.Same, Stmt.same, hkeyword.same, hcondition.same hrest,
      ih (hps.regular_rest hrest)]
  | whileLoop _ hcondition _ ih =>
    obtain ⟨hkeyword, hrest⟩ := List.forall_mem_cons.mp ha
    obtain ⟨ps, -, hps⟩ := hcondition.spells
    simp [StmtForm.Same, Stmt.same, hkeyword.same, hcondition.same hrest,
      ih (hps.regular_rest hrest)]
  | breakOut | continueOn =>
    have hkeyword := (List.forall_mem_cons.mp ha).1
    simp [StmtForm.Same, Stmt.same, hkeyword.same]
  | switch _ hsubject _ hcases _ ih =>
    obtain ⟨hkeyword, hrest⟩ := List.forall_mem_cons.mp ha
    have hinside := (List.forall_mem_cons.mp (hsubject.regular_rest hrest)).2
    have hclose := (List.forall_mem_cons.mp (hcases.regular_rest hinside)).1
    simp [StmtForm.Same, Stmt.same, hkeyword.same, hsubject.same hrest,
      ih hinside (by simp [sameDefault]), hclose.same]
  | blockStmt _ _ ih =>
    obtain ⟨hlbrace, hrest⟩ := List.forall_mem_cons.mp ha
    simp [StmtForm.Same, Stmt.same, ih hrest hlbrace.same]
  | expression he _ => simp [StmtForm.Same, Stmt.same, he.same ha]
  | block h _ ih =>
    have hrbrace := (List.forall_mem_cons.mp (h.regular_rest ha)).1
    intro hlbrace
    simp [Block.same, hlbrace, ih ha, hrbrace.same]
  | bodyEnd => simp [StmtForm.Same, sameStmts]
  | bodyMore h _ ih ihmore =>
    simp [StmtForm.Same, sameStmts, ih ha, ihmore (h.regular_rest ha)]
  | function _ hgenerics _ hparams hreturn _ _ ih =>
    obtain ⟨hname, hrest⟩ := List.forall_mem_cons.mp ha
    have hlist : sameOption TypeList.same _ _ = true := hgenerics.same hrest
    have hinside := (List.forall_mem_cons.mp (hgenerics.spells.regular_rest hrest)).2
    have hafter := hparams.spells.regular_rest hinside
    have htype : sameOption TypeRef.same _ _ = true := hreturn.same hafter
    obtain ⟨hlbrace, hbody⟩ := List.forall_mem_cons.mp (hreturn.spells.regular_rest hafter)
    intro hkeyword
    simp [FunctionDecl.same, hkeyword, hname.same, hlist, hparams.same hinside, htype,
      ih hbody hlbrace.same]
  | casesEnd => exact fun hdefault => ⟨by simp [sameCases], hdefault⟩
  | casesDefault _ _ _ _ hbody _ ih ihmore =>
    have hrest := (List.forall_mem_cons.mp (List.forall_mem_cons.mp ha).2).2
    obtain ⟨hlbrace, hrest⟩ := List.forall_mem_cons.mp hrest
    intro _
    refine ihmore (hbody.regular_rest hrest) ?_
    simp [sameDefault, ih hrest hlbrace.same]
  | casesMore _ hvalue _ _ hbody _ ih ihmore =>
    obtain ⟨harrow, hrest⟩ := List.forall_mem_cons.mp (hvalue.regular_rest ha)
    obtain ⟨hlbrace, hrest⟩ := List.forall_mem_cons.mp hrest
    intro hdefault
    obtain ⟨hcases, hdefault'⟩ := ihmore (hbody.regular_rest hrest) hdefault
    refine ⟨?_, hdefault'⟩
    simp [sameCases, SwitchCase.same, hvalue.same ha, harrow.same, ih hrest hlbrace.same, hcases]
  | membersEnd => simp [StmtForm.Same, sameFunctions]
  | method _ h _ ih ihmore =>
    obtain ⟨hkeyword, hrest⟩ := List.forall_mem_cons.mp ha
    obtain ⟨hfields, hmethods⟩ := ihmore (h.regular_rest hrest)
    exact ⟨hfields, by simp [sameFunctions, ih hrest hkeyword.same, hmethods]⟩
  | field _ hdecl hsemicolon _ ihmore =>
    have hrest := regular_after_semicolon hsemicolon (hdecl.spells.regular_rest ha)
    obtain ⟨hfields, hmethods⟩ := ihmore hrest
    exact ⟨by simp [hdecl.same ha, hfields], hmethods⟩
  | stray _ _ ih => exact ih (List.forall_mem_cons.mp ha).2

/-- The statements of a file of regular tokens are the same as themselves. -/
theorem ReadsFile.same {a : List Token} {statements : List Stmt} (h : ReadsFile a statements)
    (ha : ∀ t ∈ a, t.Regular) : sameStmts statements statements = true := by
  induction h with
  | done => simp [sameStmts]
  | more h _ ih =>
    have hstmt : Stmt.same _ _ = true := h.same ha
    simp [sameStmts, hstmt, ih (h.regular_rest ha)]

end CurlyScript
