import CurlyScript.Proofs.ExprSyntax

/-!
# The pieces of types and expressions

A tree keeps most of the tokens that it was read from, and its shape says which tokens stand
between them.  Written out in order, these make up the pieces of a tree.  Tokens spell pieces
one by one, except that one shift may spell the ends of two lists of types.

## Main definitions

* `Piece` — one place in the concrete form of a tree.
* `TypeRef.pieces`, `TypeList.pieces`, `Expr.pieces` — the concrete form of types and
  expressions.
* `Spells` — tokens that spell pieces, and what is left of them.
* `SpellsHalf` — the same up to a shift of which only half is used.

## Main results

* `ReadsType.spells` — tokens that are read to a type spell its pieces.
* `ReadsExpr.spells` — tokens that are read to an expression spell its pieces.
-/

namespace CurlyScript

/-! ### Pieces -/

/-- One place in the concrete form of a tree. -/
inductive Piece
  /-- A token that the tree keeps. -/
  | kept (t : Token)
  /-- A token of a kind that the shape of the tree asks for. -/
  | mark (kind : Kind)
  /-- The end of a list of types. -/
  | close
  /-- The operator of a compound assignment, of which the tree keeps the operation inside. -/
  | compound (op : Token) (base : Operator)

namespace Piece

/-- A mark of punctuation. -/
abbrev punct (mark : Punctuation) : Piece := .mark (.punctuation mark)

/-- Whether a token by itself spells a piece. -/
def Fits : Piece → Token → Prop
  | .kept t, u => u = t
  | .mark kind, u => u.kind = kind
  | .close, u => u.kind = .operator .greater
  | .compound op base, u => ∃ o : Operator, u.kind = .operator o ∧
      o.compoundBase? = some base ∧ u.recast (.operator base) base.lexeme = op

end Piece

/-! ### Types -/

mutual

/-- The pieces of a reference: its name, its list and its bound. -/
def TypeRef.pieces : TypeRef → List Piece
  | ⟨name, generics, bound⟩ =>
    .kept name :: (genericsPieces generics ++ typeAfterPieces bound .colon)

/-- The pieces of a list in angle brackets. -/
def TypeList.pieces : TypeList → List Piece
  | ⟨angle, entries⟩ => .kept angle :: (typesPieces entries ++ [.close])

/-- The pieces of an optional list. -/
def genericsPieces : Option TypeList → List Piece
  | none => []
  | some l => l.pieces

/-- The pieces of an optional type after a mark. -/
def typeAfterPieces : Option TypeRef → Punctuation → List Piece
  | none, _ => []
  | some type, mark => .punct mark :: type.pieces

/-- The pieces of references with commas between them. -/
def typesPieces : List TypeRef → List Piece
  | [] => []
  | [entry] => entry.pieces
  | entry :: entries => entry.pieces ++ .punct .comma :: typesPieces entries

end

/-- The pieces of a parameter. -/
def Param.pieces (p : Param) : List Piece := .kept p.name :: .punct .colon :: p.type.pieces

/-- The pieces of parameters with commas between them. -/
def paramsPieces : List Param → List Piece
  | [] => []
  | [p] => p.pieces
  | p :: ps => p.pieces ++ .punct .comma :: paramsPieces ps

/-- The pieces of what comes before the body of a function, after its name: its type parameters,
its parameters in parentheses and the type of its value. -/
def signaturePieces (generics : Option TypeList) (params : List Param)
    (returnType : Option TypeRef) : List Piece :=
  genericsPieces generics ++ .punct .lparen :: (paramsPieces params ++
    .punct .rparen :: typeAfterPieces returnType .arrow)

/-! ### Expressions -/

mutual

/-- The pieces of an expression.  A compound assignment is written with its operator and without
the operation that it stands for. -/
def Expr.pieces : Expr → List Piece
  | .literal _ token => [.kept token]
  | .binary left op right => left.pieces ++ .kept op :: right.pieces
  | .unary op operand => .kept op :: operand.pieces
  | .postUnary operand op => operand.pieces ++ [.kept op]
  | .grouping lparen inner rparen => .kept lparen :: (inner.pieces ++ [.kept rparen])
  | .ident name => [.kept name]
  | .assign target (some base) (.binary _ op right) =>
    .kept target :: .compound op base :: right.pieces
  | .assign target _ value => .kept target :: .mark (.operator .equals) :: value.pieces
  | .call callee generics args paren =>
    callee.pieces ++ genericsPieces generics ++
      .punct .lparen :: (exprsPieces args ++ [.kept paren])
  | .get object member => object.pieces ++ [.punct .dot, .kept member]
  | .set object member (some base) (.binary _ op right) =>
    object.pieces ++ .punct .dot :: .kept member :: .compound op base :: right.pieces
  | .set object member _ value =>
    object.pieces ++ .punct .dot :: .kept member :: .mark (.operator .equals) :: value.pieces
  | .ternary condition yes colon no =>
    condition.pieces ++ .punct .questionMark :: (yes.pieces ++ .kept colon :: no.pieces)
  | .this keyword => [.kept keyword]
  | .array bracket elements close => .kept bracket :: (exprsPieces elements ++ [.kept close])
  | .index base position bracket =>
    base.pieces ++ .punct .lbracket :: (position.pieces ++ [.kept bracket])
  | .lambda keyword generics params returnType body =>
    .kept keyword :: (signaturePieces generics params returnType ++ body.pieces)

/-- The pieces of expressions with commas between them. -/
def exprsPieces : List Expr → List Piece
  | [] => []
  | [e] => e.pieces
  | e :: es => e.pieces ++ .punct .comma :: exprsPieces es

end

/-! ### Spelling -/

/-- Tokens that spell some pieces, and what is left of them. -/
inductive Spells : List Piece → List Token → List Token → Prop
  /-- No piece. -/
  | nil {a : List Token} : Spells [] a a
  /-- A piece by a token. -/
  | one {p : Piece} {ps : List Piece} {t : Token} {a b : List Token} (ht : p.Fits t)
      (h : Spells ps a b) :
    Spells (p :: ps) (t :: a) b
  /-- The ends of two lists of types by a shift. -/
  | shift {ps : List Piece} {t : Token} {a b : List Token} (ht : t.kind = .operator .rsh)
      (h : Spells ps a b) :
    Spells (.close :: .close :: ps) (t :: a) b

namespace Spells

variable {ps qs : List Piece} {a b c : List Token} {t : Token}

theorem append (h : Spells ps a b) (h' : Spells qs b c) : Spells (ps ++ qs) a c := by
  induction h with
  | nil => exact h'
  | one ht _ ih => exact .one ht (ih h')
  | shift ht _ ih => exact .shift ht (ih h')

theorem kept (h : Spells ps a b) : Spells (.kept t :: ps) (t :: a) b := .one rfl h

theorem mark {kind : Kind} (ht : t.kind = kind) (h : Spells ps a b) :
    Spells (.mark kind :: ps) (t :: a) b := .one ht h

end Spells

/-- Tokens that spell some pieces, the last of them perhaps by the first half of a shift whose
second half is left. -/
inductive SpellsHalf : List Piece → List Token → List Token → Prop
  /-- The last token is used up. -/
  | whole {ps : List Piece} {a b : List Token} (h : Spells ps a b) : SpellsHalf ps a b
  /-- The last token is a shift, and ends one list of types. -/
  | half {ps : List Piece} {a b : List Token} {t : Token} (ht : t.kind = .operator .rsh)
      (h : Spells ps a (t :: b)) :
    SpellsHalf (ps ++ [.close]) a (halfShift t 1 :: b)

namespace SpellsHalf

variable {ps qs : List Piece} {a b c : List Token} {t : Token}

/-- What is left of a shift is an angle bracket. -/
theorem spells (h : SpellsHalf ps a b) (hb : headKind? b ≠ some (.operator .greater)) :
    Spells ps a b := by
  cases h with
  | whole h => exact h
  | half => exact absurd rfl hb

theorem of_spells (h : Spells ps a b) (h' : SpellsHalf qs b c) : SpellsHalf (ps ++ qs) a c := by
  cases h' with
  | whole h' => exact .whole (h.append h')
  | half ht h' =>
    rw [← List.append_assoc]
    exact .half ht (h.append h')

theorem kept (h : SpellsHalf ps a b) : SpellsHalf (.kept t :: ps) (t :: a) b :=
  of_spells (Spells.nil.kept) h

theorem mark {kind : Kind} (ht : t.kind = kind) (h : SpellsHalf ps a b) :
    SpellsHalf (.mark kind :: ps) (t :: a) b := of_spells (Spells.nil.mark ht) h

/-- A list of types ends with a bracket, with the first half of a shift or with the second. -/
theorem close (h : SpellsHalf ps a b) (hclose : Closes b t c) :
    SpellsHalf (ps ++ [.close]) a c := by
  cases h with
  | whole h =>
    cases hclose with
    | angle ht => exact .whole (h.append (.one ht .nil))
    | shift ht => exact .half ht h
  | half ht h =>
    cases hclose with
    | angle =>
      rw [List.append_assoc]
      exact .whole (h.append (.shift ht .nil))
    | shift ht' => cases ht'

end SpellsHalf

/-! ### Types are spelled -/

/-- The pieces of what the tokens of a form are read to. -/
def TypeForm.pieces : (form : TypeForm) → form.Result → List Piece
  | .ref, type => type.pieces
  | .list?, generics => genericsPieces generics
  | .after? mark, type => typeAfterPieces type mark
  | .list, l => l.pieces
  | .entries, types => typesPieces types

theorem typesPieces_cons {entry : TypeRef} {entries : List TypeRef} (h : entries ≠ []) :
    typesPieces (entry :: entries) = entry.pieces ++ .punct .comma :: typesPieces entries := by
  cases entries with
  | nil => exact absurd rfl h
  | cons => rfl

theorem ReadsType.entries_ne_nil {a b : List Token} {entries : List TypeRef}
    (h : ReadsType .entries a entries b) : entries ≠ [] := by
  cases h <;> simp

/-- Tokens that are read to a type spell its pieces. -/
theorem ReadsType.spells {form : TypeForm} {a b : List Token} {v : form.Result}
    (h : ReadsType form a v b) : SpellsHalf (form.pieces v) a b := by
  induction h with
  | @ref name a b c generics bound hname hgenerics hbound ihgenerics ihbound =>
    refine SpellsHalf.kept ?_
    -- a list that ends with half a shift has no bound after it
    cases hbound with
    | notAfter =>
      rw [typeAfterPieces, List.append_nil]
      exact ihgenerics
    | after ht _ => exact .of_spells (ihgenerics.spells (by simp [ht])) ihbound
  | noList => exact .whole .nil
  | someList _ ih => exact ih
  | notAfter => exact .whole .nil
  | after ht _ ih => exact ih.mark ht
  | list hangle _ hclose ih => exact (ih.close hclose).kept
  | last _ _ ih => exact ih
  | more _ hcomma hmore ih ihmore =>
    rw [TypeForm.pieces, typesPieces_cons hmore.entries_ne_nil]
    exact .of_spells (ih.spells (by simp [hcomma])) (ihmore.mark hcomma)

theorem ReadsType.spells_ref {a b : List Token} {type : TypeRef} (h : ReadsType .ref a type b) :
    SpellsHalf type.pieces a b := h.spells

theorem paramsPieces_cons {p : Param} {params : List Param} (h : params ≠ []) :
    paramsPieces (p :: params) = p.pieces ++ .punct .comma :: paramsPieces params := by
  cases params with
  | nil => exact absurd rfl h
  | cons => rfl

theorem ReadsParams.ne_nil {a b : List Token} {params : List Param} (h : ReadsParams a params b) :
    params ≠ [] := by
  cases h <;> simp

theorem ReadsParams.spells {a b : List Token} {params : List Param} (h : ReadsParams a params b) :
    SpellsHalf (paramsPieces params) a b := by
  induction h with
  | last hname hcolon htype _ => exact (htype.spells_ref.mark hcolon).kept
  | more hname hcolon htype hcomma hmore ih =>
    rw [paramsPieces_cons hmore.ne_nil]
    exact .of_spells ((htype.spells_ref.spells (by simp [hcomma])).mark hcolon).kept
      (ih.mark hcomma)

theorem ReadsParameters.spells {a b : List Token} {params : List Param}
    (h : ReadsParameters a params b) :
    Spells (paramsPieces params ++ [.punct .rparen]) a b := by
  cases h with
  | none hclose => exact Spells.nil.mark hclose
  | some _ h hclose => exact (h.spells.spells (by simp [hclose])).append (Spells.nil.mark hclose)

/-! ### Expressions are spelled -/

/-- The pieces before those that the tokens of a form spell: a left operand, or an expression
whose suffixes they are. -/
def ExprForm.before : ExprForm → List Piece
  | .chain _ _ left => left.pieces
  | .suffixes e => e.pieces
  | _ => []

/-- The pieces of what the tokens of a form are read to. -/
def ExprForm.pieces : (form : ExprForm) → form.Result → List Piece
  | .expression, e => e.pieces
  | .ternary, e => e.pieces
  | .levels _, e => e.pieces
  | .chain _ _ _, e => e.pieces
  | .power, e => e.pieces
  | .unary, e => e.pieces
  | .suffixes _, e => e.pieces
  | .primary, e => e.pieces
  | .list _, es => exprsPieces es
  | .items, es => exprsPieces es

/-- The tokens of a form spell what its pieces add to those before. -/
def ExprForm.Spelled (form : ExprForm) (v : form.Result) (a b : List Token) : Prop :=
  ∃ ps, form.pieces v = form.before ++ ps ∧ Spells ps a b

theorem exprsPieces_cons {e : Expr} {es : List Expr} (h : es ≠ []) :
    exprsPieces (e :: es) = e.pieces ++ .punct .comma :: exprsPieces es := by
  cases es with
  | nil => exact absurd rfl h
  | cons => rfl

theorem ReadsExpr.items_ne_nil {a b : List Token} {items : List Expr}
    (h : ReadsExpr .items a items b) : items ≠ [] := by
  cases h <;> simp

/-- The piece for the operator of an assignment. -/
def assignPiece (op : Token) (o : Operator) : Piece :=
  match o.compoundBase? with
  | some base => .compound (op.recast (.operator base) base.lexeme) base
  | none => .mark (.operator .equals)

theorem assignPiece_fits {op : Token} {o : Operator} (hop : op.kind = .operator o)
    (ho : o.isAssignment = true) : (assignPiece op o).Fits op := by
  unfold assignPiece
  cases hbase : o.compoundBase? with
  | some base => exact ⟨o, hop, hbase, rfl⟩
  | none =>
    have hequals : o = .equals := by simpa [Operator.isAssignment, hbase] using ho
    rw [hequals] at hop
    exact hop

theorem pieces_assign (name op : Token) (o : Operator) (value : Expr) :
    (Expr.assign name o.compoundBase?
      (Reader.assignedValue (.ident name) op o.compoundBase? value)).pieces =
      .kept name :: assignPiece op o :: value.pieces := by
  unfold assignPiece
  cases o.compoundBase? <;> simp [Reader.assignedValue, Expr.pieces]

theorem pieces_set (object : Expr) (member op : Token) (o : Operator) (value : Expr) :
    (Expr.set object member o.compoundBase?
      (Reader.assignedValue (.get object member) op o.compoundBase? value)).pieces =
      (Expr.get object member).pieces ++ assignPiece op o :: value.pieces := by
  unfold assignPiece
  cases o.compoundBase? <;> simp [Reader.assignedValue, Expr.pieces]

theorem spells_signature {generics : Option TypeList} {params : List Param}
    {returnType : Option TypeRef} {lparen : Token} {a b c d : List Token}
    (hgenerics : ReadsType .list? a generics (lparen :: b))
    (hlparen : lparen.kind = .punctuation .lparen) (hparams : ReadsParameters b params c)
    (hreturn : ReadsType (.after? .arrow) c returnType d)
    (hd : headKind? d ≠ some (.operator .greater)) :
    Spells (signaturePieces generics params returnType) a d := by
  have hopen : Spells (genericsPieces generics) a (lparen :: b) :=
    hgenerics.spells.spells (by simp [hlparen])
  have hvalue : Spells (typeAfterPieces returnType .arrow) c d := hreturn.spells.spells hd
  have hrest := hparams.spells.append hvalue
  rw [List.append_assoc] at hrest
  exact hopen.append (hrest.mark hlparen)

/-- No expression begins with what is left of a shift. -/
theorem BeginsExpression.not_greater {tokens : List Token} (h : BeginsExpression tokens) :
    headKind? tokens ≠ some (.operator .greater) :=
  h.headKind?_ne _ fun t ht => by simp [Reader.startsExpression, ht, prefixOperators]

/-- The tokens of an expression spell its pieces. -/
theorem ReadsExpr.spelled {form : ExprForm} {a b : List Token} {v : form.Result}
    (h : ReadsExpr form a v b) : form.Spelled v a b := by
  induction h with
  | plain _ _ ih | noChoice _ _ ih | noLevel _ ih | noComparison _ _ _ ih | noPower _ _ ih =>
    exact ih
  | assign htarget hop ho hvalue ihtarget ihvalue =>
    obtain ⟨_, rfl, htarget⟩ := ihtarget
    obtain ⟨_, rfl, hvalue⟩ := ihvalue
    exact ⟨_, pieces_assign .., htarget.append (hvalue.one (assignPiece_fits hop ho))⟩
  | set htarget hop ho hvalue ihtarget ihvalue =>
    obtain ⟨_, rfl, htarget⟩ := ihtarget
    obtain ⟨_, rfl, hvalue⟩ := ihvalue
    exact ⟨_, pieces_set .., htarget.append (hvalue.one (assignPiece_fits hop ho))⟩
  | choice _ hmark _ hcolon _ ihcondition ihyes ihno =>
    obtain ⟨_, rfl, hcondition⟩ := ihcondition
    obtain ⟨_, rfl, hyes⟩ := ihyes
    obtain ⟨_, rfl, hno⟩ := ihno
    exact ⟨_, rfl, hcondition.append ((hyes.append hno.kept).mark hmark)⟩
  | level _ _ _ ihleft ihchain =>
    obtain ⟨_, rfl, hleft⟩ := ihleft
    obtain ⟨_, hpieces, hchain⟩ := ihchain
    exact ⟨_, hpieces, hleft.append hchain⟩
  | comparison _ _ _ _ _ _ ihleft ihright =>
    obtain ⟨_, rfl, hleft⟩ := ihleft
    obtain ⟨_, rfl, hright⟩ := ihright
    exact ⟨_, rfl, hleft.append hright.kept⟩
  | chainEnd ha => exact ⟨[], (List.append_nil _).symm, .nil⟩
  | chainMore _ _ _ _ ihright ihmore =>
    obtain ⟨_, rfl, hright⟩ := ihright
    obtain ⟨_, hpieces, hmore⟩ := ihmore
    exact ⟨_, hpieces.trans (List.append_assoc ..), (hright.kept).append hmore⟩
  | power _ _ _ ihbase ihexponent =>
    obtain ⟨_, rfl, hbase⟩ := ihbase
    obtain ⟨_, rfl, hexponent⟩ := ihexponent
    exact ⟨_, rfl, hbase.append hexponent.kept⟩
  | prefixed _ _ _ ih =>
    obtain ⟨_, rfl, hoperand⟩ := ih
    exact ⟨_, rfl, hoperand.kept⟩
  | suffixed _ _ _ ih ihsuffixes =>
    obtain ⟨_, rfl, hprimary⟩ := ih
    obtain ⟨_, hpieces, hsuffixes⟩ := ihsuffixes
    exact ⟨_, hpieces, hprimary.append hsuffixes⟩
  | noSuffix ha => exact ⟨[], (List.append_nil _).symm, .nil⟩
  | get hdot _ _ ih =>
    obtain ⟨_, hpieces, h⟩ := ih
    exact ⟨_, hpieces.trans (List.append_assoc ..), h.kept.mark hdot⟩
  | call hlparen _ _ _ ihargs ih =>
    obtain ⟨_, rfl, hargs⟩ := ihargs
    obtain ⟨_, hpieces, h⟩ := ih
    refine ⟨_, hpieces.trans ?_, ((hargs.append Spells.nil.kept).mark hlparen).append h⟩
    simp [ExprForm.before, Expr.pieces, genericsPieces, ExprForm.pieces]
  | index hlbracket _ _ _ ihposition ih =>
    obtain ⟨_, rfl, hposition⟩ := ihposition
    obtain ⟨_, hpieces, h⟩ := ih
    exact ⟨_, hpieces.trans (List.append_assoc ..),
      ((hposition.append Spells.nil.kept).mark hlbracket).append h⟩
  | genericCall _ hgenerics hlparen _ _ _ ihargs ih =>
    obtain ⟨_, rfl, hargs⟩ := ihargs
    obtain ⟨_, hpieces, h⟩ := ih
    have hlist := hgenerics.spells.spells (by simp [hlparen])
    refine ⟨_, hpieces.trans ?_,
      (hlist.append ((hargs.append Spells.nil.kept).mark hlparen)).append h⟩
    simp [ExprForm.before, Expr.pieces, genericsPieces, ExprForm.pieces, TypeForm.pieces]
  | postUnary _ _ _ _ ih =>
    obtain ⟨_, hpieces, h⟩ := ih
    exact ⟨_, hpieces.trans (List.append_assoc ..), h.kept⟩
  | yes | no | this | ident | literal => exact ⟨_, rfl, Spells.nil.kept⟩
  | lambda _ hgenerics hlparen hparams hreturn hbody ih =>
    obtain ⟨_, rfl, hbodySpells⟩ := ih
    have hsignature := spells_signature hgenerics hlparen hparams hreturn
      (hbody.begins rfl).not_greater
    exact ⟨_, rfl, (hsignature.append hbodySpells).kept⟩
  | grouping _ _ _ ih =>
    obtain ⟨_, rfl, hinner⟩ := ih
    exact ⟨_, rfl, (hinner.append Spells.nil.kept).kept⟩
  | array _ _ _ ih =>
    obtain ⟨_, rfl, helements⟩ := ih
    exact ⟨_, rfl, (helements.append Spells.nil.kept).kept⟩
  | noItems => exact ⟨_, rfl, .nil⟩
  | someItems _ _ ih => exact ih
  | lastItem _ _ ih => exact ih
  | moreItems _ hcomma hmore ih ihmore =>
    obtain ⟨_, rfl, hitem⟩ := ih
    obtain ⟨_, rfl, hitems⟩ := ihmore
    exact ⟨_, exprsPieces_cons hmore.items_ne_nil, hitem.append (hitems.mark hcomma)⟩

/-- Tokens that are read to a whole expression spell its pieces. -/
theorem ReadsExpr.spells {a b : List Token} {e : Expr} (h : ReadsExpr .expression a e b) :
    Spells e.pieces a b := by
  obtain ⟨_, rfl, hspells⟩ := h.spelled
  exact hspells

end CurlyScript
