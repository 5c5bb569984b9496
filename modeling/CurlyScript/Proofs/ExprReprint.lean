import CurlyScript.Proofs.Follow

/-!
# Expressions are read back

The printed tokens of an expression are read to the same expression, whatever follows them, as long
as it follows as it did when the expression was read.

## Main definitions

* `ExprForm.ReadBack` — what a part of an expression adds is read to the same value again.

## Main results

* `ReadsExpr.follows` — the printed tokens of a part of an expression follow what stands before
  them as the tokens did that the part was read from.
* `ReadsExpr.readBack` — all parts of expressions are read back, one lemma for each way of putting
  them together.
* `ReadsExpr.reprint` — an expression is read back from its printed tokens.
* `ReadsExpr.truth` — the word `true` is read as a condition before an inert token.
-/

namespace CurlyScript

/-! ### How the pieces of an expression begin -/

/-- The forms whose tokens begin with a token that is kept. -/
def ExprForm.isKeptFirst : ExprForm → Bool
  | .items => true
  | form => form.isExpression

/-- The first token of an expression is its first piece. -/
theorem ReadsExpr.head {form : ExprForm} {a b : List Token} {v : form.Result}
    (h : ReadsExpr form a v b) (hform : form.isKeptFirst = true) :
    ∃ t rest ps, a = t :: rest ∧ form.pieces v = .kept t :: ps := by
  induction h with
  | plain _ _ ih | noChoice _ _ ih | noLevel _ ih | noComparison _ _ _ ih | noPower _ _ ih
  | lastItem _ _ ih => exact ih rfl
  | assign _ _ _ _ ih =>
    obtain ⟨t, rest, ps, rfl, hps⟩ := ih rfl
    cases hps
    exact ⟨_, rest, _, rfl, pieces_assign ..⟩
  | set _ _ _ _ ih =>
    obtain ⟨t, rest, ps, rfl, hps⟩ := ih rfl
    exact ⟨t, rest, _, rfl, (pieces_set ..).trans (congrArg (· ++ _) hps)⟩
  | choice _ _ _ _ _ ih | comparison _ _ _ _ _ _ ih | power _ _ _ ih =>
    obtain ⟨t, rest, ps, rfl, hps⟩ := ih rfl
    exact ⟨t, rest, _, rfl, congrArg (· ++ _) hps⟩
  | level _ _ hchain ih | suffixed _ _ hchain ih =>
    obtain ⟨t, rest, ps, rfl, hps⟩ := ih rfl
    obtain ⟨qs, hqs, -⟩ := hchain.spelled
    exact ⟨t, rest, _, rfl, hqs.trans (congrArg (· ++ qs) hps)⟩
  | prefixed | yes | no | this | lambda | ident | literal | grouping | array =>
    exact ⟨_, _, _, rfl, rfl⟩
  | moreItems _ _ hmore ih =>
    obtain ⟨t, rest, ps, rfl, hps⟩ := ih rfl
    exact ⟨t, rest, _, rfl,
      (exprsPieces_cons hmore.items_ne_nil).trans (congrArg (· ++ _) hps)⟩
  | chainEnd | chainMore | noSuffix | get | call | index | genericCall | postUnary | noItems
  | someItems => cases hform

/-- More operands or suffixes begin with what they add to an expression first. -/
theorem head?_ne_close_of_append {ps qs rs r : List Piece} {p : Piece}
    (h : ps ++ p :: rs ++ r = ps ++ qs) (hp : p ≠ .close) : qs.head? ≠ some .close := by
  rw [List.append_assoc, List.append_right_inj] at h
  subst h
  simpa using hp

theorem ReadsExpr.head?_ne_close_of_kept {form : ExprForm} {a b : List Token} {v : form.Result}
    (h : ReadsExpr form a v b) (hform : form.isKeptFirst = true) {ps : List Piece}
    (hps : form.pieces v = ps) : ps.head? ≠ some .close := by
  obtain ⟨t, rest, qs, -, hqs⟩ := h.head hform
  rw [← hps, hqs]
  simp

/-- No part of an expression begins with the end of a list of types. -/
theorem ReadsExpr.head?_ne_close {form : ExprForm} {a b : List Token} {v : form.Result}
    (h : ReadsExpr form a v b) {ps : List Piece} (hps : form.pieces v = form.before ++ ps) :
    ps.head? ≠ some .close := by
  have hkept (hform : form.isKeptFirst = true) (hbefore : form.before = []) :=
    h.head?_ne_close_of_kept hform (hps.trans (congrArg (· ++ ps) hbefore))
  cases h with
  | plain | assign | set | noChoice | choice | noLevel | level | noComparison | comparison
  | noPower | power | prefixed | suffixed | yes | no | this | lambda | ident | literal | grouping
  | array | lastItem | moreItems => exact hkept rfl rfl
  | chainEnd | noSuffix =>
    obtain rfl : ps = [] := List.self_eq_append_right.mp hps
    simp
  | chainMore _ _ _ h =>
    obtain ⟨qs, hqs, -⟩ := h.spelled
    exact head?_ne_close_of_append (hqs.symm.trans hps) (by simp)
  | get _ _ h =>
    obtain ⟨qs, hqs, -⟩ := h.spelled
    exact head?_ne_close_of_append (hqs.symm.trans hps) (by simp)
  | index _ _ _ h =>
    obtain ⟨qs, hqs, -⟩ := h.spelled
    exact head?_ne_close_of_append (hqs.symm.trans hps) (by simp)
  | postUnary _ _ _ h =>
    obtain ⟨qs, hqs, -⟩ := h.spelled
    exact head?_ne_close_of_append (hqs.symm.trans hps) (by simp)
  | call _ _ _ h =>
    obtain ⟨qs, hqs, -⟩ := h.spelled
    have heq := hqs.symm.trans hps
    simp only [ExprForm.before, Expr.pieces, genericsPieces, List.append_nil] at heq
    exact head?_ne_close_of_append heq (by simp)
  | @genericCall _ _ _ _ generics _ _ _ _ _ _ _ _ _ _ h =>
    obtain ⟨qs, hqs, -⟩ := h.spelled
    have heq := hqs.symm.trans hps
    cases generics
    simp only [ExprForm.before, Expr.pieces, genericsPieces, TypeList.pieces, List.append_assoc,
      List.cons_append] at heq
    exact head?_ne_close_of_append (r := []) ((List.append_nil _).trans heq) (by simp)
  | noItems =>
    obtain rfl : ps = [] := hps.symm
    simp
  | someItems _ h =>
    exact h.head?_ne_close_of_kept rfl hps

/-! ### Expressions are read back -/

/-- The printed tokens of a part of an expression follow as the tokens did that it was read
from. -/
theorem ReadsExpr.follows {form : ExprForm} {a b c : List Token} {v : form.Result}
    (h : ReadsExpr form a v b) {ps : List Piece} (hps : form.pieces v = form.before ++ ps)
    (hb : Follows b c) : Follows a (tokensOf ps ++ c) := by
  obtain ⟨qs, hqs, hspells⟩ := h.spelled
  obtain rfl : qs = ps := List.append_cancel_left (hqs.symm.trans hps)
  exact .of_spells hspells (h.head?_ne_close hps) hb

/-- The printed operator of an assignment makes the same value. -/
theorem assignedValue_assignPiece (target : Expr) (op : Token) (o : Operator) (value : Expr) :
    Reader.assignedValue target (assignPiece op o).token o.compoundBase? value =
      Reader.assignedValue target op o.compoundBase? value := by
  unfold assignPiece
  cases o.compoundBase? <;> rfl

/-- What may follow the printed tokens of a form: before a list of expressions ends with its
closing mark. -/
def ExprForm.Follows : ExprForm → List Token → List Token → Prop
  | .list close, b, c => headKind? c = some (.punctuation close) ∧ CurlyScript.Follows b c
  | _, b, c => CurlyScript.Follows b c

theorem ExprForm.follows_list {close : Punctuation} {t : Token} (ht : t.kind = .punctuation close)
    (hclose : (Kind.punctuation close).isInert = true) (b c : List Token) :
    (ExprForm.list close).Follows b (t :: c) :=
  ⟨by rw [headKind?_cons, ht], .of_inert _ _ ht hclose⟩

/-- A form of an expression is read back: the pieces that it adds are read to the same value,
whatever may follow them. -/
def ExprForm.ReadBack (form : ExprForm) (v : form.Result) (b : List Token) : Prop :=
  ∃ ps, form.pieces v = form.before ++ ps ∧
    ∀ c, form.Follows b c → ReadsExpr form (tokensOf ps ++ c) v c

namespace ExprForm.ReadBack

/-! ### Assignments and choices -/

section Assignment

variable {op : Token} {o : Operator} {b c : List Token} {value : Expr}
  (hop : op.kind = .operator o) (ho : o.isAssignment = true)
  (hvalue : ReadsExpr .expression b value c) (ihvalue : expression.ReadBack value c)

include hop ho hvalue ihvalue

theorem assign {name : Token} (ihtarget : ternary.ReadBack (.ident name) (op :: b)) :
    expression.ReadBack (.assign name o.compoundBase?
      (Reader.assignedValue (.ident name) op o.compoundBase? value)) c := by
  obtain ⟨_, rfl, htarget⟩ := ihtarget
  obtain ⟨_, rfl, hread⟩ := ihvalue
  refine ⟨.kept name :: assignPiece op o :: value.pieces, pieces_assign .., fun c hc => ?_⟩
  have hkind := (assignPiece_fits hop ho).kind_eq
  have htail := hvalue.follows rfl hc
  rw [← assignedValue_assignPiece]
  exact .assign (htarget _ (.cons hkind htail.alike)) (hkind.symm.trans hop) ho (hread c hc)

theorem set {object : Expr} {member : Token}
    (ihtarget : ternary.ReadBack (.get object member) (op :: b)) :
    expression.ReadBack (.set object member o.compoundBase?
      (Reader.assignedValue (.get object member) op o.compoundBase? value)) c := by
  obtain ⟨_, rfl, htarget⟩ := ihtarget
  obtain ⟨_, rfl, hread⟩ := ihvalue
  refine ⟨(Expr.get object member).pieces ++ assignPiece op o :: value.pieces, pieces_set ..,
    fun c hc => ?_⟩
  have hkind := (assignPiece_fits hop ho).kind_eq
  have htail := hvalue.follows rfl hc
  rw [← assignedValue_assignPiece, tokensOf_append_cons]
  exact .set (htarget _ (.cons hkind htail.alike)) (hkind.symm.trans hop) ho (hread c hc)

end Assignment

theorem choice {mark colon : Token} {b c d : List Token} {condition yes no : Expr}
    (hmark : mark.kind = .punctuation .questionMark)
    (hyes : ReadsExpr .expression b yes (colon :: c))
    (hcolon : colon.kind = .punctuation .colon) (hno : ReadsExpr .ternary c no d)
    (ihcondition : (levels binaryLevels).ReadBack condition (mark :: b))
    (ihyes : expression.ReadBack yes (colon :: c)) (ihno : ternary.ReadBack no d) :
    ternary.ReadBack (.ternary condition yes colon no) d := by
  obtain ⟨_, rfl, hcondition⟩ := ihcondition
  obtain ⟨_, rfl, hreadYes⟩ := ihyes
  obtain ⟨_, rfl, hreadNo⟩ := ihno
  refine ⟨condition.pieces ++ .punct .questionMark :: (yes.pieces ++ .kept colon :: no.pieces), rfl,
    fun c hc => ?_⟩
  have hafter : CurlyScript.Follows (colon :: _) (colon :: (tokensOf no.pieces ++ c)) :=
    .cons rfl (hno.follows rfl hc).alike
  have hbranches := hyes.follows rfl hafter
  rw [tokensOf_append_cons, tokensOf_append_cons]
  exact .choice (hcondition _ (.cons hmark hbranches.alike)) rfl (hreadYes _ hafter) hcolon
    (hreadNo c hc)

/-! ### Operators -/

section Levels

variable {l : Level} {ls : List Level} {b c : List Token}

theorem level {left e : Expr} (hl : l.chains = true)
    (hchain : ReadsExpr (.chain l.operators ls left) b e c)
    (ihleft : (levels ls).ReadBack left b) (ihchain : (chain l.operators ls left).ReadBack e c) :
    (levels (l :: ls)).ReadBack e c := by
  obtain ⟨_, rfl, hleft⟩ := ihleft
  obtain ⟨qs, hqs, hread⟩ := ihchain
  refine ⟨left.pieces ++ qs, hqs, fun c hc => ?_⟩
  rw [tokensOf_append_append]
  exact .level hl (hleft _ (hchain.follows hqs hc)) (hread c hc)

theorem comparison {op : Token} {o : Operator} {left right : Expr} (hl : l.chains = false)
    (hop : op.kind = .operator o) (ho : o ∈ l.operators)
    (hright : ReadsExpr (.levels ls) b right c) (hend : NoOperator l.operators c)
    (ihleft : (levels ls).ReadBack left (op :: b)) (ihright : (levels ls).ReadBack right c) :
    (levels (l :: ls)).ReadBack (.binary left op right) c := by
  obtain ⟨_, rfl, hleft⟩ := ihleft
  obtain ⟨_, rfl, hread⟩ := ihright
  refine ⟨left.pieces ++ .kept op :: right.pieces, rfl, fun c hc => ?_⟩
  rw [tokensOf_append_cons]
  exact .comparison hl (hleft _ (.cons rfl (hright.follows rfl hc).alike)) hop ho (hread c hc)
    (Follows.noOperator hc hend)

theorem chainMore {ops : List Operator} {op : Token} {o : Operator} {left right e : Expr}
    (hop : op.kind = .operator o) (ho : o ∈ ops)
    (hmore : ReadsExpr (.chain ops ls (.binary left op right)) b e c)
    (ihright : (levels ls).ReadBack right b)
    (ihmore : (chain ops ls (.binary left op right)).ReadBack e c) :
    (chain ops ls left).ReadBack e c := by
  obtain ⟨_, rfl, hright⟩ := ihright
  obtain ⟨qs, hqs, hread⟩ := ihmore
  refine ⟨.kept op :: (right.pieces ++ qs), hqs.trans (List.append_assoc ..), fun c hc => ?_⟩
  rw [tokensOf_cons, List.cons_append, tokensOf_append_append]
  exact .chainMore hop ho (hright _ (hmore.follows hqs hc)) (hread c hc)

end Levels

theorem power {op : Token} {b c : List Token} {base exponent : Expr}
    (hop : op.kind = .operator .power) (hexponent : ReadsExpr .power b exponent c)
    (ihbase : unary.ReadBack base (op :: b)) (ihexponent : ExprForm.power.ReadBack exponent c) :
    ExprForm.power.ReadBack (.binary base op exponent) c := by
  obtain ⟨_, rfl, hbase⟩ := ihbase
  obtain ⟨_, rfl, hread⟩ := ihexponent
  refine ⟨base.pieces ++ .kept op :: exponent.pieces, rfl, fun c hc => ?_⟩
  rw [tokensOf_append_cons]
  exact .power (hbase _ (.cons rfl (hexponent.follows rfl hc).alike)) hop (hread c hc)

theorem suffixed {a b c : List Token} {e e' : Expr} (ha : NoOperator prefixOperators a)
    (h : ReadsExpr .primary a e b) (hsuffixes : ReadsExpr (.suffixes e) b e' c)
    (ih : primary.ReadBack e b) (ihsuffixes : (suffixes e).ReadBack e' c) :
    unary.ReadBack e' c := by
  obtain ⟨_, rfl, hprimary⟩ := ih
  obtain ⟨qs, hqs, hread⟩ := ihsuffixes
  refine ⟨e.pieces ++ qs, hqs, fun c hc => ?_⟩
  have hafter := hsuffixes.follows hqs hc
  rw [tokensOf_append_append]
  exact .suffixed (Follows.noOperator (h.follows rfl hafter) ha) (hprimary _ hafter) (hread c hc)

/-! ### Suffixes -/

section Suffixes

variable {e e' : Expr} {b c : List Token}

theorem call {paren : Token} {args : List Expr} (hparen : paren.kind = .punctuation .rparen)
    (ihargs : (list .rparen).ReadBack args (paren :: b))
    (ih : (suffixes (.call e none args paren)).ReadBack e' c) :
    (suffixes e).ReadBack e' c := by
  obtain ⟨_, rfl, hargs⟩ := ihargs
  obtain ⟨qs, hqs, hread⟩ := ih
  refine ⟨.punct .lparen :: (exprsPieces args ++ .kept paren :: qs), hqs.trans ?_,
    fun c hc => ?_⟩
  · simp [ExprForm.before, Expr.pieces, genericsPieces]
  · rw [tokensOf_cons, List.cons_append, tokensOf_append_cons]
    exact .call rfl (hargs _ (ExprForm.follows_list hparen rfl _ _)) hparen (hread c hc)

theorem index {position : Expr} {bracket : Token} (hbracket : bracket.kind = .punctuation .rbracket)
    (h : ReadsExpr (.suffixes (.index e position bracket)) b e' c)
    (ihposition : expression.ReadBack position (bracket :: b))
    (ih : (suffixes (.index e position bracket)).ReadBack e' c) :
    (suffixes e).ReadBack e' c := by
  obtain ⟨_, rfl, hreadPosition⟩ := ihposition
  obtain ⟨qs, hqs, hread⟩ := ih
  refine ⟨.punct .lbracket :: (position.pieces ++ .kept bracket :: qs), hqs.trans ?_,
    fun c hc => ?_⟩
  · simp [ExprForm.before, Expr.pieces]
  · rw [tokensOf_cons, List.cons_append, tokensOf_append_cons]
    exact .index rfl (hreadPosition _ (.cons rfl (h.follows hqs hc).alike)) hbracket (hread c hc)

theorem genericCall {lparen paren : Token} {generics : TypeList} {args : List Expr}
    {a d : List Token} (he : e.isPlace = true)
    (hgenerics : ReadsType .list a generics (lparen :: b))
    (hlparen : lparen.kind = .punctuation .lparen) (hparen : paren.kind = .punctuation .rparen)
    (ihargs : (list .rparen).ReadBack args (paren :: c))
    (ih : (suffixes (.call e (some generics) args paren)).ReadBack e' d) :
    (suffixes e).ReadBack e' d := by
  obtain ⟨_, rfl, hargs⟩ := ihargs
  obtain ⟨qs, hqs, hread⟩ := ih
  refine ⟨generics.pieces ++ .punct .lparen :: (exprsPieces args ++ .kept paren :: qs),
    hqs.trans ?_, fun c hc => ?_⟩
  · simp [ExprForm.before, Expr.pieces, genericsPieces]
  · rw [tokensOf_append_cons, tokensOf_append_cons]
    exact .genericCall he (hgenerics.reprint rfl (.cons hlparen _ _)) rfl
      (hargs _ (ExprForm.follows_list hparen rfl _ _)) hparen (hread c hc)

end Suffixes

/-! ### Operands -/

theorem lambda {keyword lparen : Token} {generics : Option TypeList} {params : List Param}
    {returnType : Option TypeRef} {body : Expr} {a b c d e : List Token}
    (hkeyword : keyword.kind = .keyword .fn) (hgenerics : ReadsType .list? a generics (lparen :: b))
    (hlparen : lparen.kind = .punctuation .lparen) (hparams : ReadsParameters b params c)
    (hreturn : ReadsType (.after? .arrow) c returnType d)
    (hbody : ReadsExpr .expression d body e) (ih : expression.ReadBack body e) :
    primary.ReadBack (.lambda keyword generics params returnType body) e := by
  obtain ⟨_, rfl, hread⟩ := ih
  refine ⟨.kept keyword :: (signaturePieces generics params returnType ++ body.pieces), rfl,
    fun c hc => ?_⟩
  obtain ⟨b', c', hgenerics', hparams', hreturn'⟩ :=
    reprint_signature hgenerics hlparen hparams hreturn (hbody.follows rfl hc).type
  rw [tokensOf_cons, List.cons_append, tokensOf_append_append]
  exact .lambda hkeyword hgenerics' rfl hparams' hreturn' (hread c hc)

theorem grouping {lparen rparen : Token} {inner : Expr} {b : List Token}
    (hlparen : lparen.kind = .punctuation .lparen) (hrparen : rparen.kind = .punctuation .rparen)
    (ih : expression.ReadBack inner (rparen :: b)) :
    primary.ReadBack (.grouping lparen inner rparen) b := by
  obtain ⟨_, rfl, hread⟩ := ih
  refine ⟨.kept lparen :: (inner.pieces ++ [.kept rparen]), rfl, fun c hc => ?_⟩
  rw [tokensOf_cons, List.cons_append, tokensOf_append_cons]
  exact .grouping hlparen (hread _ (.of_inert _ _ hrparen rfl)) hrparen

theorem array {bracket close : Token} {elements : List Expr} {b : List Token}
    (hbracket : bracket.kind = .punctuation .lbracket)
    (hclose : close.kind = .punctuation .rbracket)
    (ih : (list .rbracket).ReadBack elements (close :: b)) :
    primary.ReadBack (.array bracket elements close) b := by
  obtain ⟨_, rfl, hread⟩ := ih
  refine ⟨.kept bracket :: (exprsPieces elements ++ [.kept close]), rfl, fun c hc => ?_⟩
  rw [tokensOf_cons, List.cons_append, tokensOf_append_cons]
  exact .array hbracket (hread _ (ExprForm.follows_list hclose rfl _ _)) hclose

/-! ### Lists of expressions -/

theorem someItems {close : Punctuation} {a b : List Token} {exprs : List Expr}
    (ha : headKind? a ≠ some (.punctuation close)) (h : ReadsExpr .items a exprs b)
    (ih : items.ReadBack exprs b) : (list close).ReadBack exprs b := by
  obtain ⟨ps, hps, hread⟩ := ih
  obtain ⟨t, rest, qs, rfl, hqs⟩ := h.head rfl
  obtain rfl : ps = .kept t :: qs := hps.symm.trans hqs
  exact ⟨_, hps, fun c hc => .someItems ha (hread c hc.2)⟩

theorem moreItems {comma : Token} {b c : List Token} {item : Expr} {exprs : List Expr}
    (hcomma : comma.kind = .punctuation .comma) (hmore : ReadsExpr .items b exprs c)
    (ih : expression.ReadBack item (comma :: b)) (ihmore : items.ReadBack exprs c) :
    items.ReadBack (item :: exprs) c := by
  obtain ⟨_, rfl, hitem⟩ := ih
  obtain ⟨_, rfl, hread⟩ := ihmore
  refine ⟨item.pieces ++ .punct .comma :: exprsPieces exprs,
    exprsPieces_cons hmore.items_ne_nil, fun c hc => ?_⟩
  rw [tokensOf_append_cons]
  exact .moreItems (hitem _ (.cons hcomma (hmore.follows rfl hc).alike)) rfl (hread c hc)

end ExprForm.ReadBack

/-! ### All expressions -/

/-- Expressions are read back from their printed tokens. -/
theorem ReadsExpr.readBack {form : ExprForm} {a b : List Token} {v : form.Result}
    (h : ReadsExpr form a v b) : form.ReadBack v b := by
  induction h with
  -- where nothing is added, what follows rules out the same as before
  | plain _ hb ih =>
    obtain ⟨ps, hps, hread⟩ := ih
    exact ⟨ps, hps, fun c hc => .plain (hread c hc) (CurlyScript.Follows.noAssignment hc hb)⟩
  | noChoice _ hb ih =>
    obtain ⟨ps, hps, hread⟩ := ih
    exact ⟨ps, hps, fun c hc => .noChoice (hread c hc) (Follows.headKind?_ne hc rfl hb)⟩
  | noLevel _ ih =>
    obtain ⟨ps, hps, hread⟩ := ih
    exact ⟨ps, hps, fun c hc => .noLevel (hread c hc)⟩
  | noComparison hl _ hb ih =>
    obtain ⟨ps, hps, hread⟩ := ih
    exact ⟨ps, hps, fun c hc => .noComparison hl (hread c hc) (Follows.noOperator hc hb)⟩
  | noPower _ hb ih =>
    obtain ⟨ps, hps, hread⟩ := ih
    exact ⟨ps, hps, fun c hc => .noPower (hread c hc) (Follows.noOperator hc hb)⟩
  | lastItem _ hb ih =>
    obtain ⟨ps, hps, hread⟩ := ih
    exact ⟨ps, hps, fun c hc => .lastItem (hread c hc) (Follows.headKind?_ne hc rfl hb)⟩
  | chainEnd ha =>
    exact ⟨[], (List.append_nil _).symm, fun c hc => .chainEnd (Follows.noOperator hc ha)⟩
  | noSuffix ha =>
    exact ⟨[], (List.append_nil _).symm, fun c hc => .noSuffix (Follows.noSuffix hc ha)⟩
  | noItems ha => exact ⟨[], rfl, fun c hc => .noItems hc.1⟩
  -- one token stands before or behind
  | prefixed hop ho _ ih =>
    obtain ⟨_, rfl, hread⟩ := ih
    exact ⟨_, rfl, fun c hc => .prefixed hop ho (hread c hc)⟩
  | get _ hmember _ ih =>
    obtain ⟨qs, hqs, hread⟩ := ih
    exact ⟨.punct .dot :: .kept _ :: qs, hqs.trans (List.append_assoc ..),
      fun c hc => .get rfl hmember (hread c hc)⟩
  | postUnary he hop ho _ ih =>
    obtain ⟨qs, hqs, hread⟩ := ih
    exact ⟨.kept _ :: qs, hqs.trans (List.append_assoc ..),
      fun c hc => .postUnary he hop ho (hread c hc)⟩
  | yes ht => exact ⟨_, rfl, fun c _ => .yes ht⟩
  | no ht => exact ⟨_, rfl, fun c _ => .no ht⟩
  | this ht => exact ⟨_, rfl, fun c _ => .this ht⟩
  | ident ht => exact ⟨_, rfl, fun c _ => .ident ht⟩
  | literal ht hkind hvalue => exact ⟨_, rfl, fun c _ => .literal ht hkind hvalue⟩
  -- several parts
  | assign _ hop ho hvalue ihtarget ihvalue => exact .assign hop ho hvalue ihvalue ihtarget
  | set _ hop ho hvalue ihtarget ihvalue => exact .set hop ho hvalue ihvalue ihtarget
  | choice _ hmark hyes hcolon hno ihcondition ihyes ihno =>
    exact .choice hmark hyes hcolon hno ihcondition ihyes ihno
  | level hl _ hchain ihleft ihchain => exact .level hl hchain ihleft ihchain
  | comparison hl _ hop ho hright hend ihleft ihright =>
    exact .comparison hl hop ho hright hend ihleft ihright
  | chainMore hop ho _ hmore ihright ihmore => exact .chainMore hop ho hmore ihright ihmore
  | power _ hop hexponent ihbase ihexponent => exact .power hop hexponent ihbase ihexponent
  | suffixed ha h hsuffixes ih ihsuffixes => exact .suffixed ha h hsuffixes ih ihsuffixes
  | call _ _ hparen _ ihargs ih => exact .call hparen ihargs ih
  | index _ _ hbracket h ihposition ih => exact .index hbracket h ihposition ih
  | genericCall he hgenerics hlparen _ hparen _ ihargs ih =>
    exact .genericCall he hgenerics hlparen hparen ihargs ih
  | lambda hkeyword hgenerics hlparen hparams hreturn hbody ih =>
    exact .lambda hkeyword hgenerics hlparen hparams hreturn hbody ih
  | grouping hlparen _ hrparen ih => exact .grouping hlparen hrparen ih
  | array hbracket _ hclose ih => exact .array hbracket hclose ih
  | someItems ha h ih => exact .someItems ha h ih
  | moreItems _ hcomma hmore ih ihmore => exact .moreItems hcomma hmore ih ihmore

/-- An expression is read back from its printed tokens. -/
theorem ReadsExpr.reprint {a b c : List Token} {e : Expr} (h : ReadsExpr .expression a e b)
    (hb : Follows b c) : ReadsExpr .expression (tokensOf e.pieces ++ c) e c := by
  obtain ⟨_, rfl, hread⟩ := h.readBack
  exact hread c hb

/-! ### The condition that is always true -/

/-- Before an inert token, an operand is all of an expression. -/
theorem ReadsExpr.levels_of_inert {a b : List Token} {e : Expr} (h : ReadsExpr .power a e b)
    (hb : ∀ o : Operator, headKind? b ≠ some (.operator o)) (ls : List Level) :
    ReadsExpr (.levels ls) a e b := by
  induction ls with
  | nil => exact .noLevel h
  | cons l ls ih =>
    cases hl : l.chains with
    | true => exact .level hl ih (.chainEnd fun o _ => hb o)
    | false => exact .noComparison hl ih fun o _ => hb o

/-- The word `true` before an inert token is an expression. -/
theorem ReadsExpr.truth {t u : Token} {kind : Kind} (b : List Token)
    (ht : t.kind = .keyword .true) (hu : u.kind = kind) (hkind : kind.isInert = true) :
    ReadsExpr .expression (t :: u :: b) (.literal (.bool true) t) (u :: b) := by
  -- nothing continues the empty text, so nothing continues before an inert token
  have hfollows : Follows [] (u :: b) := .of_inert _ _ hu hkind
  have hoperator (o : Operator) : headKind? (u :: b) ≠ some (.operator o) :=
    hfollows.headKind?_ne rfl (by simp)
  have hsuffixes : ReadsExpr (.suffixes (.literal (.bool true) t)) (u :: b) _ (u :: b) :=
    .noSuffix (hfollows.noSuffix ⟨by simp, by simp, by simp, nofun, nofun⟩)
  have hunary : ReadsExpr .unary (t :: u :: b) _ (u :: b) :=
    .suffixed (by simp [NoOperator, ht]) (.yes ht) hsuffixes
  have hlevels := (ReadsExpr.noPower hunary fun o _ => hoperator o).levels_of_inert hoperator
    binaryLevels
  exact .plain (.noChoice hlevels (hfollows.headKind?_ne rfl (by simp)))
    fun o ho => absurd ho (hoperator o)

end CurlyScript
