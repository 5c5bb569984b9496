import CurlyScript.Proofs.Nodes

/-!
# The spans of types and expressions

The span of an expression is exact, whatever the expression consists of: by induction on how it was
read, its first and its last part have exact spans, and the tokens between them are of no account.
The span of a type ends with its last name, since the brackets that close its lists are not kept.

## Main results

* `DerivesType.spanned` — the span of a type has all tokens that are derived for it but the closing
  brackets at their end.
* `ReadsExpr.placed` — an expression and all nodes in it have the spans of their tokens.
-/

namespace CurlyScript

/-! ### Closing brackets -/

theorem withoutClosers_append {a b : List Token} (h : withoutClosers b ≠ []) :
    withoutClosers (a ++ b) = a ++ withoutClosers b := by
  unfold withoutClosers List.rdropWhile at h ⊢
  rw [ne_eq, List.reverse_eq_nil_iff, ← List.isEmpty_iff] at h
  rw [List.reverse_append, List.dropWhile_append, if_neg h, List.reverse_append,
    List.reverse_reverse]

theorem withoutClosers_concat {a : List Token} {close : Token}
    (h : close.kind = .operator .greater) : withoutClosers (a ++ [close]) = withoutClosers a :=
  List.rdropWhile_concat_pos _ _ _ (beq_iff_eq.mpr h)

/-- A name is no closing bracket. -/
theorem hull_name {name : Token} (hname : name.kind = .identifier) :
    Hull (withoutClosers [name]) name.span := by
  rw [withoutClosers, List.rdropWhile_singleton, if_neg (by simp [hname])]
  exact hull_singleton name

/-- From a token to something after it that may end with closing brackets. -/
theorem Hull.cover_closers {first : Token} (mid : List Token) {p : List Token} {s : Span}
    (hall : Ordered (first :: (mid ++ p))) (h : Hull (withoutClosers p) s) :
    Hull (withoutClosers (first :: (mid ++ p))) (first.span.cover s) := by
  have hcore : withoutClosers (first :: (mid ++ p)) = first :: (mid ++ withoutClosers p) :=
    withoutClosers_append (a := first :: mid) h.ne_nil
  have hcoreAll : first :: (mid ++ withoutClosers p) <+: first :: (mid ++ p) := by
    rw [← hcore]
    exact List.rdropWhile_prefix _ _
  have hlast : withoutClosers p <:+ first :: (mid ++ withoutClosers p) :=
    (List.suffix_append ..).trans (List.suffix_cons ..)
  rw [hcore]
  exact (hull_singleton first).cover (hall.of_part hcoreAll.isInfix) h
    (List.prefix_append [first] _) hlast

/-! ### Types -/

/-- The nodes of what the tokens of a form are read to. -/
def TypeForm.nodes : (form : TypeForm) → form.Result → List TreeNode
  | .ref, type => type.nodes
  | .list?, generics => genericsNodes generics
  | .after? _, type => typeNodes? type
  | .list, l => l.nodes
  | .entries, types => typesNodes types

/-- How the tokens of a form and the span of what they are read to go together.  What is missing has
no tokens, a mark before a type is not part of it, and of some entries the last one decides. -/
def TypeForm.Spanned : (form : TypeForm) → form.Result → List Token → Prop
  | .ref, type, p => Hull (withoutClosers p) type.span
  | .list?, none, p => p = []
  | .list?, some l, p => Hull (withoutClosers p) l.span
  | .after? _, none, p => p = []
  | .after? _, some type, p => ∃ mark q, p = mark :: q ∧ Hull (withoutClosers q) type.span
  | .list, l, p => Hull (withoutClosers p) l.span
  | .entries, types, p =>
    ∃ before q last, p = before ++ q ∧ lastTypeSpan? types = some last ∧
      Hull (withoutClosers q) last

/-- The span of a reference ends with its bound, or else with its list, or else with its name. -/
theorem hull_ref {name : Token} {a b : List Token} {generics : Option TypeList}
    {bound : Option TypeRef} (hname : name.kind = .identifier) (hall : Ordered (name :: (a ++ b)))
    (hgenerics : TypeForm.list?.Spanned generics a)
    (hbound : (TypeForm.after? .colon).Spanned bound b) :
    Hull (withoutClosers (name :: (a ++ b))) (TypeRef.span ⟨name, generics, bound⟩) := by
  cases bound with
  | some bound =>
    obtain ⟨mark, q, rfl, hq⟩ := hbound
    rw [List.append_cons] at hall ⊢
    exact Hull.cover_closers _ hall hq
  | none =>
    cases hbound
    rw [List.append_nil] at hall ⊢
    cases generics with
    | some l => exact Hull.cover_closers [] hall hgenerics
    | none =>
      cases hgenerics
      exact hull_name hname

section File

variable {file : List Token} {x : Extent} {lo : Nat}

/-- The span of a type has all tokens that are derived for it but the closing brackets at their end,
and so it is with all nodes in it. -/
theorem DerivesType.spanned {form : TypeForm} {p : List Token} {r : form.Result}
    (h : DerivesType form p r) (hfile : InOrder x lo file) (hp : p <:+: halved file) :
    form.Spanned r p ∧ AllPlaced file (form.nodes r) := by
  have hordered := hfile.halved.ordered
  induction h with
  | @ref name a b generics bound hname hgenerics hbound ihGenerics ihBound =>
    have hrest : a ++ b <:+: halved file := (List.suffix_cons ..).isInfix.trans hp
    obtain ⟨hlist, hlistNodes⟩ := ihGenerics ((List.prefix_append ..).isInfix.trans hrest)
    obtain ⟨hafter, hafterNodes⟩ := ihBound ((List.suffix_append ..).isInfix.trans hrest)
    have hspan := hull_ref hname (hordered.of_part hp) hlist hafter
    refine ⟨hspan, .cons ⟨trivial, _, hp, .ref hname hgenerics hbound, hspan⟩ ?_⟩
    exact hlistNodes.append hafterNodes
  | noList => exact ⟨rfl, .nil⟩
  | someList _ ih => exact ih hp
  | notAfter => exact ⟨rfl, .nil⟩
  | after ht _ ih =>
    obtain ⟨hspan, hnodes⟩ := ih ((List.suffix_cons ..).isInfix.trans hp)
    exact ⟨⟨_, _, rfl, hspan⟩, hnodes⟩
  | @list angle close a entries hangle hentries hclose ih =>
    have hinside : angle :: a <:+: halved file :=
      (List.prefix_append (angle :: a) [close]).isInfix.trans hp
    obtain ⟨⟨before, q, last, rfl, hlast, hq⟩, hnodes⟩ :=
      ih ((List.suffix_cons ..).isInfix.trans hinside)
    have hspan : Hull (withoutClosers (angle :: (before ++ q ++ [close])))
        (TypeList.span ⟨angle, entries⟩) := by
      rw [← List.cons_append, withoutClosers_concat hclose, TypeList.span, hlast]
      exact Hull.cover_closers _ (hordered.of_part hinside) hq
    exact ⟨hspan, .cons ⟨trivial, _, hp, .list hangle hentries hclose, hspan⟩ hnodes⟩
  | last _ ih =>
    obtain ⟨hspan, hnodes⟩ := ih hp
    exact ⟨⟨[], _, _, rfl, rfl, hspan⟩, hnodes.append .nil⟩
  | @more comma a b entry entries _ _ hmore ih ihMore =>
    obtain ⟨-, hnodes⟩ := ih ((List.prefix_append ..).isInfix.trans hp)
    have hrest : b <:+: halved file :=
      (suffix_of_cons (List.suffix_append ..)).isInfix.trans hp
    obtain ⟨⟨before, q, last, rfl, hlast, hq⟩, hmoreNodes⟩ := ihMore hrest
    refine ⟨⟨a ++ comma :: before, q, last, by simp, ?_, hq⟩, hnodes.append hmoreNodes⟩
    cases entries with
    | nil => cases hlast
    | cons => exact hlast

/-- What the halves of the end of a file begin with is among the halves of the file. -/
theorem inside_halved {a p rest : List Token} (ha : a <:+ file) (hp : halved a = p ++ rest) :
    p <:+: halved file := by
  obtain ⟨before, rfl⟩ := ha
  exact ⟨halved before, rest, by rw [halved_append, hp, List.append_assoc]⟩

/-- What is read to a type is derived for it, and the span goes up to the closing brackets. -/
theorem ReadsType.spanned {form : TypeForm} {a b : List Token} {r : form.Result}
    (h : ReadsType form a r b) (hfile : InOrder x lo file) (ha : a <:+ file) :
    ∃ p, halved a = p ++ halved b ∧ DerivesType form p r ∧ form.Spanned r p ∧
      AllPlaced file (form.nodes r) := by
  obtain ⟨p, hp, hderives⟩ := h.derives
  obtain ⟨hspanned, hnodes⟩ := hderives.spanned hfile (inside_halved ha hp)
  exact ⟨p, hp, hderives, hspanned, hnodes⟩

theorem ReadsType.placed {form : TypeForm} {a b : List Token} {r : form.Result}
    (h : ReadsType form a r b) (hfile : InOrder x lo file) (ha : a <:+ file) :
    AllPlaced file (form.nodes r) := by
  obtain ⟨-, -, -, -, hnodes⟩ := h.spanned hfile ha
  exact hnodes

/-- The span of a parameter goes as far as that of its type. -/
theorem placed_param {name colon : Token} {type : TypeRef} {a b : List Token}
    (hname : name.kind = .identifier) (hcolon : colon.kind = .punctuation .colon)
    (htype : ReadsType .ref a type b) (hfile : InOrder x lo file)
    (ha : name :: colon :: a <:+ file) : AllPlaced file (Param.nodes ⟨name, type⟩) := by
  have hrest : a <:+ file := suffix_of_cons (suffix_of_cons ha)
  obtain ⟨p, hp, hderives, hspan, hnodes⟩ := htype.spanned hfile hrest
  have hhalves : halved (name :: colon :: a) = name :: colon :: p ++ halved b := by
    rw [halved_cons_of_ne (by simp [hname]),
      halved_cons_of_ne (by simp [hcolon]), hp]
    rfl
  have hinside := inside_halved ha hhalves
  have hall := hfile.halved.ordered.of_part hinside
  refine .cons ⟨trivial, colon, p, hinside, hcolon, hderives, ?_⟩ hnodes
  exact Hull.cover_closers [colon] hall hspan

theorem ReadsParams.placed {a b : List Token} {params : List Param} (h : ReadsParams a params b)
    (hfile : InOrder x lo file) (ha : a <:+ file) :
    AllPlaced file (params.flatMap Param.nodes) := by
  induction h with
  | last hname hcolon htype _ => exact (placed_param hname hcolon htype hfile ha).append .nil
  | more hname hcolon htype hcomma _ ih =>
    have hrest := (htype.spells_ref.spells (by simp [hcomma])).suffix
    refine (placed_param hname hcolon htype hfile ha).append (ih ?_)
    exact suffix_of_cons (hrest.trans (suffix_of_cons (suffix_of_cons ha)))

theorem ReadsParameters.placed {a b : List Token} {params : List Param}
    (h : ReadsParameters a params b) (hfile : InOrder x lo file) (ha : a <:+ file) :
    AllPlaced file (params.flatMap Param.nodes) := by
  cases h with
  | none => exact .nil
  | some _ h _ => exact h.placed hfile ha

theorem placed_signature {generics : Option TypeList} {params : List Param}
    {returnType : Option TypeRef} {lparen : Token} {a b c d : List Token}
    (hgenerics : ReadsType .list? a generics (lparen :: b))
    (hlparen : lparen.kind = .punctuation .lparen) (hparams : ReadsParameters b params c)
    (hreturn : ReadsType (.after? .arrow) c returnType d) (hfile : InOrder x lo file)
    (ha : a <:+ file) : AllPlaced file (signatureNodes generics params returnType) := by
  have hb : b <:+ file :=
    suffix_of_cons ((hgenerics.spells.spells (by simp [hlparen])).suffix.trans ha)
  have hc : c <:+ file := hparams.spells.suffix.trans hb
  exact (hgenerics.placed hfile ha).append
    ((hparams.placed hfile hb).append (hreturn.placed hfile hc))

/-! ### Expressions -/

/-- The tokens of a member begin with those of its object. -/
def Expr.ObjectFirst (file : List Token) (a b : List Token) : Expr → Prop
  | .get object member =>
    ∃ m, Stands file object.pieces object.span a m ∧ Spells [.punct .dot, .kept member] m b
  | _ => True

/-- The span of an expression is that of its tokens, and all nodes in it are placed. -/
structure Expr.PlacedAt (file : List Token) (e : Expr) (a b : List Token) : Prop where
  /-- The span is that of the tokens. -/
  stands : Stands file e.pieces e.span a b
  /-- The nodes below are placed. -/
  inner : AllPlaced file e.innerNodes
  /-- The object of a member comes first. -/
  object : e.ObjectFirst file a b

theorem Expr.PlacedAt.nodes {e : Expr} {a b : List Token} (h : e.PlacedAt file a b) :
    AllPlaced file e.nodes :=
  .cons ⟨⟨a, b, h.stands⟩, trivial⟩ h.inner

/-- What is said of the tokens of a form.  Those that continue a left operand, or that are suffixes,
make one expression with the tokens before them. -/
def ExprForm.Placed (file : List Token) :
    (form : ExprForm) → form.Result → List Token → List Token → Prop
  | .expression, e, a, b => a <:+ file → e.PlacedAt file a b
  | .ternary, e, a, b => a <:+ file → e.PlacedAt file a b
  | .levels _, e, a, b => a <:+ file → e.PlacedAt file a b
  | .chain _ _ left, e, a, b => ∀ start, left.PlacedAt file start a → e.PlacedAt file start b
  | .power, e, a, b => a <:+ file → e.PlacedAt file a b
  | .unary, e, a, b => a <:+ file → e.PlacedAt file a b
  | .suffixes left, e, a, b => ∀ start, left.PlacedAt file start a → e.PlacedAt file start b
  | .primary, e, a, b => a <:+ file → e.PlacedAt file a b
  | .list _, es, a, _ => a <:+ file → AllPlaced file (exprsNodes es)
  | .items, es, a, _ => a <:+ file → AllPlaced file (exprsNodes es)

section Operations

variable {a b c : List Token} {left right : Expr} {op : Token}

/-- One token by itself. -/
theorem placedAt_token {e : Expr} {t : Token} (hpieces : e.pieces = [.kept t])
    (hspan : e.span = t.span) (hinner : e.innerNodes = []) (hobject : e.ObjectFirst file (t :: b) b)
    {kind : Kind} (ht : t.kind = kind) (hkind : kind ≠ .punctuation .semicolon)
    (ha : t :: b <:+ file) : e.PlacedAt file (t :: b) b := by
  refine ⟨?_, ?_, hobject⟩
  · rw [hpieces, hspan]
    exact .token ha ht hkind
  · rw [hinner]
    exact .nil

/-- Two operands with an operator between them. -/
theorem Expr.PlacedAt.binary (hfile : InOrder x lo file) (hleft : left.PlacedAt file a (op :: b))
    (hright : b <:+ file → right.PlacedAt file b c) :
    (Expr.binary left op right).PlacedAt file a c := by
  have hright := hright (suffix_of_cons hleft.stands.rest)
  refine ⟨?_, hleft.nodes.append hright.nodes, trivial⟩
  exact hleft.stands.cover hfile.ordered Spells.nil.kept hright.stands

/-- A call, up to its closing parenthesis. -/
theorem Expr.PlacedAt.call {callee : Expr} {generics : Option TypeList} {args : List Expr}
    {lparen paren : Token} {d : List Token} (hfile : InOrder x lo file)
    (hcallee : callee.PlacedAt file a b)
    (hgenerics : Spells (genericsPieces generics) b (lparen :: c))
    (hgenericsNodes : AllPlaced file (genericsNodes generics))
    (hlparen : lparen.kind = .punctuation .lparen)
    (hargs : ReadsExpr (.list .rparen) c args (paren :: d))
    (hargsNodes : c <:+ file → AllPlaced file (exprsNodes args))
    (hparen : paren.kind = .punctuation .rparen) :
    (Expr.call callee generics args paren).PlacedAt file a d := by
  obtain ⟨_, rfl, hspells⟩ := hargs.spelled
  have hc : c <:+ file :=
    suffix_of_cons (hgenerics.suffix.trans hcallee.stands.rest)
  have hmid := hgenerics.append (hspells.mark hlparen)
  have hclose := Stands.token (hspells.suffix.trans hc) hparen (by simp)
  refine ⟨?_, hcallee.nodes.append (hgenericsNodes.append (hargsNodes hc)), trivial⟩
  apply (hcallee.stands.cover hfile.ordered hmid hclose).of_pieces
  simp [Expr.pieces, ExprForm.pieces]

omit x lo file in
theorem innerNodes_assign (name op : Token) (compound : Option Operator) (value : Expr) :
    (Expr.assign name compound
      (Reader.assignedValue (.ident name) op compound value)).innerNodes = value.nodes := by
  cases compound <;> simp [Reader.assignedValue, Expr.innerNodes, Expr.nodes]

omit x lo file in
theorem innerNodes_set (object : Expr) (member op : Token) (compound : Option Operator)
    (value : Expr) :
    (Expr.set object member compound
      (Reader.assignedValue (.get object member) op compound value)).innerNodes =
      (Expr.get object member).innerNodes ++ value.nodes := by
  cases compound <;> simp [Reader.assignedValue, Expr.innerNodes, Expr.nodes]

section Assignments

variable {o : Operator} {value : Expr} (hfile : InOrder x lo file) (hop : op.kind = .operator o)
  (ho : o.isAssignment = true) (hvalue : b <:+ file → value.PlacedAt file b c)

include hfile hop ho hvalue

/-- An assignment to a variable.  The value of a compound one has the variable as its left
operand. -/
theorem Expr.PlacedAt.assign {name : Token} (hname : (Expr.ident name).PlacedAt file a (op :: b)) :
    (Expr.assign name o.compoundBase?
      (Reader.assignedValue (.ident name) op o.compoundBase? value)).PlacedAt file a c := by
  have hvalue := hvalue (suffix_of_cons hname.stands.rest)
  have hmid : Spells [assignPiece op o] (op :: b) b := .one (assignPiece_fits hop ho) .nil
  have hwhole := hname.stands.cover hfile.ordered hmid hvalue.stands
  refine ⟨?_, ?_, trivial⟩
  · rw [pieces_assign]
    cases o.compoundBase? with
    | none => exact hwhole
    | some base =>
      exact hname.stands.cover_front hfile.ordered hwhole
        (hvalue.stands.spells.suffix.trans (List.suffix_cons ..))
  · rw [innerNodes_assign]
    exact hvalue.nodes

/-- An assignment to a member.  The value of a compound one has the member as its left operand. -/
theorem Expr.PlacedAt.set {object : Expr} {member : Token}
    (hmember : (Expr.get object member).PlacedAt file a (op :: b)) :
    (Expr.set object member o.compoundBase?
      (Reader.assignedValue (.get object member) op o.compoundBase? value)).PlacedAt file a c := by
  have hvalue := hvalue (suffix_of_cons hmember.stands.rest)
  have hmid : Spells [assignPiece op o] (op :: b) b := .one (assignPiece_fits hop ho) .nil
  obtain ⟨m, hobject, hdot⟩ := hmember.object
  refine ⟨?_, ?_, trivial⟩
  · rw [pieces_set]
    -- the span goes from the object to the value, or to an operation that begins with the object
    cases o.compoundBase? with
    | none =>
      apply (hobject.cover hfile.ordered (hdot.append hmid) hvalue.stands).of_pieces
      simp [Expr.pieces]
    | some base =>
      have hwhole := hmember.stands.cover hfile.ordered hmid hvalue.stands
      refine hobject.cover_front hfile.ordered hwhole ?_
      exact hvalue.stands.spells.suffix.trans (suffix_of_cons hdot.suffix)
  · rw [innerNodes_set]
    exact hmember.inner.append hvalue.nodes

end Assignments

end Operations

/-- An expression and all nodes in it have the spans of their tokens. -/
theorem ReadsExpr.placed {form : ExprForm} {a b : List Token} {v : form.Result}
    (h : ReadsExpr form a v b) (hfile : InOrder x lo file) : form.Placed file v a b := by
  -- in every case the span covers the first part and the last one, and the rest is only spelled
  have hordered := hfile.ordered
  induction h with
  | plain _ _ ih | noChoice _ _ ih | noLevel _ ih | noComparison _ _ _ ih | noPower _ _ ih =>
    exact ih
  | assign _ hop ho _ ihtarget ihvalue =>
    exact fun ha => .assign hfile hop ho ihvalue (ihtarget ha)
  | set _ hop ho _ ihtarget ihvalue =>
    exact fun ha => .set hfile hop ho ihvalue (ihtarget ha)
  | choice _ hmark _ hcolon _ ihcondition ihyes ihno =>
    intro ha
    have hcondition := ihcondition ha
    have hyes := ihyes (suffix_of_cons hcondition.stands.rest)
    have hno := ihno (suffix_of_cons hyes.stands.rest)
    have hmid := (hyes.stands.spells.append Spells.nil.kept).mark hmark
    refine ⟨?_, hcondition.nodes.append (hyes.nodes.append hno.nodes), trivial⟩
    apply (hcondition.stands.cover hordered hmid hno.stands).of_pieces
    simp [Expr.pieces]
  | level _ _ _ ihleft ihchain => exact fun ha => ihchain _ (ihleft ha)
  | comparison _ _ _ _ _ _ ihleft ihright => exact fun ha => (ihleft ha).binary hfile ihright
  | chainEnd => exact fun _ h => h
  | chainMore _ _ _ _ ihright ihmore =>
    exact fun start hleft => ihmore start (hleft.binary hfile ihright)
  | power _ _ _ ihbase ihexponent => exact fun ha => (ihbase ha).binary hfile ihexponent
  | prefixed hop _ _ ih =>
    intro ha
    have hoperand := ih (suffix_of_cons ha)
    have hfirst := Stands.token ha hop (by simp)
    exact ⟨hfirst.cover hordered .nil hoperand.stands, hoperand.nodes, trivial⟩
  | suffixed _ _ _ ih ihsuffixes => exact fun ha => ihsuffixes _ (ih ha)
  | noSuffix => exact fun _ h => h
  | get hdot hmember _ ih =>
    intro start he
    have hlast := Stands.token (suffix_of_cons he.stands.rest) hmember (by simp)
    refine ih start ⟨he.stands.cover hordered (Spells.nil.mark hdot) hlast, he.nodes, ?_⟩
    exact ⟨_, he.stands, Spells.nil.kept.mark hdot⟩
  | call hlparen hargs hparen _ ihargs ih =>
    exact fun start he => ih start (he.call hfile .nil .nil hlparen hargs ihargs hparen)
  | index hlbracket hposition hbracket _ ihposition ih =>
    intro start he
    have hposition := ihposition (suffix_of_cons he.stands.rest)
    have hlast := Stands.token hposition.stands.rest hbracket (by simp)
    refine ih start ⟨?_, he.nodes.append hposition.nodes, trivial⟩
    exact he.stands.cover hordered (hposition.stands.spells.mark hlbracket) hlast
  | genericCall _ hgenerics hlparen hargs hparen _ ihargs ih =>
    intro start he
    have hlist : Spells (genericsPieces (some _)) _ _ := hgenerics.spells.spells (by simp [hlparen])
    have hnodes := hgenerics.placed hfile he.stands.rest
    exact ih start (he.call hfile hlist hnodes hlparen hargs ihargs hparen)
  | postUnary _ hop _ _ ih =>
    intro start he
    have hlast := Stands.token he.stands.rest hop (by simp)
    exact ih start ⟨he.stands.cover hordered .nil hlast, he.nodes, trivial⟩
  | yes ht | no ht | this ht | ident ht | literal ht =>
    exact placedAt_token rfl rfl rfl trivial ht (by simp)
  | lambda hkeyword hgenerics hlparen hparams hreturn hbody ih =>
    intro ha
    have hrest := suffix_of_cons ha
    have hsignature := spells_signature hgenerics hlparen hparams hreturn
      (hbody.begins rfl).not_greater
    have hnodes := placed_signature hgenerics hlparen hparams hreturn hfile hrest
    have hbody := ih (hsignature.suffix.trans hrest)
    have hfirst := Stands.token ha hkeyword (by simp)
    exact ⟨hfirst.cover hordered hsignature hbody.stands, hnodes.append hbody.nodes, trivial⟩
  | grouping hlparen _ hrparen ih =>
    intro ha
    have hinner := ih (suffix_of_cons ha)
    have hfirst := Stands.token ha hlparen (by simp)
    have hlast := Stands.token hinner.stands.rest hrparen (by simp)
    exact ⟨hfirst.cover hordered hinner.stands.spells hlast, hinner.nodes, trivial⟩
  | array hbracket helements hclose ih =>
    intro ha
    obtain ⟨_, rfl, hspells⟩ := helements.spelled
    have hrest := suffix_of_cons ha
    have hfirst := Stands.token ha hbracket (by simp)
    have hlast := Stands.token (hspells.suffix.trans hrest) hclose (by simp)
    exact ⟨hfirst.cover hordered hspells hlast, ih hrest, trivial⟩
  | noItems => exact fun _ => .nil
  | someItems _ _ ih => exact ih
  | lastItem _ _ ih => exact fun ha => (ih ha).nodes.append .nil
  | moreItems _ _ _ ih ihmore =>
    intro ha
    have hitem := ih ha
    exact hitem.nodes.append (ihmore (suffix_of_cons hitem.stands.rest))

end File

end CurlyScript
