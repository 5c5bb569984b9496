import CurlyScript.Proofs.Printer

/-!
# What follows a construct

Where a construct ends depends on the tokens after it.  When a tree is printed, the tokens after
each of its parts are of the same kinds as those it was read from, up to a token with which no
expression or type goes on: a semicolon or parenthesis that was not there, the brace or the word
with which the next statement opens.  Only the ends of lists of types may be written apart.  This
is enough to tell the same end.

## Main definitions

* `Kind.isInert` — the kinds of tokens that continue no expression and no type.
* `Alike` — tokens of the same kinds up to a token of some kind.
* `Follows` — tokens after which a part ends as it does before others.

## Main results

* `ReadsType.transfer` — a type is read from tokens if one is read from tokens that are alike.
* `ReadsType.reprint` — a type is read back from its printed tokens.
-/

namespace CurlyScript

/-! ### Tokens that are alike -/

/-- The kinds of tokens with which no expression and no type goes on. -/
def Kind.isInert : Kind → Bool
  | .keyword _ => true
  | .punctuation mark => [.semicolon, .rparen, .rbracket, .lbrace, .rbrace].contains mark
  | _ => false

/-- The second tokens are of the kinds of the first, up to a token of one of some kinds.  A shift
may be written as two angle brackets. -/
inductive Alike (stops : Kind → Bool) : List Token → List Token → Prop
  /-- Both end. -/
  | nil : Alike stops [] []
  /-- What comes after this token does not matter. -/
  | stop {t : Token} {a b : List Token} (ht : stops t.kind = true) : Alike stops a (t :: b)
  /-- Two tokens of one kind. -/
  | cons {t u : Token} {a b : List Token} (hkind : t.kind = u.kind) (h : Alike stops a b) :
    Alike stops (t :: a) (u :: b)
  /-- A shift and two angle brackets. -/
  | shift {t u v : Token} {a b : List Token} (ht : t.kind = .operator .rsh)
      (hu : u.kind = .operator .greater) (hv : v.kind = .operator .greater)
      (h : Alike stops a b) :
    Alike stops (t :: a) (u :: v :: b)

namespace Alike

variable {stops : Kind → Bool} {a b : List Token} {kind : Kind}

/-- The printed tokens of some pieces are like all tokens that spell them. -/
theorem of_spells {ps : List Piece} {c : List Token} (h : Spells ps a b)
    (hb : Alike stops b c) : Alike stops a (tokensOf ps ++ c) := by
  induction h with
  | nil => exact hb
  | one ht _ ih => exact .cons ht.kind_eq (ih hb)
  | shift ht _ ih => exact .shift ht rfl rfl (ih hb)

/-- A token that is no stop and no bracket is there in both. -/
theorem uncons {u : Token} (h : Alike stops a (u :: b)) (hu : u.kind = kind)
    (hstop : stops kind = false) (hkind : kind ≠ .operator .greater) :
    ∃ t c, a = t :: c ∧ t.kind = kind ∧ Alike stops c b := by
  subst hu
  cases h with
  | stop ht =>
    rw [hstop] at ht
    cases ht
  | cons hk h => exact ⟨_, _, rfl, hk, h⟩
  | shift _ hu => exact absurd hu hkind

theorem headKind?_eq (h : Alike stops a b) (hb : headKind? b = some kind)
    (hstop : stops kind = false) (hkind : kind ≠ .operator .greater) :
    headKind? a = some kind := by
  obtain ⟨u, c, rfl, hu⟩ := headKind?_eq_some_iff.mp hb
  obtain ⟨t, d, rfl, ht, -⟩ := h.uncons hu hstop hkind
  rw [headKind?_cons, ht]

/-- A token that is missing in the second is missing in the first, if the second do not begin with
a stop. -/
theorem headKind?_ne (h : Alike stops a b)
    (hb : ∀ kind, headKind? b = some kind → stops kind = false)
    (hkind : kind ≠ .operator .rsh) (hne : headKind? b ≠ some kind) : headKind? a ≠ some kind := by
  cases h with
  | nil => simp
  | stop ht =>
    rw [hb _ rfl] at ht
    cases ht
  | cons hk =>
    rw [headKind?_cons, hk]
    exact hne
  | shift ht =>
    rw [headKind?_cons, ht, ne_eq, Option.some.injEq]
    exact hkind.symm

end Alike

/-- After the second tokens a part of an expression ends if it does before the first: they are
alike, and begin with tokens of the same kind, unless the second begin with an inert one. -/
structure Follows (a b : List Token) : Prop where
  /-- The tokens are alike. -/
  alike : Alike Kind.isInert a b
  /-- They begin alike. -/
  head : ∀ kind, headKind? b = some kind → kind.isInert = true ∨ headKind? a = some kind

namespace Follows

variable {a b : List Token}

/-- Any part ends before an inert token. -/
theorem of_inert {t : Token} {kind : Kind} (a b : List Token) (ht : t.kind = kind)
    (hkind : kind.isInert = true) : Follows a (t :: b) where
  alike := .stop (ht ▸ hkind)
  head _ hhead := by
    cases hhead
    exact .inl (ht ▸ hkind)

theorem cons {t u : Token} (hkind : t.kind = u.kind) (h : Alike Kind.isInert a b) :
    Follows (t :: a) (u :: b) where
  alike := .cons hkind h
  head kind hk := by
    rw [headKind?_cons, ← hkind] at hk
    exact .inr hk

/-- Printed pieces follow as the tokens that spell them do, unless they begin in the middle of a
shift. -/
theorem of_spells {ps : List Piece} {c : List Token} (h : Spells ps a b)
    (hps : ps.head? ≠ some .close) (hb : Follows b c) : Follows a (tokensOf ps ++ c) := by
  cases h with
  | nil => exact hb
  | one ht h => exact .cons ht.kind_eq (.of_spells h hb.alike)
  | shift => simp at hps

/-- A token that is not inert comes first only if it did before. -/
theorem headKind?_ne (h : Follows a b) {kind : Kind} (hkind : kind.isInert = false)
    (ha : headKind? a ≠ some kind) : headKind? b ≠ some kind := by
  intro hb
  rcases h.head kind hb with hinert | hhead
  · rw [hkind] at hinert
    cases hinert
  · exact ha hhead

theorem noOperator (h : Follows a b) {ops : List Operator} (ha : NoOperator ops a) :
    NoOperator ops b := fun o ho => h.headKind?_ne rfl (ha o ho)

theorem noAssignment (h : Follows a b) (ha : NoAssignment a) : NoAssignment b := by
  intro o hb
  rcases h.head _ hb with hinert | hhead
  · cases hinert
  · exact ha o hhead

end Follows

/-! ### Types from tokens that are alike -/

/-- Whether none of the tokens of a type is a stop. -/
structure PassesTypes (stops : Kind → Bool) : Prop where
  /-- Names are none. -/
  identifier : stops .identifier = false
  /-- Operators are none. -/
  operator : ∀ o : Operator, stops (.operator o) = false
  /-- Colons are none. -/
  colon : stops (.punctuation .colon) = false
  /-- Commas are none. -/
  comma : stops (.punctuation .comma) = false

theorem passesTypes_isInert : PassesTypes Kind.isInert := ⟨rfl, fun _ => rfl, rfl, rfl⟩

/-- The forms that are parts of a reference. -/
def TypeForm.isPart : TypeForm → Bool
  | .after? mark => mark == .colon
  | _ => true

/-- A list of types that is closed in the one tokens is closed in the others, perhaps by half of a
shift. -/
theorem Closes.transfer {stops : Kind → Bool} (hstops : PassesTypes stops) {a b c : List Token}
    {close : Token} (h : Closes b close c) (halike : Alike stops a b) :
    ∃ close' d, Closes a close' d ∧ Alike stops d c := by
  cases h with
  | angle hkind =>
    cases halike with
    | stop ht =>
      rw [hkind, hstops.operator] at ht
      cases ht
    | cons hk h => exact ⟨_, _, .angle (hk.trans hkind), h⟩
    | shift ht hu hv h => exact ⟨_, _, .shift ht, .cons hv.symm h⟩
  | shift hkind =>
    cases halike with
    | stop ht =>
      rw [hkind, hstops.operator] at ht
      cases ht
    | cons hk h => exact ⟨_, _, .shift (hk.trans hkind), .cons rfl h⟩
    | shift _ hu =>
      rw [hkind] at hu
      cases hu

/-- Where a type is read from some tokens, one is read from tokens that are alike, unless the
first end at a stop. -/
theorem ReadsType.transfer {stops : Kind → Bool} (hstops : PassesTypes stops) {form : TypeForm}
    {a b c : List Token} {v : form.Result} (h : ReadsType form b v c)
    (hform : form.isPart = true) (halike : Alike stops a b)
    (hc : ∀ kind, headKind? c = some kind → stops kind = false) :
    ∃ v' d, ReadsType form a v' d ∧ Alike stops d c := by
  induction h generalizing a with
  | @ref name b m c generics bound hname hgenerics hbound ihgenerics ihbound =>
    have hm : ∀ kind, headKind? m = some kind → stops kind = false := by
      cases hbound with
      | notAfter => exact hc
      | after ht =>
        rintro kind ⟨⟩
        rw [ht]
        exact hstops.colon
    obtain ⟨name', rest, rfl, hname', halike⟩ := halike.uncons hname hstops.identifier nofun
    obtain ⟨generics', d, hgenerics', hd⟩ := ihgenerics rfl halike hm
    obtain ⟨bound', e, hbound', he⟩ := ihbound rfl hd hc
    exact ⟨_, e, .ref hname' hgenerics' hbound', he⟩
  | noList hne => exact ⟨none, a, .noList (halike.headKind?_ne hc nofun hne), halike⟩
  | someList _ ih =>
    obtain ⟨l, d, hl, hd⟩ := ih rfl halike hc
    exact ⟨some l, d, .someList hl, hd⟩
  | notAfter hne => exact ⟨none, a, .notAfter (halike.headKind?_ne hc nofun hne), halike⟩
  | @after mark t b c type ht _ ih =>
    obtain rfl : mark = .colon := by simpa [TypeForm.isPart] using hform
    obtain ⟨t', rest, rfl, ht', halike⟩ := halike.uncons ht hstops.colon nofun
    obtain ⟨type', d, htype, hd⟩ := ih rfl halike hc
    exact ⟨some type', d, .after ht' htype, hd⟩
  | @list angle close b m c entries hangle _ hclose ih =>
    have hm : ∀ kind, headKind? m = some kind → stops kind = false := by
      cases hclose with
      | angle ht | shift ht =>
        rintro kind ⟨⟩
        rw [ht]
        exact hstops.operator _
    obtain ⟨angle', rest, rfl, hangle', halike⟩ := halike.uncons hangle (hstops.operator _) nofun
    obtain ⟨entries', d, hentries, hd⟩ := ih rfl halike hm
    obtain ⟨close', e, hclose', he⟩ := hclose.transfer hstops hd
    exact ⟨_, e, .list hangle' hentries hclose', he⟩
  | last _ hne ih =>
    obtain ⟨entry, d, hentry, hd⟩ := ih rfl halike hc
    exact ⟨_, d, .last hentry (hd.headKind?_ne hc nofun hne), hd⟩
  | @more comma b m c entry entries _ hcomma _ ih ihmore =>
    have hm : ∀ kind, headKind? (comma :: m) = some kind → stops kind = false := by
      rintro kind ⟨⟩
      rw [hcomma]
      exact hstops.comma
    obtain ⟨entry', d, hentry, hd⟩ := ih rfl halike hm
    obtain ⟨comma', rest, rfl, hcomma', hd⟩ := hd.uncons hcomma hstops.comma nofun
    obtain ⟨entries', e, hentries, he⟩ := ihmore rfl hd hc
    exact ⟨_, e, .more hentry hcomma' hentries, he⟩

/-- Type arguments are opened by printed tokens only if the tokens that were read open them. -/
theorem OpensTypeArguments.transfer {a b : List Token} (h : OpensTypeArguments b)
    (halike : Alike Kind.isInert a b) : OpensTypeArguments a := by
  obtain ⟨l, rest, hl, hrest⟩ := h
  obtain ⟨l', d, hl', hd⟩ := hl.transfer passesTypes_isInert rfl halike (by
    intro kind hkind
    rw [hrest] at hkind
    cases hkind
    rfl)
  exact ⟨l', d, hl', hd.headKind?_eq hrest rfl nofun⟩

theorem Follows.noSuffix {e : Expr} {a b : List Token} (h : Follows a b) (ha : NoSuffix e a) :
    NoSuffix e b where
  dot := h.headKind?_ne rfl ha.dot
  lparen := h.headKind?_ne rfl ha.lparen
  lbracket := h.headKind?_ne rfl ha.lbracket
  postUnary he := h.noOperator (ha.postUnary he)
  typeArguments he hb := ha.typeArguments he (hb.transfer h.alike)

/-! ### Types are read back -/

/-- The kinds of tokens with which a type or a list of them goes on. -/
def typeContinuations : List Kind :=
  [.operator .less, .punctuation .colon, .punctuation .comma, .punctuation .arrow]

/-- After the second tokens a type ends if it does before the first. -/
def TypeFollows (a b : List Token) : Prop :=
  ∀ kind ∈ typeContinuations, headKind? b = some kind → headKind? a = some kind

theorem TypeFollows.cons {t u : Token} (hkind : t.kind = u.kind) (a b : List Token) :
    TypeFollows (t :: a) (u :: b) := by
  intro kind _ hu
  rw [headKind?_cons, hkind]
  exact hu

theorem TypeFollows.of_kind {t : Token} (ht : t.kind ∉ typeContinuations) (a b : List Token) :
    TypeFollows a (t :: b) := by
  intro kind hmem hb
  cases hb
  exact absurd hmem ht

theorem Follows.type {a b : List Token} (h : Follows a b) : TypeFollows a b := by
  intro kind hmem hb
  have hnot : kind.isInert = false := by
    simp only [typeContinuations, List.mem_cons, List.not_mem_nil, or_false] at hmem
    rcases hmem with rfl | rfl | rfl | rfl <;> rfl
  rcases h.head kind hb with hinert | hhead
  · rw [hnot] at hinert
    cases hinert
  · exact hhead

/-- The forms that the grammar uses: a type comes after a colon or an arrow. -/
def TypeForm.isUsed : TypeForm → Bool
  | .after? mark => mark == .colon || mark == .arrow
  | _ => true

/-- A type is read back from its printed tokens. -/
theorem ReadsType.reprint {form : TypeForm} {a b c : List Token} {v : form.Result}
    (h : ReadsType form a v b) (hform : form.isUsed = true) (hb : TypeFollows b c) :
    ReadsType form (tokensOf (form.pieces v) ++ c) v c := by
  induction h generalizing c with
  | @ref name a m b generics bound hname hgenerics hbound ihgenerics ihbound =>
    have hm : TypeFollows m (tokensOf (typeAfterPieces bound .colon) ++ c) := by
      cases hbound with
      | notAfter => exact hb
      | after ht => exact .cons ht _ _
    have hlist := ihgenerics rfl hm
    simp only [TypeForm.pieces, TypeRef.pieces, tokensOf_cons, tokensOf_append, List.cons_append,
      List.append_assoc]
    exact .ref hname hlist (ihbound rfl hb)
  | noList hne =>
    refine .noList fun hc => hne (hb _ ?_ hc)
    simp [typeContinuations]
  | someList _ ih => exact .someList (ih rfl hb)
  | notAfter hne =>
    refine .notAfter fun hc => hne (hb _ ?_ hc)
    simp only [TypeForm.isUsed, Bool.or_eq_true, beq_iff_eq] at hform
    rcases hform with rfl | rfl <;> simp [typeContinuations]
  | after ht _ ih => exact .after rfl (ih rfl hb)
  | list hangle _ hclose ih =>
    simp only [TypeForm.pieces, TypeList.pieces, tokensOf_cons, tokensOf_append, List.cons_append,
      List.append_assoc]
    exact .list hangle (ih rfl (.of_kind (by decide) _ _)) (.angle rfl)
  | last _ hne ih =>
    refine .last (ih rfl hb) fun hc => hne (hb _ ?_ hc)
    simp [typeContinuations]
  | more _ hcomma hmore ih ihmore =>
    simp only [TypeForm.pieces, typesPieces_cons hmore.entries_ne_nil, tokensOf_cons,
      tokensOf_append, List.cons_append, List.append_assoc]
    exact .more (ih rfl (.cons hcomma _ _)) rfl (ihmore rfl hb)

theorem ReadsParams.headKind?_eq {a b : List Token} {params : List Param}
    (h : ReadsParams a params b) : headKind? a = some .identifier := by
  cases h with
  | last hname | more hname => rw [headKind?_cons, hname]

theorem ReadsParams.reprint {a b c : List Token} {params : List Param}
    (h : ReadsParams a params b) (hb : TypeFollows b c) :
    ReadsParams (tokensOf (paramsPieces params) ++ c) params c := by
  induction h generalizing c with
  | last hname hcolon htype hne =>
    refine .last hname rfl (htype.reprint rfl hb) fun hc => hne (hb _ ?_ hc)
    simp [typeContinuations]
  | more hname hcolon htype hcomma hmore ih =>
    simp only [paramsPieces_cons hmore.ne_nil, Param.pieces, tokensOf_cons, tokensOf_append,
      List.cons_append, List.append_assoc]
    exact .more hname rfl (htype.reprint rfl (.cons hcomma _ _)) rfl (ih hb)

theorem ReadsParameters.reprint {a b : List Token} {params : List Param}
    (h : ReadsParameters a params b) (c : List Token) :
    ReadsParameters (tokensOf (paramsPieces params) ++ (Piece.punct .rparen).token :: c) params
      c := by
  cases h with
  | none => exact .none rfl
  | some ha h hclose =>
    have hparams := h.reprint
      (TypeFollows.cons (u := (Piece.punct .rparen).token) hclose _ c)
    exact .some (by simp [hparams.headKind?_eq]) hparams rfl

/-- What comes before the body of a function is read back from its printed tokens. -/
theorem reprint_signature {generics : Option TypeList} {params : List Param}
    {returnType : Option TypeRef} {lparen : Token} {a b c d e : List Token}
    (hgenerics : ReadsType .list? a generics (lparen :: b))
    (hlparen : lparen.kind = .punctuation .lparen) (hparams : ReadsParameters b params c)
    (hreturn : ReadsType (.after? .arrow) c returnType d) (hd : TypeFollows d e) :
    ∃ b' c', ReadsType .list? (tokensOf (signaturePieces generics params returnType) ++ e) generics
        ((Piece.punct .lparen).token :: b') ∧
      ReadsParameters b' params c' ∧ ReadsType (.after? .arrow) c' returnType e := by
  refine ⟨_, _, ?_, hparams.reprint _, hreturn.reprint rfl hd⟩
  have hlist := hgenerics.reprint rfl
    (TypeFollows.cons (u := (Piece.punct .lparen).token) hlparen b
      (tokensOf (paramsPieces params) ++
        (Piece.punct .rparen).token :: (tokensOf (typeAfterPieces returnType .arrow) ++ e)))
  simpa [signaturePieces, TypeForm.pieces] using hlist

end CurlyScript
