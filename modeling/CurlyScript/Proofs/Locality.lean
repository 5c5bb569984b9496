import CurlyScript.Proofs.StmtSyntax

/-!
# Readings are local

A statement ends with a semicolon or a brace, or before the next one.  Up to a semicolon or a
closing brace the grammar does not care about what comes later: no type and no expression goes on
past such a token, however far it is looked ahead, and a statement looks at what follows it only
for the word `else`.  So what is read from tokens that end in such a seal is read in the same way
when more tokens come after the seal.

## Main definitions

* `Sealed` — tokens the last of which is a semicolon or a closing brace.
* `Finished` — no tokens, or sealed ones.

## Main results

* `ReadsType.extend`, `ReadsType.restrict` — types are read from sealed tokens and from longer
  ones alike, in both directions.
* `ReadsExpr.extend` — expressions are read from longer tokens.
* `ReadsStmt.extend` — so are statements, unless `else` comes next.
-/

namespace CurlyScript

/-! ### Seals -/

/-- The kinds of tokens that can be the last one of a statement with a definite end. -/
def Kind.isSeal : Kind → Bool
  | .punctuation .semicolon => true
  | .punctuation .rbrace => true
  | _ => false

/-- Tokens the last of which is a semicolon or a closing brace. -/
def Sealed (tokens : List Token) : Prop :=
  ∃ t, tokens.getLast? = some t ∧ t.kind.isSeal = true

/-- No tokens, or tokens the last of which is a semicolon or a closing brace. -/
def Finished (tokens : List Token) : Prop := tokens = [] ∨ Sealed tokens

namespace Sealed

variable {a b c : List Token} {t : Token} {kind : Kind}

theorem ne_nil (h : Sealed a) : a ≠ [] := by
  rintro rfl
  obtain ⟨t, ht, -⟩ := h
  cases ht

/-- What comes after a first token. -/
theorem rest_of_ne_nil (h : Sealed (t :: a)) (ha : a ≠ []) : Sealed a := by
  obtain ⟨last, hlast, hseal⟩ := h
  obtain ⟨u, more, rfl⟩ := List.exists_cons_of_ne_nil ha
  exact ⟨last, by rwa [List.getLast?_cons_cons] at hlast, hseal⟩

theorem rest_or (h : Sealed (t :: a)) : Finished a := by
  by_cases ha : a = []
  · exact .inl ha
  · exact .inr (h.rest_of_ne_nil ha)

/-- After a token that is no seal something must come. -/
theorem rest (h : Sealed (t :: a)) (ht : t.kind = kind) (hkind : kind.isSeal = false) :
    Sealed a := by
  refine h.rest_of_ne_nil ?_
  rintro rfl
  obtain ⟨last, hlast, hseal⟩ := h
  rw [List.getLast?_singleton, Option.some.injEq] at hlast
  rw [← hlast, ht, hkind] at hseal
  cases hseal

theorem cons (h : Sealed a) (t : Token) : Sealed (t :: a) := by
  obtain ⟨last, hlast, hseal⟩ := h
  refine ⟨last, ?_, hseal⟩
  rw [List.getLast?_cons, hlast, Option.getD_some]

/-- The first token stays the first one when more tokens come at the end. -/
theorem headKind?_append (h : Sealed a) (c : List Token) : headKind? (a ++ c) = headKind? a := by
  obtain ⟨t, more, rfl⟩ := List.exists_cons_of_ne_nil h.ne_nil
  rfl

theorem noOperator (h : Sealed a) {ops : List Operator} (hops : NoOperator ops a) :
    NoOperator ops (a ++ c) := by
  intro op hop
  rw [h.headKind?_append]
  exact hops op hop

theorem noAssignment (h : Sealed a) (hassign : NoAssignment a) : NoAssignment (a ++ c) := by
  intro op hop
  rw [h.headKind?_append] at hop
  exact hassign op hop

/-- A first token of longer tokens is the first one of the sealed tokens. -/
theorem uncons {x : List Token} (h : Sealed a) (hx : t :: x = a ++ c) (ht : t.kind = kind)
    (hkind : kind.isSeal = false) : ∃ a', a = t :: a' ∧ x = a' ++ c ∧ Sealed a' := by
  obtain ⟨u, a', rfl⟩ := List.exists_cons_of_ne_nil h.ne_nil
  rw [List.cons_append, List.cons.injEq] at hx
  obtain ⟨rfl, rfl⟩ := hx
  exact ⟨a', rfl, rfl, h.rest ht hkind⟩

end Sealed

/-! ### Types -/

theorem Closes.extend {a b : List Token} {close : Token} (h : Closes a close b) (ha : Sealed a)
    (c : List Token) : Sealed b ∧ Closes (a ++ c) close (b ++ c) := by
  cases h with
  | angle hangle => exact ⟨ha.rest hangle rfl, .angle hangle⟩
  | shift hshift => exact ⟨(ha.rest hshift rfl).cons _, .shift hshift⟩

theorem ReadsType.ref_ne_nil {a b : List Token} {type : TypeRef} (h : ReadsType .ref a type b) :
    a ≠ [] := by
  cases h
  simp

/-- A type that is read from sealed tokens leaves sealed tokens, and is read from longer ones. -/
theorem ReadsType.extend {form : TypeForm} {a b : List Token} {v : form.Result}
    (h : ReadsType form a v b) (ha : Sealed a) (c : List Token) :
    Sealed b ∧ ReadsType form (a ++ c) v (b ++ c) := by
  -- that sealed tokens are left is what lets the next part be extended in its turn
  induction h with
  | ref hname _ _ ihgenerics ihbound =>
    obtain ⟨hb, hgenerics⟩ := ihgenerics (ha.rest hname rfl)
    obtain ⟨hc, hbound⟩ := ihbound hb
    exact ⟨hc, .ref hname hgenerics hbound⟩
  | noList hno => exact ⟨ha, .noList (by rwa [ha.headKind?_append])⟩
  | someList _ ih => exact ⟨(ih ha).1, .someList (ih ha).2⟩
  | notAfter hno => exact ⟨ha, .notAfter (by rwa [ha.headKind?_append])⟩
  | after ht h ih =>
    have hname : _ ≠ [] := h.ref_ne_nil
    obtain ⟨hb, htype⟩ := ih (ha.rest_of_ne_nil hname)
    exact ⟨hb, .after ht htype⟩
  | list hangle _ hclose ih =>
    obtain ⟨hb, hentries⟩ := ih (ha.rest hangle rfl)
    obtain ⟨hrest, hclosed⟩ := hclose.extend hb c
    exact ⟨hrest, .list hangle hentries hclosed⟩
  | last _ hno ih =>
    obtain ⟨hb, hentry⟩ := ih ha
    exact ⟨hb, .last hentry (by rwa [hb.headKind?_append])⟩
  | more _ hcomma _ ih ihmore =>
    obtain ⟨hb, hentry⟩ := ih ha
    obtain ⟨hrest, hentries⟩ := ihmore (hb.rest hcomma rfl)
    exact ⟨hrest, .more hentry hcomma hentries⟩

/-- A list of types that is closed in longer tokens is closed before the seal. -/
theorem Closes.restrict {x r : List Token} {close : Token} (h : Closes x close r)
    {a c : List Token} (hx : x = a ++ c) (ha : Sealed a) :
    ∃ b, r = b ++ c ∧ Sealed b ∧ Closes a close b := by
  cases h with
  | angle hangle =>
    obtain ⟨b, rfl, rfl, hb⟩ := ha.uncons hx hangle rfl
    exact ⟨b, rfl, hb, .angle hangle⟩
  | shift hshift =>
    obtain ⟨b, rfl, rfl, hb⟩ := ha.uncons hx hshift rfl
    exact ⟨_ :: b, rfl, hb.cons _, .shift hshift⟩

/-- The forms that do not go on after a seal. -/
def TypeForm.respectsSeals : TypeForm → Bool
  | .after? mark => !(Kind.punctuation mark).isSeal
  | _ => true

/-- A type that is read from longer tokens is read before the seal. -/
theorem ReadsType.restrict {form : TypeForm} {x r : List Token} {v : form.Result}
    (h : ReadsType form x v r) (hform : form.respectsSeals = true) {a c : List Token}
    (hx : x = a ++ c) (ha : Sealed a) :
    ∃ b, r = b ++ c ∧ Sealed b ∧ ReadsType form a v b := by
  -- each token that is read is no seal, so it cannot be the last one before the others
  induction h generalizing a with
  | ref hname _ _ ihgenerics ihbound =>
    obtain ⟨a, rfl, hx, ha⟩ := ha.uncons hx hname rfl
    obtain ⟨b, hb, hsealed, hgenerics⟩ := ihgenerics rfl hx ha
    obtain ⟨d, hd, hsealed, hbound⟩ := ihbound rfl hb hsealed
    exact ⟨d, hd, hsealed, .ref hname hgenerics hbound⟩
  | noList hno =>
    subst hx
    exact ⟨a, rfl, ha, .noList (by rwa [ha.headKind?_append] at hno)⟩
  | someList _ ih =>
    obtain ⟨b, hb, hsealed, hlist⟩ := ih rfl hx ha
    exact ⟨b, hb, hsealed, .someList hlist⟩
  | notAfter hno =>
    subst hx
    exact ⟨a, rfl, ha, .notAfter (by rwa [ha.headKind?_append] at hno)⟩
  | after ht _ ih =>
    obtain ⟨a, rfl, hx, ha⟩ := ha.uncons hx ht (by simpa [TypeForm.respectsSeals] using hform)
    obtain ⟨b, hb, hsealed, htype⟩ := ih rfl hx ha
    exact ⟨b, hb, hsealed, .after ht htype⟩
  | list hangle _ hclose ih =>
    obtain ⟨a, rfl, hx, ha⟩ := ha.uncons hx hangle rfl
    obtain ⟨b, hb, hsealed, hentries⟩ := ih rfl hx ha
    obtain ⟨d, hd, hsealed, hclosed⟩ := hclose.restrict hb hsealed
    exact ⟨d, hd, hsealed, .list hangle hentries hclosed⟩
  | last _ hno ih =>
    obtain ⟨b, rfl, hsealed, hentry⟩ := ih rfl hx ha
    exact ⟨b, rfl, hsealed, .last hentry (by rwa [hsealed.headKind?_append] at hno)⟩
  | more _ hcomma _ ih ihmore =>
    obtain ⟨b, hb, hsealed, hentry⟩ := ih rfl hx ha
    obtain ⟨b, rfl, hb, hsealed⟩ := hsealed.uncons hb hcomma rfl
    obtain ⟨d, hd, hsealed, hentries⟩ := ihmore rfl hb hsealed
    exact ⟨d, hd, hsealed, .more hentry hcomma hentries⟩

/-- Type arguments are not found past a seal. -/
theorem OpensTypeArguments.restrict {a c : List Token} (h : OpensTypeArguments (a ++ c))
    (ha : Sealed a) : OpensTypeArguments a := by
  obtain ⟨l, rest, hl, hrest⟩ := h
  obtain ⟨b, rfl, hb, hlist⟩ := hl.restrict rfl rfl ha
  exact ⟨l, b, hlist, by rwa [hb.headKind?_append] at hrest⟩

/-- The type of the variable of a loop is not found past a seal. -/
theorem OpensLoopType.restrict {a c : List Token} (h : OpensLoopType (a ++ c)) (ha : Sealed a) :
    OpensLoopType a := by
  obtain ⟨type, rest, htype, hrest⟩ := h
  obtain ⟨b, rfl, hb, htype⟩ := htype.restrict rfl rfl ha
  refine ⟨type, b, htype, ?_⟩
  rwa [EndsLoopType, hb.headKind?_append] at hrest

theorem ReadsParams.extend {a b : List Token} {params : List Param} (h : ReadsParams a params b)
    (ha : Sealed a) (c : List Token) : Sealed b ∧ ReadsParams (a ++ c) params (b ++ c) := by
  induction h with
  | last hname hcolon htype hno =>
    obtain ⟨hb, htype⟩ := htype.extend ((ha.rest hname rfl).rest hcolon rfl) c
    exact ⟨hb, .last hname hcolon htype (by rwa [hb.headKind?_append])⟩
  | more hname hcolon htype hcomma _ ih =>
    obtain ⟨hb, htype⟩ := htype.extend ((ha.rest hname rfl).rest hcolon rfl) c
    obtain ⟨hrest, hmore⟩ := ih (hb.rest hcomma rfl)
    exact ⟨hrest, .more hname hcolon htype hcomma hmore⟩

theorem ReadsParameters.extend {a b : List Token} {params : List Param}
    (h : ReadsParameters a params b) (ha : Sealed a) (c : List Token) :
    Sealed b ∧ ReadsParameters (a ++ c) params (b ++ c) := by
  cases h with
  | none hclose => exact ⟨ha.rest hclose rfl, .none hclose⟩
  | some hno h hclose =>
    obtain ⟨hb, hparams⟩ := h.extend ha c
    exact ⟨hb.rest hclose rfl, .some (by rwa [ha.headKind?_append]) hparams hclose⟩

/-! ### Expressions -/

theorem Sealed.noSuffix {a : List Token} (ha : Sealed a) {e : Expr} (h : NoSuffix e a)
    (c : List Token) : NoSuffix e (a ++ c) where
  dot := by rw [ha.headKind?_append]; exact h.dot
  lparen := by rw [ha.headKind?_append]; exact h.lparen
  lbracket := by rw [ha.headKind?_append]; exact h.lbracket
  postUnary he := ha.noOperator (h.postUnary he)
  typeArguments he hopens := h.typeArguments he (hopens.restrict ha)

/-- An expression that is read from sealed tokens leaves sealed tokens, and is read from longer
ones. -/
theorem ReadsExpr.extend {form : ExprForm} {a b : List Token} {v : form.Result}
    (h : ReadsExpr form a v b) (ha : Sealed a) (c : List Token) :
    Sealed b ∧ ReadsExpr form (a ++ c) v (b ++ c) := by
  induction h with
  | plain _ hno ih =>
    obtain ⟨hb, he⟩ := ih ha
    exact ⟨hb, .plain he (hb.noAssignment hno)⟩
  | assign _ hop ho _ ihtarget ihvalue =>
    obtain ⟨hb, htarget⟩ := ihtarget ha
    obtain ⟨hrest, hvalue⟩ := ihvalue (hb.rest hop rfl)
    exact ⟨hrest, .assign htarget hop ho hvalue⟩
  | set _ hop ho _ ihtarget ihvalue =>
    obtain ⟨hb, htarget⟩ := ihtarget ha
    obtain ⟨hrest, hvalue⟩ := ihvalue (hb.rest hop rfl)
    exact ⟨hrest, .set htarget hop ho hvalue⟩
  | noChoice _ hno ih =>
    obtain ⟨hb, he⟩ := ih ha
    exact ⟨hb, .noChoice he (by rwa [hb.headKind?_append])⟩
  | choice _ hmark _ hcolon _ ihcondition ihyes ihno =>
    obtain ⟨hb, hcondition⟩ := ihcondition ha
    obtain ⟨hd, hyes⟩ := ihyes (hb.rest hmark rfl)
    obtain ⟨hrest, hno⟩ := ihno (hd.rest hcolon rfl)
    exact ⟨hrest, .choice hcondition hmark hyes hcolon hno⟩
  | noLevel _ ih => exact ⟨(ih ha).1, .noLevel (ih ha).2⟩
  | level hl _ _ ihleft ihchain =>
    obtain ⟨hb, hleft⟩ := ihleft ha
    obtain ⟨hrest, hchain⟩ := ihchain hb
    exact ⟨hrest, .level hl hleft hchain⟩
  | noComparison hl _ hno ih =>
    obtain ⟨hb, he⟩ := ih ha
    exact ⟨hb, .noComparison hl he (hb.noOperator hno)⟩
  | comparison hl _ hop ho _ hno ihleft ihright =>
    obtain ⟨hb, hleft⟩ := ihleft ha
    obtain ⟨hrest, hright⟩ := ihright (hb.rest hop rfl)
    exact ⟨hrest, .comparison hl hleft hop ho hright (hrest.noOperator hno)⟩
  | chainEnd hno => exact ⟨ha, .chainEnd (ha.noOperator hno)⟩
  | chainMore hop ho _ _ ihright ihmore =>
    obtain ⟨hb, hright⟩ := ihright (ha.rest hop rfl)
    obtain ⟨hrest, hmore⟩ := ihmore hb
    exact ⟨hrest, .chainMore hop ho hright hmore⟩
  | noPower _ hno ih =>
    obtain ⟨hb, he⟩ := ih ha
    exact ⟨hb, .noPower he (hb.noOperator hno)⟩
  | power _ hop _ ihbase ihexponent =>
    obtain ⟨hb, hbase⟩ := ihbase ha
    obtain ⟨hrest, hexponent⟩ := ihexponent (hb.rest hop rfl)
    exact ⟨hrest, .power hbase hop hexponent⟩
  | prefixed hop ho _ ih =>
    obtain ⟨hrest, hoperand⟩ := ih (ha.rest hop rfl)
    exact ⟨hrest, .prefixed hop ho hoperand⟩
  | suffixed hno _ _ ih ihsuffixes =>
    obtain ⟨hb, he⟩ := ih ha
    obtain ⟨hrest, hsuffixes⟩ := ihsuffixes hb
    exact ⟨hrest, .suffixed (ha.noOperator hno) he hsuffixes⟩
  | noSuffix hno => exact ⟨ha, .noSuffix (ha.noSuffix hno c)⟩
  | get hdot hmember _ ih =>
    obtain ⟨hrest, h⟩ := ih ((ha.rest hdot rfl).rest hmember rfl)
    exact ⟨hrest, .get hdot hmember h⟩
  | call hlparen _ hparen _ ihargs ih =>
    obtain ⟨hb, hargs⟩ := ihargs (ha.rest hlparen rfl)
    obtain ⟨hrest, h⟩ := ih (hb.rest hparen rfl)
    exact ⟨hrest, .call hlparen hargs hparen h⟩
  | index hlbracket _ hbracket _ ihposition ih =>
    obtain ⟨hb, hposition⟩ := ihposition (ha.rest hlbracket rfl)
    obtain ⟨hrest, h⟩ := ih (hb.rest hbracket rfl)
    exact ⟨hrest, .index hlbracket hposition hbracket h⟩
  | genericCall he hgenerics hlparen _ hparen _ ihargs ih =>
    -- an attempt that was kept is kept again; one that was taken back is a case of `noSuffix`
    obtain ⟨hb, hgenerics⟩ := hgenerics.extend ha c
    obtain ⟨hd, hargs⟩ := ihargs (hb.rest hlparen rfl)
    obtain ⟨hrest, h⟩ := ih (hd.rest hparen rfl)
    exact ⟨hrest, .genericCall he hgenerics hlparen hargs hparen h⟩
  | postUnary he hop ho _ ih =>
    obtain ⟨hrest, h⟩ := ih (ha.rest hop rfl)
    exact ⟨hrest, .postUnary he hop ho h⟩
  | yes ht => exact ⟨ha.rest ht rfl, .yes ht⟩
  | no ht => exact ⟨ha.rest ht rfl, .no ht⟩
  | this ht => exact ⟨ha.rest ht rfl, .this ht⟩
  | lambda hkeyword hgenerics hlparen hparams hreturn _ ih =>
    obtain ⟨hb, hgenerics⟩ := hgenerics.extend (ha.rest hkeyword rfl) c
    obtain ⟨hd, hparams⟩ := hparams.extend (hb.rest hlparen rfl) c
    obtain ⟨he, hreturn⟩ := hreturn.extend hd c
    obtain ⟨hrest, hbody⟩ := ih he
    exact ⟨hrest, .lambda hkeyword hgenerics hlparen hparams hreturn hbody⟩
  | ident ht => exact ⟨ha.rest ht rfl, .ident ht⟩
  | literal ht hkind hvalue => exact ⟨ha.rest ht rfl, .literal ht hkind hvalue⟩
  | grouping hlparen _ hrparen ih =>
    obtain ⟨hb, hinner⟩ := ih (ha.rest hlparen rfl)
    exact ⟨hb.rest hrparen rfl, .grouping hlparen hinner hrparen⟩
  | array hbracket _ hclose ih =>
    obtain ⟨hb, helements⟩ := ih (ha.rest hbracket rfl)
    exact ⟨hb.rest hclose rfl, .array hbracket helements hclose⟩
  | noItems hclose => exact ⟨ha, .noItems (by rwa [ha.headKind?_append])⟩
  | someItems hno _ ih => exact ⟨(ih ha).1, .someItems (by rwa [ha.headKind?_append]) (ih ha).2⟩
  | lastItem _ hno ih =>
    obtain ⟨hb, hitem⟩ := ih ha
    exact ⟨hb, .lastItem hitem (by rwa [hb.headKind?_append])⟩
  | moreItems _ hcomma _ ih ihmore =>
    obtain ⟨hb, hitem⟩ := ih ha
    obtain ⟨hrest, hmore⟩ := ihmore (hb.rest hcomma rfl)
    exact ⟨hrest, .moreItems hitem hcomma hmore⟩

/-! ### Parts of statements -/

section Parts

variable {keyword : Token} {a b : List Token}

theorem ReadsVarHead.extend {decl : VarDecl} (h : ReadsVarHead keyword a decl b) (ha : Sealed a)
    (c : List Token) : Sealed b ∧ ReadsVarHead keyword (a ++ c) decl (b ++ c) := by
  cases h with
  | mutable hword hname =>
    exact ⟨(ha.rest hword rfl).rest hname rfl, .mutable hword hname⟩
  | fixed hname => exact ⟨ha.rest hname rfl, .fixed hname⟩

theorem ReadsVarValue.extend {head decl : VarDecl} (h : ReadsVarValue head a decl b)
    (ha : Sealed a) (c : List Token) : Sealed b ∧ ReadsVarValue head (a ++ c) decl (b ++ c) := by
  cases h with
  | value hequals h =>
    obtain ⟨hb, hvalue⟩ := h.extend (ha.rest hequals rfl) c
    exact ⟨hb, .value hequals hvalue⟩
  | none hno hmutable => exact ⟨ha, .none (by rwa [ha.headKind?_append]) hmutable⟩

theorem ReadsVar.extend {decl : VarDecl} (h : ReadsVar keyword a decl b) (ha : Sealed a)
    (c : List Token) : Sealed b ∧ ReadsVar keyword (a ++ c) decl (b ++ c) := by
  cases h with
  | typed hhead hcolon htype hvalue =>
    obtain ⟨hb, hhead⟩ := hhead.extend ha c
    obtain ⟨hd, htype⟩ := htype.extend (hb.rest hcolon rfl) c
    obtain ⟨hrest, hvalue⟩ := hvalue.extend hd c
    exact ⟨hrest, .typed hhead hcolon htype hvalue⟩
  | untyped hhead hno hvalue =>
    obtain ⟨hb, hhead⟩ := hhead.extend ha c
    obtain ⟨hrest, hvalue⟩ := hvalue.extend hb c
    exact ⟨hrest, .untyped hhead (by rwa [hb.headKind?_append]) hvalue⟩

theorem ReadsCondition.extend {e : Expr} (h : ReadsCondition a e b) (ha : Sealed a)
    (c : List Token) : Sealed b ∧ ReadsCondition (a ++ c) e (b ++ c) := by
  cases h with
  | written h =>
    obtain ⟨hb, he⟩ := h.extend ha c
    exact ⟨hb, .written he⟩
  | absent ht => exact ⟨ha, .absent ht⟩

theorem ReadsCondition.ne_nil {e : Expr} (h : ReadsCondition a e b) : a ≠ [] := by
  cases h with
  | written h => exact (h.begins rfl).ne_nil
  | absent => simp

theorem ReadsExpr?.extend {o : Option Expr} (h : ReadsExpr? a o b) (ha : Sealed a)
    (c : List Token) : Sealed b ∧ ReadsExpr? (a ++ c) o (b ++ c) := by
  cases h with
  | some h =>
    obtain ⟨hb, he⟩ := h.extend ha c
    exact ⟨hb, .some he⟩
  | none hno =>
    obtain ⟨t, more, rfl⟩ := List.exists_cons_of_ne_nil ha.ne_nil
    refine ⟨ha, .none fun u rest hu => ?_⟩
    cases hu
    exact hno t more rfl

theorem ReadsClose.extend {parenthesized : Bool} (h : ReadsClose parenthesized a () b)
    (ha : Sealed a) (c : List Token) :
    Sealed b ∧ ReadsClose parenthesized (a ++ c) () (b ++ c) := by
  cases parenthesized with
  | true =>
    obtain ⟨close, rfl, hclose⟩ := h
    exact ⟨ha.rest hclose rfl, close, rfl, hclose⟩
  | false =>
    have hrest : b = a := h
    subst hrest
    exact ⟨ha, rfl⟩

/-- The header of a loop is followed by its body, so that it ends before the seal. -/
theorem ReadsClauses.extend {parenthesized : Bool} {init : Option LoopInit} {header : LoopHeader}
    (h : ReadsClauses parenthesized init a header b) (ha : Sealed a) (hb : b ≠ [])
    (c : List Token) : Sealed b ∧ ReadsClauses parenthesized init (a ++ c) header (b ++ c) := by
  cases h with
  | @mk condition step semicolon _ d e _ hcondition hsemicolon hstep hclose =>
    obtain ⟨hd, hcondition⟩ := hcondition.extend ha c
    rcases hd.rest_or with rfl | hd
    · -- nothing is left after the condition, so that nothing is left after the header
      have he : e = [] := by
        cases hstep with
        | some h => exact absurd rfl (h.begins rfl).ne_nil
        | none => rfl
      subst he
      cases parenthesized with
      | true =>
        obtain ⟨close, hclose, -⟩ := hclose
        cases hclose
      | false => exact absurd hclose hb
    · obtain ⟨he, hstep⟩ := hstep.extend hd c
      obtain ⟨hrest, hclose⟩ := hclose.extend he c
      exact ⟨hrest, .mk hcondition hsemicolon hstep hclose⟩

theorem ReadsClauses.ne_nil {parenthesized : Bool} {init : Option LoopInit} {header : LoopHeader}
    (h : ReadsClauses parenthesized init a header b) : a ≠ [] := by
  cases h with
  | mk hcondition => exact hcondition.ne_nil

theorem ReadsHeader.extend {parenthesized : Bool} {header : LoopHeader}
    (h : ReadsHeader parenthesized a header b) (ha : Sealed a) (hb : b ≠ []) (c : List Token) :
    Sealed b ∧ ReadsHeader parenthesized (a ++ c) header (b ++ c) := by
  cases h with
  | bare hsemicolon h =>
    obtain ⟨hrest, h⟩ := h.extend (ha.rest_of_ne_nil h.ne_nil) hb c
    exact ⟨hrest, .bare hsemicolon h⟩
  | typedVar hkeyword hhead hcolon htype hvalue hsemicolon h =>
    obtain ⟨hd, hhead⟩ := hhead.extend (ha.rest hkeyword rfl) c
    obtain ⟨he, htype⟩ := htype.extend (hd.rest hcolon rfl) c
    obtain ⟨hf, hvalue⟩ := hvalue.extend he c
    obtain ⟨hrest, h⟩ := h.extend (hf.rest_of_ne_nil h.ne_nil) hb c
    exact ⟨hrest, .typedVar hkeyword hhead hcolon htype hvalue hsemicolon h⟩
  | untypedVar hkeyword hhead hno hvalue hsemicolon h =>
    obtain ⟨hd, hhead⟩ := hhead.extend (ha.rest hkeyword rfl) c
    obtain ⟨he, hvalue⟩ := hvalue.extend hd c
    obtain ⟨hrest, h⟩ := h.extend (he.rest_of_ne_nil h.ne_nil) hb c
    exact ⟨hrest, .untypedVar hkeyword hhead (by rwa [hd.headKind?_append]) hvalue hsemicolon h⟩
  | expression hfirst hsemicolon h =>
    obtain ⟨hd, hfirst⟩ := hfirst.extend ha c
    obtain ⟨hrest, h⟩ := h.extend (hd.rest_of_ne_nil h.ne_nil) hb c
    exact ⟨hrest, .expression hfirst hsemicolon h⟩
  | each hkeyword hhead hcolon hno hiterable hclose =>
    obtain ⟨hd, hhead⟩ := hhead.extend (ha.rest hkeyword rfl) c
    have he := hd.rest hcolon rfl
    obtain ⟨hf, hiterable⟩ := hiterable.extend he c
    obtain ⟨hrest, hclose⟩ := hclose.extend hf c
    exact ⟨hrest, .each hkeyword hhead hcolon (fun h => hno (h.restrict he)) hiterable hclose⟩

theorem ReadsSuperclass.extend {o : Option Expr} (h : ReadsSuperclass a o b) (ha : Sealed a)
    (c : List Token) : Sealed b ∧ ReadsSuperclass (a ++ c) o (b ++ c) := by
  cases h with
  | some hcolon hname => exact ⟨(ha.rest hcolon rfl).rest hname rfl, .some hcolon hname⟩
  | none hno => exact ⟨ha, .none (by rwa [ha.headKind?_append])⟩

/-- The semicolon after a statement, if it is there, is the only token that may be the last. -/
theorem semicolon_extend {o : Option Token}
    (h : Reading.token? (.punctuation .semicolon) a o b) (ha : Sealed a) (c : List Token) :
    Finished b ∧ Reading.token? (.punctuation .semicolon) (a ++ c) o (b ++ c) := by
  rcases o with _ | t
  · obtain ⟨hno, rfl⟩ := h
    exact ⟨.inr ha, by rwa [ha.headKind?_append], rfl⟩
  · obtain ⟨rfl, ht⟩ := h
    exact ⟨ha.rest_or, rfl, ht⟩

end Parts

/-! ### Statements -/

/-- The forms that read a list up to a closing brace. -/
def StmtForm.isList : StmtForm → Bool
  | .body | .cases _ | .members => true
  | _ => false

/-- No list is read from nothing, but an empty one. -/
theorem ReadsStmt.ne_nil_of_isList {form : StmtForm} {a b : List Token} {v : form.Result}
    (h : ReadsStmt form a v b) (hform : form.isList = true) (hb : b ≠ []) : a ≠ [] := by
  cases h with
  | bodyEnd | casesEnd | membersEnd => exact hb
  | bodyMore h =>
    rintro rfl
    exact Reader.not_atClose_of_declaration h (.inl rfl)
  | casesMore _ hvalue => exact (hvalue.begins rfl).ne_nil
  | casesDefault | method | field | stray => simp
  | _ => cases hform

/-- The default of a choice by value is not found across a seal. -/
theorem ReadsExpr.not_atDefault_append {a b : List Token} {e : Expr}
    (h : ReadsExpr .expression a e b) (ha : Sealed a) (hno : ¬ AtDefault a) (c : List Token) :
    ¬ AtDefault (a ++ c) := by
  obtain ⟨t, rest, rfl, hstarts, -⟩ := h.begins rfl
  have ht : t.kind.isSeal = false := by
    rcases hkind : t.kind with _ | _ | _ | mark | _ | _
    case punctuation =>
      rw [Reader.startsExpression, hkind] at hstarts
      cases mark <;> first | rfl | cases hstarts
    all_goals rfl
  obtain ⟨u, more, rfl⟩ := List.exists_cons_of_ne_nil (ha.rest rfl ht).ne_nil
  rintro ⟨name, arrow, _, heq, hname, harrow⟩
  cases heq
  exact hno ⟨t, u, more, rfl, hname, harrow⟩

theorem AtClose.extend {a : List Token} (h : AtClose a) (ha : Sealed a) (c : List Token) :
    AtClose (a ++ c) := by
  rcases h with rfl | h
  · exact absurd rfl ha.ne_nil
  · exact .inr (by rwa [ha.headKind?_append])

/-- A statement that is read from sealed tokens leaves none, or sealed ones.  It is read in the
same way when more tokens come after these, unless the first of them is `else`.  Of a list in
braces the closing brace must be left. -/
theorem ReadsStmt.extend {form : StmtForm} {a b : List Token} {v : form.Result}
    (h : ReadsStmt form a v b) (ha : Sealed a) (hb : form.isList = true → b ≠ [])
    {c : List Token} (hc : headKind? c ≠ some (.keyword .else)) :
    Finished b ∧ ReadsStmt form (a ++ c) v (b ++ c) := by
  induction h with
  | classDecl hkeyword hname hgenerics hsuperclass hlbrace _ hclose ihmembers =>
    obtain ⟨hd, hgenerics⟩ := hgenerics.extend ((ha.rest hkeyword rfl).rest hname rfl) c
    obtain ⟨he, hsuperclass⟩ := hsuperclass.extend hd c
    obtain ⟨hf, hmembers⟩ := ihmembers (he.rest hlbrace rfl) (by simp)
    exact ⟨(hf.resolve_left (by simp)).rest_or,
      .classDecl hkeyword hname hgenerics hsuperclass hlbrace hmembers hclose⟩
  | functionDecl hkeyword _ ih =>
    obtain ⟨hrest, h⟩ := ih (ha.rest hkeyword rfl) (by simp [StmtForm.isList])
    exact ⟨hrest, .functionDecl hkeyword h⟩
  | var hkeyword hdecl hsemicolon =>
    obtain ⟨hd, hdecl⟩ := hdecl.extend (ha.rest hkeyword rfl) c
    obtain ⟨hrest, hsemicolon⟩ := semicolon_extend hsemicolon hd c
    exact ⟨hrest, .var hkeyword hdecl hsemicolon⟩
  | stmt _ ih =>
    obtain ⟨hrest, h⟩ := ih ha (by simp [StmtForm.isList])
    exact ⟨hrest, .stmt h⟩
  | forParens hkeyword hlparen hheader hbody ih =>
    obtain ⟨t, _, hstart, -⟩ := Reader.begins_of_statement hbody
    obtain ⟨hd, hheader⟩ := hheader.extend ((ha.rest hkeyword rfl).rest hlparen rfl)
      (by simp [hstart]) c
    obtain ⟨hrest, hbody⟩ := ih hd (by simp [StmtForm.isList])
    exact ⟨hrest, .forParens hkeyword hlparen hheader hbody⟩
  | forBare hkeyword hno hheader hbody ih =>
    obtain ⟨t, _, hstart, -⟩ := Reader.begins_of_statement hbody
    have htail := ha.rest hkeyword rfl
    obtain ⟨hd, hheader⟩ := hheader.extend htail (by simp [hstart]) c
    obtain ⟨hrest, hbody⟩ := ih hd (by simp [StmtForm.isList])
    have hno' : headKind? (_ ++ c) ≠ some (.punctuation .lparen) :=
      (htail.headKind?_append c).symm ▸ hno
    exact ⟨hrest, .forBare hkeyword hno' hheader hbody⟩
  | ifThen hkeyword hcondition _ hno ih =>
    obtain ⟨hd, hcondition⟩ := hcondition.extend (ha.rest hkeyword rfl) c
    obtain ⟨hrest, hyes⟩ := ih hd (by simp [StmtForm.isList])
    refine ⟨hrest, .ifThen hkeyword hcondition hyes ?_⟩
    -- only here the tokens after the seal are looked at
    rcases hrest with rfl | hrest
    · exact hc
    · rwa [hrest.headKind?_append]
  | ifElse hkeyword hcondition _ hword _ ihyes ihno =>
    obtain ⟨hd, hcondition⟩ := hcondition.extend (ha.rest hkeyword rfl) c
    obtain ⟨he, hyes⟩ := ihyes hd (by simp [StmtForm.isList])
    obtain ⟨hrest, hno⟩ := ihno ((he.resolve_left (by simp)).rest hword rfl)
      (by simp [StmtForm.isList])
    exact ⟨hrest, .ifElse hkeyword hcondition hyes hword hno⟩
  | ret hkeyword hvalue hsemicolon =>
    obtain ⟨hd, hvalue⟩ := hvalue.extend (ha.rest hkeyword rfl) c
    obtain ⟨hrest, hsemicolon⟩ := semicolon_extend hsemicolon hd c
    exact ⟨hrest, .ret hkeyword hvalue hsemicolon⟩
  | doWhile hkeyword hword hcondition _ ih =>
    obtain ⟨hd, hcondition⟩ := hcondition.extend ((ha.rest hkeyword rfl).rest hword rfl) c
    obtain ⟨hrest, hbody⟩ := ih hd (by simp [StmtForm.isList])
    exact ⟨hrest, .doWhile hkeyword hword hcondition hbody⟩
  | whileLoop hkeyword hcondition _ ih =>
    obtain ⟨hd, hcondition⟩ := hcondition.extend (ha.rest hkeyword rfl) c
    obtain ⟨hrest, hbody⟩ := ih hd (by simp [StmtForm.isList])
    exact ⟨hrest, .whileLoop hkeyword hcondition hbody⟩
  | breakOut hkeyword hsemicolon =>
    obtain ⟨hrest, hsemicolon⟩ := semicolon_extend hsemicolon (ha.rest hkeyword rfl) c
    exact ⟨hrest, .breakOut hkeyword hsemicolon⟩
  | continueOn hkeyword hsemicolon =>
    obtain ⟨hrest, hsemicolon⟩ := semicolon_extend hsemicolon (ha.rest hkeyword rfl) c
    exact ⟨hrest, .continueOn hkeyword hsemicolon⟩
  | switch hkeyword hsubject hlbrace _ hclose ih =>
    obtain ⟨hd, hsubject⟩ := hsubject.extend (ha.rest hkeyword rfl) c
    obtain ⟨he, hcases⟩ := ih (hd.rest hlbrace rfl) (by simp)
    exact ⟨(he.resolve_left (by simp)).rest_or,
      .switch hkeyword hsubject hlbrace hcases hclose⟩
  | blockStmt hlbrace _ ih =>
    obtain ⟨hrest, h⟩ := ih (ha.rest hlbrace rfl) (by simp [StmtForm.isList])
    exact ⟨hrest, .blockStmt hlbrace h⟩
  | expression he hsemicolon =>
    obtain ⟨hd, he⟩ := he.extend ha c
    obtain ⟨hrest, hsemicolon⟩ := semicolon_extend hsemicolon hd c
    exact ⟨hrest, .expression he hsemicolon⟩
  | block _ hrbrace ih =>
    obtain ⟨hd, h⟩ := ih ha (by simp)
    exact ⟨(hd.resolve_left (by simp)).rest_or, .block h hrbrace⟩
  | bodyEnd hclose => exact ⟨.inr ha, .bodyEnd (hclose.extend ha c)⟩
  | bodyMore _ hmore ih ihmore =>
    obtain ⟨hd, h⟩ := ih ha (by simp [StmtForm.isList])
    -- the closing brace is yet to come, so that the first statement does not end the tokens
    have hleft := hmore.ne_nil_of_isList rfl (hb rfl)
    obtain ⟨hrest, hmore⟩ := ihmore (hd.resolve_left hleft) hb
    exact ⟨hrest, .bodyMore h hmore⟩
  | function hname hgenerics hlparen hparams hreturn hlbrace _ ih =>
    obtain ⟨hd, hgenerics⟩ := hgenerics.extend (ha.rest hname rfl) c
    obtain ⟨he, hparams⟩ := hparams.extend (hd.rest hlparen rfl) c
    obtain ⟨hf, hreturn⟩ := hreturn.extend he c
    obtain ⟨hrest, hbody⟩ := ih (hf.rest hlbrace rfl) (by simp [StmtForm.isList])
    exact ⟨hrest, .function hname hgenerics hlparen hparams hreturn hlbrace hbody⟩
  | casesEnd hclose => exact ⟨.inr ha, .casesEnd (hclose.extend ha c)⟩
  | casesDefault hclose hname harrow hlbrace _ hmore ihbody ihmore =>
    have harm := ((ha.rest_of_ne_nil (by simp)).rest harrow rfl).rest hlbrace rfl
    obtain ⟨hd, hbody⟩ := ihbody harm (by simp [StmtForm.isList])
    have hleft := hmore.ne_nil_of_isList rfl (hb rfl)
    obtain ⟨hrest, hmore⟩ := ihmore (hd.resolve_left hleft) hb
    exact ⟨hrest, .casesDefault hclose hname harrow hlbrace hbody hmore⟩
  | casesMore hno hvalue harrow hlbrace _ hmore ihbody ihmore =>
    have hno := hvalue.not_atDefault_append ha hno c
    obtain ⟨hd, hvalue⟩ := hvalue.extend ha c
    obtain ⟨he, hbody⟩ := ihbody ((hd.rest harrow rfl).rest hlbrace rfl)
      (by simp [StmtForm.isList])
    have hleft := hmore.ne_nil_of_isList rfl (hb rfl)
    obtain ⟨hrest, hmore⟩ := ihmore (he.resolve_left hleft) hb
    exact ⟨hrest, .casesMore hno hvalue harrow hlbrace hbody hmore⟩
  | membersEnd hclose => exact ⟨.inr ha, .membersEnd (hclose.extend ha c)⟩
  | method hkeyword _ hmore ih ihmore =>
    obtain ⟨hd, h⟩ := ih (ha.rest hkeyword rfl) (by simp [StmtForm.isList])
    have hleft := hmore.ne_nil_of_isList rfl (hb rfl)
    obtain ⟨hrest, hmore⟩ := ihmore (hd.resolve_left hleft) hb
    exact ⟨hrest, .method hkeyword h hmore⟩
  | field hkeyword hdecl hsemicolon hmore ihmore =>
    obtain ⟨hd, hdecl⟩ := hdecl.extend (ha.rest hkeyword rfl) c
    obtain ⟨he, hsemicolon⟩ := semicolon_extend hsemicolon hd c
    have hleft := hmore.ne_nil_of_isList rfl (hb rfl)
    obtain ⟨hrest, hmore⟩ := ihmore (he.resolve_left hleft) hb
    exact ⟨hrest, .field hkeyword hdecl hsemicolon hmore⟩
  | stray hsemicolon hmore ih =>
    have hleft := hmore.ne_nil_of_isList rfl (hb rfl)
    obtain ⟨hrest, hmore⟩ := ih (ha.rest_of_ne_nil hleft) hb
    exact ⟨hrest, .stray hsemicolon hmore⟩

end CurlyScript
