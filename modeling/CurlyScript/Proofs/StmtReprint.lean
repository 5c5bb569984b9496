import CurlyScript.Proofs.ExprReprint

/-!
# Statements are read back

The printed tokens of a statement are read to the same statement.  What follows them matters in one
way only: the word `else` after a choice with one branch would make a second one.

## Main definitions

* `ElseFollows` — the word `else` comes first only if it did before.
* `StmtForm.Reprints` — what is read from the tokens of a form is read back from its printed
  tokens.

## Main results

* `ReadsHeader.reprint`, `ReadsStmt.reprints` — headers and statements are read back.
* `ReadsFile.reprint` — the statements of a file are read back from their printed tokens.
-/

namespace CurlyScript

/-! ### Variables -/

/-- The opening of a declaration is read back. -/
theorem ReadsVarHead.reprint {keyword : Token} {a b : List Token} {head : VarDecl}
    (h : ReadsVarHead keyword a head b) :
    head.type = none ∧ head.value = none ∧ ∃ ps, head.headPieces = .kept keyword :: ps ∧
      ∀ c, ReadsVarHead keyword (tokensOf ps ++ c) head c := by
  cases h with
  | mutable hword hname => exact ⟨rfl, rfl, _, rfl, fun c => .mutable rfl hname⟩
  | fixed hname => exact ⟨rfl, rfl, _, rfl, fun c => .fixed hname⟩

/-- The value of a variable is read back before a semicolon, and a type before it ends. -/
theorem ReadsVarValue.reprint {decl d : VarDecl} {a b : List Token} (h : ReadsVarValue decl a d b)
    (hdecl : decl.value = Option.none) (c : List Token) :
    d.headPieces = decl.headPieces ∧ d.type = decl.type ∧
    ReadsVarValue decl (tokensOf (valuePieces d.value) ++ Piece.semicolon.token :: c) d
      (Piece.semicolon.token :: c) ∧
    headKind? (tokensOf (valuePieces d.value) ++ Piece.semicolon.token :: c) ≠
      some (.punctuation .colon) ∧
    TypeFollows a (tokensOf (valuePieces d.value) ++ Piece.semicolon.token :: c) := by
  cases h with
  | value hequals he =>
    exact ⟨rfl, rfl, .value rfl (he.reprint (.of_inert _ _ rfl rfl)), nofun, .cons hequals _ _⟩
  | none ha hmutable =>
    rw [hdecl]
    exact ⟨rfl, rfl, .none nofun hmutable, nofun, .of_kind (by decide) _ _⟩

/-- A declaration with a type is read back before a semicolon. -/
theorem ReadsVarHead.reprint_typed {keyword colon : Token} {head decl : VarDecl} {type : TypeRef}
    {a b c d : List Token} (hhead : ReadsVarHead keyword a head (colon :: b))
    (htype : ReadsType .ref b type c)
    (hvalue : ReadsVarValue { head with type := some type } c decl d) :
    ∃ ps, decl.pieces = .kept keyword :: ps ∧ ∀ e, ∃ b' c',
      ReadsVarHead keyword (tokensOf ps ++ Piece.semicolon.token :: e) head
        ((Piece.punct .colon).token :: b') ∧
      ReadsType .ref b' type c' ∧
      ReadsVarValue { head with type := some type } c' decl (Piece.semicolon.token :: e) := by
  obtain ⟨-, hnovalue, ps, hps, hread⟩ := hhead.reprint
  obtain ⟨hheadPieces, htypeEq, -⟩ := hvalue.reprint hnovalue []
  refine ⟨ps ++ .punct .colon :: (type.pieces ++ valuePieces decl.value), ?_, fun e => ?_⟩
  · have hpieces : decl.headPieces = .kept keyword :: ps := hheadPieces.trans hps
    simp [VarDecl.pieces, hpieces, htypeEq, typeAfterPieces]
  · obtain ⟨-, -, hvalue', -, hfollows⟩ := hvalue.reprint hnovalue e
    refine ⟨_, _, ?_, htype.reprint rfl hfollows, hvalue'⟩
    rw [tokensOf_append_cons, tokensOf_append_append]
    exact hread _

/-- A declaration without a type is read back before a semicolon. -/
theorem ReadsVarHead.reprint_untyped {keyword : Token} {head decl : VarDecl} {a b c : List Token}
    (hhead : ReadsVarHead keyword a head b) (hvalue : ReadsVarValue head b decl c) :
    ∃ ps, decl.pieces = .kept keyword :: ps ∧ ∀ e, ∃ b',
      ReadsVarHead keyword (tokensOf ps ++ Piece.semicolon.token :: e) head b' ∧
      headKind? b' ≠ some (.punctuation .colon) ∧
      ReadsVarValue head b' decl (Piece.semicolon.token :: e) := by
  obtain ⟨hnotype, hnovalue, ps, hps, hread⟩ := hhead.reprint
  obtain ⟨hheadPieces, htypeEq, -⟩ := hvalue.reprint hnovalue []
  refine ⟨ps ++ valuePieces decl.value, ?_, fun e => ?_⟩
  · have hpieces : decl.headPieces = .kept keyword :: ps := hheadPieces.trans hps
    simp [VarDecl.pieces, hpieces, htypeEq, hnotype, typeAfterPieces]
  · obtain ⟨-, -, hvalue', hcolon, -⟩ := hvalue.reprint hnovalue e
    refine ⟨_, ?_, hcolon, hvalue'⟩
    rw [tokensOf_append_append]
    exact hread _

/-- A declaration is read back before a semicolon. -/
theorem ReadsVar.reprint {keyword : Token} {a b : List Token} {decl : VarDecl}
    (h : ReadsVar keyword a decl b) :
    ∃ ps, decl.pieces = .kept keyword :: ps ∧ ∀ c,
      ReadsVar keyword (tokensOf ps ++ Piece.semicolon.token :: c) decl
        (Piece.semicolon.token :: c) := by
  cases h with
  | typed hhead hcolon htype hvalue =>
    obtain ⟨ps, hps, hread⟩ := hhead.reprint_typed htype hvalue
    refine ⟨ps, hps, fun c => ?_⟩
    obtain ⟨b', c', hhead', htype', hvalue'⟩ := hread c
    exact .typed hhead' rfl htype' hvalue'
  | untyped hhead _ hvalue =>
    obtain ⟨ps, hps, hread⟩ := hhead.reprint_untyped hvalue
    refine ⟨ps, hps, fun c => ?_⟩
    obtain ⟨b', hhead', hcolon, hvalue'⟩ := hread c
    exact .untyped hhead' hcolon hvalue'

/-! ### Headers -/

/-- A condition is read back, or made up again from a word that is written. -/
theorem ReadsCondition.reprint {a b c : List Token} {e : Expr} (h : ReadsCondition a e b)
    (hb : Follows b c) (habsent : ∀ t rest, b = t :: rest → Reader.startsExpression t = false →
      ∃ u more, c = u :: more ∧ u.kind.isInert = true) :
    ReadsCondition (tokensOf e.pieces ++ c) e c := by
  cases h with
  | written h => exact .written (h.reprint hb)
  | absent ht =>
    obtain ⟨u, more, rfl, hu⟩ := habsent _ _ rfl ht
    exact .written (.truth more rfl rfl hu)

/-- An expression that may be missing is read back before an inert token. -/
theorem ReadsExpr?.reprint {a b : List Token} {e : Option Expr} (h : ReadsExpr? a e b)
    {mark : Punctuation} (hmark : (Kind.punctuation mark).isInert = true) (c : List Token)
    (hstart : Reader.startsExpression (Piece.punct mark).token = false) :
    ReadsExpr? (tokensOf (exprPieces? e) ++ (Piece.punct mark).token :: c) e
      ((Piece.punct mark).token :: c) := by
  cases h with
  | some h => exact .some (h.reprint (.of_inert _ _ rfl hmark))
  | none =>
    refine .none ?_
    rintro t more ⟨⟩
    exact hstart

/-- The rest of the header of a counting loop is read back in parentheses. -/
theorem ReadsClauses.reprint {parenthesized : Bool} {init : Option LoopInit} {header : LoopHeader}
    {a b : List Token} (h : ReadsClauses parenthesized init a header b) :
    ∃ ps, headerPieces header = initPieces init ++ .semicolon :: ps ∧ ∀ c,
      ReadsClauses true init (tokensOf ps ++ (Piece.punct .rparen).token :: c) header c := by
  cases h with
  | mk hcondition hsemicolon hstep _ =>
    refine ⟨_, rfl, fun c => ?_⟩
    rw [tokensOf_append_cons]
    refine .mk (hcondition.reprint (.of_inert _ _ rfl rfl) ?_) rfl (hstep.reprint rfl c rfl)
      ⟨_, rfl, rfl⟩
    exact fun _ _ _ _ => ⟨_, _, rfl, rfl⟩

/-- Whether a parenthesis closes the header. -/
def isRparen (kind : Kind) : Bool := kind == .punctuation .rparen

/-- The type of the variable of a counting loop is opened by printed tokens only if the tokens
that were read open it. -/
theorem OpensLoopType.transfer {a b : List Token} (h : OpensLoopType b)
    (halike : Alike isRparen a b) : OpensLoopType a := by
  obtain ⟨type, rest, htype, hrest⟩ := h
  have hpasses : PassesTypes isRparen := ⟨rfl, fun _ => rfl, rfl, rfl⟩
  obtain ⟨type', d, htype', hd⟩ := htype.transfer hpasses rfl halike (by
    intro kind hkind
    rcases hrest with hrest | hrest
    all_goals
      rw [hrest] at hkind
      cases hkind
      rfl)
  refine ⟨type', d, htype', ?_⟩
  rcases hrest with hrest | hrest
  · exact .inl (hd.headKind?_eq hrest rfl nofun)
  · exact .inr (hd.headKind?_eq hrest rfl nofun)

/-- A header is read back in parentheses. -/
theorem ReadsHeader.reprint {parenthesized : Bool} {a b : List Token} {header : LoopHeader}
    (h : ReadsHeader parenthesized a header b) (c : List Token) :
    ReadsHeader true (tokensOf (headerPieces header) ++ (Piece.punct .rparen).token :: c) header
      c := by
  cases h with
  | bare hsemicolon h =>
    obtain ⟨ps, hps, hread⟩ := h.reprint
    rw [hps]
    exact .bare rfl (hread c)
  | typedVar hkeyword hhead hcolon htype hvalue _ h =>
    obtain ⟨ps, hps, hread⟩ := h.reprint
    obtain ⟨qs, hqs, hdecl⟩ := hhead.reprint_typed htype hvalue
    obtain ⟨b', c', hhead', htype', hvalue'⟩ :=
      hdecl (tokensOf ps ++ (Piece.punct .rparen).token :: c)
    rw [hps, tokensOf_append_cons, initPieces, LoopInit.pieces, hqs]
    exact .typedVar hkeyword hhead' rfl htype' hvalue' rfl (hread c)
  | untypedVar hkeyword hhead _ hvalue _ h =>
    obtain ⟨ps, hps, hread⟩ := h.reprint
    obtain ⟨qs, hqs, hdecl⟩ := hhead.reprint_untyped hvalue
    obtain ⟨b', hhead', hcolon, hvalue'⟩ := hdecl (tokensOf ps ++ (Piece.punct .rparen).token :: c)
    rw [hps, tokensOf_append_cons, initPieces, LoopInit.pieces, hqs]
    exact .untypedVar hkeyword hhead' hcolon hvalue' rfl (hread c)
  | expression hfirst _ h =>
    obtain ⟨ps, hps, hread⟩ := h.reprint
    rw [hps, tokensOf_append_cons]
    exact .expression (hfirst.reprint (.of_inert _ _ rfl rfl)) rfl (hread c)
  | each hkeyword hhead hcolon hopens hiterable _ =>
    obtain ⟨hnotype, hnovalue, ps, hps, hread⟩ := hhead.reprint
    rw [headerPieces, VarDecl.pieces, hps, hnotype, hnovalue, tokensOf_append_cons]
    simp only [typeAfterPieces, valuePieces, List.append_nil]
    refine .each hkeyword (hread _) hcolon ?_ (hiterable.reprint (.of_inert _ _ rfl rfl))
      ⟨_, rfl, rfl⟩
    exact fun hloop => hopens (hloop.transfer (.of_spells hiterable.spells (.stop rfl)))

/-! ### How statements begin -/

/-- The first token of a statement is its first piece.  It is inert, unless the statement is an
expression. -/
theorem ReadsStmt.head {a b : List Token} {s : Stmt} (h : ReadsStmt .statement a s b) :
    ∃ t rest ps, a = t :: rest ∧ s.pieces = .kept t :: ps ∧
      (t.kind.isInert = true ∨ ∃ e b', s = .expression e ∧ ReadsExpr .expression a e b') := by
  cases h with
  | forParens hkeyword | forBare hkeyword =>
    exact ⟨_, _, _, rfl, pieces_loop .., .inl (hkeyword ▸ rfl)⟩
  | ifThen hkeyword | ifElse hkeyword | ret hkeyword | doWhile hkeyword | whileLoop hkeyword
  | breakOut hkeyword | continueOn hkeyword | switch hkeyword =>
    exact ⟨_, _, _, rfl, rfl, .inl (hkeyword ▸ rfl)⟩
  | blockStmt hlbrace h =>
    cases h with
    | block => exact ⟨_, _, _, rfl, rfl, .inl (hlbrace ▸ rfl)⟩
  | expression he =>
    obtain ⟨t, rest, ps, rfl, hps⟩ := he.head rfl
    exact ⟨t, rest, _, rfl, congrArg (· ++ _) hps, .inr ⟨_, _, rfl, he⟩⟩

/-- The printed tokens of a statement follow an expression as the tokens did that the statement
was read from. -/
theorem ReadsStmt.follows {a b : List Token} {s : Stmt} (h : ReadsStmt .statement a s b)
    (c : List Token) : Follows a (tokensOf s.pieces ++ c) := by
  obtain ⟨t, rest, ps, rfl, hps, hinert | ⟨e, b', rfl, he⟩⟩ := h.head
  · rw [hps]
    exact .of_inert _ _ rfl hinert
  · rw [Stmt.pieces, tokensOf_append_cons]
    exact he.follows rfl (.of_inert _ _ rfl rfl)

/-- A condition is read back before a statement. -/
theorem ReadsStmt.reprint_condition {a b d : List Token} {e : Expr} {s : Stmt}
    (h : ReadsStmt .statement b s d) (hcondition : ReadsCondition a e b) (c : List Token) :
    ReadsCondition (tokensOf e.pieces ++ (tokensOf s.pieces ++ c)) e (tokensOf s.pieces ++ c) := by
  refine hcondition.reprint (h.follows c) ?_
  rintro t rest rfl ht
  obtain ⟨t', _, ps, heq, hps, hinert | ⟨e, b', rfl, he⟩⟩ := h.head
  · rw [hps]
    exact ⟨t', _, rfl, hinert⟩
  · -- no expression begins where a condition is missing
    obtain ⟨_, _, heq', hstarts, -⟩ := he.begins rfl
    cases heq'
    rw [ht] at hstarts
    cases hstarts

/-! ### Statements -/

/-- The word `else` comes first only if it did before. -/
def ElseFollows (b c : List Token) : Prop :=
  headKind? c = some (.keyword .else) → headKind? b = some (.keyword .else)

/-- A block is read back. -/
def Block.Reprints (body : Block) : Prop :=
  ∃ lbrace ps, lbrace.kind = .punctuation .lbrace ∧ body.pieces = .kept lbrace :: ps ∧
    ∀ c, ReadsStmt (.block lbrace) (tokensOf ps ++ c) body c

/-- A case is read back before other cases. -/
def SwitchCase.Reprints (case : SwitchCase) : Prop :=
  ∀ default b cases default' c, ReadsStmt (.cases default) b (cases, default') c →
    ReadsStmt (.cases default) (tokensOf case.pieces ++ b) (case :: cases, default') c

/-- A field is read back before other members. -/
def VarDecl.Reprints (decl : VarDecl) : Prop :=
  ∀ b fields methods c, ReadsStmt .members b (fields, methods) c →
    ReadsStmt .members (tokensOf decl.pieces ++ Piece.semicolon.token :: b)
      (decl :: fields, methods) c

/-- A method is read back before other members. -/
def FunctionDecl.Reprints (decl : FunctionDecl) : Prop :=
  ∀ b fields methods c, ReadsStmt .members b (fields, methods) c →
    ReadsStmt .members (tokensOf decl.pieces ++ b) (fields, decl :: methods) c

/-- What is read from the tokens of a form, up to the tokens `b`, is read back from its printed
tokens.  Cases and members are read back one by one, as they may be written in another order. -/
def StmtForm.Reprints : (form : StmtForm) → form.Result → List Token → Prop
  | .declaration, s, b =>
    ∀ c, ElseFollows b c → ReadsStmt .declaration (tokensOf s.pieces ++ c) s c
  | .statement, s, b =>
    ∀ c, ElseFollows b c → ReadsStmt .statement (tokensOf s.pieces ++ c) s c
  | .block lbrace, braced, _ =>
    ∃ ps, braced.pieces = .kept lbrace :: ps ∧
      ∀ c, ReadsStmt (.block lbrace) (tokensOf ps ++ c) braced c
  | .body, statements, _ =>
    ∀ c, AtClose c → ReadsStmt .body (tokensOf (stmtsPieces statements) ++ c) statements c
  | .function keyword, decl, _ =>
    ∃ ps, decl.pieces = .kept keyword :: ps ∧
      ∀ c, ReadsStmt (.function keyword) (tokensOf ps ++ c) decl c
  | .cases none, r, _ => (∀ case ∈ r.1, case.Reprints) ∧ ∀ body ∈ r.2, body.Reprints
  | .cases (some default), r, _ => (∀ case ∈ r.1, case.Reprints) ∧ r.2 = some default
  | .members, r, _ => (∀ decl ∈ r.1, decl.Reprints) ∧ ∀ decl ∈ r.2, decl.Reprints

/-- Cases are read back with the default after them. -/
theorem reprint_cases {cases : List SwitchCase} {default : Option Block}
    (hcases : ∀ case ∈ cases, case.Reprints) (hdefault : ∀ body ∈ default, body.Reprints)
    {c : List Token} (hc : AtClose c) :
    ReadsStmt (.cases none) (tokensOf (casesPieces cases ++ defaultPieces default) ++ c)
      (cases, default) c := by
  induction cases with
  | nil =>
    cases default with
    | none => exact .casesEnd hc
    | some body =>
      obtain ⟨lbrace, ps, hlbrace, hps, hread⟩ := hdefault body rfl
      simp only [casesPieces, defaultPieces, hps, List.nil_append]
      exact .casesDefault nofun rfl rfl hlbrace (hread c) (.casesEnd hc)
  | cons case cases ih =>
    have hmore := ih fun other hother => hcases other (List.mem_cons_of_mem _ hother)
    rw [casesPieces, List.append_assoc, tokensOf_append_append]
    exact hcases case List.mem_cons_self _ _ _ _ _ hmore

/-- Members are read back, the fields before the methods. -/
theorem reprint_members {fields : List VarDecl} {methods : List FunctionDecl}
    (hfields : ∀ decl ∈ fields, decl.Reprints) (hmethods : ∀ decl ∈ methods, decl.Reprints)
    {c : List Token} (hc : AtClose c) :
    ReadsStmt .members (tokensOf (fieldsPieces fields ++ functionsPieces methods) ++ c)
      (fields, methods) c := by
  induction fields with
  | nil =>
    induction methods with
    | nil => exact .membersEnd hc
    | cons decl methods ih =>
      have hmore := ih fun other hother => hmethods other (List.mem_cons_of_mem _ hother)
      rw [fieldsPieces, List.nil_append, functionsPieces, tokensOf_append_append]
      exact hmethods decl List.mem_cons_self _ _ _ _ hmore
  | cons decl fields ih =>
    have hmore := ih fun other hother => hfields other (List.mem_cons_of_mem _ hother)
    rw [fieldsPieces, List.append_assoc, List.cons_append, tokensOf_append_cons]
    exact hfields decl List.mem_cons_self _ _ _ _ hmore

/-- The superclass of a class is read back before the opening brace, and a list of types before it
ends. -/
theorem ReadsSuperclass.reprint {a b : List Token} {superclass : Option Expr}
    (h : ReadsSuperclass a superclass b) (c : List Token) :
    ReadsSuperclass (tokensOf (superclassPieces superclass) ++ (Piece.punct .lbrace).token :: c)
      superclass ((Piece.punct .lbrace).token :: c) ∧
    TypeFollows a
      (tokensOf (superclassPieces superclass) ++ (Piece.punct .lbrace).token :: c) := by
  cases h with
  | some hcolon hname => exact ⟨.some rfl hname, .cons hcolon _ _⟩
  | none => exact ⟨.none nofun, .of_kind (by decide) _ _⟩

/-- The value of a case is printed as no default. -/
theorem ReadsExpr.not_atDefault {a b c : List Token} {e : Expr} (h : ReadsExpr .expression a e b)
    (hb : Alike Kind.isInert b c) (ha : ¬ AtDefault a) : ¬ AtDefault (tokensOf e.pieces ++ c) := by
  rintro ⟨name, arrow, rest, heq, hname, harrow⟩
  obtain ⟨t, more, ps, rfl, hps⟩ := h.head rfl
  have hpieces : e.pieces = .kept t :: ps := hps
  have hspells := h.spells
  rw [hpieces] at hspells
  rw [hpieces, tokensOf_cons, List.cons_append, List.cons.injEq, Piece.token_kept] at heq
  obtain ⟨rfl, htail⟩ := heq
  -- what was read begins with the same token, and goes on with a token of the same kind
  cases hspells with
  | one _ hspells =>
    have halike := Alike.of_spells hspells hb
    have hhead : headKind? more = some (.punctuation .arrow) :=
      halike.headKind?_eq (by rw [htail, headKind?_cons, harrow]) rfl nofun
    obtain ⟨arrow', rest', rfl, harrow'⟩ := headKind?_eq_some_iff.mp hhead
    exact ha ⟨_, arrow', rest', rfl, hname, harrow'⟩

/-- A case is read back whatever cases come after it. -/
theorem ReadsExpr.reprints_case {a b : List Token} {value : Expr} {arrow lbrace : Token}
    {body : Block} {ps : List Piece}
    (hvalue : ReadsExpr .expression a value (arrow :: lbrace :: b)) (ha : ¬ AtDefault a)
    (harrow : arrow.kind = .punctuation .arrow) (hlbrace : lbrace.kind = .punctuation .lbrace)
    (hps : body.pieces = .kept lbrace :: ps)
    (hread : ∀ c, ReadsStmt (.block lbrace) (tokensOf ps ++ c) body c) :
    SwitchCase.Reprints ⟨value, arrow, body⟩ := by
  intro default c cases default' d hmore
  have hfollows : Follows (arrow :: lbrace :: b) (arrow :: lbrace :: (tokensOf ps ++ c)) :=
    .cons rfl (.stop (hlbrace ▸ rfl))
  rw [SwitchCase.pieces, tokensOf_append_cons, hps]
  exact .casesMore (hvalue.not_atDefault hfollows.alike ha) (hvalue.reprint hfollows) harrow
    hlbrace (hread c) hmore

theorem atClose_cons {close : Token} (hclose : close.kind = .punctuation .rbrace)
    (c : List Token) : AtClose (close :: c) := .inr (by rw [headKind?_cons, hclose])

/-- A printed semicolon is read. -/
theorem reads_semicolon (c : List Token) : Reading.token? (.punctuation .semicolon)
    (Piece.semicolon.token :: c) (some Piece.semicolon.token) c := ⟨rfl, rfl⟩

/-- Statements and their parts are read back from their printed tokens. -/
theorem ReadsStmt.reprints {form : StmtForm} {a b : List Token} {v : form.Result}
    (h : ReadsStmt form a v b) : form.Reprints v b := by
  induction h with
  | @classDecl _ _ _ close _ superclass fields methods _ _ _ _ hkeyword hname hgenerics hsuperclass
      hlbrace _ hclose ih =>
    intro c _
    have hmembers := reprint_members ih.1 ih.2 (atClose_cons hclose c)
    obtain ⟨hsuperclass', hfollows⟩ := hsuperclass.reprint
      (tokensOf (fieldsPieces fields ++ functionsPieces methods) ++ close :: c)
    have hclass := ReadsStmt.classDecl hkeyword hname (hgenerics.reprint rfl hfollows) hsuperclass'
      rfl hmembers hclose
    simpa [Stmt.pieces, TypeForm.pieces] using hclass
  | functionDecl hkeyword _ ih =>
    obtain ⟨ps, hps, hread⟩ := ih
    intro c _
    rw [Stmt.pieces, hps]
    exact .functionDecl hkeyword (hread c)
  | var hkeyword hdecl _ =>
    obtain ⟨ps, hps, hread⟩ := hdecl.reprint
    intro c _
    rw [Stmt.pieces, tokensOf_append_cons, hps]
    exact .var hkeyword (hread c) (reads_semicolon c)
  | stmt _ ih => exact fun c hc => .stmt (ih c hc)
  | forParens hkeyword _ hheader _ ih | forBare hkeyword _ hheader _ ih =>
    intro c hc
    rw [pieces_loop, loopPieces, tokensOf_cons, tokensOf_cons, List.cons_append, List.cons_append,
      tokensOf_append_cons]
    exact .forParens hkeyword rfl (hheader.reprint _) (ih c hc)
  | ifThen hkeyword hcondition hyes hend ih =>
    intro c hc
    rw [Stmt.pieces, elsePieces, List.append_nil, tokensOf_cons, List.cons_append,
      tokensOf_append_append]
    exact .ifThen hkeyword (hcondition.reprint (hyes.follows c)) (ih c hc) fun helse =>
      hend (hc helse)
  | ifElse hkeyword hcondition hyes hword _ ihyes ihno =>
    intro c hc
    rw [Stmt.pieces, elsePieces, tokensOf_cons, List.cons_append, tokensOf_append_append,
      tokensOf_append_cons]
    exact .ifElse hkeyword (hcondition.reprint (hyes.follows _))
      (ihyes _ fun _ => by rw [headKind?_cons, hword]) rfl (ihno c hc)
  | ret hkeyword hvalue _ =>
    intro c _
    rw [Stmt.pieces, tokensOf_cons, List.cons_append, tokensOf_append_cons]
    exact .ret hkeyword (hvalue.reprint rfl c rfl) (reads_semicolon c)
  | doWhile hkeyword _ hcondition hbody ih =>
    intro c hc
    rw [Stmt.pieces, tokensOf_cons, tokensOf_cons, List.cons_append, List.cons_append,
      tokensOf_append_append]
    exact .doWhile hkeyword rfl (hbody.reprint_condition hcondition c) (ih c hc)
  | whileLoop hkeyword hcondition hbody ih =>
    intro c hc
    rw [Stmt.pieces, tokensOf_cons, List.cons_append, tokensOf_append_append]
    exact .whileLoop hkeyword (hbody.reprint_condition hcondition c) (ih c hc)
  | breakOut hkeyword _ => exact fun c _ => .breakOut hkeyword (reads_semicolon c)
  | continueOn hkeyword _ => exact fun c _ => .continueOn hkeyword (reads_semicolon c)
  | @switch _ _ close _ cases default _ _ _ hkeyword hsubject _ _ hclose ih =>
    intro c _
    have hcases := reprint_cases ih.1 ih.2 (atClose_cons hclose c)
    rw [Stmt.pieces, tokensOf_cons, List.cons_append, tokensOf_append_cons, ← List.append_assoc,
      tokensOf_append_cons]
    exact .switch hkeyword (hsubject.reprint (.of_inert _ _ rfl rfl)) rfl hcases hclose
  | blockStmt hlbrace _ ih =>
    obtain ⟨ps, hps, hread⟩ := ih
    intro c _
    rw [Stmt.pieces, hps]
    exact .blockStmt hlbrace (hread c)
  | expression he _ =>
    intro c _
    rw [Stmt.pieces, tokensOf_append_cons]
    exact .expression (he.reprint (.of_inert _ _ rfl rfl)) (reads_semicolon c)
  | block _ hrbrace ih =>
    refine ⟨_, rfl, fun c => ?_⟩
    rw [tokensOf_append_cons]
    exact .block (ih _ (atClose_cons hrbrace c)) hrbrace
  | bodyEnd => exact fun c hc => .bodyEnd hc
  | bodyMore _ _ ih ihmore =>
    intro c hc
    have hmore := ihmore c hc
    rw [stmtsPieces, tokensOf_append_append]
    have hnotElse := hmore.not_leftOver rfl else_mem_leftOver
    exact .bodyMore (ih _ fun helse => absurd helse hnotElse) hmore
  | function hname hgenerics hlparen hparams hreturn hlbrace _ ih =>
    obtain ⟨ps, hps, hread⟩ := ih
    refine ⟨_, rfl, fun c => ?_⟩
    obtain ⟨b', c', hgenerics', hparams', hreturn'⟩ :=
      reprint_signature hgenerics hlparen hparams hreturn (.cons rfl _ (tokensOf ps ++ c))
    rw [tokensOf_cons, List.cons_append, tokensOf_append_append, hps]
    exact .function hname hgenerics' rfl hparams' hreturn' hlbrace (hread c)
  | @casesEnd default =>
    cases default with
    | none => exact ⟨by simp, by simp⟩
    | some => exact ⟨by simp, rfl⟩
  | casesDefault _ _ _ hlbrace _ _ ih ihmore =>
    obtain ⟨ps, hps, hread⟩ := ih
    obtain ⟨hcases, hdefault⟩ := ihmore
    refine ⟨hcases, fun body hbody => ?_⟩
    rw [hdefault] at hbody
    cases hbody
    exact ⟨_, ps, hlbrace, hps, hread⟩
  | @casesMore default _ _ _ _ _ _ _ _ _ _ ha hvalue harrow hlbrace _ _ ih ihmore =>
    obtain ⟨ps, hps, hread⟩ := ih
    have hcase := hvalue.reprints_case ha harrow hlbrace hps hread
    cases default with
    | none => exact ⟨List.forall_mem_cons.mpr ⟨hcase, ihmore.1⟩, ihmore.2⟩
    | some => exact ⟨List.forall_mem_cons.mpr ⟨hcase, ihmore.1⟩, ihmore.2⟩
  | membersEnd => exact ⟨by simp, by simp⟩
  | method hkeyword _ _ ih ihmore =>
    obtain ⟨ps, hps, hread⟩ := ih
    refine ⟨ihmore.1, List.forall_mem_cons.mpr ⟨fun b fields methods c hmore => ?_, ihmore.2⟩⟩
    rw [hps]
    exact .method hkeyword (hread b) hmore
  | field hkeyword hdecl _ _ ihmore =>
    obtain ⟨ps, hps, hread⟩ := hdecl.reprint
    refine ⟨List.forall_mem_cons.mpr ⟨fun b fields methods c hmore => ?_, ihmore.1⟩, ihmore.2⟩
    rw [hps]
    exact .field hkeyword (hread b) (reads_semicolon b) hmore
  | stray _ _ ih => exact ih

/-- **The statements of a file are read back from their printed tokens.** -/
theorem ReadsFile.reprint {a : List Token} {statements : List Stmt} (h : ReadsFile a statements) :
    ReadsFile (printed statements) statements := by
  induction h with
  | done => exact .done
  | more h _ ih =>
    have hfirst := h.reprints (printed _) fun helse =>
      absurd helse (ih.not_leftOver else_mem_leftOver)
    rw [printed, stmtsPieces, tokensOf_append]
    exact .more hfirst ih

end CurlyScript
