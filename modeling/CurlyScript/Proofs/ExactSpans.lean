import CurlyScript.Proofs.Spans

/-!
# The spans of statements

A statement ends with a token that it keeps, with an expression, with another statement, or, if it
declares a variable without a value, with a type.  In all cases but the last its span is exact up to
the semicolon after it, which no statement keeps.

## Main definitions

* `VarDecl.PlacedAt`, `Stmt.PlacedAt` — a declaration or a statement with its nodes has the spans
  that it should have.
* `StmtForm.Placed` — the same for each form of statements and their parts.

## Main results

* `ReadsStmt.placed` — statements are placed, one lemma for each way of putting them together.
* `ReadsFile.placed` — all nodes of the statements of a file have the spans that they should have.
* `Frontend.spans_exact` — the spans of expressions and statements are exact.
* `Frontend.type_spans_upToClosers` — the spans of types, parameters and declarations without a
  value leave out the closing brackets at their end, and nothing else.
-/

namespace CurlyScript

section File

variable {file : List Token} {x : Extent} {lo : Nat}

/-! ### Parts of statements -/

theorem Part.StandsAt.suffix {part : Part} {s : Span} {a b : List Token}
    (h : part.StandsAt file s a b) : b <:+ a := by
  obtain ⟨_, _, _, -, -, hstands, hspells⟩ := h
  exact hspells.suffix.trans hstands.spells.suffix

/-- What has the concrete forms of a part has its tokens. -/
theorem Part.StandsAt.map {inner outer : Part} {s : Span} {a b : List Token}
    (h : inner.StandsAt file s a b) (hwritten : ∀ ps, Written inner ps → Written outer ps) :
    outer.StandsAt file s a b := by
  obtain ⟨ps, qs, m, hps, hrest⟩ := h
  exact ⟨ps, qs, m, hwritten _ hps, hrest⟩

/-- A part from a word to a closing brace. -/
theorem standsAt_between {part : Part} {first last : Token} {kind : Kind} {ms : List Piece}
    {a b : List Token} (hfile : InOrder x lo file) (ha : first :: a <:+ file)
    (hfirst : first.kind = kind) (hkind : kind ≠ .punctuation .semicolon)
    (hmid : Spells ms a (last :: b)) (hlast : last.kind = .punctuation .rbrace)
    (hwritten : Written part (.kept first :: (ms ++ [.kept last]))) :
    part.StandsAt file (first.span.cover last.span) (first :: a) b := by
  have hrest := Stands.token (hmid.suffix.trans (suffix_of_cons ha)) hlast (by simp)
  have hwhole := (Stands.token ha hfirst hkind).cover hfile.ordered hmid hrest
  exact ⟨_, [], b, (List.append_nil _).symm ▸ hwritten, .absent, hwhole, .nil⟩

/-- A part that ends with another one, and with its semicolon. -/
theorem Part.StandsAt.within {outer inner : Part} {keyword : Token} {kind : Kind} {s : Span}
    {ms : List Piece} {a b c : List Token} (h : inner.StandsAt file s b c)
    (hfile : InOrder x lo file) (ha : keyword :: a <:+ file) (hkeyword : keyword.kind = kind)
    (hkind : kind ≠ .punctuation .semicolon) (hmid : Spells ms a b)
    (hwritten : ∀ qs, Written inner qs → Written outer (.kept keyword :: (ms ++ qs))) :
    outer.StandsAt file (keyword.span.cover s) (keyword :: a) c := by
  obtain ⟨ps, qs, m, hps, hqs, hstands, hspells⟩ := h
  have hwhole := (Stands.token ha hkeyword hkind).cover hfile.ordered hmid hstands
  refine ⟨_, qs, m, ?_, hqs, hwhole, hspells⟩
  have houter := hwritten _ hps
  rw [← List.append_assoc] at houter
  exact houter

/-- A part that may have a semicolon after it. -/
theorem Stands.part_semicolon {part : Part} {ps : List Piece} {s : Span} {semicolon : Option Token}
    {a b c : List Token} (h : Stands file ps s a b)
    (hsemicolon : Reading.token? (.punctuation .semicolon) b semicolon c)
    (hwritten : ∀ qs, Semicolon? qs → Written part (ps ++ qs)) : part.StandsAt file s a c := by
  obtain ⟨qs, hqs, hspells⟩ := spells_semicolon hsemicolon
  exact ⟨ps, qs, b, hwritten qs hqs, hqs, h, hspells⟩

/-! ### Variables -/

/-- A declaration is placed with all nodes in it, and unless it ends with a type its span is that of
its tokens. -/
structure VarDecl.PlacedAt (file : List Token) (d : VarDecl) (a b : List Token) : Prop where
  /-- The span is that of the tokens. -/
  stands : d.endsInType = false → Stands file d.pieces d.span a b
  /-- The span of a declaration that may end with a type goes up to the closing brackets. -/
  upToClosers : (TreeNode.var d).UpToClosers (halved file)
  /-- The nodes of the type are placed. -/
  type : AllPlaced file (typeNodes? d.type)
  /-- The nodes of the value are placed. -/
  value : AllPlaced file (exprNodes? d.value)

theorem VarDecl.PlacedAt.nodes {d : VarDecl} {a b : List Token} (h : d.PlacedAt file a b) :
    AllPlaced file d.nodes :=
  .cons ⟨fun hd => ⟨a, b, h.stands hd⟩, h.upToClosers⟩ (h.type.append h.value)

/-- A declaration is a statement, with or without a semicolon after it. -/
theorem VarDecl.PlacedAt.stmt {d : VarDecl} {semicolon : Option Token} {a b c : List Token}
    (h : d.PlacedAt file a b)
    (hsemicolon : Reading.token? (.punctuation .semicolon) b semicolon c) :
    AllPlaced file (.stmt (.var d) :: d.nodes) := by
  refine .cons ⟨fun hd => ⟨a, c, ?_⟩, trivial⟩ h.nodes
  exact (h.stands hd).part_semicolon hsemicolon fun _ => .var

/-- The tokens of the opening of a declaration: the opening word, perhaps another one, and the name
of the variable. -/
theorem ReadsVarHead.tokens {keyword : Token} {head : VarDecl} {a b : List Token}
    (h : ReadsVarHead keyword a head b) :
    head.keyword = keyword ∧ head.name.kind = .identifier ∧ ∃ mid, a = mid ++ head.name :: b ∧
      halved mid = mid ∧ Spells head.headPieces (keyword :: (mid ++ [head.name])) [] := by
  cases h with
  | @mutable word name a hword hname =>
    refine ⟨rfl, hname, [word], rfl, ?_, (Spells.nil.kept.mark hword).kept⟩
    exact halved_cons_of_ne (by simp [hword]) []
  | @fixed name a hname => exact ⟨rfl, hname, [], rfl, rfl, Spells.nil.kept.kept⟩

theorem Spells.of_kept {t : Token} {ps : List Piece} {a b : List Token}
    (h : Spells (.kept t :: ps) (t :: a) b) : Spells ps a b := by
  cases h with
  | one _ h => exact h

section Var

variable {keyword : Token} {head decl : VarDecl} {a b c : List Token}
  (hkeyword : keyword.kind = .keyword .var)

include hkeyword

/-- The tokens of the opening and those after it, with shifts split. -/
theorem ReadsVarHead.halves (h : ReadsVarHead keyword a head b) :
    ∃ mid, halved (keyword :: a) = keyword :: (mid ++ [head.name]) ++ halved b ∧
      Spells head.headPieces (keyword :: (mid ++ [head.name])) [] := by
  obtain ⟨-, hname, mid, rfl, hmid, hspells⟩ := h.tokens
  refine ⟨mid, ?_, hspells⟩
  rw [halved_cons_of_ne (by simp [hkeyword]), halved_append,
    halved_cons_of_ne (by simp [hname]), hmid]
  simp

variable (ha : keyword :: a <:+ file) (hfile : InOrder x lo file)

include ha hfile

/-- The span of the opening goes from the opening word to the name. -/
theorem ReadsVarHead.stands (h : ReadsVarHead keyword a head b) :
    Stands file head.headPieces (head.keyword.span.cover head.name.span) (keyword :: a) b := by
  have hfirst := Stands.token ha hkeyword (by simp)
  cases h with
  | mutable hword hname =>
    have hlast := Stands.token (suffix_of_cons hfirst.rest) hname (by simp)
    exact hfirst.cover hfile.ordered (Spells.nil.mark hword) hlast
  | fixed hname => exact hfirst.cover hfile.ordered .nil (.token hfirst.rest hname (by simp))

/-- A declaration that ends with the name of the variable. -/
theorem ReadsVarHead.placed (h : ReadsVarHead keyword a head b) :
    head.PlacedAt file (keyword :: a) b := by
  have hstands := h.stands hkeyword ha hfile
  obtain ⟨mid, hhalves, hspells⟩ := h.halves hkeyword
  obtain ⟨htype, hvalue, -⟩ := h.spells
  obtain ⟨rfl, hname, -⟩ := h.tokens
  have hspan : head.span = head.keyword.span.cover head.name.span := by
    rw [VarDecl.span, hvalue, htype]
  refine ⟨fun _ => ?_, fun _ => ?_, ?_, ?_⟩
  · rw [hspan]
    apply hstands.of_pieces
    simp [VarDecl.pieces, htype, hvalue, typeAfterPieces, valuePieces]
  · have hused := inside_halved ha hhalves
    rw [htype, hspan]
    refine ⟨_, [], (List.append_nil _).symm ▸ hused, hspells, .notAfter, ?_⟩
    rw [List.append_nil]
    exact Hull.cover_closers _ (hfile.halved.ordered.of_part hused) (hull_name hname)
  · rw [htype]
    exact .nil
  · rw [hvalue]
    exact .nil

/-- A declaration that ends with a type. -/
theorem ReadsVarHead.placed_typed {colon : Token} {type : TypeRef}
    (h : ReadsVarHead keyword a head (colon :: b)) (hcolon : colon.kind = .punctuation .colon)
    (htype : ReadsType .ref b type c) :
    ({ head with type := some type } : VarDecl).PlacedAt file (keyword :: a) c := by
  obtain ⟨mid, hhalves, hspells⟩ := h.halves hkeyword
  obtain ⟨-, hvalue, hhead⟩ := h.spells
  obtain ⟨rfl, -, -⟩ := h.tokens
  obtain ⟨p, hp, hderives, hspan, hnodes⟩ :=
    htype.spanned hfile (suffix_of_cons (hhead.suffix.trans ha))
  have htail : halved (colon :: b) = colon :: p ++ halved c := by
    rw [halved_cons_of_ne (by simp [hcolon]), hp]
    rfl
  rw [htail, ← List.append_assoc] at hhalves
  have hused := inside_halved ha hhalves
  have htokens : head.keyword :: (mid ++ [head.name]) ++ colon :: p =
      head.keyword :: (mid ++ [head.name, colon] ++ p) := by simp
  refine ⟨?_, fun _ => ⟨_, colon :: p, hused, hspells, .after hcolon hderives, ?_⟩, hnodes, ?_⟩
  · simp [VarDecl.endsInType, hvalue]
  · rw [htokens] at hused ⊢
    simp only [VarDecl.span, hvalue]
    exact Hull.cover_closers _ (hfile.halved.ordered.of_part hused) hspan
  · rw [hvalue]
    exact .nil

/-- A value is added to what has been read of a declaration. -/
theorem ReadsVarValue.placed (h : ReadsVarValue head b decl c) (hhead : head.keyword = keyword)
    (hvalue : head.value = Option.none) (hspells : SpellsHalf head.pieces (keyword :: a) b)
    (hplaced : head.PlacedAt file (keyword :: a) b) : decl.PlacedAt file (keyword :: a) c := by
  cases h with
  | none => exact hplaced
  | @value equals e b _ hequals he =>
    subst hhead
    have hrest := hspells.spells (by simp [hequals])
    have he := he.placed hfile (suffix_of_cons (hrest.suffix.trans ha))
    refine ⟨fun _ => ?_, by rintro ⟨⟩, hplaced.type, he.nodes⟩
    have hpieces : head.pieces = .kept head.keyword ::
        ((if head.mutable then [.mark (.keyword .mut)] else []) ++ [.kept head.name] ++
          typeAfterPieces head.type .colon) := by
      simp [VarDecl.pieces, VarDecl.headPieces, hvalue, valuePieces]
    rw [hpieces] at hrest
    have hfirst := Stands.token ha hkeyword (by simp)
    have hmid := hrest.of_kept.append (Spells.nil.mark hequals)
    apply (hfirst.cover hfile.ordered hmid he.stands).of_pieces
    simp [VarDecl.pieces, VarDecl.headPieces, valuePieces]

theorem ReadsVar.placed (h : ReadsVar keyword a decl b) : decl.PlacedAt file (keyword :: a) b := by
  cases h with
  | typed hhead hcolon htype hvalue =>
    obtain ⟨-, hnovalue, -⟩ := hhead.spells
    exact hvalue.placed hkeyword ha hfile hhead.tokens.1 hnovalue (hhead.spells_typed hcolon htype)
      (hhead.placed_typed hkeyword ha hfile hcolon htype)
  | untyped hhead _ hvalue =>
    obtain ⟨-, hnovalue, hspells⟩ := hhead.spells
    exact hvalue.placed hkeyword ha hfile hhead.tokens.1 hnovalue (.whole hspells)
      (hhead.placed hkeyword ha hfile)

end Var

/-! ### Conditions and headers -/

/-- A condition that is not written has the place of the token where it is missing. -/
theorem ReadsCondition.placed {a b : List Token} {e : Expr} (h : ReadsCondition a e b)
    (hfile : InOrder x lo file) (ha : a <:+ file) :
    AllPlaced file (.condition e :: e.innerNodes) := by
  cases h with
  | written h =>
    have he := h.placed hfile ha
    exact .cons ⟨.inl ⟨a, b, he.stands⟩, trivial⟩ he.inner
  | @absent t a ht =>
    exact .cons ⟨.inr ⟨t, ha.subset List.mem_cons_self, ht, rfl⟩, trivial⟩ .nil

theorem ReadsExpr?.placed {a b : List Token} {e : Option Expr} (h : ReadsExpr? a e b)
    (hfile : InOrder x lo file) (ha : a <:+ file) : AllPlaced file (exprNodes? e) := by
  cases h with
  | some h => exact (h.placed hfile ha).nodes
  | none => exact .nil

theorem ReadsSuperclass.placed {a b : List Token} {superclass : Option Expr}
    (h : ReadsSuperclass a superclass b) (hfile : InOrder x lo file) (ha : a <:+ file) :
    AllPlaced file (exprNodes? superclass) := by
  cases h with
  | some _ hname =>
    have hident := (ReadsExpr.ident hname).placed hfile (suffix_of_cons ha)
    exact hident.nodes
  | none => exact .nil

theorem ReadsClauses.placed {parenthesized : Bool} {init : Option LoopInit} {header : LoopHeader}
    {a b : List Token} (h : ReadsClauses parenthesized init a header b)
    (hfile : InOrder x lo file) (ha : a <:+ file) (hinit : AllPlaced file (initNodes init)) :
    AllPlaced file (headerNodes header) := by
  cases h with
  | mk hcondition _ hstep _ =>
    obtain ⟨ps, -, hps⟩ := hcondition.spells
    have hrest := suffix_of_cons (hps.suffix.trans ha)
    exact hinit.append ((hcondition.placed hfile ha).append (hstep.placed hfile hrest))

/-- A loop that declares a variable first. -/
theorem ReadsClauses.placed_after {parenthesized : Bool} {keyword semicolon : Token}
    {decl : VarDecl} {header : LoopHeader} {a b c : List Token}
    (h : ReadsClauses parenthesized (some (.var decl)) b header c)
    (hkeyword : keyword.kind = .keyword .var) (hdecl : ReadsVar keyword a decl (semicolon :: b))
    (hsemicolon : semicolon.kind = .punctuation .semicolon) (hfile : InOrder x lo file)
    (ha : keyword :: a <:+ file) : AllPlaced file (headerNodes header) := by
  have hspells := hdecl.spells.spells (by simp [hsemicolon])
  have hread : Reading.token? (.punctuation .semicolon) (semicolon :: b) (some semicolon) b :=
    ⟨rfl, hsemicolon⟩
  refine h.placed hfile (suffix_of_cons (hspells.suffix.trans ha)) ?_
  exact (hdecl.placed hkeyword ha hfile).stmt hread

theorem ReadsHeader.placed {parenthesized : Bool} {header : LoopHeader} {a b : List Token}
    (h : ReadsHeader parenthesized a header b) (hfile : InOrder x lo file) (ha : a <:+ file) :
    AllPlaced file (headerNodes header) := by
  cases h with
  | bare _ h => exact h.placed hfile (suffix_of_cons ha) .nil
  | typedVar hkeyword hhead hcolon htype hvalue hsemicolon h =>
    exact h.placed_after hkeyword (.typed hhead hcolon htype hvalue) hsemicolon hfile ha
  | untypedVar hkeyword hhead hb hvalue hsemicolon h =>
    exact h.placed_after hkeyword (.untyped hhead hb hvalue) hsemicolon hfile ha
  | expression hfirst _ h =>
    have hfirst := hfirst.placed hfile ha
    refine h.placed hfile (suffix_of_cons hfirst.stands.rest) (.cons ?_ hfirst.nodes)
    exact ⟨fun _ => ⟨_, _, _, [], _, .expression .absent, .absent, hfirst.stands, .nil⟩, trivial⟩
  | each hkeyword hhead _ _ hiterable _ =>
    have hbinding := hhead.placed hkeyword ha hfile
    obtain ⟨-, -, hspells⟩ := hhead.spells
    have hiterable := hiterable.placed hfile (suffix_of_cons (hspells.suffix.trans ha))
    exact hbinding.nodes.append hiterable.nodes

/-! ### Statements -/

/-- A statement has the span of its tokens, and all nodes in it are placed. -/
structure Stmt.PlacedAt (file : List Token) (s : Stmt) (a b : List Token) : Prop where
  /-- The span is that of the tokens. -/
  stands : (Part.stmt s).StandsAt file s.span a b
  /-- The nodes below are placed. -/
  inner : AllPlaced file s.innerNodes

theorem Stmt.PlacedAt.nodes {s : Stmt} {a b : List Token} (h : s.PlacedAt file a b) :
    AllPlaced file (.stmt s :: s.innerNodes) :=
  .cons ⟨fun _ => ⟨a, b, h.stands⟩, trivial⟩ h.inner

/-- The braces around a body with its step are where the body is. -/
theorem span_bodyWithStep (body : Stmt) (step : Expr) :
    (Reader.bodyWithStep body step).span = body.span := by
  show body.span.cover body.span = body.span
  simp [Span.cover, Span.join]

theorem span_loop (header : LoopHeader) (keyword : Token) (body : Stmt) :
    (header.loop keyword body).span = keyword.span.cover body.span := by
  rcases header with ⟨init, condition, _ | step⟩ | ⟨binding, colon, iterable⟩
  · rfl
  · exact congrArg _ (span_bodyWithStep body step)
  · rfl

/-- A loop `for` ends with its body as written, and its nodes are those of its header and of that
body. -/
theorem Stmt.PlacedAt.loop {header : LoopHeader} {body : Stmt} {keyword : Token} {ms : List Piece}
    {a b c : List Token} (h : body.PlacedAt file b c) (hfile : InOrder x lo file)
    (ha : keyword :: a <:+ file) (hkeyword : keyword.kind = .keyword .for) (hmid : Spells ms a b)
    (hheader : AllPlaced file (headerNodes header))
    (hwritten : ∀ qs, Written (.stmt body) qs →
      Written (.stmt (header.loop keyword body)) (.kept keyword :: (ms ++ qs))) :
    (header.loop keyword body).PlacedAt file (keyword :: a) c := by
  constructor
  · rw [span_loop]
    exact h.stands.within hfile ha hkeyword (by simp) hmid hwritten
  · rcases header with ⟨init, condition, _ | step⟩ | ⟨binding, colon, iterable⟩
    · simp only [LoopHeader.loop, Reader.loopBody, Stmt.innerNodes]
      exact hheader.append h.nodes
    · exact hheader.append (.cons ⟨span_bodyWithStep body step, trivial⟩ h.nodes)
    · exact hheader.append h.nodes

/-- What is said of the tokens of a form.  A declaration may end with half of a shift, so nothing is
said of what is left after it. -/
def StmtForm.Placed (file : List Token) :
    (form : StmtForm) → form.Result → List Token → List Token → Prop
  | .declaration, s, a, _ => a <:+ file → AllPlaced file (.stmt s :: s.innerNodes)
  | .statement, s, a, b => a <:+ file → s.PlacedAt file a b
  | .block lbrace, braced, a, b => lbrace.kind = .punctuation .lbrace → lbrace :: a <:+ file →
      (Part.block braced).StandsAt file braced.span (lbrace :: a) b ∧ AllPlaced file braced.nodes
  | .body, statements, a, _ => a <:+ file → AllPlaced file (stmtsNodes statements)
  | .function keyword, decl, a, b => keyword.kind = .keyword .fn → keyword :: a <:+ file →
      (Part.function decl).StandsAt file decl.span (keyword :: a) b ∧ AllPlaced file decl.nodes
  | .cases default, r, a, _ => a <:+ file → AllPlaced file (defaultNodes default) →
      AllPlaced file (casesNodes r.1) ∧ AllPlaced file (defaultNodes r.2)
  | .members, r, a, _ => a <:+ file →
      AllPlaced file (r.1.flatMap VarDecl.nodes) ∧ AllPlaced file (functionsNodes r.2)

namespace StmtForm.Placed

variable {keyword lbrace : Token} {a b c d : List Token} (hfile : InOrder x lo file)

include hfile

/-! ### Loops -/

section Loops

variable {body : Stmt} (ihbody : statement.Placed file body b c)

include ihbody

theorem forParens {lparen : Token} {header : LoopHeader} (hkeyword : keyword.kind = .keyword .for)
    (hlparen : lparen.kind = .punctuation .lparen) (hheader : ReadsHeader true a header b) :
    statement.Placed file (header.loop keyword body) (keyword :: lparen :: a) c := by
  intro ha
  obtain ⟨hs, hwritten, hspells⟩ := hheader.spells
  have hrest := suffix_of_cons (suffix_of_cons ha)
  have hbody := ihbody (hspells.suffix.trans hrest)
  refine hbody.loop hfile ha hkeyword (hspells.mark hlparen) (hheader.placed hfile hrest) ?_
  intro qs hqs
  simpa [closePieces] using Written.forParens hwritten hqs

theorem forBare {header : LoopHeader} (hkeyword : keyword.kind = .keyword .for)
    (hheader : ReadsHeader false a header b) :
    statement.Placed file (header.loop keyword body) (keyword :: a) c := by
  intro ha
  obtain ⟨hs, hwritten, hspells⟩ := hheader.spells
  have hrest := suffix_of_cons ha
  have hbody := ihbody (hspells.suffix.trans hrest)
  refine hbody.loop hfile ha hkeyword hspells (hheader.placed hfile hrest) ?_
  intro qs hqs
  simpa [closePieces] using Written.forBare hwritten hqs

theorem doWhile {word : Token} {condition : Expr} (hkeyword : keyword.kind = .keyword .do)
    (hword : word.kind = .keyword .while) (hcondition : ReadsCondition a condition b) :
    statement.Placed file (.whileLoop keyword condition body true) (keyword :: word :: a) c := by
  intro ha
  have hrest := suffix_of_cons (suffix_of_cons ha)
  obtain ⟨cs, hwritten, hcs⟩ := hcondition.spells
  have hbody := ihbody (hcs.suffix.trans hrest)
  refine ⟨?_, (hcondition.placed hfile hrest).append hbody.nodes⟩
  exact hbody.stands.within hfile ha hkeyword (by simp) (hcs.mark hword)
    fun _ => .doWhile hwritten

theorem whileLoop {condition : Expr} (hkeyword : keyword.kind = .keyword .while)
    (hcondition : ReadsCondition a condition b) :
    statement.Placed file (.whileLoop keyword condition body false) (keyword :: a) c := by
  intro ha
  have hrest := suffix_of_cons ha
  obtain ⟨cs, hwritten, hcs⟩ := hcondition.spells
  have hbody := ihbody (hcs.suffix.trans hrest)
  refine ⟨?_, (hcondition.placed hfile hrest).append hbody.nodes⟩
  exact hbody.stands.within hfile ha hkeyword (by simp) hcs fun _ => .whileLoop hwritten

end Loops

/-! ### Choices and the end of a function -/

theorem ifThen {condition : Expr} {yes : Stmt} (hkeyword : keyword.kind = .keyword .if)
    (hcondition : ReadsExpr .expression a condition b) (ih : statement.Placed file yes b c) :
    statement.Placed file (.ifElse keyword condition yes none) (keyword :: a) c := by
  intro ha
  have hcondition := hcondition.placed hfile (suffix_of_cons ha)
  have hyes := ih hcondition.stands.rest
  refine ⟨?_, hcondition.nodes.append (hyes.nodes.append .nil)⟩
  exact hyes.stands.within hfile ha hkeyword (by simp) hcondition.stands.spells fun _ => .ifThen

theorem ifElse {word : Token} {condition : Expr} {yes no : Stmt}
    (hkeyword : keyword.kind = .keyword .if) (hcondition : ReadsExpr .expression a condition b)
    (hyes : ReadsStmt .statement b yes (word :: c)) (hword : word.kind = .keyword .else)
    (ihyes : statement.Placed file yes b (word :: c)) (ihno : statement.Placed file no c d) :
    statement.Placed file (.ifElse keyword condition yes (some no)) (keyword :: a) d := by
  intro ha
  obtain ⟨ps, hwritten, hps⟩ := hyes.spelled
  have hcondition := hcondition.placed hfile (suffix_of_cons ha)
  have hyes := ihyes hcondition.stands.rest
  have hno := ihno (suffix_of_cons (hps.suffix.trans hcondition.stands.rest))
  refine ⟨?_, hcondition.nodes.append (hyes.nodes.append hno.nodes)⟩
  have hmid := hcondition.stands.spells.append (hps.append (Spells.nil.mark hword))
  refine hno.stands.within hfile ha hkeyword (by simp) hmid fun qs hqs => ?_
  simpa using Written.ifElse hwritten hqs

theorem switch {close : Token} {subject : Expr} {cases : List SwitchCase} {default : Option Block}
    (hkeyword : keyword.kind = .keyword .switch)
    (hsubject : ReadsExpr .expression a subject (lbrace :: b))
    (hlbrace : lbrace.kind = .punctuation .lbrace)
    (hcases : ReadsStmt (.cases none) b (cases, default) (close :: c))
    (hclose : close.kind = .punctuation .rbrace)
    (ih : (StmtForm.cases none).Placed file (cases, default) b (close :: c)) :
    statement.Placed file (.switch keyword subject cases default close) (keyword :: a) c := by
  intro ha
  obtain ⟨ps, hwritten, hps⟩ := hcases.spelled
  have hsubject := hsubject.placed hfile (suffix_of_cons ha)
  have hcasesAt := suffix_of_cons hsubject.stands.rest
  have hmid := hsubject.stands.spells.append (hps.mark hlbrace)
  have hstands := standsAt_between hfile ha hkeyword (by simp) hmid hclose
    (by simpa using Written.switch hwritten)
  obtain ⟨hcases, hdefault⟩ := ih hcasesAt .nil
  exact ⟨hstands, hsubject.nodes.append (hcases.append hdefault)⟩

theorem casesMore {default default' : Option Block} {value : Expr} {arrow : Token} {body : Block}
    {cases : List SwitchCase} (hvalue : ReadsExpr .expression a value (arrow :: lbrace :: b))
    (hlbrace : lbrace.kind = .punctuation .lbrace)
    (ih : (StmtForm.block lbrace).Placed file body b c)
    (ihmore : (StmtForm.cases default).Placed file (cases, default') c d) :
    (StmtForm.cases default).Placed file (⟨value, arrow, body⟩ :: cases, default') a d := by
  intro ha hdefault
  have hvalue := hvalue.placed hfile ha
  have hblockAt := suffix_of_cons hvalue.stands.rest
  obtain ⟨hbody, hnodes⟩ := ih hlbrace hblockAt
  obtain ⟨hcases, hdefault⟩ := ihmore (hbody.suffix.trans hblockAt) hdefault
  exact ⟨(hvalue.nodes.append hnodes).append hcases, hdefault⟩

theorem ret {value : Option Expr} {semicolon : Option Token}
    (hkeyword : keyword.kind = .keyword .return) (hvalue : ReadsExpr? a value b)
    (hsemicolon : Reading.token? (.punctuation .semicolon) b semicolon c) :
    statement.Placed file (.ret keyword value) (keyword :: a) c := by
  intro ha
  have hrest := suffix_of_cons ha
  refine ⟨?_, hvalue.placed hfile hrest⟩
  have hfirst := Stands.token ha hkeyword (by simp)
  cases hvalue with
  | none => exact hfirst.part_semicolon hsemicolon fun _ => .ret
  | some he =>
    have hwhole := hfirst.cover hfile.ordered .nil (he.placed hfile hrest).stands
    exact hwhole.part_semicolon hsemicolon fun _ => .ret

/-! ### Classes, functions and blocks -/

theorem classDecl {name close : Token} {generics : Option TypeList} {superclass : Option Expr}
    {fields : List VarDecl} {methods : List FunctionDecl}
    (hkeyword : keyword.kind = .keyword .klass) (hgenerics : ReadsType .list? a generics b)
    (hsuperclass : ReadsSuperclass b superclass (lbrace :: c))
    (hlbrace : lbrace.kind = .punctuation .lbrace)
    (hmembers : ReadsStmt .members c (fields, methods) (close :: d))
    (hclose : close.kind = .punctuation .rbrace)
    (ih : members.Placed file (fields, methods) c (close :: d)) :
    declaration.Placed file (.classDecl keyword name generics superclass fields methods close)
      (keyword :: name :: a) d := by
  intro ha
  have hgenericsAt := suffix_of_cons (suffix_of_cons ha)
  have hopen : Spells (genericsPieces _) _ _ :=
    hgenerics.spells.spells (hsuperclass.not_greater (by simp [hlbrace]))
  have hsuperclassAt := hopen.suffix.trans hgenericsAt
  have hmembersAt := suffix_of_cons (hsuperclass.spells.suffix.trans hsuperclassAt)
  obtain ⟨hfields, hmethods⟩ := ih hmembersAt
  obtain ⟨ps, hwritten, hps⟩ := hmembers.spelled
  have hmid := hopen.append (hsuperclass.spells.append (hps.mark hlbrace))
  have hstands := standsAt_between hfile ha hkeyword (by simp) hmid.kept hclose
    (by simpa using Written.classDecl hwritten)
  exact Stmt.PlacedAt.nodes ⟨hstands, (hgenerics.placed hfile hgenericsAt).append
    ((hsuperclass.placed hfile hsuperclassAt).append (hfields.append hmethods))⟩

theorem field {decl : VarDecl} {semicolon : Option Token} {fields : List VarDecl}
    {methods : List FunctionDecl} (hkeyword : keyword.kind = .keyword .var)
    (hdecl : ReadsVar keyword a decl b)
    (hsemicolon : Reading.token? (.punctuation .semicolon) b semicolon c)
    (hmore : ReadsStmt .members c (fields, methods) d)
    (ih : members.Placed file (fields, methods) c d) :
    members.Placed file (decl :: fields, methods) (keyword :: a) d := by
  intro ha
  obtain ⟨qs, -, hspells⟩ := hdecl.spells.semicolon hsemicolon
  have hrest := (hspells.spells (hmore.not_leftOver rfl greater_mem_leftOver)).suffix
  obtain ⟨hfields, hmethods⟩ := ih (hrest.trans ha)
  exact ⟨(hdecl.placed hkeyword ha hfile).nodes.append hfields, hmethods⟩

theorem function {name lparen : Token} {generics : Option TypeList} {params : List Param}
    {returnType : Option TypeRef} {body : Block} {e : List Token}
    (hgenerics : ReadsType .list? a generics (lparen :: b))
    (hlparen : lparen.kind = .punctuation .lparen) (hparams : ReadsParameters b params c)
    (hreturn : ReadsType (.after? .arrow) c returnType (lbrace :: d))
    (hlbrace : lbrace.kind = .punctuation .lbrace)
    (ih : (StmtForm.block lbrace).Placed file body d e) :
    (StmtForm.function keyword).Placed file ⟨keyword, name, generics, params, returnType, body⟩
      (name :: a) e := by
  intro hkeyword ha
  have hrest := suffix_of_cons (suffix_of_cons ha)
  have hsignature := spells_signature hgenerics hlparen hparams hreturn (by simp [hlbrace])
  have hnodes := placed_signature hgenerics hlparen hparams hreturn hfile hrest
  obtain ⟨hbody, hbodyNodes⟩ := ih hlbrace (hsignature.suffix.trans hrest)
  have hstands := hbody.within hfile ha hkeyword (by simp) hsignature.kept fun _ => .function
  exact ⟨hstands, .cons ⟨⟨_, _, hstands⟩, trivial⟩ (hnodes.append hbodyNodes)⟩

theorem block {rbrace : Token} {statements : List Stmt}
    (h : ReadsStmt .body a statements (rbrace :: b)) (hrbrace : rbrace.kind = .punctuation .rbrace)
    (ih : body.Placed file statements a (rbrace :: b)) :
    (StmtForm.block lbrace).Placed file ⟨lbrace, statements, rbrace⟩ a b := by
  intro hlbrace ha
  obtain ⟨ps, hwritten, hps⟩ := h.spelled
  have hrest := suffix_of_cons ha
  have hstands := standsAt_between hfile ha hlbrace (by simp) hps hrbrace (.braces hwritten)
  exact ⟨hstands, .cons ⟨⟨_, _, hstands⟩, trivial⟩ (ih hrest)⟩

omit hfile in
theorem bodyMore {s : Stmt} {statements : List Stmt} (h : ReadsStmt .declaration a s b)
    (hmore : ReadsStmt .body b statements c) (ih : declaration.Placed file s a b)
    (ihmore : body.Placed file statements b c) : body.Placed file (s :: statements) a c := by
  intro ha
  obtain ⟨ps, -, hps⟩ := h.spelled
  -- nothing that can follow begins with half of a shift, so the declaration ends with a token
  have hrest := (hps.spells (hmore.not_leftOver rfl greater_mem_leftOver)).suffix
  exact (ih ha).append (ihmore (hrest.trans ha))

end StmtForm.Placed

/-- Statements and all nodes in them have the spans that they should have. -/
theorem ReadsStmt.placed {form : StmtForm} {a b : List Token} {v : form.Result}
    (h : ReadsStmt form a v b) (hfile : InOrder x lo file) : form.Placed file v a b := by
  induction h with
  | classDecl hkeyword _ hgenerics hsuperclass hlbrace hmembers hclose ih =>
    exact .classDecl hfile hkeyword hgenerics hsuperclass hlbrace hmembers hclose ih
  | functionDecl hkeyword _ ih =>
    intro ha
    obtain ⟨hstands, hnodes⟩ := ih hkeyword ha
    exact .cons ⟨fun _ => ⟨_, _, hstands.map fun _ => .functionDecl⟩, trivial⟩ hnodes
  | var hkeyword hdecl hsemicolon =>
    exact fun ha => (hdecl.placed hkeyword ha hfile).stmt hsemicolon
  | stmt _ ih => exact fun ha => (ih ha).nodes
  | forParens hkeyword hlparen hheader _ ih => exact .forParens hfile ih hkeyword hlparen hheader
  | forBare hkeyword _ hheader _ ih => exact .forBare hfile ih hkeyword hheader
  | ifThen hkeyword hcondition _ _ ih => exact .ifThen hfile hkeyword hcondition ih
  | ifElse hkeyword hcondition hyes hword _ ihyes ihno =>
    exact .ifElse hfile hkeyword hcondition hyes hword ihyes ihno
  | ret hkeyword hvalue hsemicolon => exact .ret hfile hkeyword hvalue hsemicolon
  | doWhile hkeyword hword hcondition _ ih => exact .doWhile hfile ih hkeyword hword hcondition
  | whileLoop hkeyword hcondition _ ih => exact .whileLoop hfile ih hkeyword hcondition
  | breakOut hkeyword hsemicolon =>
    intro ha
    have hword := Stands.token ha hkeyword (by simp)
    exact ⟨hword.part_semicolon hsemicolon fun _ => .breakOut, .nil⟩
  | continueOn hkeyword hsemicolon =>
    intro ha
    have hword := Stands.token ha hkeyword (by simp)
    exact ⟨hword.part_semicolon hsemicolon fun _ => .continueOn, .nil⟩
  | switch hkeyword hsubject hlbrace hcases hclose ih =>
    exact .switch hfile hkeyword hsubject hlbrace hcases hclose ih
  | blockStmt hlbrace _ ih =>
    intro ha
    obtain ⟨hstands, hnodes⟩ := ih hlbrace ha
    exact ⟨hstands.map fun _ => .block, hnodes⟩
  | expression he hsemicolon =>
    intro ha
    have he := he.placed hfile ha
    exact ⟨he.stands.part_semicolon hsemicolon fun _ => .expression, he.nodes⟩
  | block h hrbrace ih => exact .block hfile h hrbrace ih
  | bodyEnd => exact fun _ => .nil
  | bodyMore h hmore ih ihmore => exact .bodyMore h hmore ih ihmore
  | function _ hgenerics hlparen hparams hreturn hlbrace _ ih =>
    exact .function hfile hgenerics hlparen hparams hreturn hlbrace ih
  | casesEnd => exact fun _ hdefault => ⟨.nil, hdefault⟩
  | casesDefault _ _ _ hlbrace _ _ ih ihmore =>
    intro ha _
    have hblockAt := suffix_of_cons (suffix_of_cons ha)
    obtain ⟨hbody, hnodes⟩ := ih hlbrace hblockAt
    exact ihmore (hbody.suffix.trans hblockAt) hnodes
  | casesMore _ hvalue _ hlbrace _ _ ih ihmore => exact .casesMore hfile hvalue hlbrace ih ihmore
  | membersEnd => exact fun _ => ⟨.nil, .nil⟩
  | method hkeyword _ _ ih ihmore =>
    intro ha
    obtain ⟨hdecl, hnodes⟩ := ih hkeyword ha
    obtain ⟨hfields, hmethods⟩ := ihmore (hdecl.suffix.trans ha)
    exact ⟨hfields, hnodes.append hmethods⟩
  | field hkeyword hdecl hsemicolon hmore ih =>
    exact .field hfile hkeyword hdecl hsemicolon hmore ih
  | stray _ _ ih => exact fun ha => ih (suffix_of_cons ha)

theorem ReadsFile.placed {a : List Token} {statements : List Stmt} (h : ReadsFile a statements)
    (hfile : InOrder x lo file) (ha : a <:+ file) : AllPlaced file (stmtsNodes statements) := by
  induction h with
  | done => exact .nil
  | more h hmore ih =>
    obtain ⟨ps, -, hps⟩ := h.spelled
    have hrest := (hps.spells (hmore.not_leftOver greater_mem_leftOver)).suffix
    exact (h.placed hfile ha).append (ih (hrest.trans ha))

end File

/-- Whether a node is a type that ends with a list, with no closing bracket at the end of its
span. -/
def TreeNode.endsEarly (halves : List Token) : TreeNode → Bool
  | .type r => r.generics.isSome && r.bound.isNone &&
      halves.all fun t => t.kind != .operator .greater || t.span.stop != r.span.stop
  | _ => false

/-- The complete span of a type that ends with a list ends with a closing bracket. -/
theorem TreeNode.Complete.closer {halves : List Token} {r : TypeRef}
    (h : (TreeNode.type r).Complete halves) (hlist : r.generics.isSome = true)
    (hbound : r.bound.isNone = true) :
    ∃ close ∈ halves, close.kind = .operator .greater ∧ r.span.stop = close.span.stop := by
  obtain ⟨p, hp, hderives, hhull⟩ := h
  cases hderives with
  | ref _ hgenerics hafter =>
    cases hafter with
    | after => cases hbound
    | notAfter =>
      cases hgenerics with
      | noList => cases hlist
      | someList hl =>
        cases hl with
        | @list angle close a _ _ _ hclose =>
          obtain ⟨t, ht, hstop⟩ := hhull.last
          rw [List.append_nil, ← List.cons_append, ← List.cons_append, List.getLast?_concat] at ht
          cases ht
          exact ⟨close, hp.subset (by simp), hclose, hstop⟩

theorem TreeNode.Complete.not_endsEarly {halves : List Token} {node : TreeNode}
    (h : node.Complete halves) : ¬ node.endsEarly halves = true := by
  intro hearly
  cases node with
  | type r =>
    simp only [endsEarly, Bool.and_eq_true] at hearly
    obtain ⟨⟨hlist, hbound⟩, hclosers⟩ := hearly
    obtain ⟨close, hclose, hkind, hstop⟩ := h.closer hlist hbound
    have := List.all_eq_true.mp hclosers close hclose
    simp [hkind, hstop] at this
  | _ => cases hearly

/-! ### Whole files -/

namespace Frontend

/-- All nodes of a text that is parsed without complaint have the spans that they should have. -/
theorem allPlaced_of_clean (file text : String) (hclean : (parse file text).1.hadError = false) :
    AllPlaced (lex file text).1.withoutEnd (stmtsNodes (parse file text).1.statements) := by
  obtain ⟨body, stop, hstream, hstop, -, hreads⟩ := Reader.readsFile_of_clean file text hclean
  have hbody : (lex file text).1.withoutEnd = body := by
    show (Lexer.ofText file text).tokenize.1.withoutEnd = body
    rw [hstream]
    simp [TokenStream.withoutEnd, Token.isEnd, hstop]
  rw [hbody]
  exact hreads.placed (hbody ▸ inOrder_withoutEnd file text) List.suffix_rfl

/-- **The spans of expressions and statements are exact.**

Take a text that is parsed without complaint.  Every expression in it, at any depth, and every
statement whose last token does not belong to a type has the span of its tokens: it starts where the
first of them starts, on the line of that one, and ends where the last of them ends, a semicolon
after it not counted.  The first piece of a node is always a token that the node keeps, so there is
only one place in the text where its pieces are spelled.  What is made up is left out, except that
the body of a counting loop to which the step has been added has the span of the body as it is
written. -/
theorem spans_exact (file text : String) (hclean : (parse file text).1.hadError = false) :
    ∀ node ∈ stmtsNodes (parse file text).1.statements,
      node.Exact (lex file text).1.withoutEnd :=
  fun node hnode => (allPlaced_of_clean file text hclean node hnode).spans

/-- A loop without a condition, with a compound assignment to a member as its step, a call with type
arguments in its body and a semicolon after it. -/
theorem spans_exact_loop :
    let text := "for (var i = 0; ; o.n += f(1)) g<A<B>>(i)[0];"
    (parse "m" text).1.hadError = false ∧
      ∀ node ∈ stmtsNodes (parse "m" text).1.statements,
        node.Exact (lex "m" text).1.withoutEnd := by
  intro text
  have hclean : (parse "m" text).1.hadError = false := by
    have htokens := Lexer.tokenize_eq_within 50 (l := .ofText "m" text) (by decide)
    simp only [parse, lex, htokens]
    decide +kernel
  exact ⟨hclean, spans_exact "m" text hclean⟩

/-- **The spans of types leave out the closing brackets at their end, and nothing else.**

Take a text that is parsed without complaint, and in it a type, a list of types, a parameter or a
declaration without a value.  Its span starts where the first of its tokens starts, on the line of
that one, and ends where the last of them ends that is no closing bracket of a list of types.  A
shift counts for two brackets. -/
theorem type_spans_upToClosers (file text : String)
    (hclean : (parse file text).1.hadError = false) :
    ∀ node ∈ stmtsNodes (parse file text).1.statements,
      node.UpToClosers (halved (lex file text).1.withoutEnd) :=
  fun node hnode => (allPlaced_of_clean file text hclean node hnode).types

/-- A parameter whose type ends with a shift, and a declaration without a value whose type has a
bound that ends with a list. -/
theorem type_spans_upToClosers_nested :
    let text := "fn f<T>(p: K<V<T>>) \x7b\x7d var mut x: A<B>: D<E>"
    (parse "m" text).1.hadError = false ∧
      ∀ node ∈ stmtsNodes (parse "m" text).1.statements,
        node.UpToClosers (halved (lex "m" text).1.withoutEnd) := by
  intro text
  have hclean : (parse "m" text).1.hadError = false := by
    have htokens := Lexer.tokenize_eq_within 50 (l := .ofText "m" text) (by decide)
    simp only [parse, lex, htokens]
    decide +kernel
  exact ⟨hclean, type_spans_upToClosers "m" text hclean⟩

/-- The span of the type `List<int>` ends before the bracket that closes the list, so it is not
complete. -/
theorem type_spans_incomplete :
    let text := "var mut x: List<int>"
    (parse "m" text).1.hadError = false ∧
      ¬ ∀ node ∈ stmtsNodes (parse "m" text).1.statements,
        node.Complete (halved (lex "m" text).1.withoutEnd) := by
  intro text
  have htokens := Lexer.tokenize_eq_within 30 (l := .ofText "m" text) (by decide)
  constructor
  · simp only [parse, lex, htokens]
    decide +kernel
  · intro hcomplete
    have hfound : (stmtsNodes (parse "m" text).1.statements).any
        (TreeNode.endsEarly (halved (lex "m" text).1.withoutEnd)) = true := by
      simp only [parse, lex, htokens]
      decide +kernel
    obtain ⟨node, hnode, hearly⟩ := List.any_eq_true.mp hfound
    exact (hcomplete node hnode).not_endsEarly hearly

end Frontend
end CurlyScript
