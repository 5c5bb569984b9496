import CurlyScript.Proofs.Extent
import CurlyScript.Proofs.Lookahead

/-!
# Statements stand in source order

The statements of a file stand one after the other in its text, and so do those of every block that
is written in it.  A statement that could not be read leaves a gap, but what is read after it comes
after all of its tokens.  The braces that are made up around the body of a counting loop with a step
hold the step after the body, which is not where it is written; no other block is made up.

## Main definitions

* `Arranged` — statements of a file, inside of its text, one after the other.
* `Stmt.blocks` — the blocks that are written in a statement, at any depth.

## Main results

* `Reader.keeps_stmtAt` — a statement lies between the tokens before it and the last one it has
  read, and all blocks in it are arranged.
* `Lexer.inOrder_collect` — the tokens of a text are in order, also up to an error.
* `Frontend.arranged_parse` — the statements of a text are arranged, and so are those of every
  block.
-/

namespace CurlyScript

/-! ### Blocks -/

/-- Statements of a file that lie inside of its text, each one ending before the next one starts. -/
structure Arranged (x : Extent) (stmts : List Stmt) : Prop where
  /-- All statements are in the text of the file. -/
  inside : ∀ stmt ∈ stmts, stmt.span.Inside x.file 0 x.size
  /-- They are disjoint and in their order. -/
  order : stmts.Pairwise fun a b => a.span.stop ≤ b.span.start

mutual

/-- The blocks that are written in a statement, with all blocks inside of them.  The body of a
counting loop with a step is a block that is not written. -/
def Stmt.blocks : Stmt → List Block
  | .block body => body.blocks
  | .ifElse _ _ yes no => yes.blocks ++ elseBlocks no
  | .whileLoop _ _ body _ => body.blocks
  | .forLoop _ _ _ (some _) (.block ⟨_, made, _⟩) => stmtsBlocks made
  | .forLoop _ _ _ _ body => body.blocks
  | .forEach _ _ _ _ body => body.blocks
  | .function decl => decl.blocks
  | .classDecl _ _ _ _ _ methods _ => functionsBlocks methods
  | .switch _ _ cases default _ => casesBlocks cases ++ defaultBlocks default
  | _ => []

/-- The block itself and the blocks that are written in it. -/
def Block.blocks : Block → List Block
  | ⟨lbrace, statements, rbrace⟩ => ⟨lbrace, statements, rbrace⟩ :: stmtsBlocks statements

/-- The blocks of a function. -/
def FunctionDecl.blocks : FunctionDecl → List Block
  | ⟨_, _, _, _, _, body⟩ => body.blocks

/-- The blocks of a case. -/
def SwitchCase.blocks : SwitchCase → List Block
  | ⟨_, _, body⟩ => body.blocks

/-- The blocks of an optional statement. -/
def elseBlocks : Option Stmt → List Block
  | none => []
  | some stmt => stmt.blocks

/-- The blocks of an optional block. -/
def defaultBlocks : Option Block → List Block
  | none => []
  | some body => body.blocks

/-- The blocks of some statements. -/
def stmtsBlocks : List Stmt → List Block
  | [] => []
  | stmt :: stmts => stmt.blocks ++ stmtsBlocks stmts

/-- The blocks of some functions. -/
def functionsBlocks : List FunctionDecl → List Block
  | [] => []
  | decl :: decls => decl.blocks ++ functionsBlocks decls

/-- The blocks of some cases. -/
def casesBlocks : List SwitchCase → List Block
  | [] => []
  | first :: cases => first.blocks ++ casesBlocks cases

end

theorem mem_stmtsBlocks {stmt : Stmt} {stmts : List Stmt} {b : Block} (hstmt : stmt ∈ stmts)
    (hb : b ∈ stmt.blocks) : b ∈ stmtsBlocks stmts := by
  induction stmts with
  | nil => cases hstmt
  | cons first stmts ih =>
    rcases List.mem_cons.mp hstmt with rfl | hstmt
    · exact List.mem_append_left _ hb
    · exact List.mem_append_right _ (ih hstmt)

/-- A step does not add to the blocks that are written in the body. -/
theorem blocks_forLoop (keyword : Token) (init : Option LoopInit) (condition : Expr)
    (step : Option Expr) (body : Stmt) :
    (Stmt.forLoop keyword init condition step (Reader.loopBody body step)).blocks =
      body.blocks := by
  cases step with
  | none => simp only [Reader.loopBody, Stmt.blocks]
  | some e =>
    simp only [Reader.loopBody, Reader.bodyWithStep, Stmt.blocks, stmtsBlocks, List.append_nil]

/-- The statements of all of some blocks are arranged. -/
def AllArranged (x : Extent) (blocks : List Block) : Prop :=
  ∀ b ∈ blocks, Arranged x b.statements

theorem allArranged_nil {x : Extent} : AllArranged x [] := nofun

theorem AllArranged.append {x : Extent} {a b : List Block} (ha : AllArranged x a)
    (hb : AllArranged x b) : AllArranged x (a ++ b) := by
  intro c hc
  rcases List.mem_append.mp hc with hc | hc
  · exact ha c hc
  · exact hb c hc

/-! ### Where statements stand -/

/-- The parts of a declaration lie between two places. -/
structure VarDecl.StandsIn (x : Extent) (lo hi : Nat) (d : VarDecl) : Prop where
  /-- The opening word does. -/
  keyword : d.keyword.span.Inside x.file lo hi
  /-- The name does. -/
  name : d.name.span.Inside x.file lo hi
  /-- The type does. -/
  type : ∀ type ∈ d.type, type.span.Inside x.file lo hi
  /-- The value does. -/
  value : ∀ e ∈ d.value, e.span.Inside x.file lo hi

/-- A statement lies between two places, and all blocks in it are arranged. -/
structure Stmt.StandsIn (x : Extent) (lo hi : Nat) (stmt : Stmt) : Prop where
  /-- The span of the statement lies between the places. -/
  span : stmt.span.Inside x.file lo hi
  /-- The blocks are arranged. -/
  blocks : AllArranged x stmt.blocks

/-- A block lies between two places, and it is arranged with all blocks in it. -/
structure Block.StandsIn (x : Extent) (lo hi : Nat) (b : Block) : Prop where
  /-- The span of the block lies between the places. -/
  span : b.span.Inside x.file lo hi
  /-- The blocks are arranged. -/
  blocks : AllArranged x b.blocks

/-- A function lies between two places, and all blocks in it are arranged. -/
structure FunctionDecl.StandsIn (x : Extent) (lo hi : Nat) (decl : FunctionDecl) : Prop where
  /-- The span of the function lies between the places. -/
  span : decl.span.Inside x.file lo hi
  /-- The blocks are arranged. -/
  blocks : AllArranged x decl.blocks

/-- Statements lie between two places, one after the other, and all blocks in them are arranged. -/
structure LinedUp (x : Extent) (lo hi : Nat) (stmts : List Stmt) : Prop where
  /-- Every statement lies between the places. -/
  inside : ∀ stmt ∈ stmts, stmt.span.Inside x.file lo hi
  /-- The statements are in their order. -/
  order : stmts.Pairwise fun a b => a.span.stop ≤ b.span.start
  /-- The blocks are arranged. -/
  blocks : AllArranged x (stmtsBlocks stmts)

section StandsIn

variable {x : Extent} {lo m hi hi' : Nat}

theorem VarDecl.StandsIn.mono {d : VarDecl} (h : d.StandsIn x lo hi) (hhi : hi ≤ hi') :
    d.StandsIn x lo hi' where
  keyword := h.keyword.mono (Nat.le_refl _) hhi
  name := h.name.mono (Nat.le_refl _) hhi
  type := fun type htype => (h.type type htype).mono (Nat.le_refl _) hhi
  value := fun e he => (h.value e he).mono (Nat.le_refl _) hhi

/-- A declaration lies where its parts lie. -/
theorem VarDecl.StandsIn.span {d : VarDecl} (h : d.StandsIn x lo hi) :
    d.span.Inside x.file lo hi := by
  rcases d with ⟨keyword, name, mutable, type, value⟩
  cases value with
  | some e => exact h.keyword.cover (h.value e rfl) (Nat.le_refl _) (Nat.le_refl _)
  | none =>
    cases type with
    | some type => exact h.keyword.cover (h.type type rfl) (Nat.le_refl _) (Nat.le_refl _)
    | none => exact h.keyword.cover h.name (Nat.le_refl _) (Nat.le_refl _)

/-- A type is added to what has been read of a declaration. -/
theorem VarDecl.StandsIn.withType {d : VarDecl} {type : TypeRef} (h : d.StandsIn x lo hi)
    (htype : type.span.Inside x.file lo hi) :
    ({ d with type := some type } : VarDecl).StandsIn x lo hi := by
  refine ⟨h.keyword, h.name, ?_, h.value⟩
  rintro _ ⟨⟩
  exact htype

theorem linedUp_nil : LinedUp x lo hi [] := ⟨nofun, .nil, allArranged_nil⟩

/-- A statement comes before those that are read after it. -/
theorem LinedUp.cons {stmt : Stmt} {stmts : List Stmt} (hstmt : stmt.StandsIn x lo m)
    (h : LinedUp x m hi stmts) (hm : lo ≤ m) (hmhi : m ≤ hi) : LinedUp x lo hi (stmt :: stmts) where
  inside := List.forall_mem_cons.mpr
    ⟨hstmt.span.mono (Nat.le_refl _) hmhi, fun s hs => (h.inside s hs).mono hm (Nat.le_refl _)⟩
  order := List.pairwise_cons.mpr
    ⟨fun s hs => Nat.le_trans hstmt.span.le_hi (h.inside s hs).lo_le, h.order⟩
  blocks := hstmt.blocks.append h.blocks

theorem LinedUp.mono {stmts : List Stmt} (h : LinedUp x lo hi stmts) (hhi : hi ≤ hi') :
    LinedUp x lo hi' stmts :=
  ⟨fun s hs => (h.inside s hs).mono (Nat.le_refl _) hhi, h.order, h.blocks⟩

theorem LinedUp.arranged {stmts : List Stmt} (h : LinedUp x lo hi stmts) (hhi : hi ≤ x.size) :
    Arranged x stmts :=
  ⟨fun s hs => (h.inside s hs).mono (Nat.zero_le _) hhi, h.order⟩

end StandsIn

namespace Reader

variable {x : Extent} {lo m : Nat}

/-- A statement that goes from one part that was read to another. -/
theorem keeps_stmt {stmt : Stmt} {first last : Span} {lo' n : Nat}
    (hfirst : first.Inside x.file lo n) (hlast : last.Inside x.file lo' m) (hlo : lo ≤ lo')
    (hn : n ≤ m) (hspan : stmt.span = first.cover last) (hblocks : AllArranged x stmt.blocks) :
    Keeps x m (Stmt.StandsIn x lo) (pure stmt) := by
  refine keeps_pure fun hi hhi _ => ⟨?_, hblocks⟩
  rw [hspan]
  exact hfirst.cover (hlast.mono (Nat.le_refl _) hhi) hlo (Nat.le_trans hn hhi)

/-! ### Variables and conditions -/

/-- Reporting an error at the next token, which may be the end. -/
theorem keeps_reportHere {β : Type} {R : Nat → β → Prop} {f : Token → SyntaxError} {r : Reader β}
    (hf : ∀ t : Token, t.span.file = x.file → (f t).span.file = x.file) (h : Keeps x lo R r) :
    Keeps x lo R (do report (f (← here)); r) :=
  fun _ hs hle => h _ (hs.report (hf _ hs.here_file)) hle

theorem keeps_varHead {keyword : Token} (hm : lo ≤ m)
    (hkeyword : keyword.span.Inside x.file lo m) :
    Keeps x m (VarDecl.StandsIn x lo) (varHead keyword) := by
  refine (keeps_accept? _).bind fun _ m₁ hm₁ _ => ?_
  refine (keeps_expectName _).bind fun name m₂ hm₂ hname => keeps_pure fun hi hhi _ => ?_
  exact ⟨hkeyword.mono (Nat.le_refl _) (by omega), hname.mono (by omega) hhi, nofun, nofun⟩

theorem keeps_varValue {decl : VarDecl} (hm : lo ≤ m) (hdecl : decl.StandsIn x lo m) :
    Keeps x m (VarDecl.StandsIn x lo) (varValue decl) := by
  have hsame : Keeps x m (VarDecl.StandsIn x lo) (pure decl) :=
    keeps_pure fun _ hhi _ => hdecl.mono hhi
  refine (keeps_accept? _).bind_option (fun _ m₁ hm₁ _ => ?_) ?_
  · refine (keeps_expression m₁).bind fun e m₂ hm₂ he => keeps_pure fun hi hhi _ => ?_
    have hdecl' : decl.StandsIn x lo hi := hdecl.mono (by omega)
    refine ⟨hdecl'.keyword, hdecl'.name, hdecl'.type, ?_⟩
    rintro _ ⟨⟩
    exact he.mono (by omega) hhi
  · show Keeps x m (VarDecl.StandsIn x lo) (withoutValue decl)
    unfold withoutValue
    split
    · exact hsame
    · exact keeps_reportHere (fun _ _ => hdecl.name.file_eq) hsame

theorem keeps_varDecl {keyword : Token} (hm : lo ≤ m)
    (hkeyword : keyword.span.Inside x.file lo m) :
    Keeps x m (VarDecl.StandsIn x lo) (varDecl keyword) := by
  refine (keeps_varHead hm hkeyword).bind fun head m₁ hm₁ hhead => ?_
  refine (keeps_acceptMark? .colon).bind_option (fun _ m₂ hm₂ _ => ?_) ?_
  · refine (keeps_typeRef m₂).bind fun type m₃ hm₃ htype => keeps_varValue (by omega) ?_
    exact (hhead.mono (by omega)).withType (htype.mono (by omega) (Nat.le_refl _))
  · exact keeps_varValue (by omega) hhead

/-- A condition may be made up where there is none, so its place does not matter. -/
theorem keeps_condition : Keeps x lo anywhere condition := by
  refine (keeps_expression? lo).bind_option (fun _ _ _ _ => keeps_anywhere _) ?_
  apply keeps_anyHere
  intro t
  exact (keeps_note rfl).bind fun _ _ _ _ => keeps_anywhere _

theorem keeps_atClose : Keeps x lo anywhere atClose :=
  (keeps_check _).bind fun _ _ _ _ => keeps_atEnd.bind fun _ _ _ _ =>
    keeps_anywhere _

theorem keeps_closeHeader (parenthesized : Bool) (what : Expectation) :
    Keeps x lo anywhere (closeHeader parenthesized what) := by
  unfold closeHeader
  split
  · exact (keeps_expectMark _ _).bind fun _ _ _ _ => keeps_anywhere _
  · exact keeps_anywhere _

theorem keeps_superclass? : Keeps x lo anywhere superclass? :=
  (keeps_acceptMark? _).bind_option
    (fun _ _ _ _ => (keeps_expectName _).bind fun _ _ _ _ => keeps_anywhere _)
    (keeps_anywhere _)

/-! ### The rules -/

section StmtRules

variable {fuel : Nat} {again : StmtRule → Reader Stmt}
  (hagain : ∀ rule lo, Keeps x lo (Stmt.StandsIn x lo) (again rule))

include hagain

/-- The declarations of a block stand one after the other, whichever of them failed. -/
theorem keeps_blockBody (count lo : Nat) : Keeps x lo (LinedUp x lo) (blockBody again count) := by
  induction count generalizing lo with
  | zero => exact keeps_pure fun _ _ _ => linedUp_nil
  | succ count ih =>
    refine keeps_atClose.ite (keeps_pure fun _ _ _ => linedUp_nil) ?_
    apply (keeps_recovered (hagain .declaration lo)).bind_option _ (ih lo)
    intro stmt m hm hstmt
    refine (ih m).bind fun more m₁ hm₁ hmore => keeps_pure fun hi hhi _ => ?_
    exact (hmore.mono hhi).cons hstmt hm (by omega)

theorem keeps_block {lbrace : Token} (hm : lo ≤ m) (hlbrace : lbrace.span.Inside x.file lo m) :
    Keeps x m (Block.StandsIn x lo) (block fuel again lbrace) := by
  refine (keeps_blockBody hagain fuel m).bind fun statements m₁ hm₁ hstatements => ?_
  refine (keeps_expectMark _ _).bind fun rbrace m₂ hm₂ hrbrace => keeps_pure fun hi hhi hsize => ?_
  refine ⟨hlbrace.cover (hrbrace.mono (Nat.le_refl _) hhi) (by omega) (by omega), ?_⟩
  exact List.forall_mem_cons.mpr ⟨hstatements.arranged (by omega), hstatements.blocks⟩

theorem keeps_function {keyword : Token} (hm : lo ≤ m)
    (hkeyword : keyword.span.Inside x.file lo m) :
    Keeps x m (FunctionDecl.StandsIn x lo) (function fuel again keyword) := by
  refine (keeps_expectName _).bind fun _ m₁ hm₁ _ => ?_
  refine keeps_typeParameters?.bind fun _ m₂ hm₂ _ => ?_
  refine (keeps_expectMark _ _).bind fun _ m₃ hm₃ _ => ?_
  refine keeps_parameters.bind fun _ m₄ hm₄ _ => keeps_returnType?.bind fun _ m₅ hm₅ _ => ?_
  refine (keeps_expectMark _ _).bind fun lbrace m₆ hm₆ hlbrace => ?_
  refine (keeps_block hagain hm₆ hlbrace).bind fun body m₇ hm₇ hbody => ?_
  refine keeps_pure fun hi hhi _ => ?_
  exact ⟨hkeyword.cover (hbody.span.mono (Nat.le_refl _) hhi) (by omega) (by omega), hbody.blocks⟩

theorem keeps_switchCase (lo : Nat) :
    Keeps x lo (fun _ found => AllArranged x found.blocks) (switchCase fuel again) := by
  refine (keeps_expression lo).bind fun _ _ _ _ => (keeps_expectMark _ _).bind fun _ _ _ _ => ?_
  refine (keeps_expectMark _ _).bind fun lbrace m hm hlbrace => ?_
  exact (keeps_block hagain hm hlbrace).bind fun _ _ _ hbody => keeps_pure fun _ _ _ => hbody.blocks

theorem keeps_switchDefault (lo : Nat) :
    Keeps x lo (fun _ body => AllArranged x body.blocks) (switchDefault fuel again) := by
  refine keeps_advance.bind fun _ _ _ _ => keeps_advance.bind fun _ _ _ _ => ?_
  refine (keeps_expectMark _ _).bind fun lbrace m hm hlbrace => ?_
  exact (keeps_block hagain hm hlbrace).weaken fun _ _ hbody => hbody.blocks

omit hagain in
theorem keeps_refuseSecond (default : Option Block) :
    Keeps x lo anywhere (refuseSecond default) := by
  unfold refuseSecond
  split
  · exact fun _ hs _ => .ok (Nat.le_refl _) (hs.report hs.here_file) trivial
  · exact keeps_anywhere _

omit hagain in
theorem keeps_atDefault : Keeps x lo anywhere atDefault :=
  fun _ hs _ => .ok (Nat.le_refl _) hs trivial

/-- The cases and the default that were met, and those to come. -/
theorem keeps_switchBody (count lo : Nat) {default : Option Block}
    (hdefault : AllArranged x (defaultBlocks default)) :
    Keeps x lo (fun _ found => AllArranged x (casesBlocks found.1) ∧
      AllArranged x (defaultBlocks found.2)) (switchBody fuel again count default) := by
  induction count generalizing default lo with
  | zero => exact keeps_pure fun _ _ _ => ⟨allArranged_nil, hdefault⟩
  | succ count ih =>
    refine keeps_atClose.ite (keeps_pure fun _ _ _ => ⟨allArranged_nil, hdefault⟩) ?_
    refine keeps_atDefault.ite ?_ ?_
    · refine (keeps_refuseSecond default).bind fun _ m _ _ => ?_
      refine (keeps_switchDefault hagain m).bind fun body m₁ _ hbody => ih m₁ ?_
      -- a second default is read, but the first one stays
      cases default with
      | none => exact hbody
      | some first => exact hdefault
    · refine (keeps_switchCase hagain lo).bind fun first m _ hfirst => (ih m hdefault).bind ?_
      rintro ⟨cases, found⟩ m₁ - ⟨hcases, hfound⟩
      exact keeps_pure fun _ _ _ => ⟨hfirst.append hcases, hfound⟩

theorem keeps_switchStatement {keyword : Token} (hm : lo ≤ m)
    (hkeyword : keyword.span.Inside x.file lo m) :
    Keeps x m (Stmt.StandsIn x lo) (switchStatement fuel again keyword) := by
  refine (keeps_expression m).bind fun _ m₁ hm₁ _ => ?_
  refine (keeps_expectMark _ _).bind fun _ m₂ hm₂ _ => ?_
  have hnone : AllArranged x (defaultBlocks none) := allArranged_nil
  refine (keeps_switchBody hagain fuel m₂ hnone).bind ?_
  rintro ⟨cases, default⟩ m₃ hm₃ ⟨hcases, hdefault⟩
  refine (keeps_expectMark _ _).bind fun close m₄ hm₄ hclose => ?_
  exact keeps_stmt hkeyword hclose (by omega) (by omega) rfl (hcases.append hdefault)

theorem keeps_classMember {more : Reader (List VarDecl × List FunctionDecl)}
    (hmore : Keeps x lo (fun _ members => AllArranged x (functionsBlocks members.2)) more) :
    Keeps x lo (fun _ members => AllArranged x (functionsBlocks members.2))
      (classMember fuel again more) := by
  refine (keeps_accept? _).bind_option (fun keyword m hm hkeyword => ?_) ?_
  · refine (keeps_function hagain hm hkeyword).bind fun method m₁ hm₁ hmethod => ?_
    refine (hmore.later (by omega)).bind ?_
    rintro ⟨fields, methods⟩ m₂ - hmethods
    exact keeps_pure fun _ _ _ => hmethod.blocks.append hmethods
  refine (keeps_accept? _).bind_option (fun keyword m hm hkeyword => ?_) ?_
  · refine (keeps_varDecl hm hkeyword).bind fun _ m₁ hm₁ _ => ?_
    refine (keeps_acceptMark? _).bind fun _ m₂ hm₂ _ => (hmore.later (by omega)).bind ?_
    rintro ⟨fields, methods⟩ m₃ - hmethods
    exact keeps_pure fun _ _ _ => hmethods
  · exact (keeps_acceptMark? _).bind_option (fun _ _ hm _ => hmore.later hm) (keeps_fail _)

theorem keeps_classBody (count : Nat) :
    Keeps x lo (fun _ members => AllArranged x (functionsBlocks members.2))
      (classBody fuel again count) := by
  have hnone : Keeps x lo (fun _ members => AllArranged x (functionsBlocks members.2))
      (pure (([], []) : List VarDecl × List FunctionDecl)) :=
    keeps_pure fun _ _ _ => allArranged_nil
  induction count with
  | zero => exact hnone
  | succ count ih => exact keeps_atClose.ite hnone (keeps_classMember hagain ih)

theorem keeps_classDeclaration {keyword : Token} (hm : lo ≤ m)
    (hkeyword : keyword.span.Inside x.file lo m) :
    Keeps x m (Stmt.StandsIn x lo) (classDeclaration fuel again keyword) := by
  refine (keeps_expectName _).bind fun _ m₁ hm₁ _ => keeps_typeParameters?.bind fun _ m₂ hm₂ _ => ?_
  refine keeps_superclass?.bind fun _ m₃ hm₃ _ => (keeps_expectMark _ _).bind fun _ m₄ hm₄ _ => ?_
  refine (keeps_classBody hagain fuel).bind ?_
  rintro ⟨fields, methods⟩ m₅ hm₅ hmethods
  refine (keeps_expectMark _ _).bind fun close m₆ hm₆ hclose => ?_
  exact keeps_stmt hkeyword hclose (by omega) (by omega) rfl hmethods

/-! ### Choices and loops -/

theorem keeps_ifStatement {keyword : Token} (hm : lo ≤ m)
    (hkeyword : keyword.span.Inside x.file lo m) :
    Keeps x m (Stmt.StandsIn x lo) (ifStatement again keyword) := by
  refine (keeps_expression m).bind fun _ m₁ hm₁ _ => ?_
  refine (hagain .statement m₁).bind fun yes m₂ hm₂ hyes => ?_
  refine (keeps_accept? _).bind_option (fun _ m₃ hm₃ _ => ?_) ?_
  · refine (hagain .statement m₃).bind fun no m₄ hm₄ hno => ?_
    exact keeps_stmt hkeyword hno.span (by omega) (by omega) rfl (hyes.blocks.append hno.blocks)
  · have hblocks := hyes.blocks.append allArranged_nil
    exact keeps_stmt hkeyword hyes.span (by omega) (by omega) rfl hblocks

theorem keeps_whileStatement {keyword : Token} (hm : lo ≤ m)
    (hkeyword : keyword.span.Inside x.file lo m) (testedAfter : Bool) :
    Keeps x m (Stmt.StandsIn x lo) (whileStatement again keyword testedAfter) := by
  refine keeps_condition.bind fun _ m₁ hm₁ _ => ?_
  refine (hagain .statement m₁).bind fun body m₂ hm₂ hbody => ?_
  exact keeps_stmt hkeyword hbody.span (by omega) (by omega) rfl hbody.blocks

theorem keeps_forClauses {keyword : Token} (hm : lo ≤ m)
    (hkeyword : keyword.span.Inside x.file lo m) (parenthesized : Bool)
    (init : Option LoopInit) :
    Keeps x m (Stmt.StandsIn x lo) (forClauses again keyword parenthesized init) := by
  refine keeps_condition.bind fun _ m₁ hm₁ _ => (keeps_expectMark _ _).bind fun _ m₂ hm₂ _ => ?_
  refine (keeps_expression? m₂).bind fun step m₃ hm₃ _ => ?_
  refine (keeps_closeHeader _ _).bind fun _ m₄ hm₄ _ => ?_
  refine (hagain .statement m₄).bind fun body m₅ hm₅ hbody => ?_
  -- the braces that are made up for a step stand where the written body stands
  have hspan : (loopBody body step).span.Inside x.file m₄ m₅ := by
    cases step with
    | none => exact hbody.span
    | some e => exact hbody.span.cover hbody.span (Nat.le_refl _) (Nat.le_refl _)
  apply keeps_stmt hkeyword hspan (by omega) (by omega) rfl
  rw [blocks_forLoop]
  exact hbody.blocks

theorem keeps_forEachClause {keyword : Token} (hm : lo ≤ m)
    (hkeyword : keyword.span.Inside x.file lo m) (parenthesized : Bool) (binding : VarDecl)
    (colon : Token) :
    Keeps x m (Stmt.StandsIn x lo) (forEachClause again keyword parenthesized binding colon) := by
  refine (keeps_expression m).bind fun _ m₁ hm₁ _ => ?_
  refine (keeps_closeHeader _ _).bind fun _ m₂ hm₂ _ => ?_
  refine (hagain .statement m₂).bind fun body m₃ hm₃ hbody => ?_
  exact keeps_stmt hkeyword hbody.span (by omega) (by omega) rfl hbody.blocks

theorem keeps_forVar {keyword : Token} (hm : lo ≤ m) (hkeyword : keyword.span.Inside x.file lo m)
    (parenthesized : Bool) {binding : VarDecl} (hbinding : binding.StandsIn x lo m) :
    Keeps x m (Stmt.StandsIn x lo) (forVar again keyword parenthesized binding) := by
  refine (keeps_varValue hm hbinding).bind fun _ m₁ hm₁ _ => ?_
  refine (keeps_expectMark _ _).bind fun _ m₂ hm₂ _ => ?_
  exact keeps_forClauses hagain (by omega) (hkeyword.mono (Nat.le_refl _) (by omega)) _ _

theorem keeps_forDeclared {keyword varKeyword : Token} (hm : lo ≤ m)
    (hkeyword : keyword.span.Inside x.file lo m) (hvar : varKeyword.span.Inside x.file lo m)
    (parenthesized : Bool) :
    Keeps x m (Stmt.StandsIn x lo) (forDeclared again keyword parenthesized varKeyword) := by
  refine (keeps_varHead hm hvar).bind fun binding m₁ hm₁ hbinding => ?_
  refine (keeps_acceptMark? _).bind_option (fun colon m₂ hm₂ _ => ?_) ?_
  · refine (keeps_loopType? keyword m₂).bind_option (fun type m₃ hm₃ htype => ?_) ?_
    · refine keeps_forVar hagain (by omega) (hkeyword.mono (Nat.le_refl _) (by omega)) _ ?_
      exact (hbinding.mono (by omega)).withType (htype.mono (by omega) (Nat.le_refl _))
    · exact keeps_forEachClause hagain (by omega) (hkeyword.mono (Nat.le_refl _) (by omega)) _ _ _
  · exact keeps_forVar hagain (by omega) (hkeyword.mono (Nat.le_refl _) (by omega)) _ hbinding

theorem keeps_forStatement {keyword : Token} (hm : lo ≤ m)
    (hkeyword : keyword.span.Inside x.file lo m) :
    Keeps x m (Stmt.StandsIn x lo) (forStatement again keyword) := by
  refine (keeps_acceptMark? _).bind fun paren m₁ hm₁ _ => ?_
  have hkeyword₁ := hkeyword.mono (Nat.le_refl _) hm₁
  refine (keeps_acceptMark? _).bind_option (fun _ m₂ hm₂ _ => ?_) ?_
  · exact keeps_forClauses hagain (by omega) (hkeyword₁.mono (Nat.le_refl _) hm₂) _ _
  refine (keeps_accept? _).bind_option (fun varKeyword m₂ hm₂ hvar => ?_) ?_
  · exact keeps_forDeclared hagain (by omega) (hkeyword₁.mono (Nat.le_refl _) hm₂)
      (hvar.mono (by omega) (Nat.le_refl _)) _
  · refine (keeps_expression m₁).bind fun _ m₂ hm₂ _ => ?_
    refine (keeps_expectMark _ _).bind fun _ m₃ hm₃ _ => ?_
    exact keeps_forClauses hagain (by omega) (hkeyword₁.mono (Nat.le_refl _) (by omega)) _ _

/-! ### Statements and declarations -/

theorem keeps_statement (lo : Nat) : Keeps x lo (Stmt.StandsIn x lo) (statement fuel again) := by
  have hexpression : Keeps x lo (Stmt.StandsIn x lo) expressionStatement := by
    refine (keeps_expression lo).bind fun e m hm he => ?_
    refine (keeps_acceptMark? _).bind fun _ m₁ hm₁ _ => ?_
    exact keeps_pure fun hi hhi _ => ⟨he.mono (Nat.le_refl _) (by omega), allArranged_nil⟩
  have hword (t : Token) (stmt : Token → Stmt) (hspan : (stmt t).span = t.span)
      (hblocks : (stmt t).blocks = []) :
      KeepsBefore t x lo (Stmt.StandsIn x lo) (do wordStatement (stmt (← advance))) := by
    refine keepsBefore_advance fun m hm hinside => (keeps_acceptMark? _).bind fun _ m₁ hm₁ _ => ?_
    refine keeps_pure fun hi hhi _ => ⟨?_, ?_⟩
    · rw [hspan]
      exact hinside.mono (Nat.le_refl _) (by omega)
    · rw [hblocks]
      exact allArranged_nil
  have hreturn (t : Token) :
      KeepsBefore t x lo (Stmt.StandsIn x lo) (do returnStatement (← advance)) := by
    apply keepsBefore_advance
    intro m hm hinside
    refine (keeps_expression? m).bind fun value m₁ hm₁ h => ?_
    refine (keeps_acceptMark? _).bind fun _ m₂ hm₂ _ => ?_
    cases value with
    | none =>
      exact keeps_pure fun hi hhi _ => ⟨hinside.mono (Nat.le_refl _) (by omega), allArranged_nil⟩
    | some e =>
      have he := (h e rfl).mono (Nat.le_refl _) hm₂
      exact keeps_stmt hinside he hm (by omega) rfl allArranged_nil
  refine keeps_here (fun t => ?_) fun t ht _ => by rw [ht]; exact hexpression
  cases t.kind with
  | keyword word =>
    cases word with
    | «for» => exact keepsBefore_advance fun m hm ht => keeps_forStatement hagain hm ht
    | «if» => exact keepsBefore_advance fun m hm ht => keeps_ifStatement hagain hm ht
    | «return» => exact hreturn t
    | «do» =>
      refine keepsBefore_advance fun m hm ht => (keeps_expect _ _).bind fun _ m₁ hm₁ _ => ?_
      exact keeps_whileStatement hagain (by omega) (ht.mono (Nat.le_refl _) hm₁) true
    | «while» => exact keepsBefore_advance fun m hm ht => keeps_whileStatement hagain hm ht false
    | «break» => exact hword t _ rfl rfl
    | «continue» => exact hword t _ rfl rfl
    | switch => exact keepsBefore_advance fun m hm ht => keeps_switchStatement hagain hm ht
    | _ => exact hexpression.before t
  | punctuation mark =>
    cases mark with
    | lbrace =>
      refine keepsBefore_advance fun m hm ht => (keeps_block hagain hm ht).map fun _ _ hbody => ?_
      exact ⟨hbody.span, hbody.blocks⟩
    | _ => exact hexpression.before t
  | _ => exact hexpression.before t

omit hagain in
/-- A function is only read where a token for its opening word is next. -/
theorem keeps_atFunction_bind {β : Type} {R : Nat → β → Prop} {f : Token → Reader β} {r : Reader β}
    (hf : ∀ t, KeepsBefore t x lo R (do f (← advance))) (hr : Keeps x lo R r) :
    Keeps x lo R (do if ← atFunction then f (← advance) else r) := by
  intro s hs hle
  have htest : atFunction s = .ok (!s.cursor.atEnd && s.cursor.here.kind == .keyword .fn &&
      s.cursor.second.kind == .identifier) s := rfl
  rw [bind_ok htest]
  rcases hahead : s.cursor.ahead with _ | ⟨t, rest⟩
  · have hend : s.cursor.atEnd = true := by rw [Cursor.atEnd, hahead]; rfl
    rw [hend, Bool.not_true, Bool.false_and, Bool.false_and]
    exact hr s hs hle
  · split
    · exact hf t s rest hs hle hahead
    · exact hr s hs hle

theorem keeps_declarationOrStatement (lo : Nat) :
    Keeps x lo (Stmt.StandsIn x lo) (declarationOrStatement fuel again) := by
  refine (keeps_accept? _).bind_option
    (fun keyword m hm hkeyword => keeps_classDeclaration hagain hm hkeyword) ?_
  refine keeps_atFunction_bind (fun t => keepsBefore_advance fun m hm ht => ?_) ?_
  · exact (keeps_function hagain hm ht).map fun _ _ hdecl => ⟨hdecl.span, hdecl.blocks⟩
  · apply (keeps_accept? _).bind_option _ (keeps_statement hagain lo)
    intro keyword m hm hkeyword
    refine (keeps_varDecl hm hkeyword).bind fun decl m₁ hm₁ hdecl => ?_
    refine (keeps_acceptMark? _).bind fun _ m₂ hm₂ _ => keeps_pure fun hi hhi _ => ?_
    exact ⟨hdecl.span.mono (Nat.le_refl _) (by omega), allArranged_nil⟩

end StmtRules

/-- A statement lies between the tokens before it and the last one it has read, and all blocks in it
are arranged. -/
theorem keeps_stmtAt (fuel : Nat) (rule : StmtRule) (lo : Nat) :
    Keeps x lo (Stmt.StandsIn x lo) (stmtAt fuel rule) := by
  induction fuel generalizing rule lo with
  | zero => exact keeps_fail _
  | succ fuel ih =>
    cases rule with
    | statement => exact keeps_statement ih lo
    | declaration => exact keeps_declarationOrStatement ih lo

/-! ### Whole files -/

/-- The declarations that are read from an orderly state come one after the other. -/
theorem linedUp_declarations (count : Nat) {s : ReaderState} (hs : s.Orderly x) :
    (declarations count s).2.Orderly x ∧
      s.cursor.reach ≤ (declarations count s).2.cursor.reach ∧
      LinedUp x s.cursor.reach (declarations count s).2.cursor.reach (declarations count s).1 := by
  induction count generalizing s with
  | zero => exact ⟨hs, Nat.le_refl _, linedUp_nil⟩
  | succ count ih =>
    by_cases hend : s.cursor.atEnd = true
    · rw [declarations, if_pos hend]
      exact ⟨hs, Nat.le_refl _, linedUp_nil⟩
    · rw [declarations, if_neg hend]
      have hrun : (declaration s).2.Orderly x ∧ s.cursor.reach ≤ (declaration s).2.cursor.reach ∧
          perhaps (Stmt.StandsIn x s.cursor.reach) (declaration s).2.cursor.reach
            (declaration s).1 :=
        (keeps_stmtAt _ .declaration _).recover hs (Nat.le_refl _)
      rcases hdecl : declaration s with ⟨found, t⟩
      rw [hdecl] at hrun
      obtain ⟨ht, hle, hfound⟩ := hrun
      cases found with
      | none =>
        -- what was passed over lies before all that follows
        obtain ⟨hfinal, hle', hmore⟩ := ih ht
        refine ⟨hfinal, Nat.le_trans hle hle', ?_, hmore.order, hmore.blocks⟩
        exact fun stmt hstmt => (hmore.inside stmt hstmt).mono hle (Nat.le_refl _)
      | some stmt =>
        obtain ⟨hfinal, hle', hmore⟩ := ih (s := t.note (.parsed stmt.name)) (ht.note rfl)
        exact ⟨hfinal, Nat.le_trans hle hle', hmore.cons (hfound stmt rfl) hle hle'⟩

theorem linedUp_parse {s : ReaderState} (hs : s.Orderly x) :
    (parse s).2.Orderly x ∧ LinedUp x s.cursor.reach x.size (parse s).1 := by
  obtain ⟨hfinal, -, hlined⟩ := linedUp_declarations s.cursor.remaining hs
  exact ⟨hfinal.note rfl, hlined.mono hfinal.tokens.reach_le_size⟩

end Reader

/-! ### The tokens of a text -/

/-- A shift is written with two bytes. -/
theorem byteLength_of_shift {c : Char} {cs : List Char} {literal : Option Literal}
    (h : (scan c cs).outcome = .ok (.operator .rsh, literal)) :
    Text.byteLength (scan c cs).taken = 2 := by
  have htable : ∀ entry ∈ Symbol.table, entry.2 = .operator .rsh →
      Text.byteLength entry.1.toList = 2 := by decide
  unfold scan at h ⊢
  rcases extendSymbol_cases [] none (c :: cs) with hnone | ⟨symbol, kind, hfound, -, hkind⟩
  · -- only a symbol is an operator
    rw [longestSymbol, hnone] at h
    dsimp only at h
    split at h
    · unfold scanString at h
      split at h <;> cases h
    · split at h
      · unfold scanWord at h
        simp only at h
        split at h <;> cases h
      · split at h
        · unfold scanNumber at h
          split at h
          · cases h
          · next numeral _ =>
            simp only at h
            cases hvalue : numeral.value <;> rw [hvalue] at h <;> cases h
        · cases h
  · rw [longestSymbol, hfound] at h ⊢
    cases h
    obtain ⟨entry, hentry, hentryKind⟩ := Option.map_eq_some_iff.mp hkind
    have hspelling : (entry.1.toList == symbol) = true :=
      List.find?_some (p := fun entry : String × Kind => entry.1.toList == symbol) hentry
    rw [beq_iff_eq] at hspelling
    rw [← hspelling]
    exact htable entry (List.mem_of_find?_eq_some hentry) hentryKind

namespace Lexer

/-- The end stands wherever the lexer has come to. -/
theorem inOrder_endToken {file : String} {text read : List Char} {l : Lexer} {lo : Nat}
    (h : l.At file text read) (hlo : lo ≤ l.mark.offset) :
    InOrder ⟨file, Text.byteLength text⟩ lo [l.endToken] := by
  refine ⟨h.file_eq, hlo, nofun, ?_⟩
  have hoffset : l.mark.offset = Text.byteLength read := by
    rw [h.mark_eq, Mark.offset_after]
    exact Nat.zero_add _
  have htext := congrArg Text.byteLength h.text_eq
  rw [Text.byteLength_append] at htext
  show l.mark.offset + Text.byteLength [] ≤ Text.byteLength text
  rw [Text.byteLength_nil]
  omega

/-- The tokens that are left stand one after the other up to the place where the lexer stops, be it
at an error. -/
theorem inOrder_collect {file : String} {text before : List Char} {l : Lexer}
    (h : l.At file text before) (hfailed : l.failed = false) :
    InOrder ⟨file, Text.byteLength text⟩ l.mark.offset
      (l.collect.1 ++ [l.collect.2.2.endToken]) := by
  -- the induction is on the text that is left, which every token makes shorter
  induction hlength : l.rest.length using Nat.strong_induction_on generalizing l before with
  | _ n ih =>
    subst hlength
    have hskip := h.skipBlanks
    have hblanks : l.mark.offset ≤ l.skipBlanks.mark.offset := by
      rw [skipBlanks, past, Mark.offset_after]
      exact Nat.le_add_right _ _
    cases hrest : l.skipBlanks.rest with
    | nil =>
      have hnext := next_of_blank hfailed hrest
      rw [collect_of_none (by rw [hnext]), hnext]
      exact inOrder_endToken hskip hblanks
    | cons c cs =>
      have hnext := next_of_cons hfailed hrest
      have htaken : (scan c cs).taken <+: l.skipBlanks.rest := hrest ▸ scan_taken_ahead c cs
      have hpast := hskip.past htaken
      have hoffset : (l.skipBlanks.past (scan c cs).taken).mark.offset =
          l.skipBlanks.mark.offset + Text.byteLength (scan c cs).taken := by
        rw [past, Mark.offset_after]
      cases houtcome : (scan c cs).outcome with
      | error cause =>
        obtain ⟨hitem, hafter⟩ := deliver_of_error (l := l.skipBlanks) houtcome
        rw [← hnext] at hitem hafter
        rw [collect_of_error hitem, hafter]
        refine inOrder_endToken ⟨hpast.file_eq, hpast.text_eq, hpast.mark_eq⟩ ?_
        show l.mark.offset ≤ (l.skipBlanks.past (scan c cs).taken).mark.offset
        omega
      | ok found =>
        obtain ⟨hitem, hafter⟩ := deliver_of_ok (l := l.skipBlanks) houtcome
        rw [← hnext] at hitem hafter
        have hshorter := length_rest_next_lt hitem
        rw [hafter] at hshorter
        have hmore := ih _ hshorter hpast hfailed rfl
        rw [hoffset] at hmore
        rw [collect_of_token hitem, hafter]
        refine ⟨hskip.file_eq, hblanks, fun hkind => ?_, hmore⟩
        have hshift : (scan c cs).outcome = .ok (.operator .rsh, found.2) := by
          rw [houtcome]
          exact congrArg _ (Prod.ext hkind rfl)
        have hbytes := byteLength_of_shift hshift
        show l.skipBlanks.mark.offset + 2 ≤
          l.skipBlanks.mark.offset + Text.byteLength (scan c cs).taken
        omega

end Lexer

namespace Frontend

/-- A reader before the tokens of a text is in an orderly state. -/
theorem orderly_lex (file text : String) :
    (ReaderState.ofStream (lex file text).1).Orderly ⟨file, Text.byteLength text.toList⟩ := by
  have hscanned := (Lexer.tiled_collect (Lexer.at_ofText file text) rfl).scanned
  have hbody : ∀ t ∈ (Lexer.ofText file text).collect.1, t.isEnd = false := by
    intro t ht
    rw [Token.isEnd, beq_eq_false_iff_ne]
    exact (hscanned t ht).kind_ne
  have hends : ∀ t ∈ [(Lexer.ofText file text).collect.2.2.endToken], t.isEnd = true := by
    simp [Lexer.endToken]
  have hcursor : (ReaderState.ofStream (lex file text).1).cursor =
      { behind := [], ahead := (Lexer.ofText file text).collect.1
        stop := (Lexer.ofText file text).collect.2.2.endToken, beyond := [], splits := [] } :=
    Cursor.ofTokens_append_ends hbody hends
  have hempty : (ReaderState.ofStream (lex file text).1).log = [] := rfl
  refine ⟨Reader.placed_ofStream _, ?_, ?_⟩
  · rw [hcursor]
    exact Lexer.inOrder_collect (Lexer.at_ofText file text) rfl
  · rw [hempty]
    exact fun _ he => absurd he List.not_mem_nil

/-- **Statements are in source order and disjoint.**

For every text, whatever errors it has, the statements that are read from it lie inside of the text,
and each of them ends before the next one starts.  The same holds of the statements of every block
that is written with braces, at any depth. -/
theorem arranged_parse (file text : String) :
    let x : Extent := ⟨file, Text.byteLength text.toList⟩
    Arranged x (parse file text).1.statements ∧
      ∀ stmt ∈ (parse file text).1.statements, ∀ b ∈ stmt.blocks, Arranged x b.statements := by
  intro x
  have hlined : LinedUp x _ x.size (parse file text).1.statements :=
    (Reader.linedUp_parse (orderly_lex file text)).2
  refine ⟨hlined.arranged (Nat.le_refl _), fun stmt hstmt b hb => hlined.blocks b ?_⟩
  exact mem_stmtsBlocks hstmt hb

end Frontend
end CurlyScript
