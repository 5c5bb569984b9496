import CurlyScript.Proofs.Hull
import Mathlib.Data.List.DropRight

/-!
# The nodes of a tree

A tree consists of nodes, and most of them are written down somewhere in the text.  What is made up
is left out of the nodes that are listed here: the operation that a compound assignment stands for,
with its copy of the target, and the step that is added to the body of a counting loop.  A condition
that is not written is listed, since the tree has it where a written one would be.

Two things are said of the span of a node: that it goes from the first to the last of the tokens
that the node is made of, and, of nodes that may end in a list of types, how far it goes.

## Main definitions

* `TreeNode` — a node of a tree.
* `stmtsNodes` — the nodes of statements, at any depth.
* `TreeNode.Exact` — an expression or a statement has the span of its tokens.
* `TreeNode.SpannedBy` — a type, a parameter or a declaration has the span that a rule asks for.
* `TreeNode.Complete`, `TreeNode.UpToClosers` — two such rules: the span has all tokens, or all but
  the closing brackets at their end.
* `AllPlaced` — all of this, of all of some nodes.
-/

namespace CurlyScript

/-! ### Nodes -/

/-- A node of a tree. -/
inductive TreeNode
  /-- An expression. -/
  | expr (e : Expr)
  /-- The condition of a loop. -/
  | condition (e : Expr)
  /-- A statement. -/
  | stmt (s : Stmt)
  /-- A block. -/
  | block (b : Block)
  /-- A function. -/
  | function (decl : FunctionDecl)
  /-- The declaration of a variable. -/
  | var (decl : VarDecl)
  /-- The body of a counting loop to which its step has been added, beside the body as written. -/
  | extended (body made : Stmt)
  /-- A reference to a type. -/
  | type (r : TypeRef)
  /-- A list of types. -/
  | list (l : TypeList)
  /-- A parameter. -/
  | param (p : Param)

mutual

/-- The nodes of a reference. -/
def TypeRef.nodes : TypeRef → List TreeNode
  | ⟨name, generics, bound⟩ =>
    .type ⟨name, generics, bound⟩ :: (genericsNodes generics ++ typeNodes? bound)

/-- The nodes of a list of types. -/
def TypeList.nodes : TypeList → List TreeNode
  | ⟨angle, entries⟩ => .list ⟨angle, entries⟩ :: typesNodes entries

/-- The nodes of an optional list. -/
def genericsNodes : Option TypeList → List TreeNode
  | none => []
  | some l => l.nodes

/-- The nodes of an optional reference. -/
def typeNodes? : Option TypeRef → List TreeNode
  | none => []
  | some type => type.nodes

/-- The nodes of some references. -/
def typesNodes : List TypeRef → List TreeNode
  | [] => []
  | entry :: entries => entry.nodes ++ typesNodes entries

end

/-- The nodes of a parameter. -/
def Param.nodes (p : Param) : List TreeNode := .param p :: p.type.nodes

/-- The nodes of what comes before the body of a function. -/
def signatureNodes (generics : Option TypeList) (params : List Param)
    (returnType : Option TypeRef) : List TreeNode :=
  genericsNodes generics ++ (params.flatMap Param.nodes ++ typeNodes? returnType)

mutual

/-- The nodes below an expression.  Of the operation that a compound assignment stands for, only
the right operand is written. -/
def Expr.innerNodes : Expr → List TreeNode
  | .literal _ _ => []
  | .binary left _ right => .expr left :: left.innerNodes ++ .expr right :: right.innerNodes
  | .unary _ operand => .expr operand :: operand.innerNodes
  | .postUnary operand _ => .expr operand :: operand.innerNodes
  | .grouping _ inner _ => .expr inner :: inner.innerNodes
  | .ident _ => []
  | .assign _ (some _) (.binary _ _ value) => .expr value :: value.innerNodes
  | .assign _ _ value => .expr value :: value.innerNodes
  | .call callee generics args _ =>
    .expr callee :: callee.innerNodes ++ (genericsNodes generics ++ exprsNodes args)
  | .get object _ => .expr object :: object.innerNodes
  | .set object _ (some _) (.binary _ _ value) =>
    .expr object :: object.innerNodes ++ .expr value :: value.innerNodes
  | .set object _ _ value => .expr object :: object.innerNodes ++ .expr value :: value.innerNodes
  | .ternary condition yes _ no =>
    .expr condition :: condition.innerNodes ++
      (.expr yes :: yes.innerNodes ++ .expr no :: no.innerNodes)
  | .this _ => []
  | .array _ elements _ => exprsNodes elements
  | .index base position _ => .expr base :: base.innerNodes ++ .expr position :: position.innerNodes
  | .lambda _ generics params returnType body =>
    signatureNodes generics params returnType ++ .expr body :: body.innerNodes

/-- The nodes of some expressions. -/
def exprsNodes : List Expr → List TreeNode
  | [] => []
  | e :: es => .expr e :: e.innerNodes ++ exprsNodes es

end

/-- The nodes of an expression. -/
def Expr.nodes (e : Expr) : List TreeNode := .expr e :: e.innerNodes

/-- The nodes of an optional expression. -/
def exprNodes? : Option Expr → List TreeNode
  | none => []
  | some e => e.nodes

/-- The nodes of the declaration of a variable. -/
def VarDecl.nodes (d : VarDecl) : List TreeNode :=
  .var d :: (typeNodes? d.type ++ exprNodes? d.value)

/-- The nodes of what a loop does first. -/
def initNodes : Option LoopInit → List TreeNode
  | none => []
  | some (.var decl) => .stmt (.var decl) :: decl.nodes
  | some (.expression e) => .stmt (.expression e) :: e.nodes

/-- The nodes of the header of a loop. -/
def headerNodes : LoopHeader → List TreeNode
  | .counting init condition step =>
    initNodes init ++ (.condition condition :: condition.innerNodes ++ exprNodes? step)
  | .each binding _ iterable => binding.nodes ++ iterable.nodes

mutual

/-- The nodes below a statement.  The step that is added to the body of a counting loop is written
in its header only. -/
def Stmt.innerNodes : Stmt → List TreeNode
  | .block body => body.nodes
  | .expression e => e.nodes
  | .ifElse _ condition yes no => condition.nodes ++ (.stmt yes :: yes.innerNodes ++ elseNodes no)
  | .ret _ value => exprNodes? value
  | .var decl => decl.nodes
  | .whileLoop _ condition body _ =>
    .condition condition :: condition.innerNodes ++ .stmt body :: body.innerNodes
  | .forLoop _ init condition (some step) (.block ⟨lbrace, [body, added], rbrace⟩) =>
    headerNodes (.counting init condition (some step)) ++
      .extended body (.block ⟨lbrace, [body, added], rbrace⟩) :: .stmt body :: body.innerNodes
  | .forLoop _ init condition step body =>
    headerNodes (.counting init condition step) ++ .stmt body :: body.innerNodes
  | .forEach _ binding colon iterable body =>
    headerNodes (.each binding colon iterable) ++ .stmt body :: body.innerNodes
  | .breakOut _ => []
  | .continueOn _ => []
  | .function decl => decl.nodes
  | .classDecl _ _ generics superclass fields methods _ =>
    genericsNodes generics ++ (exprNodes? superclass ++
      (fields.flatMap VarDecl.nodes ++ functionsNodes methods))
  | .switch _ subject cases default _ =>
    subject.nodes ++ (casesNodes cases ++ defaultNodes default)

/-- The nodes of a block. -/
def Block.nodes : Block → List TreeNode
  | ⟨lbrace, statements, rbrace⟩ => .block ⟨lbrace, statements, rbrace⟩ :: stmtsNodes statements

/-- The nodes of a function. -/
def FunctionDecl.nodes : FunctionDecl → List TreeNode
  | ⟨keyword, name, generics, params, returnType, body⟩ =>
    .function ⟨keyword, name, generics, params, returnType, body⟩ ::
      (signatureNodes generics params returnType ++ body.nodes)

/-- The nodes of a case. -/
def SwitchCase.nodes : SwitchCase → List TreeNode
  | ⟨value, _, body⟩ => value.nodes ++ body.nodes

/-- The nodes of an optional statement. -/
def elseNodes : Option Stmt → List TreeNode
  | none => []
  | some s => .stmt s :: s.innerNodes

/-- The nodes of an optional block. -/
def defaultNodes : Option Block → List TreeNode
  | none => []
  | some body => body.nodes

/-- The nodes of some statements. -/
def stmtsNodes : List Stmt → List TreeNode
  | [] => []
  | s :: statements => .stmt s :: s.innerNodes ++ stmtsNodes statements

/-- The nodes of some functions. -/
def functionsNodes : List FunctionDecl → List TreeNode
  | [] => []
  | decl :: methods => decl.nodes ++ functionsNodes methods

/-- The nodes of some cases. -/
def casesNodes : List SwitchCase → List TreeNode
  | [] => []
  | first :: cases => first.nodes ++ casesNodes cases

end

/-! ### Exact spans -/

/-- Whether the last token of a declaration belongs to a type. -/
def VarDecl.endsInType (d : VarDecl) : Bool := d.value.isNone && d.type.isSome

/-- Whether the last token of a statement belongs to a type.  Only a declaration can end so, and
none is the body of another statement. -/
def Stmt.endsInType : Stmt → Bool
  | .var decl => decl.endsInType
  | _ => false

/-- The tokens of a part begin some tokens of a file and end before others, and the span is theirs,
up to a semicolon that may be their last one. -/
def Part.StandsAt (file : List Token) (part : Part) (s : Span) (a c : List Token) : Prop :=
  ∃ ps qs b, Written part (ps ++ qs) ∧ Semicolon? qs ∧ Stands file ps s a b ∧ Spells qs b c

/-- An expression or a statement has the span of its tokens, among all those of a file.  A condition
that is not written is the truth value `true` at the token where no expression begins, and a body
with a step has the span that it has without it. -/
def TreeNode.Exact (file : List Token) : TreeNode → Prop
  | .expr e => ∃ a b, Stands file e.pieces e.span a b
  | .condition e => (∃ a b, Stands file e.pieces e.span a b) ∨
      ∃ found ∈ file, Reader.startsExpression found = false ∧ e = Reader.absentCondition found
  | .stmt s => s.endsInType = false → ∃ a b, (Part.stmt s).StandsAt file s.span a b
  | .block body => ∃ a b, (Part.block body).StandsAt file body.span a b
  | .function decl => ∃ a b, (Part.function decl).StandsAt file decl.span a b
  | .var decl => decl.endsInType = false → ∃ a b, Stands file decl.pieces decl.span a b
  | .extended body made => made.span = body.span
  | _ => True

/-! ### The spans of types -/

/-- Some tokens without the brackets at their end that close lists of types. -/
def withoutClosers (tokens : List Token) : List Token :=
  tokens.rdropWhile fun t => t.kind == .operator .greater

/-- The span of a type, a list of types, a parameter or a declaration without a value is what a rule
asks for, given the tokens that the grammar derives for it.  They are some of the tokens of a file
in which every shift counts for two brackets. -/
def TreeNode.SpannedBy (rule : List Token → Span → Prop) (halves : List Token) : TreeNode → Prop
  | .type r => ∃ p, p <:+: halves ∧ DerivesType .ref p r ∧ rule p r.span
  | .list l => ∃ p, p <:+: halves ∧ DerivesType .list p l ∧ rule p l.span
  | .param q => ∃ colon p, q.name :: colon :: p <:+: halves ∧ colon.kind = .punctuation .colon ∧
      DerivesType .ref p q.type ∧ rule (q.name :: colon :: p) q.span
  | .var decl => decl.value = none → ∃ head p, head ++ p <:+: halves ∧
      Spells decl.headPieces head [] ∧ DerivesType (.after? .colon) p decl.type ∧
      rule (head ++ p) decl.span
  | _ => True

/-- The span has all tokens of the node. -/
def TreeNode.Complete : List Token → TreeNode → Prop := SpannedBy Hull

/-- The span has all tokens of the node but the closing brackets at their end. -/
def TreeNode.UpToClosers : List Token → TreeNode → Prop :=
  SpannedBy fun p s => Hull (withoutClosers p) s

/-! ### All nodes -/

/-- A node has the span that it should have among the tokens of a file. -/
structure TreeNode.Placed (file : List Token) (node : TreeNode) : Prop where
  /-- It has the span of its tokens. -/
  spans : node.Exact file
  /-- The span of what may end in a list of types goes up to the brackets that close it. -/
  types : node.UpToClosers (halved file)

/-- All of some nodes have the spans that they should have. -/
def AllPlaced (file : List Token) (nodes : List TreeNode) : Prop := ∀ node ∈ nodes, node.Placed file

namespace AllPlaced

variable {file : List Token} {node : TreeNode} {a b : List TreeNode}

theorem nil : AllPlaced file [] := fun _ h => absurd h List.not_mem_nil

theorem cons (hnode : node.Placed file) (h : AllPlaced file a) : AllPlaced file (node :: a) :=
  List.forall_mem_cons.mpr ⟨hnode, h⟩

theorem append (ha : AllPlaced file a) (hb : AllPlaced file b) : AllPlaced file (a ++ b) :=
  List.forall_mem_append.mpr ⟨ha, hb⟩

end AllPlaced

end CurlyScript
