import CurlyScript.Token.Basic

/-!
# Type references

A type is referred to by its name, followed by an optional list in angle brackets and an
optional bound: `int`, `List<T>`, `T: Comparable`.  The entries of a list are references of
the same shape, whether the list declares parameters, annotates a type or passes arguments.

## Main definitions

* `TypeRef`, `TypeList` — a reference, and a list of them in angle brackets.
* `Param` — a named, typed parameter.
* `TypeRef.span`, `TypeList.span` — from the first token to the last one that is kept.
* `TypeRef.text`, `TypeList.text` — a reference as it would be written.
* `TypeRef.same`, `TypeList.same` — sameness up to the place.

## References

`SPEC_FULL.md`, section 3, under `Expr`, and section E7 for nested lists.
-/

namespace CurlyScript

mutual

/-- A reference to a type. -/
structure TypeRef where
  /-- The name of the type. -/
  name : Token
  /-- The list in angle brackets. -/
  generics : Option TypeList
  /-- What follows the colon. -/
  bound : Option TypeRef

/-- A list of references in angle brackets. -/
structure TypeList where
  /-- The opening bracket. -/
  angle : Token
  /-- What stands between the brackets. -/
  entries : List TypeRef

end

/-- A named, typed parameter of a function. -/
structure Param where
  /-- The name of the parameter. -/
  name : Token
  /-- Its type. -/
  type : TypeRef

/-! ### Spans -/

mutual

/-- From the name to the end of the bound, or else of the list, or else of the name. -/
def TypeRef.span : TypeRef → Span
  | ⟨name, _, some bound⟩ => name.span.cover bound.span
  | ⟨name, some generics, none⟩ => name.span.cover generics.span
  | ⟨name, none, none⟩ => name.span

/-- From the opening bracket to the end of the last entry. -/
def TypeList.span : TypeList → Span
  | ⟨angle, entries⟩ =>
    match lastTypeSpan? entries with
    | some last => angle.span.cover last
    | none => angle.span

/-- The span of the last of some references. -/
def lastTypeSpan? : List TypeRef → Option Span
  | [] => none
  | [entry] => some entry.span
  | _ :: entries => lastTypeSpan? entries

end

/-- From the name to the end of the type. -/
def Param.span (p : Param) : Span := p.name.span.cover p.type.span

/-! ### Texts -/

mutual

/-- A reference as it would be written. -/
def TypeRef.text : TypeRef → String
  | ⟨name, none, none⟩ => name.lexeme
  | ⟨name, none, some bound⟩ => name.lexeme ++ ": " ++ bound.text
  | ⟨name, some generics, none⟩ => name.lexeme ++ generics.text
  | ⟨name, some generics, some bound⟩ => name.lexeme ++ generics.text ++ ": " ++ bound.text

/-- A list as it would be written. -/
def TypeList.text : TypeList → String
  | ⟨_, entries⟩ => "<" ++ typesText entries ++ ">"

/-- References with commas between them. -/
def typesText : List TypeRef → String
  | [] => ""
  | [entry] => entry.text
  | entry :: entries => entry.text ++ ", " ++ typesText entries

end

/-- The names that a list declares, in order. -/
def TypeList.names (l : TypeList) : List String := l.entries.map fun entry => entry.name.lexeme

/-! ### Sameness -/

mutual

/-- Sameness of references up to the place. -/
def TypeRef.same : TypeRef → TypeRef → Bool
  | ⟨nameA, genericsA, boundA⟩, ⟨nameB, genericsB, boundB⟩ =>
    nameA.same nameB && sameGenerics genericsA genericsB && sameBound boundA boundB

/-- Sameness of lists up to the place. -/
def TypeList.same : TypeList → TypeList → Bool
  | ⟨angleA, entriesA⟩, ⟨angleB, entriesB⟩ => angleA.same angleB && sameTypes entriesA entriesB

/-- Sameness of optional lists. -/
def sameGenerics : Option TypeList → Option TypeList → Bool
  | none, none => true
  | some a, some b => a.same b
  | _, _ => false

/-- Sameness of optional references. -/
def sameBound : Option TypeRef → Option TypeRef → Bool
  | none, none => true
  | some a, some b => a.same b
  | _, _ => false

/-- Sameness of references one by one. -/
def sameTypes : List TypeRef → List TypeRef → Bool
  | [], [] => true
  | a :: as, b :: bs => a.same b && sameTypes as bs
  | _, _ => false

end

/-- Sameness of parameters up to the place. -/
def Param.same (a b : Param) : Bool := a.name.same b.name && a.type.same b.type

/-- Sameness of two lists, member by member. -/
def sameList {α : Type} (same : α → α → Bool) : List α → List α → Bool
  | [], [] => true
  | a :: as, b :: bs => same a b && sameList same as bs
  | _, _ => false

@[simp] theorem sameList_nil {α : Type} (same : α → α → Bool) : sameList same [] [] = true := rfl

@[simp] theorem sameList_cons {α : Type} (same : α → α → Bool) (a b : α) (as bs : List α) :
    sameList same (a :: as) (b :: bs) = (same a b && sameList same as bs) := rfl

end CurlyScript
