import CurlyScript.Grammar.Reader
import CurlyScript.Tree.Types

/-!
# Rules for types

```text
type       := NAME list? (':' type)?
list       := '<' entry (',' entry)* '>'
entry      := NAME list? (':' type)?
parameters := (NAME ':' type (',' NAME ':' type)*)? ')'
```

A shift `>>` closes two lists.  References and entries differ only in what is said when the
name is missing.

## Main definitions

* `Reader.typeRef` — a reference to a type.
* `Reader.typeParameters?`, `Reader.typeArguments` — a list of parameters, a list of arguments.
* `Reader.parameters` — the parameters of a function, up to the closing parenthesis.

## References

`SPEC_FULL.md`, section 4.3, section E6, item 7, and section E7.
-/

namespace CurlyScript
namespace Reader

/-- Entries in angle brackets. -/
def angleList (fuel : Nat) (entry : Reader TypeRef) : Reader TypeList := do
  let angle ← expect (.operator .less) .openAngle
  let entries ← commaSeparated entry fuel
  match ← closeAngle? with
  | some _ => return { angle, entries }
  | none => fail (.expected .moreTypes)

/-- Entries in angle brackets, if an opening one is next. -/
def angleList? (fuel : Nat) (entry : Reader TypeRef) : Reader (Option TypeList) := do
  if ← check (.operator .less) then some <$> angleList fuel entry else return none

/-- A reference to a type after a mark, if the mark is next. -/
def typeAfter? (mark : Punctuation) (type : Reader TypeRef) : Reader (Option TypeRef) := do
  match ← acceptMark? mark with
  | some _ => some <$> type
  | none => return none

/-- A reference to a type, `what` being the name that is expected.  The references inside it are
read by `again`, after the cursor has moved past a token. -/
def typeBody (fuel : Nat) (again : Expectation → Reader TypeRef) (what : Expectation) :
    Reader TypeRef := do
  let name ← expectName what
  let generics ← angleList? fuel (again .typeParameter)
  let bound ← typeAfter? .colon (again .typeName)
  return { name, generics, bound }

/-- A reference to a type, where at most `fuel` is left to read.  Once that is nothing, the name
is missing. -/
def typeAt : Nat → Expectation → Reader TypeRef
  | 0, what => fail (.expected what)
  | fuel + 1, what => typeBody fuel (typeAt fuel) what

/-- A reference to a type. -/
def typeRef : Reader TypeRef := do typeAt (← remaining) .typeName

/-- A list of type arguments. -/
def typeArguments : Reader TypeList := do
  let fuel ← remaining
  angleList fuel (typeAt fuel .typeName)

/-- A list of type parameters, if an angle bracket is next. -/
def typeParameters? : Reader (Option TypeList) := do
  let fuel ← remaining
  angleList? fuel (typeAt fuel .typeParameter)

/-- A name with its type. -/
def parameter : Reader Param := do
  let name ← expectName .parameterName
  let _ ← expectMark .colon .parameterType
  return { name, type := ← typeRef }

/-- Items with commas between them, or none before a closing mark. -/
def listUpTo {α : Type} (close : Punctuation) (item : Reader α) (fuel : Nat) :
    Reader (List α) := do
  if ← check (.punctuation close) then return [] else commaSeparated item fuel

/-- The parameters of a function, up to the closing parenthesis. -/
def parameters : Reader (List Param) := do
  let params ← listUpTo .rparen parameter (← remaining)
  let _ ← expectMark .rparen .parametersEnd
  return params

/-- The type of the value of a function, if an arrow is next. -/
def returnType? : Reader (Option TypeRef) := typeAfter? .arrow typeRef

end Reader
end CurlyScript
