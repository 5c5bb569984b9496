import CurlyScript.Text.Split

/-!
# Paths

A path is a text with slashes in it.  Two texts that differ only in needless slashes and dots
name the same path, so paths are compared by their components.

## Main definitions

* `Component` — a part of a path.
* `Path.components` — the components that a text stands for.
* `Path.order` — the order of paths, component by component.
* `Path.join` — an entry of a directory.
* `Path.extension?` — what follows the last dot of the last name.

## References

`SPEC_FULL.md`, section E4.
-/

namespace CurlyScript

/-! ### Components -/

/-- A part of a path. -/
inductive Component
  /-- The top of all directories. -/
  | root
  /-- The directory at hand. -/
  | current
  /-- The directory above. -/
  | parent
  /-- An entry of a directory. -/
  | entry (name : String)
  deriving DecidableEq

namespace Component

/-- The place of a kind of component in the order. -/
def rank : Component → Nat
  | .root => 0
  | .current => 1
  | .parent => 2
  | .entry _ => 3

/-- The name of an entry. -/
def name : Component → String
  | .entry name => name
  | _ => ""

/-- The order of components: by kind, and entries by name. -/
def order : Component → Component → Ordering := compareLex (compareOn rank) (compareOn name)

instance : Std.TransCmp order :=
  inferInstanceAs (Std.TransCmp (compareLex (compareOn rank) (compareOn name)))

end Component

/-! ### Paths -/

namespace Path

/-- The pieces of a path between its slashes. -/
def steps (path : String) : List String :=
  (Text.pieces '/' path.toList).map String.ofList

/-- What a step stands for.  Empty steps and dots stand for nothing. -/
def component? (step : String) : Option Component :=
  if step = "" ∨ step = "." then none
  else if step = ".." then some .parent
  else some (.entry step)

/-- The components that a text stands for.  A dot counts where a path begins with it. -/
def components (path : String) : List Component :=
  match steps path with
  | [] => []
  | first :: rest =>
    let inner := rest.filterMap component?
    if first = "" then
      -- Nothing before the first slash: the path begins at the root, unless it is empty.
      if rest = [] then [] else .root :: inner
    else if first = "." then .current :: inner
    else (component? first).toList ++ inner

/-- The order of paths. -/
def order (a b : String) : Ordering :=
  List.compareLex Component.order (components a) (components b)

instance : Std.TransCmp order where
  eq_swap := by
    intro a b
    exact @Std.OrientedCmp.eq_swap _ (List.compareLex Component.order) _ _ _
  isLE_trans := by
    intro a b c
    exact @Std.TransCmp.isLE_trans _ (List.compareLex Component.order) _ _ _ _

/-- The path of an entry of a directory. -/
def join (directory name : String) : String :=
  if directory = "" ∨ directory.toList.getLast? = some '/' then directory ++ name
  else directory ++ "/" ++ name

/-- What follows the last dot of a name.  A dot at the beginning does not count. -/
def extensionOfName? (name : List Char) : Option (List Char) :=
  let ending := name.reverse.takeWhile (· ≠ '.')
  match name.reverse.drop ending.length with
  | [] => none
  | [_] => none
  | _ :: _ :: _ => some ending.reverse

/-- What follows the last dot of the last name in a path. -/
def extension? (path : String) : Option String :=
  match (components path).getLast? with
  | some (.entry name) => (extensionOfName? name.toList).map String.ofList
  | _ => none

end Path
end CurlyScript
