import CurlyScript.Files.Discovery

/-!
# Trees of files

The top directory of a machine with all that is below it, links included.  A path is followed step
by step, from the top if it begins with a slash and from the directory at hand if not; a link on the
way is replaced by its target, and above the top is the top again.  There is a bound on the number
of links that one path may use, so a link that leads back to itself leads nowhere.  An empty path
leads nowhere either.

## Main definitions

* `Node` — a file, a directory or a link.
* `Node.put` — a tree with one more node in it.
* `Node.follow` — the place that a path leads to.
* `Node.look` — what a path leads to, with all that is below it.
* `Node.contents` — the bytes of the file that a path leads to.
-/

namespace CurlyScript

/-- Why a file cannot be read. -/
inductive ReadError
  /-- There is nothing. -/
  | notFound
  /-- A path goes on behind a file. -/
  | notDirectory
  /-- There is a directory. -/
  | isDirectory
  /-- A path uses more links than are followed. -/
  | tooManyLinks
  /-- Anything else. -/
  | other (message : String)
  deriving DecidableEq

/-- What is said about a file that cannot be read. -/
def ReadError.message : ReadError → String
  | .notFound => "No such file or directory (os error 2)"
  | .notDirectory => "Not a directory (os error 20)"
  | .isDirectory => "Is a directory (os error 21)"
  | .tooManyLinks => "Too many levels of symbolic links (os error 40)"
  | .other message => message

/-- An entry of a directory. -/
inductive Node
  /-- A file with its bytes. -/
  | file (contents : ByteArray)
  /-- A directory with its entries, whose names are different. -/
  | directory (entries : List (String × Node))
  /-- A link to another path. -/
  | link (target : String)

namespace Node

/-! ### Building a tree -/

/-- The entries of a directory. -/
def entries : Node → List (String × Node)
  | .directory entries => entries
  | _ => []

/-- Changes the node at the end of some steps, and makes the directories on the way. -/
def change (f : Option Node → Node) : List String → Option Node → Node
  | [], old => f old
  | step :: steps, old =>
    let entries := (old.map entries).getD []
    .directory ((step, change f steps (entries.lookup step)) ::
      entries.filter (·.1 != step))

/-- The names on a path, without the steps that lead nowhere else. -/
def names (path : String) : List String :=
  (Path.steps path).filter fun step => step != "" && step != "."

/-- Puts a node into a tree. -/
def put (root : Node) (path : String) (node : Node) : Node :=
  change (fun _ => node) (names path) (some root)

/-- Makes a directory in a tree.  One that is there already stays as it is. -/
def putDirectory (root : Node) (path : String) : Node :=
  change (fun old => .directory ((old.map entries).getD [])) (names path) (some root)

/-! ### Following paths -/

/-- The node at the end of some names, no link among them. -/
def at? : Node → List String → Option Node
  | node, [] => some node
  | node, name :: names => (node.entries.lookup name).bind (at? · names)

/-- How many links one path may use. -/
def mostLinks : Nat := 40

/-- A file or a directory in a tree. -/
structure Place where
  /-- How many more links may be used. -/
  links : Nat
  /-- The names that lead there from the root of the tree. -/
  names : List String
  /-- What is there. -/
  node : Node

/-- The directory from which a path is followed, given the directory at hand.  There is none for the
empty path. -/
def start? (here : List String) (path : String) : Option (List String) :=
  if path = "" then none
  else if path.toList.head? = some '/' then some []
  else some here

/-- The place that some steps lead to from a place. -/
def follow (root : Node) (links : Nat) (names steps : List String) : Except ReadError Place :=
  match root.at? names, steps with
  | none, _ => .error .notFound
  | some node, [] => .ok { links, names, node }
  | some (.directory entries), step :: steps =>
    if step = "" ∨ step = "." then follow root links names steps
    else if step = ".." then follow root links names.dropLast steps
    else
      match entries.lookup step with
      | none => .error .notFound
      | some (.link target) =>
        match links with
        | 0 => .error .tooManyLinks
        | links + 1 =>
          match start? names target with
          | none => .error .notFound
          | some names => follow root links names (Path.steps target ++ steps)
      | some _ => follow root links (names ++ [step]) steps
  | some _, _ :: _ => .error .notDirectory
termination_by (links, steps.length)

/-- Following a path uses links up and adds none. -/
theorem links_le_of_follow {root : Node} {links : Nat} {names steps : List String} {place : Place}
    (h : follow root links names steps = .ok place) : place.links ≤ links := by
  fun_induction follow root links names steps <;> grind

/-- The place that a path leads to, given the directory at hand. -/
def place (root : Node) (here : List String) (path : String) : Except ReadError Place :=
  match start? here path with
  | none => .error .notFound
  | some names => follow root mostLinks names (Path.steps path)

/-- The bytes of the file that a path leads to. -/
def contents (root : Node) (here : List String) (path : String) : Except ReadError ByteArray := do
  match (← root.place here path).node with
  | .file bytes => .ok bytes
  | _ => .error .isDirectory

/-! ### Looking around -/

mutual

/-- What a node is, with all that is below it.  What a link leads to is told by `behind`, from
the names of its directory and its target. -/
def view (behind : List String → String → Found) (names : List String) : Node → Found
  | .file _ => .file
  | .directory entries => .directory (viewEntries behind names entries)
  | .link target => behind names.dropLast target

/-- What the entries of a directory are, with all that is below them. -/
def viewEntries (behind : List String → String → Found) (names : List String) :
    List (String × Node) → List (String × Found)
  | [] => []
  | (name, node) :: rest =>
    (name, view behind (names ++ [name]) node) :: viewEntries behind names rest

end

/-- What is at a place, with all that is below it.  Each link on the way down is used up. -/
def lookFrom (root : Node) (links : Nat) (names : List String) (node : Node) : Found :=
  view (fun directory target =>
    match links, start? directory target with
    | 0, _ => .neither
    | _, none => .neither
    | left + 1, some start =>
      match _h : follow root left start (Path.steps target) with
      | .error _ => .neither
      | .ok place => lookFrom root place.links place.names place.node) names node
termination_by links
decreasing_by exact Nat.lt_succ_of_le (links_le_of_follow _h)

/-- What a path leads to, with all that is below it. -/
def look (root : Node) (here : List String) (path : String) : Found :=
  match root.place here path with
  | .error _ => .neither
  | .ok place => lookFrom root place.links place.names place.node

end Node
end CurlyScript
