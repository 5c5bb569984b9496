import CurlyScript.Files.Tree
import Mathlib.Data.List.Nodup
import Mathlib.Data.List.Perm.Basic

/-!
# Trees of files without links

In a tree without links a path leads to one place, and all that is below this place is told by the
names that lead there.  The order in which the entries of a directory are listed makes no
difference to where a path leads, nor to what is below it, because no two entries have one name.

## Main definitions

* `Found.sourcesIn` — the sources below a directory.
* `Node.Plain` — a tree without links whose directories have no two entries of one name.
* `Node.Kind` — what a node is, without what is below it.
* `Node.Relisted` — a tree whose directories are listed in another order.
* `Node.Stands` — the sources that a listed path stands for.

## Main results

* `Node.mem_sourcesAt_view` — the sources below a place are the files below it with the extension.
* `Node.Relisted.kind_at?` — another order leaves every node in its place.
* `Node.follow_congr` — a path leads to the same place in another order.
* `Node.mem_sources_look`, `Node.look_eq_neither_iff` — what a listed path is found to stand for.
* `Node.Relisted.stands_iff` — this is the same in another order.
-/

namespace CurlyScript

/-! ### What is below a directory -/

namespace Found

mutual

/-- The sources at or below an entry of a directory.  One that is no directory has to have the
extension. -/
def sourcesAt (extension path : String) : Found → List String
  | .directory entries => sourcesIn extension path entries
  | .file => if Path.extension? path = some extension then [path] else []
  | .neither => if Path.extension? path = some extension then [path] else []
termination_by structural found => found

/-- The sources below a directory, given its entries. -/
def sourcesIn (extension directory : String) : List (String × Found) → List String
  | [] => []
  | (name, found) :: rest =>
    sourcesAt extension (Path.join directory name) found ++ sourcesIn extension directory rest
termination_by structural entries => entries

end

end Found

namespace Node

/-! ### Plain trees -/

mutual

/-- A tree without links whose directories have no two entries of one name. -/
def Plain : Node → Prop
  | .file _ => True
  | .directory entries => (entries.map Prod.fst).Nodup ∧ PlainEntries entries
  | .link _ => False

/-- Entries of a directory that are such trees. -/
def PlainEntries : List (String × Node) → Prop
  | [] => True
  | (_, node) :: rest => node.Plain ∧ PlainEntries rest

end

theorem plainEntries_iff (entries : List (String × Node)) :
    PlainEntries entries ↔ ∀ entry ∈ entries, entry.2.Plain := by
  induction entries with
  | nil => simp [PlainEntries]
  | cons entry rest ih => rw [PlainEntries, ih, List.forall_mem_cons]

/-- Where no two entries have one name, an entry is found by its name. -/
theorem lookup_eq_some_iff {entries : List (String × Node)}
    (h : (entries.map Prod.fst).Nodup) (name : String) (node : Node) :
    entries.lookup name = some node ↔ (name, node) ∈ entries := by
  induction entries with
  | nil => simp
  | cons entry rest ih =>
    obtain ⟨first, other⟩ := entry
    obtain ⟨hfirst, hrest⟩ := List.nodup_cons.mp h
    rw [List.lookup_cons, List.mem_cons, Prod.mk.injEq]
    by_cases hname : name = first
    · subst hname
      have hnot : (name, node) ∉ rest := fun hmem => hfirst (List.mem_map.mpr ⟨_, hmem, rfl⟩)
      simp [hnot, eq_comm]
    · rw [beq_false_of_ne hname, ih hrest]
      simp [hname]

/-! ### Names -/

theorem at?_cons (node : Node) (name : String) (names : List String) :
    node.at? (name :: names) = (node.entries.lookup name).bind (at? · names) := rfl

theorem at?_append (node : Node) (names more : List String) :
    node.at? (names ++ more) = (node.at? names).bind (at? · more) := by
  induction names generalizing node with
  | nil => rfl
  | cons name names ih =>
    rw [List.cons_append, at?_cons, at?_cons, Option.bind_assoc]
    exact Option.bind_congr fun next _ => ih next

/-- Below a file there is nothing. -/
theorem at?_file_cons (contents : ByteArray) (name : String) (names : List String) :
    (file contents).at? (name :: names) = none := rfl

/-- What is in a plain tree is plain. -/
theorem Plain.of_at? {node below : Node} {names : List String} (h : node.Plain)
    (hbelow : node.at? names = some below) : below.Plain := by
  induction names generalizing node with
  | nil =>
    cases hbelow
    exact h
  | cons name names ih =>
    obtain ⟨next, hnext, hrest⟩ := Option.bind_eq_some_iff.mp hbelow
    cases node with
    | file => cases hnext
    | link => cases hnext
    | directory entries =>
      rw [Plain, plainEntries_iff] at h
      have hmem : (name, next) ∈ entries := (lookup_eq_some_iff h.1 name next).mp hnext
      exact ih (h.2 _ hmem) hrest

/-! ### What is below a node -/

/-- There is a file at or below a node, and this is its path, when the path of the node is given. -/
def FileAt (node : Node) (path found : String) : Prop :=
  ∃ names contents, node.at? names = some (file contents) ∧ found = names.foldl Path.join path

theorem fileAt_file (contents : ByteArray) (path found : String) :
    (file contents).FileAt path found ↔ found = path := by
  constructor
  · rintro ⟨names, bytes, hnames, rfl⟩
    cases names with
    | nil => rfl
    | cons name names =>
      rw [at?_file_cons] at hnames
      cases hnames
  · intro h
    exact ⟨[], contents, rfl, h⟩

theorem fileAt_directory {entries : List (String × Node)} (h : (entries.map Prod.fst).Nodup)
    (path found : String) :
    (directory entries).FileAt path found ↔
      ∃ entry ∈ entries, entry.2.FileAt (Path.join path entry.1) found := by
  constructor
  · rintro ⟨names, contents, hnames, rfl⟩
    cases names with
    | nil => cases hnames
    | cons name names =>
      obtain ⟨next, hnext, hbelow⟩ := Option.bind_eq_some_iff.mp hnames
      have hmem : (name, next) ∈ entries := (lookup_eq_some_iff h name next).mp hnext
      exact ⟨_, hmem, names, contents, hbelow, rfl⟩
  · rintro ⟨⟨name, next⟩, hmem, names, contents, hbelow, rfl⟩
    have hnext : entries.lookup name = some next := (lookup_eq_some_iff h name next).mpr hmem
    refine ⟨name :: names, contents, ?_, rfl⟩
    show (entries.lookup name).bind (at? · names) = _
    rw [hnext, Option.bind_some]
    exact hbelow

mutual

/-- The sources at or below a plain node are the files there that have the extension. -/
theorem mem_sourcesAt_view (behind : List String → String → Found) (extension : String) :
    ∀ (node : Node) (names : List String) (path found : String), node.Plain →
      (found ∈ Found.sourcesAt extension path (view behind names node) ↔
        node.FileAt path found ∧ Path.extension? found = some extension)
  | .file contents, names, path, found, _ => by
    rw [fileAt_file, view, Found.sourcesAt]
    split
    · next hextension => simp +contextual [hextension]
    · next hextension => simp +contextual [hextension]
  | .directory entries, names, path, found, h => by
    rw [Plain] at h
    rw [fileAt_directory h.1, view, Found.sourcesAt]
    exact mem_sourcesIn_viewEntries behind extension entries names path found h.2
  | .link _, _, _, _, h => by
    rw [Plain] at h
    exact h.elim

theorem mem_sourcesIn_viewEntries (behind : List String → String → Found) (extension : String) :
    ∀ (entries : List (String × Node)) (names : List String) (path found : String),
      PlainEntries entries →
      (found ∈ Found.sourcesIn extension path (viewEntries behind names entries) ↔
        (∃ entry ∈ entries, entry.2.FileAt (Path.join path entry.1) found) ∧
          Path.extension? found = some extension)
  | [], _, _, _, _ => by simp [viewEntries, Found.sourcesIn]
  | (name, node) :: rest, names, path, found, h => by
    rw [PlainEntries] at h
    rw [viewEntries, Found.sourcesIn, List.mem_append,
      mem_sourcesAt_view behind extension node _ _ _ h.1,
      mem_sourcesIn_viewEntries behind extension rest _ _ _ h.2, ← or_and_right,
      List.exists_mem_cons_iff]

end

/-! ### Other orders -/

/-- What a node is, without what is below it. -/
inductive Kind
  /-- A file with its bytes. -/
  | file (contents : ByteArray)
  /-- A directory. -/
  | directory
  /-- A link to another path. -/
  | link (target : String)

/-- What a node is. -/
def kind : Node → Kind
  | .file contents => .file contents
  | .directory _ => .directory
  | .link target => .link target

/-- A tree whose directories, at any depth, are listed in another order. -/
inductive Relisted : Node → Node → Prop
  /-- All orders stay as they are. -/
  | refl (node : Node) : Relisted node node
  /-- The orders are changed one after the other. -/
  | trans {a b c : Node} : Relisted a b → Relisted b c → Relisted a c
  /-- The entries of a directory are listed in another order. -/
  | reorder {entries entries' : List (String × Node)} : entries.Perm entries' →
    Relisted (.directory entries) (.directory entries')
  /-- The order is changed at or below an entry. -/
  | entry {before after : List (String × Node)} {name : String} {a b : Node} : Relisted a b →
    Relisted (.directory (before ++ (name, a) :: after)) (.directory (before ++ (name, b) :: after))

theorem Relisted.plain {a b : Node} (h : Relisted a b) (ha : a.Plain) : b.Plain := by
  induction h with
  | refl => exact ha
  | trans _ _ ih ih' => exact ih' (ih ha)
  | reorder hperm =>
    rw [Plain, plainEntries_iff] at ha ⊢
    exact ⟨(hperm.map Prod.fst).nodup_iff.mp ha.1, fun e he => ha.2 e (hperm.mem_iff.mpr he)⟩
  | @entry before after name a b _ ih =>
    rw [Plain, plainEntries_iff] at ha ⊢
    have hentry := ha.2 (name, a) (by simp)
    refine ⟨by simpa using ha.1, fun e he => ?_⟩
    rcases List.mem_append.mp he with he | he
    · exact ha.2 e (List.mem_append_left _ he)
    · rcases List.mem_cons.mp he with rfl | he
      · exact ih hentry
      · exact ha.2 e (List.mem_append_right _ (List.mem_cons_of_mem _ he))

/-- Another order leaves every node in its place. -/
theorem Relisted.kind_at? {a b : Node} (h : Relisted a b) (ha : a.Plain) (names : List String) :
    (a.at? names).map kind = (b.at? names).map kind := by
  induction h generalizing names with
  | refl => rfl
  | trans hab _ ih ih' => exact (ih ha names).trans (ih' (hab.plain ha) names)
  | @reorder entries entries' hperm =>
    cases names with
    | nil => rfl
    | cons name names =>
      rw [Plain] at ha
      have hlookup : entries.lookup name = entries'.lookup name := by
        refine Option.ext fun node => ?_
        rw [lookup_eq_some_iff ha.1, lookup_eq_some_iff ((hperm.map Prod.fst).nodup_iff.mp ha.1),
          hperm.mem_iff]
      show ((entries.lookup name).bind _).map kind = ((entries'.lookup name).bind _).map kind
      rw [hlookup]
  | @entry before after name a b _ ih =>
    cases names with
    | nil => rfl
    | cons first names =>
      rw [Plain, plainEntries_iff] at ha
      have hentry := ih (ha.2 (name, a) (by simp)) names
      show (((before ++ (name, a) :: after).lookup first).bind _).map kind =
        (((before ++ (name, b) :: after).lookup first).bind _).map kind
      rw [List.lookup_append, List.lookup_append]
      cases before.lookup first with
      | some node => rfl
      | none =>
        rw [Option.none_or, Option.none_or, List.lookup_cons, List.lookup_cons]
        by_cases hfirst : first = name
        · rw [beq_iff_eq.mpr hfirst]
          exact hentry
        · rw [beq_false_of_ne hfirst]

/-- What is a link by its kind is the same link. -/
theorem lookup_link_of_kind {entries entries' : List (String × Node)} {step target : String}
    (h : (entries.lookup step).map kind = (entries'.lookup step).map kind)
    (hlink : entries.lookup step = some (.link target)) :
    entries'.lookup step = some (.link target) := by
  rw [hlink] at h
  obtain ⟨node, hnode, hkind⟩ := Option.map_eq_some_iff.mp h.symm
  cases node with
  | link => cases hkind; exact hnode
  | _ => cases hkind

section Follow

variable {root root' : Node} (h : ∀ names, (root.at? names).map kind = (root'.at? names).map kind)

include h

theorem exists_directory_of_kind {names : List String} {entries : List (String × Node)}
    (hat : root.at? names = some (.directory entries)) :
    ∃ entries', root'.at? names = some (.directory entries') ∧
      ∀ step, (entries.lookup step).map kind = (entries'.lookup step).map kind := by
  have hhere := h names
  rw [hat] at hhere
  obtain ⟨node, hnode, hkind⟩ := Option.map_eq_some_iff.mp hhere.symm
  cases node with
  | file => cases hkind
  | link => cases hkind
  | directory entries' =>
    refine ⟨entries', hnode, fun step => ?_⟩
    have hstep := h (names ++ [step])
    rw [at?_append, at?_append, hat, hnode] at hstep
    have hat_step (es : List (String × Node)) : (directory es).at? [step] = es.lookup step :=
      Option.bind_fun_some _
    rwa [Option.bind_some, Option.bind_some, hat_step, hat_step] at hstep

/-- A path leads to the same place in trees with the same nodes in their places. -/
theorem follow_congr (links : Nat) (names steps : List String) :
    (follow root links names steps).map (fun place => (place.links, place.names)) =
      (follow root' links names steps).map fun place => (place.links, place.names) := by
  fun_induction follow root links names steps with
  | case1 links names steps hat =>
    have hnone := h names
    rw [hat, Option.map_none, eq_comm, Option.map_eq_none_iff] at hnone
    rw [follow.eq_def, hnone]
  | case2 links names node hat =>
    have hsome := h names
    rw [hat] at hsome
    obtain ⟨node', hnode, -⟩ := Option.map_eq_some_iff.mp hsome.symm
    rw [follow.eq_def, hnode]
    rfl
  | case3 links names entries step steps hat hstay ih =>
    obtain ⟨entries', hat', -⟩ := exists_directory_of_kind h hat
    rw [ih, follow.eq_def root' links names (step :: steps), hat']
    simp only [if_pos hstay]
  | case4 links names entries steps hat hstay ih =>
    obtain ⟨entries', hat', -⟩ := exists_directory_of_kind h hat
    rw [ih, follow.eq_def root' links names (".." :: steps), hat']
    simp only [if_neg hstay, if_true]
  | case5 links names entries step steps hat hstay hup hnone =>
    obtain ⟨entries', hat', hlookup⟩ := exists_directory_of_kind h hat
    have hnone' := hlookup step
    rw [hnone, Option.map_none, eq_comm, Option.map_eq_none_iff] at hnone'
    rw [follow.eq_def root' links names (step :: steps), hat']
    simp only [if_neg hstay, if_neg hup, hnone']
  | case6 names entries step steps hat hstay hup target hlink =>
    obtain ⟨entries', hat', hlookup⟩ := exists_directory_of_kind h hat
    have hlink' := lookup_link_of_kind (hlookup step) hlink
    rw [follow.eq_def root' 0 names (step :: steps), hat']
    simp only [if_neg hstay, if_neg hup, hlink']
  | case7 names entries step steps hat hstay hup target hlink links hstart =>
    obtain ⟨entries', hat', hlookup⟩ := exists_directory_of_kind h hat
    have hlink' := lookup_link_of_kind (hlookup step) hlink
    rw [follow.eq_def root' (links + 1) names (step :: steps), hat']
    simp only [if_neg hstay, if_neg hup, hlink', hstart]
  | case8 names entries step steps hat hstay hup target hlink links start hstart ih =>
    obtain ⟨entries', hat', hlookup⟩ := exists_directory_of_kind h hat
    have hlink' := lookup_link_of_kind (hlookup step) hlink
    rw [ih, follow.eq_def root' (links + 1) names (step :: steps), hat']
    simp only [if_neg hstay, if_neg hup, hlink', hstart]
  | case9 links names entries step steps hat hstay hup node hnolink hnode ih =>
    obtain ⟨entries', hat', hlookup⟩ := exists_directory_of_kind h hat
    have hkind := hlookup step
    rw [hnode] at hkind
    obtain ⟨node', hnode', hsame⟩ := Option.map_eq_some_iff.mp hkind.symm
    rw [ih, follow.eq_def root' links names (step :: steps), hat']
    cases node' with
    | file => simp only [if_neg hstay, if_neg hup, hnode']
    | directory => simp only [if_neg hstay, if_neg hup, hnode']
    | link target =>
      cases node with
      | link target => exact (hnolink target rfl).elim
      | _ => cases hsame
  | case10 links names node step steps hnodirectory hat =>
    have hkind := h names
    rw [hat] at hkind
    obtain ⟨node', hnode', hsame⟩ := Option.map_eq_some_iff.mp hkind.symm
    rw [follow.eq_def root' links names (step :: steps), hnode']
    cases node' with
    | file => rfl
    | link => rfl
    | directory =>
      cases node with
      | directory entries => exact (hnodirectory entries rfl).elim
      | _ => cases hsame

end Follow

/-! ### Listed paths -/

/-- A path leads to the node that is found by the names of its place. -/
theorem at?_of_follow {root : Node} {links : Nat} {names steps : List String} {place : Place}
    (h : follow root links names steps = .ok place) : root.at? place.names = some place.node := by
  fun_induction follow root links names steps with
  | case2 links names node hat =>
    cases h
    exact hat
  | case3 _ _ _ _ _ _ _ ih => exact ih h
  | case4 _ _ _ _ _ _ ih => exact ih h
  | case8 _ _ _ _ _ _ _ _ _ _ _ _ ih => exact ih h
  | case9 _ _ _ _ _ _ _ _ _ _ _ ih => exact ih h
  | _ => cases h

theorem at?_of_place {root : Node} {here : List String} {path : String} {place : Place}
    (h : root.place here path = .ok place) : root.at? place.names = some place.node := by
  unfold Node.place at h
  split at h
  · cases h
  · exact at?_of_follow h

/-- Another order of the entries does not change where a path leads. -/
theorem Relisted.place_congr {root root' : Node} (h : Relisted root root') (hroot : root.Plain)
    (here : List String) (path : String) :
    (root.place here path).map (fun place => (place.links, place.names)) =
      (root'.place here path).map fun place => (place.links, place.names) := by
  unfold Node.place
  split
  · rfl
  · exact follow_congr (h.kind_at? hroot) _ _ _

/-- The sources that a listed path stands for: itself, if it is a file, or the files at any depth
below it that have the extension, if it is a directory. -/
inductive Stands (root : Node) (here : List String) (extension path : String) : String → Prop
  /-- A file stands for itself, whatever it is called. -/
  | file {place : Place} {contents : ByteArray} : root.place here path = .ok place →
    place.node = .file contents → Stands root here extension path path
  /-- A directory stands for what is below it. -/
  | below {place : Place} {names : List String} {contents : ByteArray} :
    root.place here path = .ok place → names ≠ [] → place.node.at? names = some (.file contents) →
    Path.extension? (names.foldl Path.join path) = some extension →
    Stands root here extension path (names.foldl Path.join path)

/-- What a path is found to be is what is seen from its place. -/
theorem look_of_place {root : Node} {here : List String} {path : String} {place : Place}
    (h : root.place here path = .ok place) :
    ∃ behind, root.look here path = view behind place.names place.node := by
  rw [look, h]
  show ∃ behind, lookFrom root place.links place.names place.node = _
  rw [lookFrom]
  exact ⟨_, rfl⟩

end Node

/-- The sources that a listed path stands for, from what it leads to. -/
def Found.sources (extension path : String) : Found → List String
  | .file => [path]
  | .directory entries => sourcesIn extension path entries
  | .neither => []

namespace Node

/-- A listed path of a plain tree leads nowhere exactly if it cannot be followed. -/
theorem look_eq_neither_iff {root : Node} (hroot : root.Plain) (here : List String)
    (path : String) :
    root.look here path = .neither ↔ ∃ cause, root.place here path = .error cause := by
  cases hplace : root.place here path with
  | error cause =>
    rw [look, hplace]
    exact iff_of_true rfl ⟨cause, rfl⟩
  | ok place =>
    obtain ⟨behind, hlook⟩ := look_of_place hplace
    have hnode := hroot.of_at? (at?_of_place hplace)
    refine iff_of_false (fun h => ?_) nofun
    rw [hlook] at h
    cases hkind : place.node with
    | file => rw [hkind, view] at h; cases h
    | directory => rw [hkind, view] at h; cases h
    | link =>
      rw [hkind, Plain] at hnode
      exact hnode

/-- A path that cannot be followed stands for nothing. -/
theorem not_stands_of_error {root : Node} {here : List String} {extension path found : String}
    {cause : ReadError} (hplace : root.place here path = .error cause) :
    ¬ root.Stands here extension path found := by
  intro h
  cases h with
  | file h => rw [hplace] at h; cases h
  | below h => rw [hplace] at h; cases h

/-- A file stands for itself and for nothing else. -/
theorem stands_iff_of_file {root : Node} {here : List String} {extension path found : String}
    {place : Place} {contents : ByteArray} (hplace : root.place here path = .ok place)
    (hnode : place.node = .file contents) :
    root.Stands here extension path found ↔ found = path := by
  constructor
  · intro h
    cases h with
    | file => rfl
    | below hplace' hnames hfile =>
      cases hplace.symm.trans hplace'
      obtain ⟨name, names, rfl⟩ := List.exists_cons_of_ne_nil hnames
      rw [hnode, at?_file_cons] at hfile
      cases hfile
  · rintro rfl
    exact .file hplace hnode

/-- A directory stands for the files below it that have the extension. -/
theorem stands_iff_of_directory {root : Node} {here : List String}
    {extension path found : String} {place : Place} {entries : List (String × Node)}
    (hplace : root.place here path = .ok place)
    (hnode : place.node = .directory entries) :
    root.Stands here extension path found ↔
      place.node.FileAt path found ∧ Path.extension? found = some extension := by
  constructor
  · intro h
    cases h with
    | file hplace' hfile =>
      cases hplace.symm.trans hplace'
      rw [hnode] at hfile
      cases hfile
    | below hplace' hnames hfile hextension =>
      cases hplace.symm.trans hplace'
      exact ⟨⟨_, _, hfile, rfl⟩, hextension⟩
  · rintro ⟨⟨names, contents, hfile, rfl⟩, hextension⟩
    refine .below hplace ?_ hfile hextension
    rintro rfl
    rw [hnode] at hfile
    cases hfile

/-- In a plain tree a listed path is found to stand for just the sources that it stands for. -/
theorem mem_sources_look {root : Node} (hroot : root.Plain) (here : List String)
    (extension path found : String) :
    found ∈ (root.look here path).sources extension path ↔
      root.Stands here extension path found := by
  cases hplace : root.place here path with
  | error cause =>
    rw [(look_eq_neither_iff hroot here path).mpr ⟨cause, hplace⟩]
    exact iff_of_false List.not_mem_nil (not_stands_of_error hplace)
  | ok place =>
    obtain ⟨behind, hlook⟩ := look_of_place hplace
    have hplain := hroot.of_at? (at?_of_place hplace)
    have hview := mem_sourcesAt_view behind extension place.node place.names path found hplain
    rw [hlook]
    cases hnode : place.node with
    | file contents =>
      rw [stands_iff_of_file hplace hnode, view]
      exact List.mem_singleton
    | directory entries =>
      rw [stands_iff_of_directory hplace hnode, ← hview, hnode, view, Found.sourcesAt]
      rfl
    | link target =>
      rw [hnode, Plain] at hplain
      exact hplain.elim

/-! ### Listed paths in other orders -/

theorem Relisted.symm {a b : Node} (h : Relisted a b) : Relisted b a := by
  induction h with
  | refl node => exact .refl node
  | trans _ _ ih ih' => exact ih'.trans ih
  | reorder hperm => exact .reorder hperm.symm
  | entry _ ih => exact .entry ih

/-- Another order leaves the files in their places below a path. -/
theorem Relisted.exists_place {root root' : Node} (h : Relisted root root') (hroot : root.Plain)
    {here : List String} {path : String} {place : Place} {names : List String}
    {contents : ByteArray} (hplace : root.place here path = .ok place)
    (hfile : place.node.at? names = some (.file contents)) :
    ∃ place', root'.place here path = .ok place' ∧
      place'.node.at? names = some (.file contents) := by
  have hway := h.place_congr hroot here path
  rw [hplace] at hway
  cases hplace' : root'.place here path with
  | error cause =>
    rw [hplace'] at hway
    cases hway
  | ok place' =>
    rw [hplace'] at hway
    have hnames : place.names = place'.names := congrArg Prod.snd (Except.ok.inj hway)
    have hkind := h.kind_at? hroot (place.names ++ names)
    rw [at?_append, at?_append, at?_of_place hplace, hnames, at?_of_place hplace',
      Option.bind_some, Option.bind_some, hfile] at hkind
    obtain ⟨node, hnode, hsame⟩ := Option.map_eq_some_iff.mp hkind.symm
    cases node with
    | file => cases hsame; exact ⟨place', rfl, hnode⟩
    | _ => cases hsame

theorem Relisted.stands {root root' : Node} (h : Relisted root root') (hroot : root.Plain)
    {here : List String} {extension path found : String}
    (hstands : root.Stands here extension path found) :
    root'.Stands here extension path found := by
  cases hstands with
  | @file place contents hplace hfile =>
    have hhere : place.node.at? [] = some (.file contents) := congrArg some hfile
    obtain ⟨place', hplace', hnode⟩ := h.exists_place hroot hplace hhere
    exact .file hplace' (Option.some.inj hnode)
  | below hplace hnames hfile hextension =>
    obtain ⟨place', hplace', hnode⟩ := h.exists_place hroot hplace hfile
    exact .below hplace' hnames hnode hextension

/-- A listed path stands for the same sources in another order. -/
theorem Relisted.stands_iff {root root' : Node} (h : Relisted root root') (hroot : root.Plain)
    (here : List String) (extension path found : String) :
    root.Stands here extension path found ↔ root'.Stands here extension path found :=
  ⟨h.stands hroot, h.symm.stands (h.plain hroot)⟩

/-- A listed path leads nowhere in another order if it leads nowhere. -/
theorem Relisted.look_eq_neither {root root' : Node} (h : Relisted root root') (hroot : root.Plain)
    {here : List String} {path : String} (hlook : root.look here path = .neither) :
    root'.look here path = .neither := by
  obtain ⟨cause, hcause⟩ := (look_eq_neither_iff hroot here path).mp hlook
  have hway := h.place_congr hroot here path
  rw [hcause] at hway
  cases hplace' : root'.place here path with
  | error cause' => exact (look_eq_neither_iff (h.plain hroot) here path).mpr ⟨cause', hplace'⟩
  | ok place' =>
    rw [hplace'] at hway
    cases hway

end Node
end CurlyScript
