import CurlyScript.Proofs.FileTrees
import Mathlib.Data.List.Forall2

/-!
# Collecting the sources of listed paths

The sources that listed paths stand for are put in order one by one, each path once, so what is
collected in the end depends on nothing but which paths there are.  The listed paths may come in any
order and more than once, one of them may be below another, and directories may be listed in any
order.  It does not matter either how directories are walked through: a walk that puts directories
off finds the same sources as one that goes down into each of them at once.

## Main definitions

* `Path.Same` — texts of one path.
* `Discovery.Gains` — some paths have been added to paths in order.
* `Walk.ahead` — the sources that are still ahead of a walk.
* `Discovery.explore` — collecting without walks.
* `Discovery.found` — what listed paths lead to in a tree.

## Main results

* `Discovery.Gains.same` — paths in order are told by which paths there are.
* `Walk.meets_step`, `Walk.gains_run` — a step of a walk loses no source, and a walk finds them all.
* `Discovery.collect_canonical` — what is collected, and on what it does not depend.
-/

namespace CurlyScript

/-! ### Texts of one path -/

namespace Path

/-- Two texts of one path. -/
def Same (a b : String) : Prop := order a b = .eq

variable {a b c : String}

theorem Same.refl (a : String) : Same a a := Std.ReflCmp.compare_self

theorem Same.symm (h : Same a b) : Same b a := Std.OrientedCmp.eq_symm h

theorem Same.trans (h : Same a b) (h' : Same b c) : Same a c := Std.TransCmp.eq_trans h h'

theorem not_same_of_lt (h : order a b = .lt) : ¬ Same a b := by
  intro hsame
  rw [Same, h] at hsame
  cases hsame

end Path

namespace Discovery

open CurlyScript.Path (Same)

/-- Some paths hold a path, in one text of it or another. -/
def Holds (paths : List String) (path : String) : Prop := ∃ other ∈ paths, Same path other

/-! ### Adding paths -/

/-- Some paths have been added to paths in order: the order is kept, all of them are there now, and
nothing else is. -/
structure Gains (before added after : List String) : Prop where
  /-- The paths are in order, each path once. -/
  increasing : Increasing after
  /-- What was there and what was added is there. -/
  holds : ∀ path, path ∈ before ∨ path ∈ added → Holds after path
  /-- What is there was there or was added. -/
  mem : ∀ path ∈ after, path ∈ before ∨ path ∈ added

theorem Gains.refl {paths : List String} (h : Increasing paths) : Gains paths [] paths := by
  refine ⟨h, fun path hpath => ?_, fun path hpath => .inl hpath⟩
  rcases hpath with hpath | hpath
  · exact ⟨path, hpath, .refl path⟩
  · exact absurd hpath List.not_mem_nil

theorem Holds.trans {paths more : List String} {path : String} (h : Holds paths path)
    (hmore : ∀ other ∈ paths, Holds more other) : Holds more path := by
  obtain ⟨other, hother, hsame⟩ := h
  obtain ⟨last, hlast, hsame'⟩ := hmore other hother
  exact ⟨last, hlast, hsame.trans hsame'⟩

theorem Gains.trans {before added mid more after : List String} (h : Gains before added mid)
    (h' : Gains mid more after) : Gains before (added ++ more) after := by
  refine ⟨h'.increasing, fun path hpath => ?_, fun path hpath => ?_⟩
  · rw [List.mem_append, ← or_assoc] at hpath
    rcases hpath with hpath | hpath
    · exact (h.holds path hpath).trans fun other hother => h'.holds other (.inl hother)
    · exact h'.holds path (.inr hpath)
  · rw [List.mem_append, ← or_assoc]
    rcases h'.mem path hpath with hpath | hpath
    · exact .inl (h.mem path hpath)
    · exact .inr hpath

/-- The order in which paths are added is of no importance. -/
theorem Gains.congr {before added added' after : List String} (h : Gains before added after)
    (hadded : ∀ path, path ∈ added' ↔ path ∈ added) : Gains before added' after := by
  refine ⟨h.increasing, fun path hpath => ?_, fun path hpath => ?_⟩
  · rw [hadded] at hpath
    exact h.holds path hpath
  · rw [hadded]
    exact h.mem path hpath

theorem mem_insert_of_mem {path other : String} {paths : List String} (h : other ∈ paths) :
    other ∈ insert path paths := by
  induction paths with
  | nil => exact absurd h List.not_mem_nil
  | cons first rest ih =>
    rw [insert]
    split
    · exact List.mem_cons_of_mem _ h
    · exact h
    · rcases List.mem_cons.mp h with rfl | h
      · exact List.mem_cons_self
      · exact List.mem_cons_of_mem _ (ih h)

theorem holds_insert (path : String) (paths : List String) : Holds (insert path paths) path := by
  induction paths with
  | nil => exact ⟨path, List.mem_cons_self, .refl path⟩
  | cons first rest ih =>
    rw [insert]
    split
    · exact ⟨path, List.mem_cons_self, .refl path⟩
    · next heq => exact ⟨first, List.mem_cons_self, heq⟩
    · obtain ⟨other, hother, hsame⟩ := ih
      exact ⟨other, List.mem_cons_of_mem _ hother, hsame⟩

theorem gains_insert {paths : List String} (h : Increasing paths) (path : String) :
    Gains paths [path] (insert path paths) := by
  refine ⟨increasing_insert h path, fun other hother => ?_, fun other hother => ?_⟩
  · rw [List.mem_singleton] at hother
    rcases hother with hother | rfl
    · exact ⟨other, mem_insert_of_mem hother, .refl other⟩
    · exact holds_insert other paths
  · rw [List.mem_singleton]
    exact (mem_of_mem_insert hother).symm

theorem gains_foldl {paths : List String} (h : Increasing paths) (added : List String) :
    Gains paths added (added.foldl (fun paths path => insert path paths) paths) := by
  induction added generalizing paths with
  | nil => exact .refl h
  | cons path added ih => exact (gains_insert h path).trans (ih (increasing_insert h path))

/-! ### Paths in order -/

/-- Nothing that is behind the first of some paths in order is the same path. -/
theorem Increasing.not_holds {path : String} {paths : List String}
    (h : Increasing (path :: paths)) : ¬ Holds paths path := by
  rintro ⟨other, hother, hsame⟩
  exact Path.not_same_of_lt ((List.pairwise_cons.mp h).1 other hother) hsame

/-- Of two lists of the same paths in order the first paths are the same. -/
theorem Increasing.head_same {a b : String} {as bs : List String} (ha : Increasing (a :: as))
    (hb : Increasing (b :: bs)) (hab : Holds (b :: bs) a) (hba : Holds (a :: as) b) :
    Same a b := by
  obtain ⟨other, hother, hsame⟩ := hab
  rcases List.mem_cons.mp hother with rfl | hother
  · exact hsame
  · -- `b` is before `a`, and then it is nowhere among the paths that begin with `a`
    have hlt : Path.order b a = .lt :=
      Std.TransCmp.lt_of_lt_of_eq ((List.pairwise_cons.mp hb).1 other hother) hsame.symm
    obtain ⟨last, hlast, hsame'⟩ := hba
    rcases List.mem_cons.mp hlast with rfl | hlast
    · exact absurd hsame' (Path.not_same_of_lt hlt)
    · have hlt' : Path.order b last = .lt :=
        Std.TransCmp.lt_trans hlt ((List.pairwise_cons.mp ha).1 last hlast)
      exact absurd hsame' (Path.not_same_of_lt hlt')

/-- Paths in order are told by which paths there are. -/
theorem Increasing.forall₂_same {as bs : List String} (ha : Increasing as) (hb : Increasing bs)
    (hab : ∀ path ∈ as, Holds bs path) (hba : ∀ path ∈ bs, Holds as path) :
    List.Forall₂ Same as bs := by
  induction as generalizing bs with
  | nil =>
    cases bs with
    | nil => exact .nil
    | cons b bs =>
      obtain ⟨_, hmem, -⟩ := hba b List.mem_cons_self
      exact absurd hmem List.not_mem_nil
  | cons a as ih =>
    cases bs with
    | nil =>
      obtain ⟨_, hmem, -⟩ := hab a List.mem_cons_self
      exact absurd hmem List.not_mem_nil
    | cons b bs =>
      have hsame : Same a b :=
        ha.head_same hb (hab a List.mem_cons_self) (hba b List.mem_cons_self)
      refine .cons hsame (ih (List.pairwise_cons.mp ha).2 (List.pairwise_cons.mp hb).2 ?_ ?_)
      · intro path hpath
        obtain ⟨other, hother, hsame'⟩ := hab path (List.mem_cons_of_mem _ hpath)
        rcases List.mem_cons.mp hother with rfl | hother
        · exact absurd ⟨path, hpath, hsame.trans hsame'.symm⟩ ha.not_holds
        · exact ⟨other, hother, hsame'⟩
      · intro path hpath
        obtain ⟨other, hother, hsame'⟩ := hba path (List.mem_cons_of_mem _ hpath)
        rcases List.mem_cons.mp hother with rfl | hother
        · exact absurd ⟨path, hpath, hsame.symm.trans hsame'.symm⟩ hb.not_holds
        · exact ⟨other, hother, hsame'⟩

/-- What is collected from nothing is told by which paths are added. -/
theorem Gains.same {added added' after after' : List String} (h : Gains [] added after)
    (h' : Gains [] added' after') (hadded : ∀ path, path ∈ added' ↔ path ∈ added) :
    List.Forall₂ Same after after' := by
  have hnil {path : String} {paths : List String} : path ∈ [] ∨ path ∈ paths → path ∈ paths :=
    fun h => h.resolve_left List.not_mem_nil
  refine h.increasing.forall₂_same h'.increasing ?_ ?_
  · intro path hpath
    exact h'.holds path (.inr ((hadded path).mpr (hnil (h.mem path hpath))))
  · intro path hpath
    exact h.holds path (.inr ((hadded path).mp (hnil (h'.mem path hpath))))

end Discovery

/-! ### Walks -/

namespace Walk

open Discovery (Gains Increasing)

/-- The sources that are still ahead of a walk. -/
def ahead (extension : String) (w : Walk) : List String :=
  w.stack.flatMap fun next => Found.sourcesIn extension next.1 next.2

/-- What a walk has come to after something that stands for some more sources: these and the ones
that were ahead have been found or are ahead. -/
def Meets (extension : String) (w : Walk) (more : List String) (w' : Walk) : Prop :=
  ∃ found, Gains w.sources found w'.sources ∧
    ∀ path, path ∈ found ∨ path ∈ w'.ahead extension ↔ path ∈ w.ahead extension ∨ path ∈ more

theorem Meets.increasing {extension : String} {w w' : Walk} {more : List String}
    (h : w.Meets extension more w') : Increasing w'.sources := by
  obtain ⟨_, hgains, -⟩ := h
  exact hgains.increasing

theorem Meets.trans {extension : String} {w w' w'' : Walk} {more last : List String}
    (h : w.Meets extension more w') (h' : w'.Meets extension last w'') :
    w.Meets extension (more ++ last) w'' := by
  obtain ⟨found, hgains, hfound⟩ := h
  obtain ⟨found', hgains', hfound'⟩ := h'
  refine ⟨found ++ found', hgains.trans hgains', fun path => ?_⟩
  rw [List.mem_append, List.mem_append, or_assoc, hfound', ← or_assoc, hfound, or_assoc]

theorem meets_keep (extension path : String) {w : Walk} (h : Increasing w.sources) :
    w.Meets extension (if Path.extension? path = some extension then [path] else [])
      (w.keep extension path) := by
  unfold keep
  split
  · exact ⟨[path], Discovery.gains_insert h path, fun _ => or_comm⟩
  · exact ⟨[], Discovery.Gains.refl h, fun _ => or_comm⟩

theorem meets_meet (extension path : String) {w : Walk} (h : Increasing w.sources)
    (found : Found) :
    w.Meets extension (Found.sourcesAt extension path found) (w.meet extension path found) := by
  cases found with
  | directory entries =>
    refine ⟨[], Discovery.Gains.refl h, fun other => ?_⟩
    have hahead : (w.meet extension path (.directory entries)).ahead extension =
        Found.sourcesIn extension path entries ++ w.ahead extension := rfl
    rw [hahead, Found.sourcesAt, List.mem_append]
    simp [or_comm]
  | file => exact meets_keep extension path h
  | neither => exact meets_keep extension path h

theorem meets_read (extension directory : String) {w : Walk} (h : Increasing w.sources)
    (entries : List (String × Found)) :
    w.Meets extension (Found.sourcesIn extension directory entries)
      (w.read extension directory entries) := by
  induction entries generalizing w with
  | nil => exact ⟨[], Discovery.Gains.refl h, fun _ => or_comm⟩
  | cons entry rest ih =>
    have hfirst := meets_meet extension (Path.join directory entry.1) h entry.2
    exact hfirst.trans (ih hfirst.increasing)

/-- A step loses no source that is ahead. -/
theorem meets_step {extension : String} {w w' : Walk} (h : Increasing w.sources)
    (hstep : w.step extension = some w') :
    ∃ found, Gains w.sources found w'.sources ∧
      ∀ path, path ∈ found ∨ path ∈ w'.ahead extension ↔ path ∈ w.ahead extension := by
  obtain ⟨stack, sources⟩ := w
  cases stack with
  | nil => cases hstep
  | cons next stack =>
    cases hstep
    obtain ⟨found, hgains, hfound⟩ :=
      meets_read extension next.1 (w := ⟨stack, sources⟩) h next.2
    refine ⟨found, hgains, fun path => ?_⟩
    rw [hfound]
    show _ ↔ path ∈ Found.sourcesIn extension next.1 next.2 ++ _
    rw [List.mem_append, or_comm]
    rfl

/-- A walk finds all sources that are ahead. -/
theorem gains_run (extension : String) (w : Walk) (h : Increasing w.sources) :
    Gains w.sources (w.ahead extension) (w.run extension) := by
  fun_induction run extension w with
  | case1 w hstep =>
    obtain ⟨stack, sources⟩ := w
    cases stack with
    | nil => exact .refl h
    | cons => cases hstep
  | case2 w w' hstep ih =>
    obtain ⟨found, hgains, hfound⟩ := meets_step h hstep
    refine (hgains.trans (ih hgains.increasing)).congr fun path => ?_
    rw [List.mem_append, hfound]

end Walk

namespace Discovery

open CurlyScript.Path (Same)

/-- Adds the sources that a listed path stands for, one directory after the other with all that is
below it. -/
def exploreFrom (extension : String) (sources : List String) (listed : String × Found) :
    Except MissingPath (List String) :=
  match listed with
  | (path, .file) => .ok (insert path sources)
  | (path, .directory entries) =>
    .ok ((Found.sourcesIn extension path entries).foldl (fun paths p => insert p paths) sources)
  | (path, .neither) => .error ⟨path⟩

/-- The sources that listed paths stand for, found by going down into each directory at once. -/
def explore (extension : String) (listed : List (String × Found)) :
    Except MissingPath (List String) :=
  listed.foldlM (exploreFrom extension) []

/-! ### Listed paths -/

/-- A way to add the sources that a listed path stands for. -/
structure Adds (extension : String)
    (add : List String → String × Found → Except MissingPath (List String)) : Prop where
  /-- A path that leads nowhere is an error. -/
  missing : ∀ paths path, add paths (path, .neither) = .error ⟨path⟩
  /-- The sources of any other path are added. -/
  gains : ∀ paths path found, Increasing paths → found ≠ .neither →
    ∃ after, add paths (path, found) = .ok after ∧ Gains paths (found.sources extension path) after

theorem adds_add (extension : String) : Adds extension (add extension) := by
  refine ⟨fun _ _ => rfl, fun paths path found h hfound => ?_⟩
  cases found with
  | file => exact ⟨_, rfl, gains_insert h path⟩
  | directory entries =>
    have hrun := Walk.gains_run extension ⟨[(path, entries)], paths⟩ h
    refine ⟨_, rfl, hrun.congr fun other => ?_⟩
    rw [Walk.ahead, List.flatMap_singleton]
    rfl
  | neither => exact absurd rfl hfound

theorem adds_exploreFrom (extension : String) : Adds extension (exploreFrom extension) := by
  refine ⟨fun _ _ => rfl, fun paths path found h hfound => ?_⟩
  cases found with
  | file => exact ⟨_, rfl, gains_insert h path⟩
  | directory entries => exact ⟨_, rfl, gains_foldl h _⟩
  | neither => exact absurd rfl hfound

/-- When all paths lead somewhere, all of their sources are added. -/
theorem Adds.gains_foldlM {extension : String}
    {add : List String → String × Found → Except MissingPath (List String)}
    (hadd : Adds extension add) {listed : List (String × Found)}
    (hlisted : ∀ entry ∈ listed, entry.2 ≠ .neither) {paths : List String}
    (h : Increasing paths) :
    ∃ after, listed.foldlM add paths = .ok after ∧
      Gains paths (listed.flatMap fun entry => entry.2.sources extension entry.1) after := by
  induction listed generalizing paths with
  | nil => exact ⟨paths, rfl, .refl h⟩
  | cons entry rest ih =>
    obtain ⟨path, found⟩ := entry
    have hfound := hlisted (path, found) List.mem_cons_self
    obtain ⟨mid, hmid, hgains⟩ := hadd.gains paths path found h hfound
    obtain ⟨after, hafter, hgains'⟩ :=
      ih (fun e he => hlisted e (List.mem_cons_of_mem _ he)) hgains.increasing
    refine ⟨after, ?_, hgains.trans hgains'⟩
    rw [List.foldlM_cons, hmid]
    exact hafter

/-- When a path leads nowhere, this is an error. -/
theorem Adds.foldlM_error {extension : String}
    {add : List String → String × Found → Except MissingPath (List String)}
    (hadd : Adds extension add) {listed : List (String × Found)} {path : String}
    (hpath : (path, .neither) ∈ listed) {paths : List String} (h : Increasing paths) :
    ∃ missing, listed.foldlM add paths = .error missing := by
  induction listed generalizing paths with
  | nil => exact absurd hpath List.not_mem_nil
  | cons entry rest ih =>
    obtain ⟨first, found⟩ := entry
    rw [List.foldlM_cons]
    by_cases hfound : found = .neither
    · rw [hfound, hadd.missing]
      exact ⟨_, rfl⟩
    · obtain ⟨mid, hmid, hgains⟩ := hadd.gains paths first found h hfound
      rw [hmid]
      rcases List.mem_cons.mp hpath with heq | hrest
      · exact absurd (congrArg Prod.snd heq).symm hfound
      · exact ih hrest hgains.increasing

/-- Listed paths with what they lead to in a tree, given the directory at hand. -/
def found (root : Node) (here paths : List String) : List (String × Found) :=
  paths.map fun path => (path, root.look here path)

/-- What is added for listed paths is what they stand for. -/
theorem mem_added_iff {root : Node} (hroot : root.Plain) (here : List String) (extension : String)
    (paths : List String) (source : String) :
    source ∈ (found root here paths).flatMap (fun entry => entry.2.sources extension entry.1) ↔
      ∃ path ∈ paths, root.Stands here extension path source := by
  rw [found, List.flatMap_map, List.mem_flatMap]
  simp only [Node.mem_sources_look hroot]

/-- When all paths lead somewhere, what they stand for is added. -/
theorem Adds.gains_found {extension : String}
    {add : List String → String × Found → Except MissingPath (List String)}
    (hadd : Adds extension add) {root : Node} {here paths : List String}
    (hpaths : ∀ path ∈ paths, root.look here path ≠ .neither) :
    ∃ sources, (found root here paths).foldlM add [] = .ok sources ∧
      Gains [] ((found root here paths).flatMap fun entry => entry.2.sources extension entry.1)
        sources := by
  refine hadd.gains_foldlM (fun entry hentry => ?_) List.Pairwise.nil
  obtain ⟨path, hpath, rfl⟩ := List.mem_map.mp hentry
  exact hpaths path hpath

/-- Collecting ends with an error exactly if a path leads nowhere. -/
theorem collect_eq_error_iff (extension : String) (root : Node) (here paths : List String) :
    (∃ missing, collect extension (found root here paths) = .error missing) ↔
      ∃ path ∈ paths, root.look here path = .neither := by
  constructor
  · rintro ⟨missing, herror⟩
    by_contra hnone
    have hpaths : ∀ path ∈ paths, root.look here path ≠ .neither :=
      fun path hpath hlook => hnone ⟨path, hpath, hlook⟩
    obtain ⟨sources, hsources, -⟩ := (adds_add extension).gains_found hpaths
    rw [collect, hsources] at herror
    cases herror
  · rintro ⟨path, hpath, hlook⟩
    have hmem : (path, .neither) ∈ found root here paths :=
      List.mem_map.mpr ⟨path, hpath, by rw [hlook]⟩
    exact (adds_add extension).foldlM_error hmem List.Pairwise.nil

/-- **What is collected is told by the tree, the listed paths and the extension.**

Let a tree of files have no links, and let no two entries of a directory have one name.  Whichever
directory is at hand, collecting ends with an error exactly if a listed path cannot be followed.
Otherwise the sources are in order, each path once, and they are the listed paths that are files,
whatever they are called, and the files at any depth below listed directories that have the
extension, and no others.

They are the same when the directories of the tree are listed in another order, and for any other
list of the same paths, in whatever order and however often they are listed.  They are also the same
when no directory is put off, but each is gone into at once. -/
theorem collect_canonical {root : Node} (hroot : root.Plain) (here : List String)
    (extension : String) (paths : List String) :
    ((∃ missing, collect extension (found root here paths) = .error missing) ↔
      ∃ path ∈ paths, ∃ cause, root.place here path = .error cause) ∧
    ∀ sources, collect extension (found root here paths) = .ok sources →
      Increasing sources ∧
      (∀ source ∈ sources, ∃ path ∈ paths, root.Stands here extension path source) ∧
      (∀ path ∈ paths, ∀ source, root.Stands here extension path source → Holds sources source) ∧
      ∀ tree paths', root.Relisted tree → (∀ path, path ∈ paths' ↔ path ∈ paths) →
        (∃ sources', collect extension (found tree here paths') = .ok sources' ∧
          List.Forall₂ Same sources sources') ∧
        ∃ explored, explore extension (found tree here paths') = .ok explored ∧
          List.Forall₂ Same sources explored := by
  refine ⟨?_, fun sources hcollect => ?_⟩
  · rw [collect_eq_error_iff]
    simp only [Node.look_eq_neither_iff hroot]
  · have hpaths : ∀ path ∈ paths, root.look here path ≠ .neither := by
      intro path hpath hlook
      obtain ⟨missing, herror⟩ :=
        (collect_eq_error_iff extension root here paths).mpr ⟨path, hpath, hlook⟩
      rw [hcollect] at herror
      cases herror
    obtain ⟨_, hsources, hgains⟩ := (adds_add extension).gains_found hpaths
    cases hcollect.symm.trans hsources
    have hadded := mem_added_iff hroot here extension paths
    refine ⟨hgains.increasing, fun source hsource => ?_, fun path hpath source hstands => ?_, ?_⟩
    · exact (hadded source).mp ((hgains.mem source hsource).resolve_left List.not_mem_nil)
    · exact hgains.holds source (.inr ((hadded source).mpr ⟨path, hpath, hstands⟩))
    · intro tree paths' htree hsame
      have hplain := htree.plain hroot
      have hpaths' : ∀ path ∈ paths', tree.look here path ≠ .neither := fun path hpath hlook =>
        hpaths path ((hsame path).mp hpath) (htree.symm.look_eq_neither hplain hlook)
      -- what is added in the other order is the same, whichever way it is found
      have hsources' (source : String) := calc
        source ∈ (found tree here paths').flatMap (fun entry => entry.2.sources extension entry.1)
          ↔ ∃ path ∈ paths', tree.Stands here extension path source := mem_added_iff hplain _ _ _ _
        _ ↔ ∃ path ∈ paths, root.Stands here extension path source := by
          simp only [hsame, htree.stands_iff hroot]
        _ ↔ _ := (hadded source).symm
      obtain ⟨sources', hcollect', hgains'⟩ := (adds_add extension).gains_found hpaths'
      obtain ⟨explored, hexplore, hexplored⟩ := (adds_exploreFrom extension).gains_found hpaths'
      exact ⟨⟨sources', hcollect', hgains.same hgains' hsources'⟩,
        explored, hexplore, hgains.same hexplored hsources'⟩

/-- A directory is listed, from the directory above it, with a file in it that has another
extension. -/
theorem collect_canonical_overlapping :
    let root : Node := .directory
      [("a", .directory [("b", .directory [("x.k", .file ⟨#[]⟩), ("y.t", .file ⟨#[]⟩)])])]
    let tree : Node := .directory
      [("a", .directory [("b", .directory [("y.t", .file ⟨#[]⟩), ("x.k", .file ⟨#[]⟩)])])]
    root.Plain ∧ root.Relisted tree ∧
      collect "k" (found root ["a"] ["b/y.t", "b"]) = .ok ["b/x.k", "b/y.t"] ∧
      ∃ sources, collect "k" (found tree ["a"] ["b", "b/y.t", "b"]) = .ok sources ∧
        List.Forall₂ Same ["b/x.k", "b/y.t"] sources := by
  intro root tree
  have hroot : root.Plain := by simp [root, Node.Plain, Node.PlainEntries]
  have htree : root.Relisted tree :=
    @Node.Relisted.entry [] [] "a" _ _ (@Node.Relisted.entry [] [] "b" _ _ (.reorder (.swap _ _ _)))
  have hdirectory : root.place ["a"] "b" =
      .ok ⟨Node.mostLinks, ["a", "b"],
        .directory [("x.k", .file ⟨#[]⟩), ("y.t", .file ⟨#[]⟩)]⟩ := by
    rw [Node.place, show Node.start? ["a"] "b" = some ["a"] by decide,
      show Path.steps "b" = ["b"] by decide]
    simp [Node.follow, Node.at?, Node.entries, root]
  have hfile : root.place ["a"] "b/y.t" =
      .ok ⟨Node.mostLinks, ["a", "b", "y.t"], .file ⟨#[]⟩⟩ := by
    rw [Node.place, show Node.start? ["a"] "b/y.t" = some ["a"] by decide,
      show Path.steps "b/y.t" = ["b", "y.t"] by decide]
    simp [Node.follow, Node.at?, Node.entries, List.lookup_cons, root]
  have hcollect : collect "k" (found root ["a"] ["b/y.t", "b"]) = .ok ["b/x.k", "b/y.t"] := by
    obtain ⟨_, hbelow⟩ := Node.look_of_place hdirectory
    obtain ⟨_, hhere⟩ := Node.look_of_place hfile
    rw [found, List.map_cons, List.map_singleton, hbelow, hhere]
    show collect "k" [("b/y.t", .file), ("b", .directory [("x.k", .file), ("y.t", .file)])] = _
    decide +kernel
  obtain ⟨-, hsources⟩ := collect_canonical hroot ["a"] "k" ["b/y.t", "b"]
  obtain ⟨-, -, -, hsame⟩ := hsources _ hcollect
  obtain ⟨hagain, -⟩ := hsame tree ["b", "b/y.t", "b"] htree (by simp [or_comm])
  exact ⟨hroot, htree, hcollect, hagain⟩

end Discovery
end CurlyScript
