import CurlyScript.Files.Path

/-!
# The source files below listed paths

A listed file is a source whatever it is called.  A listed directory stands for all that is below
it with the right extension; it is walked through with a stack of the directories that are still to
be read.  The sources come in the order of paths, each path once.

## Main definitions

* `Found` — what a path leads to, once all links are followed.
* `Discovery.insert` — adds a path to an ordered list of paths.
* `Walk` — directories that are still to be read, and what was found so far.
* `Walk.run` — the sources that a walk finds.
* `Discovery.collect` — the sources that listed paths stand for.

## Main results

* `Discovery.increasing_insert` — paths stay in order, each path once.
* `Walk.size_step` — each step of a walk reads one directory, which is not read again.

## References

`SPEC_FULL.md`, section E4.
-/

namespace CurlyScript

/-- What a path leads to, once all links are followed. -/
inductive Found
  /-- A file. -/
  | file
  /-- A directory with its entries, in any order. -/
  | directory (entries : List (String × Found))
  /-- Neither of them: nothing at all, or a link that leads nowhere. -/
  | neither

namespace Discovery

/-- Adds a path to paths in order.  Of several texts of one path the first stays. -/
def insert (path : String) : List String → List String
  | [] => [path]
  | other :: rest =>
    match Path.order path other with
    | .lt => path :: other :: rest
    | .eq => other :: rest
    | .gt => other :: insert path rest

/-- Whether paths are in order, each path once. -/
def Increasing (paths : List String) : Prop := paths.Pairwise fun a b => Path.order a b = .lt

/-- What `insert` leaves in a list is the path itself or was there before. -/
theorem mem_of_mem_insert {path other : String} {paths : List String}
    (h : other ∈ insert path paths) : other = path ∨ other ∈ paths := by
  induction paths with
  | nil => simpa [insert] using h
  | cons first rest ih =>
    rw [insert] at h
    split at h
    · simpa using h
    · exact Or.inr h
    · rcases List.mem_cons.mp h with rfl | h
      · simp
      · rcases ih h with h | h
        · exact Or.inl h
        · exact Or.inr (List.mem_cons_of_mem _ h)

/-- Paths stay in order, each path once. -/
theorem increasing_insert {paths : List String} (h : Increasing paths) (path : String) :
    Increasing (insert path paths) := by
  induction paths with
  | nil => simp [insert, Increasing]
  | cons first rest ih =>
    have ⟨hfirst, hrest⟩ := List.pairwise_cons.mp h
    rw [insert]
    split
    · next hlt =>
      refine List.pairwise_cons.mpr ⟨fun other hother => ?_, h⟩
      rcases List.mem_cons.mp hother with rfl | hother
      · exact hlt
      · exact Std.TransCmp.lt_trans hlt (hfirst other hother)
    · exact h
    · next hgt =>
      refine List.pairwise_cons.mpr ⟨fun other hother => ?_, ih hrest⟩
      rcases mem_of_mem_insert hother with rfl | hother
      · exact Std.OrientedCmp.gt_iff_lt.mp hgt
      · exact hfirst other hother

end Discovery

/-! ### Walks -/

namespace Found

mutual

/-- How many directories there are at or below what a path leads to. -/
def directories : Found → Nat
  | .directory entries => 1 + directoriesIn entries
  | .file => 0
  | .neither => 0

/-- How many directories there are at or below some entries. -/
def directoriesIn : List (String × Found) → Nat
  | [] => 0
  | (_, found) :: rest => found.directories + directoriesIn rest

end

end Found

/-- A walk through directories. -/
structure Walk where
  /-- The directories that are still to be read with their entries, the next one first. -/
  stack : List (String × List (String × Found))
  /-- The sources that were found so far. -/
  sources : List String

namespace Walk

/-- The walk after an entry that is no directory.  It is a source if it has the extension. -/
def keep (extension path : String) (w : Walk) : Walk :=
  if Path.extension? path = some extension then
    { w with sources := Discovery.insert path w.sources }
  else w

/-- The walk after an entry.  A directory is put off. -/
def meet (extension path : String) (w : Walk) : Found → Walk
  | .directory entries => { w with stack := (path, entries) :: w.stack }
  | .file => w.keep extension path
  | .neither => w.keep extension path

/-- The walk after the entries of a directory, in the order in which they are listed. -/
def read (extension directory : String) (w : Walk) (entries : List (String × Found)) : Walk :=
  entries.foldl (fun w entry => w.meet extension (Path.join directory entry.1) entry.2) w

/-- The walk after the next directory, if there is one. -/
def step (extension : String) (w : Walk) : Option Walk :=
  match w.stack with
  | [] => none
  | (directory, entries) :: stack => some (read extension directory { w with stack } entries)

/-- How many directories are on a stack or below it. -/
def stackSize : List (String × List (String × Found)) → Nat
  | [] => 0
  | (_, entries) :: rest => 1 + Found.directoriesIn entries + stackSize rest

/-- How many directories are still to be read. -/
def size (w : Walk) : Nat := stackSize w.stack

theorem size_keep (extension path : String) (w : Walk) : (w.keep extension path).size = w.size := by
  unfold keep
  split <;> rfl

theorem size_meet (extension path : String) (w : Walk) (found : Found) :
    (w.meet extension path found).size = w.size + found.directories := by
  cases found with
  | directory entries =>
    show 1 + Found.directoriesIn entries + w.size = w.size + (1 + Found.directoriesIn entries)
    omega
  | file => exact size_keep extension path w
  | neither => exact size_keep extension path w

theorem size_read (extension directory : String) (w : Walk) (entries : List (String × Found)) :
    (w.read extension directory entries).size = w.size + Found.directoriesIn entries := by
  induction entries generalizing w with
  | nil => rfl
  | cons entry rest ih =>
    show (read extension directory (w.meet _ _ entry.2) rest).size = _
    rw [ih, size_meet, Found.directoriesIn, Nat.add_assoc]

/-- Each step reads one directory, which is not read again. -/
theorem size_step {extension : String} {w w' : Walk} (h : w.step extension = some w') :
    w'.size + 1 = w.size := by
  obtain ⟨stack, sources⟩ := w
  cases stack with
  | nil => cases h
  | cons next stack =>
    cases h
    rw [size_read]
    show stackSize stack + Found.directoriesIn next.2 + 1 =
      1 + Found.directoriesIn next.2 + stackSize stack
    omega

/-- The sources that have been found when there is no directory left. -/
def run (extension : String) (w : Walk) : List String :=
  match _h : w.step extension with
  | none => w.sources
  | some w' => run extension w'
termination_by w.size
decreasing_by
  have hsize := size_step _h
  omega

end Walk

/-! ### Listed paths -/

namespace Discovery

/-- A listed path that leads nowhere. -/
structure MissingPath where
  /-- The path as it is listed. -/
  path : String
  deriving DecidableEq

/-- What is said about a listed path that leads nowhere. -/
def MissingPath.message (m : MissingPath) : String := s!"no such file or directory: {m.path}"

/-- Adds the sources that a listed path stands for, with a walk through a directory. -/
def add (extension : String) (sources : List String) (listed : String × Found) :
    Except MissingPath (List String) :=
  match listed with
  | (path, .file) => .ok (insert path sources)
  | (path, .directory entries) => .ok (Walk.run extension ⟨[(path, entries)], sources⟩)
  | (path, .neither) => .error ⟨path⟩

/-- The sources that listed paths stand for, in order, or the first listed path that leads
nowhere. -/
def collect (extension : String) (listed : List (String × Found)) :
    Except MissingPath (List String) :=
  listed.foldlM (add extension) []

end Discovery
end CurlyScript
