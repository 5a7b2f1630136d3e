import Dashboard.Path
import Dashboard.Table

/-!
# File Trees

A file tree holds texts in directories. It is as much of a file system as settings need: a
text can be read, missing directories can be made, and a text can be put into a directory.

Paths are followed step by step. Every step, also one that stays, has to be taken in a
directory that is there; so a path that ends with a slash cannot lead to a text, and one
that goes into a missing directory and up again leads nowhere. Two dots at the root lead
out of the tree. Nothing is known about what lies outside, except that going up leads to
directories.

## Main results

* `FileTree.walk_insert` — a text that is put into a tree does not block any path.
* `FileTree.read_write` — a text that was written is what is read next.
-/

namespace Dashboard

/-- Why a file operation failed. -/
inductive FileProblem where
  | notFound
  | isDirectory
  | notDirectory
  | alreadyExists
  | nameTooLong
  /-- A name has a character of code zero. -/
  | zeroInName
  | notText
  /-- Any other answer of the operating system. -/
  | other (text : String)
  deriving DecidableEq, Repr

/-- The words for a failed file operation. -/
def FileProblem.text : FileProblem → String
  | .notFound => "No such file or directory (os error 2)"
  | .isDirectory => "Is a directory (os error 21)"
  | .notDirectory => "Not a directory (os error 20)"
  | .alreadyExists => "File exists (os error 17)"
  | .nameTooLong => "File name too long (os error 36)"
  | .zeroInName => "file name contained an unexpected NUL byte"
  | .notText => "stream did not contain valid UTF-8"
  | .other text => text

/-! ### Places -/

/-- The names on the shortest way from the root of a tree to a place. Places outside begin
with steps up, or with a slash for the top of the file system. -/
abbrev Place := List String

namespace Place

/-- The place that a path starts from. -/
def start (path : Path) : Place :=
  if path.isAbsolute then ["/"] else []

/-- The directory that holds a place. -/
def up (place : Place) : Place :=
  match place.getLast? with
  | none => [".."]
  | some ".." => place ++ [".."]
  | some "/" => place
  | some _ => place.dropLast

/-- How many bytes a name has at most. -/
def nameLimit : Nat := 255

/-- The place that a step leads to. -/
def follow (place : Place) (step : String) : Except FileProblem Place :=
  if Path.isStay step then .ok place
  else if step = ".." then .ok place.up
  else if nameLimit < step.utf8ByteSize then .error .nameTooLong
  else .ok (place ++ [step])

/-- Whether a place can be reached by going up alone. -/
def isAbove (place : Place) : Bool :=
  place.all fun name => name == ".." || name == "/"

end Place

/-- Texts and directories by their places. -/
structure FileTree where
  texts : Table Place String
  directories : List Place

namespace FileTree

/-- The tree with only a root. -/
def empty : FileTree := ⟨.empty, []⟩

instance : Inhabited FileTree := ⟨empty⟩

/-- Whether a text stands at a place. -/
def isText (tree : FileTree) (place : Place) : Bool :=
  tree.texts.contains place

/-- Whether a place is a directory. -/
def isDirectory (tree : FileTree) (place : Place) : Bool :=
  place.isAbove || tree.directories.contains place

/-! ### Following paths -/

/-- Why no step can be taken at a place that is no directory. -/
def obstacle (tree : FileTree) (place : Place) : FileProblem :=
  if tree.isText place then .notDirectory else .notFound

/-- The place that steps lead to, one after the other. -/
def walk (tree : FileTree) (place : Place) : List String → Except FileProblem Place
  | [] => .ok place
  | step :: rest =>
    if tree.isDirectory place then do
      let next ← place.follow step
      tree.walk next rest
    else .error (tree.obstacle place)

/-- How many bytes a path has at most. -/
def pathLimit : Nat := 4095

/-- What is wrong with a path wherever it is looked up. -/
def misspelled? (path : Path) : Option FileProblem :=
  if path.text.toList.contains '\x00' then some .zeroInName
  else if pathLimit < path.text.utf8ByteSize then some .nameTooLong
  else none

/-- The place that a path leads to. A place is found even if nothing stands there, but the
directory that holds it has to be there. -/
def locate (tree : FileTree) (path : Path) : Except FileProblem Place :=
  match misspelled? path with
  | some problem => .error problem
  | none =>
    if path.text = "" then .error .notFound
    else tree.walk (.start path) path.steps

/-! ### Operations -/

/-- The text that a path leads to. -/
def read (tree : FileTree) (path : Path) : Except FileProblem String := do
  let place ← tree.locate path
  match tree.texts.find? place with
  | some text => return text
  | none => throw (if tree.isDirectory place then .isDirectory else .notFound)

/-- Makes sure that a place is a directory; if a text stands there, this cannot be. -/
def makeAt (tree : FileTree) (place : Place) (problem : FileProblem) :
    Except FileProblem FileTree :=
  if tree.isDirectory place then .ok tree
  else if tree.isText place then .error problem
  else .ok { tree with directories := tree.directories ++ [place] }

/-- Follows steps, and makes every directory on the way and at the end that is missing. -/
def makeAlong (tree : FileTree) (place : Place) : List String → Except FileProblem FileTree
  | [] => tree.makeAt place .alreadyExists
  | step :: rest => do
    let tree ← tree.makeAt place .notDirectory
    let next ← place.follow step
    tree.makeAlong next rest

/-- Makes the directory that a path leads to, and all on the way. -/
def makeDirectories (tree : FileTree) (path : Path) : Except FileProblem FileTree :=
  match misspelled? path with
  | some problem => .error problem
  | none => tree.makeAlong (.start path) path.steps

/-- Puts a text where a path leads to, in place of the text that may stand there. -/
def write (tree : FileTree) (path : Path) (text : String) : Except FileProblem FileTree := do
  let place ← tree.locate path
  if tree.isDirectory place then throw .isDirectory
  else return { tree with texts := tree.texts.insert place text }

/-! ### Reading what was written -/

/-- Walking does not depend on the texts of the files. -/
theorem walk_insert {tree : FileTree} {texts : Table Place String} {place target : Place}
    {steps : List String} (h : tree.walk place steps = .ok target) :
    ({ tree with texts } : FileTree).walk place steps = .ok target := by
  induction steps generalizing place with
  | nil => exact h
  | cons step rest ih =>
    rw [walk] at h ⊢
    by_cases dir : tree.isDirectory place = true
    · have dir' : ({ tree with texts } : FileTree).isDirectory place = true := dir
      rw [if_pos dir] at h
      rw [if_pos dir']
      cases hf : place.follow step with
      | error problem => rw [hf] at h; cases h
      | ok next => rw [hf] at h; exact ih h
    · rw [if_neg dir] at h; cases h

/-- Neither does finding the place of a path. -/
theorem locate_insert {tree : FileTree} {texts : Table Place String} {path : Path}
    {place : Place} (h : tree.locate path = .ok place) :
    ({ tree with texts } : FileTree).locate path = .ok place := by
  rw [locate] at h ⊢
  cases hm : misspelled? path with
  | some problem => rw [hm] at h; cases h
  | none =>
    rw [hm] at h
    by_cases empty : path.text = ""
    · simp [empty] at h
    · simp only [empty, if_false] at h ⊢
      exact walk_insert h

/-- **What is written to a path is read from it.** -/
theorem read_write {tree tree' : FileTree} {path : Path} {text : String}
    (h : tree.write path text = .ok tree') : tree'.read path = .ok text := by
  cases hl : tree.locate path with
  | error problem => simp [write, hl, bind, Except.bind] at h
  | ok place =>
    by_cases dir : tree.isDirectory place = true
    · simp [write, hl, dir, bind, Except.bind] at h
    · simp only [write, hl, dir, bind, Except.bind] at h
      injection h with h
      subst h
      rw [read, locate_insert hl]
      simp [bind, Except.bind, pure, Except.pure]

end FileTree

end Dashboard
