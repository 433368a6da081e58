import Calculator.Text.Lines

/-!
# Calculator.Files.Tree

A tree of files as far as the calculator can tell: which directories and files there are, what the
files hold, and which directory relative paths start from. Paths are read step by step, so that a
path through something that is no directory leads nowhere.
-/

namespace Calculator

/-- The names on the way from the root to a file or directory. -/
abbrev Path := List String

namespace Path

/-- The steps of a path as it is written. -/
def steps (written : String) : List String :=
  (splitOnChar '/' written.toList).map String.ofList

/-- Whether a path as it is written starts from the root. -/
def isAbsolute (written : String) : Bool := written.toList.head? == some '/'

/-- One step from a directory. -/
def step (path : Path) (name : String) : Path :=
  if name = "" ∨ name = "." then path else if name = ".." then path.dropLast else path ++ [name]

/-- Where steps lead from a directory, whatever is there. -/
def follow (path : Path) (steps : List String) : Path := steps.foldl step path

/-- The path as it is written, from the root on. -/
def text (path : Path) : String := "/" ++ String.intercalate "/" path

def basename (path : Path) : String := path.getLast?.getD ""

end Path

inductive ReadProblem where
  | missing
  | directory
  | unreadable
  deriving DecidableEq, Repr

structure FileTree where
  /-- The directory that relative paths start from. -/
  base : Path
  files : List (Path × String)
  directories : List Path
  deriving Repr

namespace FileTree

def fileAt (tree : FileTree) (path : Path) : Option String := tree.files.lookup path

/-- Whether a directory stands at a path: one that was made, one on the way to something else, or
the base or one above it. -/
def isDirectory (tree : FileTree) (path : Path) : Bool :=
  path.isPrefixOf tree.base || tree.directories.any path.isPrefixOf ||
    tree.files.any fun (file, _) => path.isPrefixOf file.dropLast

/-- Whether a name is short enough, and free of the character that ends names. -/
def nameFits (name : String) : Bool := name.utf8ByteSize ≤ 255 && !name.toList.contains '\x00'

/-- Where steps lead from a directory: each but the last has to lead to a directory. -/
def descend (tree : FileTree) (path : Path) : List String → Except ReadProblem Path
  | [] => .ok path
  | name :: rest =>
    let next := path.step name
    if !nameFits name then .error .unreadable
    else if rest.isEmpty || tree.isDirectory next then tree.descend next rest
    else .error (if (tree.fileAt next).isSome then .unreadable else .missing)

/-- The content of the file that a path as it is written leads to. -/
def read (tree : FileTree) (written : String) : Except ReadProblem String :=
  match tree.descend (if Path.isAbsolute written then [] else tree.base) (Path.steps written) with
  | .error problem => .error problem
  | .ok path =>
    if tree.isDirectory path then .error .directory
    else
      match tree.fileAt path with
      | none => .error .missing
      | some content => .ok content

/-- Puts a file into the list, in place of one at the same path. -/
def put (path : Path) (content : String) : List (Path × String) → List (Path × String)
  | [] => [(path, content)]
  | (other, old) :: rest =>
    if other = path then (path, content) :: rest else (other, old) :: put path content rest

/-- Makes the directories on the way along some steps from a directory, as far as that is possible,
and says whether all of them stand afterwards. -/
def makeAlong (tree : FileTree) (path : Path) : List String → FileTree × Bool
  | [] => (tree, true)
  | name :: rest =>
    let next := path ++ [name]
    if !nameFits name || (tree.fileAt next).isSome then (tree, false)
    else if tree.isDirectory next then tree.makeAlong next rest
    else { tree with directories := tree.directories ++ [next] }.makeAlong next rest

/-- Puts a file at a path, whose directories are made where they are missing, and says whether that
was possible. Directories stay, also where something is in the way of the file. -/
def write (tree : FileTree) (path : Path) (content : String) : FileTree × Bool :=
  match tree.makeAlong [] path.dropLast with
  | (tree, false) => (tree, false)
  | (tree, true) =>
    if nameFits path.basename && !tree.isDirectory path then
      ({ tree with files := put path content tree.files }, true)
    else (tree, false)

/-- The files below the base, by their paths from there. -/
def listing (tree : FileTree) : List (String × String) :=
  tree.files.filterMap fun (path, content) =>
    if tree.base.isPrefixOf path then
      some (String.intercalate "/" (path.drop tree.base.length), content)
    else none

end FileTree
end Calculator
