import CpkProvenance.Bytes.Utf8
import CpkProvenance.Text.Cut

/-!
# Paths

The text of a path: the steps that it takes through a tree of directories, the
file name at its end, the path of a file in a directory, and the path of the
directory of a file. Nothing here looks at a file system. A path is text, so that
names which are not well-formed UTF-8 are left out, and so are drive letters: a
slash is the only separator.
-/

namespace CpkProvenance.Path

/-- One step of a path, taken in a directory. -/
inductive Step
  | stay
  | up
  | down (name : String)
  deriving DecidableEq, Repr

def Step.ofPiece (piece : List Char) : Step :=
  if piece = [] ∨ piece = ['.'] then .stay
  else if piece = ['.', '.'] then .up
  else .down (String.ofList piece)

def steps (path : String) : List Step :=
  (Text.splitAll '/' path.toList).map Step.ofPiece

def isAbsolute (path : String) : Bool :=
  path.toList.head? = some '/'

/-- The name at the end of a path, if the last step that moves goes down. -/
def fileName? (path : String) : Option String :=
  match ((steps path).filter (· ≠ .stay)).getLast? with
  | some (.down name) => some name
  | _ => none

/-- How messages and documents call a file: by its name, or by the whole path if
that has none. -/
def label (path : String) : String :=
  (fileName? path).getD path

def join (directory name : String) : String :=
  match directory.toList.getLast? with
  | none => name
  | some '/' => directory ++ name
  | some _ => directory ++ "/" ++ name

def directory (path : String) : String :=
  let isStay (piece : List Char) : Bool := Step.ofPiece piece == .stay
  let pieces := (Text.splitAll '/' path.toList).reverse.dropWhile isStay
  match ((pieces.drop 1).dropWhile isStay).reverse with
  | [] => if isAbsolute path then "/" else "."
  | pieces => "/".intercalate (pieces.map String.ofList)

def size (path : String) : Nat :=
  Utf8.size path.toList

def longestPath : Nat := 4095

def longestName : Nat := 255

/-- A path without the slashes at its end. -/
def dropSlashes (path : String) : String :=
  String.ofList (path.toList.reverse.dropWhile (· == '/')).reverse

end CpkProvenance.Path
