import PriceAction.Command.Frame

/-!
# Files

What the program needs of a file system, and what it does with paths. The operations run in any
monad, so that the program can be run on files in memory as well.
-/

namespace PriceAction.Command

/-- The operations on files. A failure is told by `none` or `false`. -/
structure FileSystem (m : Type → Type) where
  read? : (path : String) → m (Option Bytes)
  isDirectory : (path : String) → m Bool
  /-- The names in a directory. -/
  list? : (path : String) → m (Option (List String))
  /-- Makes a directory, with those above it, unless it is there. -/
  makeDirectory : (path : String) → m Bool
  write : (path : String) → Bytes → m Bool

namespace Path

/-- Drops slashes and single dots from the end of a path that is written backwards; a path that is
nothing else keeps its first character. -/
def trimEnd : List Char → List Char
  | '/' :: c :: rest => trimEnd (c :: rest)
  | '.' :: '/' :: rest => trimEnd ('/' :: rest)
  | cs => cs
termination_by cs => cs.length

/-- The path to the directory that holds the last name, if there is a name. -/
def parent? (path : String) : Option String :=
  match trimEnd path.toList.reverse with
  | [] => none
  | ['/'] => none
  | cs => some (String.ofList (trimEnd (cs.dropWhile (· ≠ '/'))).reverse)

/-- The path to a name in a directory. -/
def join (directory name : String) : String :=
  if directory.endsWith "/" then directory ++ name else directory ++ "/" ++ name

/-- Whether a file is compressed. -/
def isCompressed (path : String) : Bool := path.endsWith ".zst"

/-- Whether a name in a directory is that of an input. -/
def isInput (name : String) : Bool := name.endsWith ".json" || name.endsWith ".json.zst"

end Path

end PriceAction.Command
