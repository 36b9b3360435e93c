import PriceAction.Command.FileSystem
import PriceAction.Register

/-!
# Files in memory

A tree of files and directories below one root. It behaves as a disk does where the program can
tell: a name below a file leads nowhere, and a path that ends in a slash leads to a directory.
-/

namespace PriceAction.Command

inductive Entry where
  | file (content : Bytes)
  | directory
deriving DecidableEq, Repr

/-- The entries by the names that lead to them, joined by slashes. The root has none. -/
structure Tree where
  entries : Register Entry

namespace Tree

def empty : Tree := ⟨.empty⟩

/-- The key of a place that is reached by names, the last one first. -/
def key (place : List String) : String := "/".intercalate place.reverse

def get? (t : Tree) (place : List String) : Option Entry :=
  if place.isEmpty then some .directory else t.entries.get? (key place)

def insert (t : Tree) (place : List String) (e : Entry) : Tree :=
  ⟨t.entries.insert (key place) e⟩

/-- One step of a path, from a directory. -/
def walk (t : Tree) (place : List String) (name : String) : Option (List String) :=
  if t.get? place ≠ some .directory then none
  else if name = "" ∨ name = "." then some place
  else if name = ".." then some place.tail
  else some (name :: place)

/-- The place that a path leads to from the root; there need not be anything. A path that starts
with a slash leads out of the tree. -/
def resolve? (t : Tree) (path : String) : Option (List String) :=
  if path.startsWith "/" then none else (path.splitOn "/").foldlM t.walk []

/-- What a path leads to. -/
def find? (t : Tree) (path : String) : Option Entry :=
  (t.resolve? path).bind t.get?

def read? (t : Tree) (path : String) : Option Bytes :=
  match t.find? path with
  | some (.file content) => some content
  | _ => none

/-- The names right below a directory. -/
def list? (t : Tree) (path : String) : Option (List String) := do
  let place ← t.resolve? path
  if t.get? place ≠ some .directory then none
  else
    some <| t.entries.keys.filterMap fun k =>
      match (k.splitOn "/").reverse with
      | name :: above => if above = place then some name else none
      | [] => none

/-- One step of a path to a directory that may have to be made. -/
def walkMaking (state : Tree × List String) (name : String) : Option (Tree × List String) := do
  let place ← state.1.walk state.2 name
  match state.1.get? place with
  | none => some (state.1.insert place .directory, place)
  | some .directory => some (state.1, place)
  | some (.file _) => none

def makeDirectory? (t : Tree) (path : String) : Option Tree :=
  if path.startsWith "/" then none
  else ((path.splitOn "/").foldlM walkMaking (t, [])).map (·.1)

def write? (t : Tree) (path : String) (content : Bytes) : Option Tree := do
  let place ← t.resolve? path
  if t.get? place = some .directory then none else some (t.insert place (.file content))

/-- Puts the tree in place of the old one if there is a new one. -/
def replace (new? : Option Tree) : StateM Tree Bool :=
  match new? with
  | some new => do
    set new
    return true
  | none => return false

/-- The operations on files, done in memory. -/
def files : FileSystem (StateM Tree) where
  read? path := return (← get).read? path
  isDirectory path := return (← get).find? path = some .directory
  list? path := return (← get).list? path
  makeDirectory path := do replace ((← get).makeDirectory? path)
  write path content := do replace ((← get).write? path content)

end Tree

end PriceAction.Command
