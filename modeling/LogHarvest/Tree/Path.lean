import LogHarvest.Text.Blank

/-!
# Paths

A path is a text in which slashes separate components.  Two functions look at
the text alone: `Path.join` puts a name behind a folder's path, and
`Path.fileName` gives the last component, if that is a name.
-/

namespace LogHarvest

/-- The text of a path, absolute if it starts with a slash. -/
abbrev Path := String

namespace Path

def isAbsolute (path : Path) : Bool :=
  path.toList.head? == some '/'

def endsInSlash (path : Path) : Bool :=
  path.toList.getLast? == some '/'

/-- A name behind a folder's path; an absolute name replaces the folder. -/
def join (folder : Path) (name : String) : Path :=
  if isAbsolute name || folder.isEmpty then name
  else if endsInSlash folder then folder ++ name
  else folder ++ "/" ++ name

def components (path : Path) : List String :=
  ((Text.pieces (· == '/') path.toList).filter fun piece => !piece.isEmpty).map
    String.ofList

def steps (path : Path) : List String :=
  (components path).filter fun part => part != "."

/-- The last component, unless the path ends in the root or in a parent. -/
def fileName (path : Path) : Option String :=
  match (steps path).getLast? with
  | some part => if part == ".." then none else some part
  | none => none

/-- The path without its last component; the root and the empty path have none. -/
def parent? (path : Path) : Option Path :=
  let parts := steps path
  if parts.isEmpty then none
  else
    let front := Text.joined "/" parts.dropLast
    some (if isAbsolute path then "/" ++ front else front)

end Path
end LogHarvest
