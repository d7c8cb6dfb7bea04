import LogHarvest.Text.Utf8
import LogHarvest.Tree.Fault
import LogHarvest.Tree.Path

/-!
# File trees

A tree of folders and files as a value.  A node stands at a place, which is the
list of names from the root down to it.  The operations are those that the
program needs of a file system, with the causes for which each of them fails.

There are no links: every place has one path without `.` and `..`, and a path
is resolved by walking its components from left to right.
-/

namespace LogHarvest

abbrev Place := List String

inductive Node
  | folder
  | file (content : Text.Bytes) (runnable : Bool)
deriving DecidableEq, Repr

structure Tree where
  nodes : List (Place × Node)
  here : Place
deriving Repr

namespace Tree

def empty : Tree := ⟨[], []⟩

def get? (t : Tree) (place : Place) : Option Node :=
  if place.isEmpty then some .folder else t.nodes.lookup place

def put (t : Tree) (place : Place) (node : Node) : Tree :=
  let rec go : List (Place × Node) → List (Place × Node)
    | [] => [(place, node)]
    | (p, n) :: rest => if p == place then (p, node) :: rest else (p, n) :: go rest
  { t with nodes := go t.nodes }

def remove (t : Tree) (place : Place) : Tree :=
  { t with nodes := t.nodes.filter fun entry => entry.1 != place }

def hasFolder (t : Tree) (place : Place) : Bool :=
  t.get? place == some .folder

/-!
## Resolving paths
-/

/-- The longest name of a node, in bytes. -/
def maxName : Nat := 255

/-- The longest path that the system takes, in bytes. -/
def maxPath : Nat := 4095

def descend (t : Tree) (place : Place) (part : String) : Except IoFault Place :=
  match t.get? place with
  | none => .error .notFound
  | some (.file ..) => .error .notFolder
  | some .folder =>
      if part == "." then .ok place
      else if part == ".." then .ok place.dropLast
      else if maxName < Text.byteLength part.toList then .error .nameTooLong
      else .ok (place ++ [part])

def walk (t : Tree) (place : Place) (parts : List String) : Except IoFault Place :=
  parts.foldlM t.descend place

def start (t : Tree) (path : Path) : Place :=
  if path.isAbsolute then [] else t.here

def precheck (path : Path) : Except IoFault Unit :=
  if path.toList.contains '\x00' then .error .nulInName
  else if path.isEmpty then .error .notFound
  else if maxPath < Text.byteLength path.toList then .error .nameTooLong
  else .ok ()

/-- The place of a path, whose last component need not exist. -/
def target (t : Tree) (path : Path) : Except IoFault Place := do
  precheck path
  t.walk (t.start path) path.components

/-- The place of a path that must exist; a path that ends in a slash names a folder. -/
def locate (t : Tree) (path : Path) : Except IoFault (Place × Node) := do
  let place ← t.target path
  match t.get? place with
  | none => .error .notFound
  | some node =>
      match node with
      | .folder => .ok (place, node)
      | .file .. => if path.endsInSlash then .error .notFolder else .ok (place, node)

def isFolder (t : Tree) (path : Path) : Bool :=
  match t.locate path with
  | .ok (_, .folder) => true
  | _ => false

/-!
## Reading and writing
-/

def read (t : Tree) (path : Path) : Except IoFault Text.Bytes := do
  match ← t.locate path with
  | (_, .file content _) => .ok content
  | (_, .folder) => .error .isFolder

def openForWriting (t : Tree) (path : Path) : Except IoFault Place := do
  let place ← t.target path
  if path.endsInSlash || t.hasFolder place then .error .isFolder else .ok place

def runnableAt (t : Tree) (place : Place) : Bool :=
  match t.get? place with
  | some (.file _ runnable) => runnable
  | _ => false

def create (t : Tree) (path : Path) : Except IoFault (Place × Tree) := do
  let place ← t.openForWriting path
  .ok (place, t.put place (.file [] (t.runnableAt place)))

def fill (t : Tree) (place : Place) (content : Text.Bytes) : Tree :=
  t.put place (.file content (t.runnableAt place))

def write (t : Tree) (path : Path) (content : Text.Bytes) : Except IoFault Tree := do
  let (place, t') ← t.create path
  .ok (t'.fill place content)

def allowRunning (t : Tree) (path : Path) : Tree :=
  match t.locate path with
  | .ok (place, .file content _) => t.put place (.file content true)
  | _ => t

/-!
## Folders
-/

def makeFolder (t : Tree) (path : Path) : Except IoFault Tree := do
  let place ← t.target path
  match t.get? place with
  | some _ => .error .alreadyExists
  | none => .ok (t.put place .folder)

/--
Makes a folder and what is missing above it; `depth` bounds the climb.  The tree
that comes back also has the folders that were made before a failure.
-/
def makeFoldersWithin : (depth : Nat) → Tree → Path → Except IoFault Unit × Tree
  | 0, t, _ => (.ok (), t)
  | depth + 1, t, path =>
      if path.isEmpty then (.ok (), t)
      else
        match t.makeFolder path with
        | .ok t' => (.ok (), t')
        | .error fault =>
            if fault == .notFound then
              match path.parent? with
              | none => (.error (.other "failed to create whole tree"), t)
              | some above =>
                  match makeFoldersWithin depth t above with
                  | (.error fault', t') => (.error fault', t')
                  | (.ok (), t') =>
                      match t'.makeFolder path with
                      | .ok t'' => (.ok (), t'')
                      | .error fault' =>
                          (if t'.isFolder path then .ok () else .error fault', t')
            else (if t.isFolder path then .ok () else .error fault, t)

def makeFolders (t : Tree) (path : Path) : Except IoFault Unit × Tree :=
  makeFoldersWithin (path.components.length + 1) t path

/-!
## Copying and renaming
-/

/--
Copies a file: the source is opened, the destination is opened and emptied, and
then the bytes that the source has by now are written.  So a file that is copied
onto itself ends up empty.
-/
def copy (t : Tree) (source destination : Path) : Except IoFault Tree := do
  match ← t.locate source with
  | (_, .folder) => .error .notRegular
  | (origin, .file _ runnable) =>
      let (place, t') ← t.create destination
      match t'.get? origin with
      | some (.file content _) => .ok (t'.put place (.file content runnable))
      | _ => .ok t'

def endsInName (path : Path) : Bool :=
  match path.components.getLast? with
  | some part => part != "." && part != ".."
  | none => false

/-- Moves a file to a path, in place of a file that is there, in one step. -/
def rename (t : Tree) (source destination : Path) : Except IoFault Tree := do
  let (origin, node) ← t.locate source
  let place ← t.target destination
  if !endsInName destination then .error .busy
  else if destination.endsInSlash && node != .folder then .error .notFolder
  else if t.hasFolder place && node != .folder then .error .isFolder
  else .ok ((t.remove origin).put place node)

/-!
## Listing
-/

def isBelow (folder place : Place) : Bool :=
  folder.isPrefixOf place && folder.length < place.length

def filesBelow (t : Tree) (folder : Place) : List (Place × Text.Bytes) :=
  t.nodes.filterMap fun entry =>
    match entry.2 with
    | .file content _ =>
        if isBelow folder entry.1 then some (entry.1.drop folder.length, content) else none
    | .folder => none

def namesIn (t : Tree) (folder : Place) : List String :=
  t.nodes.filterMap fun entry =>
    if isBelow folder entry.1 && entry.1.length == folder.length + 1 then
      entry.1.getLast?
    else none

end Tree
end LogHarvest
