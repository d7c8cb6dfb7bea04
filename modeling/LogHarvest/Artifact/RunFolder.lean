import LogHarvest.Fleet.Fault
import LogHarvest.Tree.Basic

/-!
# The folder of a run

Every run gets a new folder.  Its name is a given start followed by random
letters and digits; if there is such a folder already, other letters are tried.
-/

namespace LogHarvest
namespace Artifact

def pathOf (place : Place) : Path :=
  "/" ++ Text.joined "/" place

def absolute (t : Tree) (path : Path) : Path :=
  if path.isAbsolute then path else (pathOf t.here).join path

def atPath (cause : IoFault) (path : Path) : IoFault :=
  .other (cause.message ++ " at path " ++ Text.quoted path)

/-- Makes the first folder that is not there yet, with one of the given endings. -/
def makeFirst (t : Tree) (base : Path) (start : String) :
    List String → Except IoFault (Path × Tree)
  | [] => .error (atPath (.other "too many temporary files exist") base)
  | letters :: more =>
      let path := base.join (start ++ letters)
      match t.makeFolder path with
      | .ok t' => .ok (path, t')
      | .error cause =>
          if cause == .alreadyExists then makeFirst t base start more
          else .error (atPath cause path)

def allocateFolder (t : Tree) (base : Path) (start : String) (endings : List String) :
    Except FleetFault (Path × Tree) :=
  (makeFirst t (absolute t base) start endings).mapError fun cause => .setup base cause

end Artifact
end LogHarvest
