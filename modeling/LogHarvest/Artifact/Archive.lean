import LogHarvest.Fleet.Status
import LogHarvest.Tree.Basic

/-!
# Archiving collected files

An archive is a folder with a copy of every recorded file and of the
configuration, each under the last component of its path.  The copies are made
one after the other and stop at the first failure, so what was copied before
stays there.
-/

namespace LogHarvest
namespace Artifact

/-- Where a file is copied to: its own name in the folder, or the folder if it has none. -/
def archivedPath (folder source : Path) : Path :=
  match source.fileName with
  | some name => folder.join name
  | none => folder

def archiveFile (folder : Path) (t : Tree) (source : Path) : Except FleetFault Tree :=
  let destination := archivedPath folder source
  (t.copy source destination).mapError fun cause => .copy source destination cause

/-- Copies files until one fails; the tree is what the copies made of it. -/
def archiveFiles (folder : Path) : List Path → Tree → Except FleetFault Unit × Tree
  | [], t => (.ok (), t)
  | source :: rest, t =>
      match archiveFile folder t source with
      | .ok t' => archiveFiles folder rest t'
      | .error fault => (.error fault, t)

/-- Archives all recorded files and the configuration; the result counts the former. -/
def archive (s : Status) (config folder : Path) (t : Tree) : Except FleetFault Nat × Tree :=
  match t.makeFolders folder with
  | (.error cause, t') => (.error (.setup folder cause), t')
  | (.ok (), t') =>
      let sources := s.allPaths
      match archiveFiles folder (sources ++ [config]) t' with
      | (.ok (), t'') => (.ok sources.length, t'')
      | (.error fault, t'') => (.error fault, t'')

end Artifact
end LogHarvest
