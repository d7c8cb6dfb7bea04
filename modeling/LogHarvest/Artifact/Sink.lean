import LogHarvest.Artifact.Name
import LogHarvest.Collect.Fault
import LogHarvest.Tree.Basic

/-!
# Writing the files of one instance

A sink writes the outputs of one instance into the folder of a run.  It hands out
each file name once: a name that was handed out gives way to a fallback, and then
to numbered variants.
-/

namespace LogHarvest
namespace Artifact

/-- Where the outputs of one instance go, and the names handed out so far. -/
structure Sink where
  folder : Path
  mark : String
  id : String
  claimed : List String
deriving DecidableEq, Repr

namespace Sink

def new (folder : Path) (i : Instance) : Sink :=
  ⟨folder, namePrefix i, i.id, []⟩

/-!
## Handing out names
-/

def numbered (base : String) (n : Nat) : String :=
  base ++ "." ++ toString n

def freshNumber (claimed : List String) (base : String) : Nat :=
  let candidates := (List.range (claimed.length + 1)).map (· + 1)
  (candidates.find? fun n => !claimed.contains (numbered base n)).getD (claimed.length + 1)

def choose (claimed : List String) (name : String) (fallback : Option String) : String :=
  let wanted := name :: fallback.toList
  match wanted.find? fun candidate => !claimed.contains candidate with
  | some candidate => candidate
  | none =>
      let base := fallback.getD name
      numbered base (freshNumber claimed base)

def claim (s : Sink) (name : String) (fallback : Option String) : String × Sink :=
  let chosen := choose s.claimed name fallback
  (chosen, { s with claimed := chosen :: s.claimed })

/-!
## Writing
-/

def pathFor (s : Sink) (suffix name : String) : Path :=
  s.folder.join (shorten suffix (s.mark ++ name))

/--
Writes an output under a name that was handed out.  The file is created first;
`flaw` is the cause for which the created file cannot be filled, if there is one.
-/
def write (s : Sink) (suffix name : String) (data : Text.Bytes) (flaw : Option IoFault)
    (t : Tree) : Except CollectFault Path × Tree :=
  let path := s.pathFor suffix name
  match t.create path with
  | .error cause => (.error (.createFile path s.id cause), t)
  | .ok (place, t') =>
      match flaw with
      | some cause => (.error (.writeFile path s.id cause), t')
      | none => (.ok path, t'.fill place data)

end Sink
end Artifact
end LogHarvest
