import LogHarvest.Fleet.Instance
import LogHarvest.Text.Ascii
import LogHarvest.Text.Utf8

/-!
# Names of collected files

The files of all instances of a run stand in one folder.  The name of a file
starts with a mark of its instance, goes on with the name that the command asks
for, and is shortened if it gets too long for a file system.
-/

namespace LogHarvest
namespace Artifact

/-!
## The mark of an instance
-/

/-- The parts of cloud host names that say nothing about the instance. -/
def hostNoise : List String :=
  ["ec2", "computeamazonaws", "computeinternal", "amazonaws"]

def hostLength : Nat := 7

/--
The text without the occurrences of a part, found from left to right; `skip`
characters belong to the occurrence found last.
-/
def eraseFrom (part : List Char) : (skip : Nat) → List Char → List Char
  | _, [] => []
  | skip + 1, _ :: rest => eraseFrom part skip rest
  | 0, c :: rest =>
      if part.isPrefixOf (c :: rest) then eraseFrom part (part.length - 1) rest
      else c :: eraseFrom part 0 rest

def shortHost (host : String) : List Char :=
  let plain := (host.toList.filter Text.isAlphanumeric).map Text.lowered
  (hostNoise.foldl (fun cs noise => eraseFrom noise.toList 0 cs) plain).take hostLength

def namePrefix (i : Instance) : String :=
  i.id ++ "-" ++ String.ofList (shortHost i.publicName) ++ "-"

/-!
## Shortening

A name of `longName` bytes or more is cut after whole characters, and gets five
random characters and its old extension, if that is short.
-/

def longName : Nat := 240

def keptName : Nat := 230

def longestExtension : Nat := 16

/-- The longest start of whole characters within so many bytes. -/
def takeBytes : (bytes : Nat) → List Char → List Char
  | _, [] => []
  | bytes, c :: rest =>
      if c.utf8Size ≤ bytes then c :: takeBytes (bytes - c.utf8Size) rest else []

def fromLastPoint : List Char → List Char
  | [] => []
  | c :: rest =>
      if rest.contains '.' then fromLastPoint rest
      else if c == '.' then c :: rest
      else []

def extension (name : List Char) : List Char :=
  let found := fromLastPoint name
  if Text.byteLength found ≤ longestExtension then found else []

def isLong (name : String) : Bool :=
  longName ≤ Text.byteLength name.toList

/-- The name as a file system can hold it; a long one is told apart by the suffix. -/
def shorten (suffix : String) (name : String) : String :=
  if isLong name then
    let cs := name.toList
    String.ofList (takeBytes keptName cs ++ suffix.toList ++ extension cs)
  else name

end Artifact
end LogHarvest
