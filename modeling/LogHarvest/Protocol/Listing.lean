import LogHarvest.Protocol.Command
import LogHarvest.Text.Blank

/-!
# Reading listings

A listing of services is a table of words: the unit, whether it is loaded,
whether it is active, and more; a status bullet may stand before the unit.  A
listing of files has one path on each line.  Both come from the instance, and
whatever characters a unit or a path has, the shell must read it back as one
word.
-/

namespace LogHarvest
namespace Protocol

/-!
## Services
-/

/-- The marks that a table puts before units in a particular state. -/
def bullets : List String := ["●", "*", "×"]

/-- The fewest words of a line about a service. -/
def fewestFields : Nat := 5

def rowFields (line : String) : List String :=
  match Text.words line with
  | first :: rest => if bullets.contains first then rest else first :: rest
  | [] => []

/-- The unit of a line, if the line is about a service that is there and active. -/
def unitOf? (line : String) : Option String :=
  match rowFields line with
  | unit :: load :: active :: rest =>
      if rest.length + 3 < fewestFields then none
      else if load == "not-found" || active == "inactive" then none
      else some unit
  | _ => none

def selectedUnits (table : String) : List String :=
  (Text.lines table).filterMap unitOf?

def firsts : List String → List String
  | [] => []
  | x :: rest => x :: (firsts rest).filter fun y => y != x

def journalCommand (unit : String) : LogCommand :=
  ⟨"sudo journalctl --no-pager --output=cat -u " ++ Text.quoteWord unit,
    unit ++ ".out.log", none⟩

def journalCommands (table : String) : List LogCommand :=
  (firsts (selectedUnits table)).map journalCommand

/-!
## Files
-/

/-- A path as one name: without slashes in front, and with hyphens for the others. -/
def flatName (path : Path) : String :=
  String.ofList
    ((path.toList.dropWhile (· == '/')).map fun c => if c == '/' then '-' else c)

def readCommand (path : Path) : LogCommand :=
  ⟨"sudo cat " ++ Text.quoteWord path, path.fileName.getD (flatName path),
    some (flatName path)⟩

def pathOf? (line : String) : Option Path :=
  let path := String.ofList (Text.dropLast (· == '\r') line.toList)
  if Text.isAllBlank path then none else some path

def readCommands (listing : String) : List LogCommand :=
  ((Text.lines listing).filterMap pathOf?).map readCommand

def Discovery.expand (d : Discovery) (listing : String) : List LogCommand :=
  match d with
  | .serviceUnits => journalCommands listing
  | .varLogFiles => readCommands listing

end Protocol
end LogHarvest
