import LogHarvest.Fleet.Fault
import LogHarvest.Run.Fetch
import LogHarvest.Text.Escaped

/-!
# Reports

A command that fails reports what it was about and, below that, every cause behind
the failure.  A run that succeeds is summed up as a JSON object.
-/

namespace LogHarvest
namespace Cli

inductive Concern
  | loading (path : Path)
  | fetching
  | downloading
deriving DecidableEq, Repr

def Concern.message : Concern → String
  | .loading path => "failed to load " ++ path
  | .fetching => "log collection failed"
  | .downloading => "log download failed"

def indented (margin text : String) : String :=
  Text.joined ("\n" ++ margin) (text.splitOn "\n")

def numbered (index : Nat) : String :=
  let digits := toString index
  String.ofList (List.replicate (5 - digits.length) ' ') ++ digits ++ ": "

def causeLines (causes : List String) : List String :=
  match causes with
  | [cause] => ["    " ++ indented "    " cause]
  | _ => causes.zipIdx.map fun (cause, index) => numbered index ++ indented "       " cause

def report (concern : Concern) (fault : FleetFault) : String :=
  "Error: " ++ concern.message ++ "\n\nCaused by:\n" ++
    Text.joined "\n" (causeLines (fault.message :: fault.causes)) ++ "\n"

/-!
## Summaries
-/

def jsonChar (c : Char) : List Char :=
  if c == '"' || c == '\\' then ['\\', c]
  else if c == '\n' then ['\\', 'n']
  else if c == '\r' then ['\\', 'r']
  else if c == '\t' then ['\\', 't']
  else if c == '\x08' then ['\\', 'b']
  else if c == '\x0c' then ['\\', 'f']
  else if c.toNat < 0x20 then
    let digits := Text.hexDigits c.toNat
    ['\\', 'u'] ++ List.replicate (4 - digits.length) '0' ++ digits
  else [c]

def jsonText (text : String) : String :=
  String.ofList ('"' :: text.toList.flatMap jsonChar ++ ['"'])

def summaryText (s : Summary) (started finished : String) : String :=
  let fields : List (String × String) :=
    [("run_dir", jsonText s.folder), ("expected", toString s.expected),
      ("collected", toString s.collected), ("failed", toString s.failed),
      ("total_files", toString s.totalFiles),
      ("cancelled", if s.calledOff then "true" else "false"),
      ("started_at", jsonText started), ("finished_at", jsonText finished)]
  let lines := fields.map fun (name, value) => "  " ++ jsonText name ++ ": " ++ value
  "\x7b\n" ++ Text.joined ",\n" lines ++ "\n\x7d"

end Cli
end LogHarvest
