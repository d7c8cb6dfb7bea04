import LogHarvest.Cli.Program
import LogHarvest.Shell.Launch
import LogHarvest.Text.Timestamp

/-!
# The program

The files that a command looks at are read into a tree, the command is carried out
on the tree, and what it changed there is written back.  Sessions are opened by the
program that the configuration names, which is a script.
-/

namespace LogHarvest
namespace Cli

def usage : String :=
  "Collects diagnostic logs from every instance of a fleet\n\n" ++
  "Usage: logharvest [OPTIONS] [CONFIG]\n\n" ++
  "Arguments:\n" ++
  "  [CONFIG]  Fleet configuration file; falls back to $FLEETLOG_CONFIG, then fleetlog.yaml\n\n" ++
  "Options:\n" ++
  "      --artifact-dir <ARTIFACT_DIR>  Copy collected files and the configuration here " ++
    "after the run\n" ++
  "  -h, --help                         Print help\n" ++
  "  -V, --version                      Print version\n"

def versionText : String := "logharvest 0.1.0\n"

/-- A file among the others of a tree; it may be run if it starts as a script does. -/
def withLoaded (t : Tree) (path : Path) (content : Text.Bytes) : Tree :=
  let t :=
    match path.parent? with
    | some above => (t.makeFolders above).2
    | none => t
  match t.write path content with
  | .error _ => t
  | .ok t => if (Text.encode "#!").isPrefixOf content then t.allowRunning path else t

def loadFiles (paths : List Path) (t : Tree) : IO Tree :=
  paths.foldlM
    (fun t path => do
      if (t.read path).isOk then return t
      try
        let content ← IO.FS.readBinFile path
        return withLoaded t path content.toList
      catch _ => return t)
    t

/-- Reads the files that a command looks at; those read first name further ones. -/
def loadTree (arguments : List String) (environment : Environment) (t : Tree) : IO Tree := do
  let load (t : Tree) : IO Tree := loadFiles (filesNeeded arguments environment t) t
  load (← load (← load t))

def clearTree (before after : Tree) : IO Unit := do
  for (place, node) in before.nodes.reverse do
    match node, after.get? place with
    | .folder, some .folder | .file .., some (.file ..) => pure ()
    | .folder, _ => IO.FS.removeDir (Artifact.pathOf place)
    | .file .., _ => IO.FS.removeFile (Artifact.pathOf place)

def storeTree (before after : Tree) : IO Unit := do
  for (place, node) in after.nodes do
    let path := Artifact.pathOf place
    if before.get? place != some node then
      match node with
      | .folder => IO.FS.createDirAll path
      | .file content _ => do
          IO.FS.createDirAll (Artifact.pathOf place.dropLast)
          IO.FS.writeBinFile path ⟨content.toArray⟩

def leadingNumber (text : String) : Nat :=
  Text.decimalValue ((text.toList.dropWhile Text.isBlank).takeWhile Text.isDigit)

/-- The hundredths of a second since 1970: when the machine was started, and how long it is up. -/
def clock : IO Nat := do
  try
    let lines := Text.lines (← IO.FS.readFile "/proc/stat")
    let started := (lines.find? fun line => "btime".toList.isPrefixOf line.toList).getD "btime 0"
    let upTime := (Text.lines (← IO.FS.readFile "/proc/uptime")).headD "0"
    let seconds := leadingNumber (String.ofList (started.toList.drop "btime".length))
    let digits := upTime.toList.takeWhile (· != ' ')
    return seconds * 100 + Text.decimalValue (digits.filter Text.isDigit)
  catch _ => return 0

def randomTexts (count length : Nat) : IO (List String) := do
  let letters := "abcdefghijklmnopqrstuvwxyzABCDEFGHIJKLMNOPQRSTUVWXYZ0123456789".toList
  (List.range count).mapM fun _ => do
    let picks ← (List.range length).mapM fun _ => IO.rand 0 (letters.length - 1)
    return String.ofList (picks.map fun n => letters.getD n 'a')

def environmentNow : IO Environment := do
  match ← IO.getEnv configName with
  | some text => return [(configName, text)]
  | none => return []

def perform (arguments : List String) : IO UInt32 := do
  let environment ← environmentNow
  let here := Path.components (← IO.currentDir).toString
  let base : Tree := { (Tree.empty.makeFolders (Artifact.pathOf here)).2 with here := here }
  let before ← loadTree arguments environment base
  let suffixes ← randomTexts 4096 5
  let supply : Supply Unit :=
    { launch := Shell.launcher
      suffix := fun worker n => suffixes.getD ((worker * 61 + n) % 4096) "aaaaa"
      endings := ← randomTexts 8 6 }
  let started ← clock
  let (outcome, after) := run supply arguments environment ⟨(), before⟩
  clearTree before after.tree
  storeTree before after.tree
  let finished ← clock
  match outcome with
  | .answered .version => IO.print versionText
  | .answered _ => IO.print usage
  | .misused _ => IO.eprint usage
  | .failed concern fault => IO.eprint (report concern fault)
  | .aborted fault => IO.eprintln fault.message
  | .fetched summary =>
      IO.println (summaryText summary (Text.timestamp started) (Text.timestamp finished))
  | .downloaded _ | .stuck => pure ()
  return .ofNat outcome.exitCode

end Cli
end LogHarvest

def main (arguments : List String) : IO UInt32 :=
  LogHarvest.Cli.perform arguments
