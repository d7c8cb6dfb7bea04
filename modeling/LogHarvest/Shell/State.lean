import LogHarvest.Session.Program
import LogHarvest.Shell.Command
import LogHarvest.Shell.Tool

/-!
# The state of a script

A script has values, arguments and files, and writes to descriptors.  Its time is
counted in milliseconds; only waiting takes time, and when the time is up the
script goes no further.
-/

namespace LogHarvest
namespace Shell

open Text (Bytes)

inductive Target
  | out
  | err
  | file (place : Place)
  | nowhere
deriving DecidableEq, Repr

inductive Flow
  | on
  | leaveLoop
  | nextRound
  | leaveFunction
deriving DecidableEq, Repr

structure Context where
  name : String
  /-- The number of line ends in the text. -/
  lines : Nat
  line : Nat
  /-- What messages call the command around the current one. -/
  around : String
  /-- The script writes escaped characters as what they stand for. -/
  escapes : Bool
  /-- A command that fails ends the script, unless it is part of a condition. -/
  strict : Bool
deriving DecidableEq, Repr

def Context.of (name text : String) (escapes : Bool) : Context :=
  ⟨name, text.toList.count '\n', 1, "", escapes, false⟩

def Context.within (c : Context) (text around : String) : Context :=
  { c with lines := text.toList.count '\n', line := 1, around := around }

structure State where
  tree : Tree
  values : List (String × String)
  functions : List (String × Command)
  arguments : List String
  context : Context
  /-- The current commands are part of a condition. -/
  tested : Bool
  status : Nat
  /-- The status of the last commands whose output was put into a word. -/
  outputStatus : Nat
  input : Bytes
  out : Bytes
  err : Bytes
  targets : List (Nat × Target)
  clock : Nat
  limit : Nat
  flow : Flow
  ending : Option Ending

namespace State

/-- The number of the process, as scripts see it. -/
def ownNumber : String := "4242"

def start (context : Context) (arguments : List String) (limit : Nat) (tree : Tree) :
    State where
  tree := tree
  values := []
  functions := []
  arguments := arguments
  context := context
  tested := false
  status := 0
  outputStatus := 0
  input := []
  out := []
  err := []
  targets := [(1, .out), (2, .err)]
  clock := 0
  limit := limit
  flow := .on
  ending := none

def goesOn (s : State) : Bool :=
  s.ending.isNone && s.flow == .on

def good (s : State) : Bool :=
  s.status == 0

def withStatus (s : State) (status : Nat) : State :=
  { s with status := status }

def beStrict (s : State) (strict : Bool) : State :=
  { s with context := { s.context with strict := strict } }

def atCommand (s : State) (below : Nat) : State :=
  { s with outputStatus := 0, context := { s.context with line := s.context.lines + 1 - below } }

def set (s : State) (name text : String) : State :=
  { s with values := (name, text) :: s.values.filter fun entry => entry.1 != name }

def value? (s : State) (name : String) : Option String :=
  match name with
  | "#" => some (toString s.arguments.length)
  | "?" => some (toString s.status)
  | "$" => some ownNumber
  | "0" => some s.context.name
  | "@" | "*" => if s.arguments.isEmpty then none else some (Text.joined " " s.arguments)
  | "-" | "!" => some ""
  | _ =>
      match name.toNat? with
      | some n => s.arguments[n - 1]?
      | none => s.values.lookup name

def write (s : State) (descriptor : Nat) (bytes : Bytes) : State :=
  match s.targets.lookup descriptor with
  | some .out => { s with out := s.out ++ bytes }
  | some .err => { s with err := s.err ++ bytes }
  | some (.file place) =>
      match s.tree.get? place with
      | some (.file content _) => { s with tree := s.tree.fill place (content ++ bytes) }
      | _ => s
  | some .nowhere | none => s

def complainOf (s : State) (command message : String) : State :=
  s.write 2
    (Text.encode
      (s.context.name ++ ": " ++ toString s.context.line ++ ": " ++ command ++ message ++ "\n"))

def complain (s : State) (message : String) : State :=
  s.complainOf s.context.around message

/-- Lets time pass; the script ends when its time is up. -/
def wait (s : State) (millis : Nat) : State :=
  let s := { s with clock := s.clock + millis }
  if s.limit ≤ s.clock then { s with ending := some .unfinished } else s

def exit (s : State) (status : Nat) : State :=
  { s with ending := some (.exited (status % 256)), status := status % 256 }

def endIfStrict (s : State) : State :=
  if s.context.strict && !s.tested && !s.good && s.goesOn then s.exit s.status else s

def take (s : State) (done : Done) : State :=
  (({ s with tree := done.tree, status := done.status }.write 1 done.out).write 2 done.err)

/-- The small programs that read the input when they are not told what else to read. -/
def readers : List String := ["cat", "head", "tail", "tr", "wc"]

def useTool (s : State) (name : String) (tool : Task → Done) (arguments : List String) : State :=
  let s' := s.take (tool ⟨arguments, s.input, s.tree⟩)
  if readers.contains name then { s' with input := [] } else s'

/-!
## Redirections
-/

def aim (s : State) (descriptor : Nat) (target : Target) : State :=
  { s with targets := (descriptor, target) :: s.targets.filter fun entry => entry.1 != descriptor }

def aimAtNew (s : State) (descriptor : Nat) (name : String) : Except IoFault State := do
  let (place, tree) ← s.tree.create name
  return { s with tree := tree }.aim descriptor (.file place)

def redirect (s : State) (descriptor : Nat) (direction : Direction) (name : String) :
    Except IoFault State :=
  match direction with
  | .write =>
      if name == "/dev/null" then .ok (s.aim descriptor .nowhere) else s.aimAtNew descriptor name
  | .append =>
      if name == "/dev/null" then .ok (s.aim descriptor .nowhere)
      else
        match s.tree.locate name with
        | .ok (place, .file ..) => .ok (s.aim descriptor (.file place))
        | .ok (_, .folder) => .error .isFolder
        | .error _ => s.aimAtNew descriptor name
  | .read =>
      if name == "/dev/null" then .ok { s with input := [] }
      else do
        let bytes ← s.tree.read name
        return { s with input := bytes }
  | .text => .ok { s with input := Text.encode name }
  | .copy =>
      match name.toNat? with
      | some other =>
          match s.targets.lookup other with
          | some target => .ok (s.aim descriptor target)
          | none => .error (.system 9)
      | none => .ok (s.aim descriptor .nowhere)

def redirectMessage (direction : Direction) (name : String) (cause : IoFault) : String :=
  let opening := direction == .read
  let reason :=
    if cause == .notFound then (if opening then "No such file" else "Directory nonexistent")
    else plainMessage cause
  (if opening then "cannot open " else "cannot create ") ++ name ++ ": " ++ reason

/-!
## Conditions
-/

def fileTest (s : State) (option name : String) : Bool :=
  match s.tree.locate name with
  | .error _ => option == "-e" && name == "/dev/null"
  | .ok (_, node) =>
      match option, node with
      | "-f", .file .. => name != "/dev/null"
      | "-d", .folder => true
      | "-s", .file content _ => !content.isEmpty
      | "-x", .file _ runnable => runnable
      | "-x", .folder => true
      | "-e", _ | "-r", _ | "-w", _ => true
      | _, _ => false

def compareTest (a operator b : String) : Bool :=
  let number (text : String) : Int := (Text.trim text).toInt?.getD 0
  match operator with
  | "=" | "==" => a == b
  | "!=" => a != b
  | "-eq" => number a == number b
  | "-ne" => number a != number b
  | "-lt" => number a < number b
  | "-le" => number a ≤ number b
  | "-gt" => number b < number a
  | "-ge" => number b ≤ number a
  | _ => false

def condition (s : State) : (fuel : Nat) → List String → Bool
  | 0, _ => false
  | fuel + 1, words =>
      match words with
      | [] => false
      | [a] => !a.isEmpty
      | ["!", a] => a.isEmpty
      | ["-z", a] => a.isEmpty
      | ["-n", a] => !a.isEmpty
      | [option, name] => s.fileTest option name
      | [a, operator, b] =>
          if operator == "-a" then !a.isEmpty && !b.isEmpty
          else if operator == "-o" then !a.isEmpty || !b.isEmpty
          else if a == "!" then !s.condition fuel [operator, b]
          else compareTest a operator b
      | "!" :: rest => !s.condition fuel rest
      | _ =>
          let before (operator : String) := words.takeWhile (· != operator)
          let behind (operator : String) := (words.dropWhile (· != operator)).drop 1
          if words.contains "-o" then
            s.condition fuel (before "-o") || s.condition fuel (behind "-o")
          else if words.contains "-a" then
            s.condition fuel (before "-a") && s.condition fuel (behind "-a")
          else false

end State
end Shell
end LogHarvest
