import LogHarvest.Shell.Run

/-!
# Launching programs

A program is a file that may be run and whose first line names what runs it: a
shell, which makes it a script, or one of the small programs.  The small programs
themselves need no file.
-/

namespace LogHarvest
namespace Shell

def programFolders : List String :=
  ["/bin", "/usr/bin", "/usr/local/bin"]

/-- The names of shells, each with whether it writes escaped characters out. -/
def shells : List (String × Bool) :=
  [("sh", true), ("dash", true), ("bash", false)]

/-- The name of a program of the system, given without folders or in one of its own. -/
def systemName? (program : Path) : Option String :=
  let name := nameOf program ""
  let known :=
    (shells.lookup name).isSome || (tool? name).isSome || name == "env" || name == "sleep"
  if known && (program == name || programFolders.any fun folder => program == folder ++ "/" ++ name)
  then some name else none

def interpreter? (content : Text.Bytes) : Option (String × Option String) :=
  match (Text.decodeLossy (content.takeWhile (· != 10))).toList with
  | '#' :: '!' :: rest =>
      let isGap (c : Char) : Bool := c == ' ' || c == '\t'
      let line := Text.dropLast isGap (rest.dropWhile isGap)
      let program := line.takeWhile (!isGap ·)
      let argument := (line.drop program.length).dropWhile isGap
      if program.isEmpty && content.contains 10 then none
      else
        some (String.ofList program,
          if argument.isEmpty then none else some (String.ofList argument))
  | _ => none

def ranOf (s : State) : Ran :=
  ⟨s.out, s.err, s.ending.getD .unfinished, s.clock⟩

def noTime (limit : Nat) : Ran :=
  ⟨[], [], .unfinished, limit⟩

def runIn (context : Context) (text : String) (arguments : List String) (limit : Nat) (t : Tree) :
    Ran × Tree :=
  let s := runScript text (.start context arguments limit t)
  (ranOf s, { s.tree with here := t.here })

def runShell (program : Path) (escapes : Bool) (arguments : List String) (limit : Nat)
    (t : Tree) : Ran × Tree :=
  match arguments with
  | "-e" :: file :: rest => script true file rest
  | "-o" :: option :: _ => fails ("Illegal option -o " ++ option)
  | "-c" :: text :: rest =>
      runIn (.of (rest.headD program) text escapes) text rest.tail limit t
  | file :: rest => script false file rest
  | [] => (⟨[], [], .exited 0, 0⟩, t)
where
  script (strict : Bool) (file : String) (rest : List String) : Ran × Tree :=
    match t.read file with
    | .ok content =>
        let text := Text.decodeLossy content
        runIn { Context.of file text escapes with strict := strict } text rest limit t
    | .error _ => fails ("cannot open " ++ file)
  fails (message : String) : Ran × Tree :=
    (⟨[], Text.encode (program ++ ": 0: " ++ message ++ "\n"), .exited 2, 0⟩, t)

def optionless : List String := ["true", "false", "echo", "printf", "[", "test"]

def runSystem (program : Path) (name : String) (arguments : List String) (limit : Nat) (t : Tree) :
    Ran × Tree :=
  match shells.lookup name, arguments.head? == some "-o" && !optionless.contains name with
  | some escapes, _ => runShell program escapes arguments limit t
  | none, true =>
      let message :=
        program ++ ": invalid option -- 'o'\nTry '" ++ program ++
          " --help' for more information.\n"
      (⟨[], Text.encode message, .exited (if name == "env" then 125 else 1), 0⟩, t)
  | none, false =>
      let start := State.start (.of name "" false) arguments limit t
      let s :=
        match builtin? name arguments with
        | some act => (act start).2
        | none => start.withStatus 127
      (ranOf (if s.ending.isNone then s.exit s.status else s), s.tree)

def runNamedBy (program : Path) (arguments : List String) (limit : Nat) (t : Tree) : Ran × Tree :=
  match arguments with
  | name :: rest =>
      match systemName? name with
      | some name => runSystem name name rest limit t
      | none =>
          let message := program ++ ": ‘" ++ name ++ "’: No such file or directory\n"
          (⟨[], Text.encode message, .exited 127, 0⟩, t)
  | [] => (⟨[], [], .exited 0, 0⟩, t)

def runProgram (program : Path) (name : String) (arguments : List String) (limit : Nat) (t : Tree) :
    Ran × Tree :=
  if limit == 0 then (noTime limit, t)
  else if name == "env" && arguments.head? != some "-o" then runNamedBy program arguments limit t
  else runSystem program name arguments limit t

def maxArgument : Nat := 131071

def checkArguments (arguments : List String) : Except IoFault Unit :=
  if arguments.any fun a => maxArgument < Text.byteLength a.toList then .error (.system 7)
  else .ok ()

/-- Why a path does not lead to a program; the empty path is the current folder. -/
def missingCause (t : Tree) (path : Path) : IoFault :=
  match t.locate (if path.isEmpty then "." else path) with
  | .ok _ => .accessDenied
  | .error cause => cause

def launch (program : Path) (arguments : List String) (limit : Nat) (t : Tree) :
    Except IoFault (Ran × Tree) := do
  if (program :: arguments).any fun text => text.toList.contains '\x00' then
    .error .nulInProgram
  match t.locate program, systemName? program with
  | .ok (_, .file content true), none =>
      if !program.toList.contains '/' then .error .notFound
      checkArguments arguments
      match interpreter? content with
      | none => .error (.system 8)
      | some (interpreter, argument) =>
          match systemName? interpreter with
          | some name =>
              return runProgram interpreter name (argument.toList ++ program :: arguments) limit t
          | none => .error (missingCause t interpreter)
  | _, some name =>
      checkArguments arguments
      return runProgram program name arguments limit t
  | .ok _, none => .error (if program.toList.contains '/' then .accessDenied else .notFound)
  | .error cause, none => .error (if program.toList.contains '/' then cause else .notFound)

def launcher {σ : Type} : Launcher σ := fun program arguments limit w =>
  match launch program arguments limit w.tree with
  | .ok (ran, tree) => (.ok ran, { w with tree := tree })
  | .error cause => (.error cause, w)

end Shell
end LogHarvest
