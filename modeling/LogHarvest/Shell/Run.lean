import LogHarvest.Shell.Arithmetic
import LogHarvest.Shell.Pattern
import LogHarvest.Shell.Reader
import LogHarvest.Shell.State

/-!
# Running scripts

Words are expanded to texts, and commands change the state.  A script that does
not come to an end within the given fuel counts as one that is still running.
-/

namespace LogHarvest
namespace Shell

open Text (Bytes)

/-- A part of an expanded word. -/
inductive Atom
  /-- A text; where it is `active`, blanks split it and signs of patterns count. -/
  | chars (text : String) (active : Bool)
  /-- One text ends here and the next begins. -/
  | cut
  | nothing

def fieldsFrom : (current : Option (List Char)) → List Atom → List String
  | none, [] => []
  | some cs, [] => [String.ofList cs.reverse]
  | current, .nothing :: rest => fieldsFrom current rest
  | current, .cut :: rest => String.ofList (current.getD []).reverse :: fieldsFrom none rest
  | current, .chars text false :: rest =>
      fieldsFrom (some (text.toList.reverse ++ current.getD [])) rest
  | current, .chars text true :: rest =>
      let (current, texts) :=
        text.toList.foldl
          (fun (acc : Option (List Char) × List String) c =>
            if c == ' ' || c == '\t' || c == '\n' then
              match acc.1 with
              | some cs => (none, String.ofList cs.reverse :: acc.2)
              | none => acc
            else (some (c :: acc.1.getD []), acc.2))
          (current, [])
      texts.reverse ++ fieldsFrom current rest

def fields (atoms : List Atom) : List String :=
  let texts := fieldsFrom none atoms
  let isNothing (atom : Atom) : Bool :=
    match atom with
    | .nothing => true
    | _ => false
  if texts == [""] && atoms.any isNothing then [] else texts

def wholeText (atoms : List Atom) : String :=
  String.join
    (atoms.map fun atom =>
      match atom with
      | .chars text _ => text
      | .cut => " "
      | .nothing => "")

def patternOf (atoms : List Atom) : List Glob :=
  atoms.flatMap fun atom =>
    match atom with
    | .chars text true => Glob.ofText (text.length + 1) text.toList
    | .chars text false => text.toList.map .char
    | .cut => [.char ' ']
    | .nothing => []

abbrev Act := StateM State

/-- Runs something whose values are forgotten behind it. -/
def apart (act : Act Unit) : Act Unit := fun s =>
  let s' := (act s).2
  let s'' : State :=
    { s' with
      values := s.values
      functions := s.functions
      arguments := s.arguments
      targets := s.targets
      input := s.input
      flow := s.flow
      tree := { s'.tree with here := s.tree.here } }
  match s'.ending with
  | some (.exited status) => ((), { s'' with ending := none, status := status })
  | _ => ((), s'')

/-- Runs something that may fail in a strict script, if `exempt` says so. -/
def exempted (exempt : Bool) (act : Act Unit) : Act Unit := fun s =>
  let s' := (act { s with tested := s.tested || exempt }).2
  ((), { s' with tested := s.tested })

def captured (act : Act Unit) : Act Bytes := fun s =>
  let s' := (apart act ({ s with out := [] }.aim 1 .out)).2
  (s'.out, { s' with out := s.out, targets := s.targets, outputStatus := s'.status })

def fed (input : Bytes) (act : Act Unit) : Act Unit := fun s =>
  let s' := (act { s with input := input }).2
  ((), { s' with input := s.input })

/-- The text that output is put in as: without the line ends at its end. -/
def outputText (bytes : Bytes) : String :=
  String.ofList (Text.dropLast (· == '\n') (Text.decodeLossy bytes).toList)

def valueAtoms (s : State) (name : String) (quoted : Bool) : List Atom :=
  let each (active : Bool) : List Atom :=
    if s.arguments.isEmpty then [.nothing]
    else (s.arguments.map fun text => [Atom.chars text active]).intersperse [.cut] |>.flatten
  if name == "@" then each (!quoted)
  else if name == "*" && !quoted then each true
  else [.chars ((s.value? name).getD "") (!quoted)]

def millisOf (text : String) : Nat :=
  match Text.Decimal.read? text.toList with
  | some d =>
      if 0 ≤ d.exponent + 3 then d.digits * Nat.pow 10 (d.exponent + 3).toNat
      else d.digits / Nat.pow 10 (-(d.exponent + 3)).toNat
  | none => 0

/-- Sends a signal; only those to the script itself have an effect. -/
def signal (arguments : List String) : Act Unit := modify fun s =>
  match arguments.reverse with
  | number :: options =>
      if number == State.ownNumber && !options.contains "-0" then
        { s with ending := some .signalled }
      else s.withStatus (if number == State.ownNumber then 0 else 1)
  | [] => s.withStatus 2

def setAll (settings : List String) : Act Unit := modify fun s =>
  (settings.foldl
    (fun s setting =>
      let cs := setting.toList
      let name := cs.takeWhile (· != '=')
      if name.length < cs.length then
        s.set (String.ofList name) (String.ofList (cs.drop (name.length + 1)))
      else s)
    s).withStatus 0

/-- Reads a line of the input into values; the last one gets what is left. -/
def readLine (names : List String) : Act Unit := modify fun s =>
  if s.input.isEmpty then s.withStatus 1
  else
    let line := s.input.takeWhile (· != 10)
    let s := { s with input := s.input.drop (line.length + 1) }
    let rec assign : List String → List String → State → State
      | [], _, s => s
      | [name], words, s => s.set name (Text.joined " " words)
      | name :: names, words, s => assign names words.tail (s.set name (words.headD ""))
    let names := names.filter (· != "-r")
    (assign names (Text.words (Text.decodeLossy line)) s).withStatus 0

def changeFolder (name : String) : Act Unit := modify fun s =>
  match s.tree.locate name with
  | .ok (place, .folder) => { s with tree := { s.tree with here := place } }.withStatus 0
  | _ => (s.complainOf "cd: " ("can't cd to " ++ name)).withStatus 2

def builtin? (name : String) (arguments : List String) : Option (Act Unit) :=
  let status : Act Nat := do
    return ((arguments.head?.bind String.toNat?).getD (← get).status)
  match name with
  | ":" | "trap" | "umask" => some (modify (·.withStatus 0))
  | "exit" => some do
      let n ← status
      modify (·.exit n)
  | "return" => some do
      let n ← status
      modify fun s => { s with flow := .leaveFunction, status := n }
  | "break" => some (modify fun s => { s with flow := .leaveLoop, status := 0 })
  | "continue" => some (modify fun s => { s with flow := .nextRound, status := 0 })
  | "shift" =>
      let n := (arguments.head?.bind String.toNat?).getD 1
      some (modify fun s => { s with arguments := s.arguments.drop n, status := 0 })
  | "set" =>
      match arguments with
      | "--" :: rest => some (modify fun s => { s with arguments := rest, status := 0 })
      | ["-e"] | ["-eu"] => some (modify fun s => (s.beStrict true).withStatus 0)
      | ["+e"] => some (modify fun s => (s.beStrict false).withStatus 0)
      | _ => some (modify (·.withStatus 0))
  | "export" | "readonly" | "local" => some (setAll arguments)
  | "unset" =>
      some (modify fun s =>
        { s with values := s.values.filter fun e => !arguments.contains e.1, status := 0 })
  | "read" => some (readLine arguments)
  | "cd" => some (changeFolder (arguments.headD ""))
  | "kill" => some (signal arguments)
  | "sleep" => some (modify fun s => (s.withStatus 0).wait (millisOf (arguments.headD "")))
  | "test" => some (modify fun s =>
      s.withStatus (if s.condition (arguments.length + 1) arguments then 0 else 1))
  | "[" => some (modify fun s =>
      s.withStatus (if s.condition (arguments.length + 1) arguments.dropLast then 0 else 1))
  | "echo" => some (modify fun s => s.useTool name (echo s.context.escapes) arguments)
  | _ => (tool? name).map fun tool => modify (·.useTool name tool arguments)

def isJoined (rest : List Line) : Bool :=
  match rest with
  | .mk .ifSucceeded _ _ :: _ | .mk .ifFailed _ _ :: _ => true
  | _ => false

mutual

def expand : (fuel : Nat) → List Piece → Act (List Atom)
  | 0, _ => return []
  | _, [] => return []
  | fuel + 1, piece :: pieces => do
      let first ← expandPiece fuel piece
      let rest ← expand fuel pieces
      return first ++ rest

def expandPiece : (fuel : Nat) → Piece → Act (List Atom)
  | 0, _ => return []
  | fuel + 1, piece => do
      match piece with
      | .text text quoted => return [.chars text (!quoted)]
      | .output lines quoted => do
          let s ← get
          let bytes ← captured (runLines fuel lines)
          modify (·.withStatus s.status)
          return [.chars (outputText bytes) (!quoted)]
      | .arithmetic pieces => do
          let text := wholeText (← expand fuel pieces)
          let s ← get
          let textOf (name : String) : String := (s.value? name).getD ""
          let (name, text) := settingOf text
          let value := toString (sumValue textOf text)
          if !name.isEmpty then modify (·.set name value)
          return [.chars value false]
      | .value name change quoted => do
          let s ← get
          let value := s.value? name
          let text := (value.getD "").toList
          match change with
          | .none => return valueAtoms s name quoted
          | .length => return [.chars (toString text.length) (!quoted)]
          | .orElse orEmpty word =>
              if value.isNone || (orEmpty && text.isEmpty) then expand fuel word
              else return valueAtoms s name quoted
          | .orSet orEmpty word =>
              if value.isNone || (orEmpty && text.isEmpty) then
                let text := wholeText (← expand fuel word)
                modify (·.set name text)
                return [.chars text (!quoted)]
              else return valueAtoms s name quoted
          | .orFail orEmpty word =>
              if value.isNone || (orEmpty && text.isEmpty) then
                let text := wholeText (← expand fuel word)
                let reason := if text.isEmpty then "parameter not set" else text
                modify fun s => (s.complain (name ++ ": " ++ reason)).exit 2
                return []
              else return valueAtoms s name quoted
          | .instead unlessEmpty word =>
              if value.isNone || (unlessEmpty && text.isEmpty) then return [.chars "" (!quoted)]
              else expand fuel word
          | .dropStart longest pattern => do
              let pattern := patternOf (← expand fuel pattern)
              return [.chars (String.ofList (Glob.dropStart pattern longest text)) (!quoted)]
          | .dropEnd longest pattern => do
              let pattern := patternOf (← expand fuel pattern)
              return [.chars (String.ofList (Glob.dropEnd pattern longest text)) (!quoted)]

def expandWords : (fuel : Nat) → List Word → Act (List String)
  | 0, _ => return []
  | _, [] => return []
  | fuel + 1, word :: words => do
      let first ← expand fuel word
      let rest ← expandWords fuel words
      return fields first ++ rest

def assignAll : (fuel : Nat) → List (String × Word) → Act Unit
  | 0, _ => return ()
  | _, [] => return ()
  | fuel + 1, (name, word) :: rest => do
      let text := wholeText (← expand fuel word)
      modify (·.set name text)
      assignAll fuel rest

def redirectAll : (fuel : Nat) → List Redirect → Act Bool
  | 0, _ => return true
  | _, [] => return true
  | fuel + 1, .mk descriptor direction word :: rest => do
      let name := wholeText (← expand fuel word)
      match (← get).redirect descriptor direction name with
      | .ok s => do
          set s
          redirectAll fuel rest
      | .error cause => do
          modify fun s =>
            (s.complain (State.redirectMessage direction name cause)).withStatus 2
          return false

def runLines : (fuel : Nat) → List Line → Act Unit
  | 0, _ => modify fun s => { s with ending := s.ending.getD .unfinished }
  | _, [] => return ()
  | fuel + 1, .mk joint negated commands :: rest => do
      let s ← get
      let turn :=
        match joint with
        | .always => true
        | .ifSucceeded => s.good
        | .ifFailed => !s.good
      let exempt := negated || isJoined rest
      if s.goesOn && turn then
        exempted exempt (runPipeline fuel commands)
        if negated then modify fun s => s.withStatus (if s.good then 1 else 0)
        if !exempt then modify (·.endIfStrict)
      runLines fuel rest

def runPipeline : (fuel : Nat) → List Command → Act Unit
  | 0, _ => modify fun s => { s with ending := s.ending.getD .unfinished }
  | _, [] => return ()
  | fuel + 1, [command] => runCommand fuel command
  | fuel + 1, command :: rest => do
      let bytes ← captured (runCommand fuel command)
      fed bytes (apart (runPipeline fuel rest))

def runCommand : (fuel : Nat) → Command → Act Unit
  | 0, _ => modify fun s => { s with ending := s.ending.getD .unfinished }
  | fuel + 1, command => do
      let before ← get
      let around (redirects : List Redirect) (act : Act Unit) : Act Unit := do
        if ← redirectAll fuel redirects then act
        modify fun s => { s with targets := before.targets }
        let feeds (redirect : Redirect) : Bool :=
          match redirect with
          | .mk _ direction _ => direction == .read || direction == .text
        if redirects.any feeds then
          modify fun s => { s with input := before.input }
      match command with
      | .define name body =>
          modify fun s => { s with functions := (name, body) :: s.functions, status := 0 }
      | .group false body redirects => around redirects (runLines fuel body)
      | .group true body redirects => around redirects (apart (runLines fuel body))
      | .each name words body redirects =>
          around redirects do
            let texts ←
              match words with
              | some words => expandWords fuel words
              | none => pure (← get).arguments
            modify (·.withStatus 0)
            runEach fuel name body texts
      | .choice subject clauses redirects =>
          around redirects do
            let text := wholeText (← expand fuel subject)
            modify (·.withStatus 0)
            runChoice fuel text.toList clauses
      | .branch clauses otherwise redirects => around redirects (runBranch fuel clauses otherwise)
      | .loop untilSuccess condition body redirects =>
          around redirects (runLoop fuel untilSuccess condition body 0)
      | .simple below settings words redirects => do
          modify fun s => s.atCommand below
          let texts ← expandWords fuel words
          if !(← get).goesOn then return
          match texts with
          | [] =>
              around redirects do
                assignAll fuel settings
                modify fun s => s.withStatus s.outputStatus
          | ["exec"] => do
              let _ ← redirectAll fuel redirects
          | name :: arguments => do
              let values := (← get).values
              assignAll fuel settings
              around redirects (runNamed fuel name arguments)
              if !settings.isEmpty then modify fun s => { s with values := values }

def runNamed : (fuel : Nat) → String → List String → Act Unit
  | 0, _, _ => modify fun s => { s with ending := s.ending.getD .unfinished }
  | fuel + 1, name, arguments => do
      let s ← get
      match s.functions.lookup name with
      | some body => do
          modify fun s => { s with arguments := arguments }
          runCommand fuel body
          modify fun s' =>
            { s' with
              arguments := s.arguments
              flow := if s'.flow == .leaveFunction then .on else s'.flow }
      | none =>
          match name, arguments with
          | "exec", name :: arguments => do
              modify fun s => { s with context := { s.context with around := "exec: " } }
              runNamed fuel name arguments
              modify fun s => if s.ending.isNone then s.exit s.status else s
          | "command", ["-v", name] =>
              modify fun s =>
                let known := (builtin? name []).isSome || ["sh", "dash", "bash"].contains name
                if known || (s.functions.lookup name).isSome then
                  (s.withStatus 0).write 1 (Text.encode (name ++ "\n"))
                else s.withStatus 127
          | "command", name :: arguments => runNamed fuel name arguments
          | "sh", "-c" :: text :: rest | "dash", "-c" :: text :: rest
          | "bash", "-c" :: text :: rest =>
              let context := Context.of (rest.headD name) text (name != "bash")
              apart (runText fuel text (modify fun s =>
                { s with
                  values := []
                  functions := []
                  arguments := rest.tail
                  context := context }))
              modify fun s' => { s' with context := s.context }
          | "eval", words =>
              let text := Text.joined " " words
              runText fuel text
                (modify fun s => { s with context := s.context.within text "eval: " })
              modify fun s' => { s' with context := s.context }
          | _, _ =>
              let short := if name.toList.head? == some '/' then nameOf name "" else name
              match builtin? short arguments with
              | some act => act
              | none => modify fun s => (s.complain (name ++ ": not found")).withStatus 127

def runText : (fuel : Nat) → String → Act Unit → Act Unit
  | 0, _, _ => modify fun s => { s with ending := s.ending.getD .unfinished }
  | fuel + 1, text, prepare => do
      prepare
      match readScript text with
      | some lines => do
          modify (·.withStatus 0)
          runLines fuel lines
      | none => modify fun s => (s.complain "Syntax error").exit 2

def runEach : (fuel : Nat) → String → List Line → List String → Act Unit
  | 0, _, _, _ => modify fun s => { s with ending := s.ending.getD .unfinished }
  | _, _, _, [] => return ()
  | fuel + 1, name, body, text :: texts => do
      modify (·.set name text)
      runLines fuel body
      let s ← get
      if s.flow == .leaveLoop then set { s with flow := .on }
      else if s.flow == .nextRound || s.goesOn then
        set { s with flow := .on }
        runEach fuel name body texts

def runChoice : (fuel : Nat) → List Char → List (List Word × List Line) → Act Unit
  | 0, _, _ => modify fun s => { s with ending := s.ending.getD .unfinished }
  | _, _, [] => return ()
  | fuel + 1, text, (patterns, body) :: clauses => do
      if ← fitsAny fuel text patterns then runLines fuel body
      else runChoice fuel text clauses

def fitsAny : (fuel : Nat) → List Char → List Word → Act Bool
  | 0, _, _ => return false
  | _, _, [] => return false
  | fuel + 1, text, word :: words => do
      let pattern := patternOf (← expand fuel word)
      if Glob.fits pattern text then return true else fitsAny fuel text words

def runBranch : (fuel : Nat) → List (List Line × List Line) → List Line → Act Unit
  | 0, _, _ => modify fun s => { s with ending := s.ending.getD .unfinished }
  | fuel + 1, [], otherwise => do
      modify (·.withStatus 0)
      runLines fuel otherwise
  | fuel + 1, (condition, body) :: clauses, otherwise => do
      exempted true (runLines fuel condition)
      let s ← get
      if s.goesOn then
        if s.good then runLines fuel body else runBranch fuel clauses otherwise

def runLoop : (fuel : Nat) → (untilSuccess : Bool) → List Line → List Line → (status : Nat) →
    Act Unit
  | 0, _, _, _, _ => modify fun s => { s with ending := s.ending.getD .unfinished }
  | fuel + 1, untilSuccess, condition, body, status => do
      exempted true (runLines fuel condition)
      let s ← get
      if s.goesOn then
        if s.good == untilSuccess then set (s.withStatus status)
        else do
          runLines fuel body
          let s ← get
          if s.flow == .leaveLoop then set { s with flow := .on }
          else if s.flow == .nextRound || s.goesOn then
            set { s with flow := .on }
            runLoop fuel untilSuccess condition body s.status

end

def scriptFuel : Nat := 100000

def runScript (text : String) (s : State) : State :=
  match readScript text with
  | none => (s.complain "Syntax error").exit 2
  | some lines =>
      let s := (runLines scriptFuel lines s).2
      if s.ending.isNone then s.exit s.status else s

end Shell
end LogHarvest
