import LogHarvest.Tree.Path

/-!
# Arguments

The command line is `[CONFIG] [--artifact-dir DIR]`: at most one name of a
configuration, and at most one folder for copies.  Arguments are read from left to
right, so a question for help counts if nothing before it is wrong.
-/

namespace LogHarvest
namespace Cli

inductive Request
  /-- A run, with the name of a configuration and a folder for copies. -/
  | run (config : Option String) (artifacts : Option Path)
  | help
  | version
deriving DecidableEq, Repr

inductive UsageFault
  | unknownOption (argument : String)
  | unexpectedArgument (argument : String)
  | unexpectedValue (value : String)
  | missingValue
  | repeatedOption
deriving DecidableEq, Repr

/-- The option whose value may still follow. -/
inductive Pending
  | none
  | needsValue
  /-- The value was the argument before, and has not been looked at. -/
  | hasValue (value : String)
deriving DecidableEq, Repr

structure Reading where
  config : Option String
  artifacts : Option Path
  pending : Pending
  /-- Everything that follows is a name. -/
  namesOnly : Bool
deriving DecidableEq, Repr

namespace Reading

def start : Reading := ⟨.none, .none, .none, false⟩

def takeFolder (r : Reading) (value : String) : Except UsageFault Reading :=
  if r.artifacts.isSome then .error .repeatedOption
  else if value.isEmpty then .error .missingValue
  else .ok { r with artifacts := some value, pending := .none }

def settle (r : Reading) : Except UsageFault Reading :=
  match r.pending with
  | .none => .ok r
  | .needsValue => .error .missingValue
  | .hasValue value => r.takeFolder value

def takeConfig (r : Reading) (name : String) : Except UsageFault Reading := do
  let r ← r.settle
  if r.config.isSome then .error (.unexpectedArgument name)
  else .ok { r with config := some name }

end Reading

inductive Spelling
  | separator
  /-- A long option, with the value that is attached to it. -/
  | long (name : String) (value : Option String)
  /-- A short option, with what is attached to it. -/
  | short (letter : Char)
  | plain
deriving DecidableEq, Repr

def Spelling.of (argument : String) : Spelling :=
  match argument.toList with
  | ['-', '-'] => .separator
  | '-' :: '-' :: rest =>
      let name := rest.takeWhile (· != '=')
      let value :=
        if name.length < rest.length then some (String.ofList (rest.drop (name.length + 1)))
        else none
      .long (String.ofList name) value
  | '-' :: letter :: _ => .short letter
  | _ => .plain

def question? (spelling : Spelling) : Option Request :=
  match spelling with
  | .long "help" none | .short 'h' => some .help
  | .long "version" none | .short 'V' => some .version
  | _ => none

def readOn (r : Reading) : List String → Except UsageFault Request
  | [] => do
      let r ← r.settle
      .ok (.run r.config r.artifacts)
  | argument :: rest => do
      if r.namesOnly then readOn (← r.takeConfig argument) rest
      else
        let spelling := Spelling.of argument
        match question? spelling, spelling with
        | some request, _ => do
            let _ ← r.settle
            .ok request
        | none, .separator => readOn { r with namesOnly := true } rest
        | none, .long "artifact-dir" (some value) => do
            readOn (← (← r.settle).takeFolder value) rest
        | none, .long "artifact-dir" none => do
            readOn { (← r.settle) with pending := .needsValue } rest
        | none, .long name (some value) =>
            .error
              (if name == "help" || name == "version" then .unexpectedValue value
              else .unknownOption argument)
        | none, .long _ none | none, .short _ => .error (.unknownOption argument)
        | none, .plain =>
            if r.pending == .needsValue then
              readOn { r with pending := .hasValue argument } rest
            else readOn (← r.takeConfig argument) rest

def Request.ofArguments (arguments : List String) : Except UsageFault Request :=
  readOn .start arguments

end Cli
end LogHarvest
