import LogHarvest.Text.Ascii
import LogHarvest.Text.Blank
import LogHarvest.Text.Utf8

/-!
# The environment

The environment gives texts to names.  A file may add to it: each of its lines has
a name, an equals sign and a value, which may be quoted and may refer to names that
have a value already.  Names that the environment had before keep their values, and
the first line that makes no sense ends the reading.
-/

namespace LogHarvest
namespace Cli

abbrev Environment := List (String × String)

def environmentFile : String := ".env"

def configName : String := "FLEETLOG_CONFIG"

def withoutBlanks (text : List Char) : List Char :=
  text.dropWhile Text.isBlank

/-!
## Lines

A line goes on behind its end where a quote is open or the end is escaped.
-/

/-- Where the end of a line finds the reader. -/
inductive LineState
  | outside
  | blank
  | escape
  | single
  | singleEscape
  | double
  | doubleEscape
  | comment
deriving DecidableEq, Repr

def LineState.next (state : LineState) (c : Char) : LineState :=
  let opened (other : LineState) : LineState :=
    if c == '\\' then .escape
    else if c == '"' then .double
    else if c == '\'' then .single
    else other
  match state with
  | .outside =>
      if Text.isBlank c && c != '\n' && c != '\r' then .blank else opened .outside
  | .blank => if c == '#' then .comment else opened .outside
  | .escape => .outside
  | .double => if c == '\\' then .doubleEscape else if c == '"' then .outside else .double
  | .doubleEscape => .double
  | .single => if c == '\\' then .singleEscape else if c == '\'' then .outside else .single
  | .singleEscape => .single
  | .comment => .comment

/-- The state behind a text, and the part of the text before a comment. -/
def LineState.behind (state : LineState) : List Char → LineState × List Char
  | [] => (state, [])
  | c :: rest =>
      match state.next c with
      | .comment => (.comment, [])
      | state =>
          let (last, taken) := state.behind rest
          (last, c :: taken)

def withoutLineEnd (text : List Char) : List Char :=
  match text.reverse with
  | '\n' :: '\r' :: front => front.reverse
  | '\n' :: front => front.reverse
  | _ => text

/--
Puts lines of a file together where one goes on behind its end; `begun` is what was
begun.  A line that is no text, or that is not brought to an end, is nothing.
-/
def joinLines (state : LineState) (begun : List Char) :
    List (Option (List Char)) → List (Option (List Char))
  | [] => if state == .outside then [] else [none]
  | none :: _ => [none]
  | some line :: rest =>
      let whole := begun ++ line
      if (withoutBlanks whole).head? == some '#' then some [] :: joinLines .outside [] rest
      else
        match state.behind line with
        | (.outside, _) => some (withoutLineEnd whole) :: joinLines .outside [] rest
        | (.comment, taken) => some (begun ++ taken) :: joinLines .outside [] rest
        | (state, _) => joinLines state whole rest

def rawLines (content : Text.Bytes) : List (Option (List Char)) :=
  let (lines, last) :=
    content.foldr
      (fun b (acc : List Text.Bytes × Text.Bytes) =>
        if b == 10 then
          ((if acc.2.isEmpty then acc.1 else acc.2 :: acc.1), [b])
        else (acc.1, b :: acc.2))
      ([], [])
  let lines := if last.isEmpty then lines else last :: lines
  lines.map fun line => (Text.decode? line).map String.toList

/-!
## Values
-/

inductive Reference
  | none
  /-- Behind a dollar sign. -/
  | bare (name : List Char)
  /-- Between braces. -/
  | braced (name : List Char)
deriving DecidableEq, Repr

structure ValueState where
  single : Bool
  double : Bool
  escaped : Bool
  /-- The value is over, and only a comment may follow. -/
  ended : Bool
  reference : Reference
  /-- The value so far, backwards. -/
  taken : List Char

def ValueState.start : ValueState := ⟨false, false, false, false, .none, []⟩

namespace ValueState

def push (s : ValueState) (c : Char) : ValueState :=
  { s with taken := c :: s.taken }

def putIn (s : ValueState) (textOf : String → String) (name : List Char) : ValueState :=
  { s with
    taken := (textOf (String.ofList name.reverse)).toList.reverse ++ s.taken
    reference := .none }

def stepPlain (s : ValueState) (c : Char) : ValueState :=
  if c == '$' then { s with reference := .bare [] }
  else if s.double then
    if c == '"' then { s with double := false }
    else if c == '\\' then { s with escaped := true }
    else s.push c
  else if c == '\'' then { s with single := true }
  else if c == '"' then { s with double := true }
  else if c == '\\' then { s with escaped := true }
  else if c == ' ' || c == '\t' then { s with ended := true }
  else s.push c

/-- A step; nothing comes back where the character makes no sense. -/
def step (textOf : String → String) (s : ValueState) (c : Char) : Option ValueState :=
  if s.ended then if c == ' ' || c == '\t' then some s else none
  else if s.escaped then
    let s := { s with escaped := false }
    if c == 'n' then some (s.push '\n')
    else if "\\'\"$ ".toList.contains c then some (s.push c)
    else none
  else if s.single then
    some (if c == '\'' then { s with single := false } else s.push c)
  else
    match s.reference with
    | .none => some (s.stepPlain c)
    | .bare name =>
        if Text.isAlphanumeric c then some { s with reference := .bare (c :: name) }
        else if c == '\x7b' && name.isEmpty then some { s with reference := .braced [] }
        else
          let s := s.putIn textOf name
          some (if c == '$' then { s with reference := .bare [] } else s.push c)
    | .braced name =>
        if Text.isAlphanumeric c then some { s with reference := .braced (c :: name) }
        else if c == '\x7d' then some (s.putIn textOf name)
        else some { s with reference := .braced (c :: name) }

def finish (textOf : String → String) (s : ValueState) : Option String :=
  let whole (s : ValueState) : String := String.ofList s.taken.reverse
  if s.single || s.double then none
  else
    match s.reference with
    | .none => some (whole s)
    | .bare name => some (whole (s.putIn textOf name))
    | .braced _ => none

end ValueState

def readValue (textOf : String → String) (s : ValueState) : List Char → Option String
  | [] => s.finish textOf
  | c :: rest =>
      if s.ended && c == '#' then s.finish textOf
      else (s.step textOf c).bind fun s => readValue textOf s rest

/-!
## Entries
-/

def takeKey (text : List Char) : Option (String × List Char) :=
  match text with
  | c :: _ =>
      let isLetter (c : Char) : Bool := (Text.isAlphanumeric c && !Text.isDigit c) || c == '_'
      let belongs (c : Char) : Bool := isLetter c || Text.isDigit c || c == '.'
      if isLetter c then some (String.ofList (text.takeWhile belongs), text.dropWhile belongs)
      else none
  | [] => none

def takeEquals (text : List Char) : Option (List Char) :=
  match withoutBlanks text with
  | '=' :: rest => some (withoutBlanks rest)
  | _ => none

/-- What a line says: nothing, a name with its value, or no sense. -/
def readEntry (textOf : String → String) (line : List Char) :
    Option (Option (String × String)) := do
  let line := withoutBlanks line
  if line.isEmpty || line.head? == some '#' then return none
  let (first, rest) ← takeKey line
  let (key, value) ←
    match first == "export", takeEquals rest with
    | _, some value => some (first, value)
    | true, none => do
        let (key, rest) ← takeKey (withoutBlanks rest)
        let value ← takeEquals rest
        some (key, value)
    | false, none => none
  if value.isEmpty || value.head? == some '#' then return some (key, "")
  let value ← readValue textOf .start value
  return some (key, value)

def Environment.textOf (environment : Environment) (name : String) : String :=
  (environment.lookup name).getD ""

/-- Gives a text to a name that has none. -/
def Environment.add (environment : Environment) (name text : String) : Environment :=
  if (environment.lookup name).isSome then environment else environment ++ [(name, text)]

def Environment.withLines (environment : Environment) :
    List (Option (List Char)) → Environment
  | [] | none :: _ => environment
  | some line :: rest =>
      match readEntry environment.textOf line with
      | none => environment
      | some none => environment.withLines rest
      | some (some (name, text)) => (environment.add name text).withLines rest

def Environment.withFile (environment : Environment) (content : Text.Bytes) : Environment :=
  let content :=
    match content with
    | 0xEF :: 0xBB :: 0xBF :: rest => rest
    | _ => content
  environment.withLines (joinLines .outside [] (rawLines content))

end Cli
end LogHarvest
