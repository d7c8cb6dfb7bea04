import LogHarvest.Yaml.Style

/-!
# Values and their text

A value is what a document says, without the choices that a writer of documents
has.  `Value.render` makes these choices: blocks with an indentation of two
columns, and sequences in the column of the key before them.
-/

namespace LogHarvest
namespace Yaml

inductive Value
  | null
  | flag (value : Bool)
  | natural (value : Nat)
  | number (value : Float)
  | text (value : String)
  | sequence (items : List Value)
  | mapping (entries : List (String × Value))
deriving Inhabited

def spaces (n : Nat) : List Char :=
  List.replicate n ' '

def indentStep : Nat := 2

/-!
## Scalars
-/

def escapeLetter? (c : Char) : Option Char :=
  match c with
  | '\x00' => some '0'
  | '\x07' => some 'a'
  | '\x08' => some 'b'
  | '\t' => some 't'
  | '\n' => some 'n'
  | '\x0b' => some 'v'
  | '\x0c' => some 'f'
  | '\r' => some 'r'
  | '\x1b' => some 'e'
  | '"' => some '"'
  | '\\' => some '\\'
  | '\x85' => some 'N'
  | '\xa0' => some '_'
  | '\u2028' => some 'L'
  | '\u2029' => some 'P'
  | _ => none

def hexDigits (width n : Nat) : List Char :=
  let digits := (Nat.toDigits 16 n).map Char.toUpper
  List.replicate (width - digits.length) '0' ++ digits

def escaped (c : Char) : List Char :=
  if isShown c && !isBreak c && c != '"' && c != '\\' then [c]
  else
    match escapeLetter? c with
    | some letter => ['\\', letter]
    | none =>
        let n := c.toNat
        if n ≤ 0xFF then '\\' :: 'x' :: hexDigits 2 n
        else if n ≤ 0xFFFF then '\\' :: 'u' :: hexDigits 4 n
        else '\\' :: 'U' :: hexDigits 8 n

/-- The text with an indentation in front of every line that is not empty. -/
def indented (indent : Nat) : (atStart : Bool) → List Char → List Char
  | _, [] => []
  | atStart, c :: rest =>
      if isBreak c then c :: indented indent true rest
      else (if atStart then spaces indent else []) ++ c :: indented indent false rest

def singleQuoted (indent : Nat) (text : List Char) : List Char :=
  let doubled := text.flatMap fun c => if c == '\'' then ['\'', '\''] else [c]
  '\'' :: indented indent false doubled ++
    (if text.getLast?.any isBreak then spaces indent else []) ++ ['\'']

/-- What stands behind the bar of a block: how deep it is, and how it ends. -/
def blockHeader (text : List Char) : List Char :=
  let depth := if text.head?.any isEdge then (Nat.toDigits 10 indentStep) else []
  let ending :=
    match text.reverse with
    | [] => ['-']
    | last :: before =>
        if !isBreak last then ['-']
        else if before.isEmpty || before.head?.any isBreak then ['+'] else []
  '|' :: depth ++ ending

def scalarText (indent : Nat) (text : String) : List Char :=
  let cs := text.toList
  match styleOf text with
  | .plain => cs
  | .singleQuoted => singleQuoted indent cs
  | .literal | .folded => blockHeader cs ++ '\n' :: indented indent true cs
  | .doubleQuoted => '"' :: cs.flatMap escaped ++ ['"']

/-!
## Blocks
-/

/-- Ends the line, unless the text has done so. -/
def endLine (text : List Char) : List Char :=
  if text.getLast?.any isBreak then text else text ++ ['\n']

/-- Texts that stand below each other in a column, the first of them at the cursor. -/
def stacked (indent : Nat) : List (List Char) → List Char
  | [] => []
  | [last] => last
  | text :: rest => endLine text ++ spaces indent ++ stacked indent rest

def keyText (indent : Nat) (key : String) : List Char :=
  if isSimpleKey key then scalarText (indent + indentStep) key ++ [':']
  else
    endLine ('?' :: ' ' :: scalarText (indent + indentStep) key) ++ spaces indent ++ [':']

def leafText (indent : Nat) : Value → List Char
  | .null => "null".toList
  | .flag value => (if value then "true" else "false").toList
  | .natural value => Nat.toDigits 10 value
  | .number value => (Text.documentStyle.render value).toList
  | .text value => scalarText indent value
  | .sequence _ => "[]".toList
  | .mapping _ => "\x7b\x7d".toList

def Value.isLeaf : Value → Bool
  | .sequence items => items.isEmpty
  | .mapping entries => entries.isEmpty
  | _ => true

mutual

def blockText (indent : Nat) : Value → List Char
  | .sequence items => stacked indent (itemTexts indent items)
  | .mapping entries => stacked indent (entryTexts indent entries)
  | value => leafText indent value

def itemTexts (indent : Nat) : List Value → List (List Char)
  | [] => []
  | item :: items =>
      let text :=
        if item.isLeaf then leafText (indent + indentStep) item
        else blockText (indent + indentStep) item
      ('-' :: ' ' :: text) :: itemTexts indent items

/--
The entries of a mapping in a column.  Behind a key of one line, a block starts on
a line of its own, and a sequence in the column of the key.
-/
def entryTexts (indent : Nat) : List (String × Value) → List (List Char)
  | [] => []
  | (key, value) :: entries =>
      let text :=
        if value.isLeaf then ' ' :: leafText (indent + indentStep) value
        else if isSimpleKey key then
          let column := indent + (match value with | .sequence _ => 0 | _ => indentStep)
          '\n' :: spaces column ++ blockText column value
        else ' ' :: blockText (indent + indentStep) value
      (keyText indent key ++ text) :: entryTexts indent entries

end

def Value.render (v : Value) : String :=
  String.ofList (endLine (if v.isLeaf then leafText 0 v else blockText 0 v))

end Yaml
end LogHarvest
