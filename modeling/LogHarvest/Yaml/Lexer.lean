import LogHarvest.Yaml.ScalarText
import LogHarvest.Yaml.Tag

/-!
# From text to tokens

The structure of a document outside brackets is its indentation.  The lexer keeps
the columns of the blocks that are open; a token in a smaller column closes the
blocks that start behind it.

A colon makes a mapping key of what stands before it on the same line.  So the
lexer remembers where a key might start, for every level of brackets, and when
it meets the colon it puts the token of the key in front of what it has read
since.

A text that is no document breaks off somewhere.  What stands before the break is
still a sequence of tokens, but a token is only certain when nothing that follows
can be put in front of it.
-/

namespace LogHarvest
namespace Yaml

structure KeyStart where
  /-- Nothing but a key may stand here. -/
  required : Bool
  /-- The number of tokens before it. -/
  number : Nat
  index : Nat
  line : Nat
  column : Nat

structure Lexer where
  cursor : Cursor
  /-- The tokens so far, the last one first. -/
  tokens : List Placed
  count : Nat
  /-- Where a key might start: an entry per level of brackets, the innermost first. -/
  starts : List (Option KeyStart)
  /-- The column of the innermost block, `-1` outside all blocks. -/
  indent : Int
  /-- The columns of the blocks around it. -/
  around : List Int
  keyAllowed : Bool

namespace Lexer

def start (text : List Char) : Lexer where
  cursor := .start text
  tokens := []
  count := 0
  starts := [none]
  indent := -1
  around := []
  keyAllowed := true

def inFlow (l : Lexer) : Bool :=
  1 < l.starts.length

def spot (l : Lexer) : Spot := ⟨l.cursor.line, l.cursor.column⟩

def push (l : Lexer) (token : Token) : Lexer :=
  { l with tokens := ⟨token, l.spot⟩ :: l.tokens, count := l.count + 1 }

def insertAt (l : Lexer) (number : Nat) (token : Token) (spot : Spot) : Lexer :=
  let behind := l.count - number
  { l with
    tokens := l.tokens.take behind ++ ⟨token, spot⟩ :: l.tokens.drop behind
    count := l.count + 1 }

def pushOver (l : Lexer) (token : Token) (width : Nat) : Lexer :=
  { l.push token with cursor := l.cursor.skipMany width }

def allowKey (l : Lexer) (allowed : Bool) : Lexer :=
  { l with keyAllowed := allowed }

/-!
## Keys
-/

/-- How far a key's colon may be from its start. -/
def maxKeyLength : Nat := 1024

/-- The colon of a key that started there would be too late. -/
def isStale (p : Cursor) (k : KeyStart) : Bool :=
  k.line < p.line || k.index + maxKeyLength < p.index

def dropStale (l : Lexer) : Option Lexer := do
  let starts ← l.starts.mapM fun entry =>
    match entry with
    | none => some none
    | some k =>
        if isStale l.cursor k then (if k.required then none else some none) else some (some k)
  some { l with starts := starts }

def dropKey (l : Lexer) : Option Lexer :=
  match l.starts with
  | some k :: outer => if k.required then none else some { l with starts := none :: outer }
  | _ => some l

def markKey (l : Lexer) : Option Lexer :=
  if !l.keyAllowed then some l
  else do
    let l ← l.dropKey
    let p := l.cursor
    let k : KeyStart :=
      ⟨!l.inFlow && l.indent == p.column, l.count, p.index, p.line, p.column⟩
    some { l with starts := some k :: l.starts.drop 1 }

/-- The number of tokens before which nothing can be put any more. -/
def certain (l : Lexer) : Nat :=
  l.starts.foldl
    (fun n entry =>
      match entry with
      | some k => min n k.number
      | none => n)
    l.count

/-!
## Blocks
-/

/-- Opens a block, unless one is open in this column already. -/
def openBlock (l : Lexer) (spot : Spot) (number : Nat) (token : Token) : Lexer :=
  if l.inFlow || (spot.column : Int) ≤ l.indent then l
  else
    { l.insertAt number token spot with
      indent := spot.column
      around := l.indent :: l.around }

def openBlockHere (l : Lexer) (token : Token) : Lexer :=
  l.openBlock l.spot l.count token

def closeBlocks (column : Int) (l : Lexer) : Lexer :=
  if l.inFlow then l
  else
    let rec go : List Int → Lexer → Lexer
      | [], l => l
      | outer :: around, l =>
          if column < l.indent then
            go around { l.push .blockEnd with indent := outer, around := around }
          else l
    go l.around l

def closeAll (l : Lexer) : Option Lexer := do
  let l ← (l.closeBlocks (-1)).dropKey
  some (l.allowKey false)

/-!
## Single tokens
-/

def toNextToken : (fuel : Nat) → Lexer → Lexer
  | 0, l => l
  | fuel + 1, l =>
      let p := l.cursor
      let p := if p.column == 0 && p.sees byteOrderMark then p.skip else p
      let p := p.skipWhile fun c => c == ' ' || (c == '\t' && (l.inFlow || !l.keyAllowed))
      let p := if p.sees '#' then p.skipLine else p
      if !p.rest.isEmpty && atLineEnd p.rest then
        toNextToken fuel
          { l with cursor := p.skipBreak, keyAllowed := l.keyAllowed || !l.inFlow }
      else { l with cursor := p }

def takeEnd (l : Lexer) : Option Lexer := do
  some ((← l.closeAll).push .streamEnd)

def takeMarker (token : Token) (l : Lexer) : Option Lexer := do
  some ((← l.closeAll).pushOver token 3)

def takeDirectiveLine (l : Lexer) : Option Lexer := do
  let l ← l.closeAll
  let (token, p) ← takeDirective l.cursor
  some { l.push token with cursor := p }

def takeFlowStart (token : Token) (l : Lexer) : Option Lexer := do
  let l ← l.markKey
  some (({ l with starts := none :: l.starts }.pushOver token 1).allowKey true)

def takeFlowEnd (token : Token) (l : Lexer) : Option Lexer := do
  let l ← l.dropKey
  let starts := if l.inFlow then l.starts.drop 1 else l.starts
  some (({ l with starts := starts }.pushOver token 1).allowKey false)

def takeFlowEntry (l : Lexer) : Option Lexer := do
  some (((← l.dropKey).pushOver .flowEntry 1).allowKey true)

def takeBlockEntry (l : Lexer) : Option Lexer := do
  if !l.inFlow && !l.keyAllowed then none
  let l ← (l.openBlockHere .blockSequenceStart).dropKey
  some ((l.pushOver .blockEntry 1).allowKey true)

def takeKey (l : Lexer) : Option Lexer := do
  if !l.inFlow && !l.keyAllowed then none
  let l ← (l.openBlockHere .blockMappingStart).dropKey
  some ((l.pushOver .key 1).allowKey (!l.inFlow))

def takeValue (l : Lexer) : Option Lexer :=
  match l.starts with
  | some k :: outer =>
      let spot : Spot := ⟨k.line, k.column⟩
      let l := { l with starts := none :: outer }.insertAt k.number .key spot
      some (((l.openBlock spot k.number .blockMappingStart).pushOver .value 1).allowKey false)
  | _ =>
      if !l.inFlow && !l.keyAllowed then none
      else
        some (((l.openBlockHere .blockMappingStart).pushOver .value 1).allowKey (!l.inFlow))

/-- A property or a scalar, before whose start a key may be put. -/
def takePiece (read : Cursor → Option (Token × Cursor)) (l : Lexer) : Option Lexer := do
  let l ← l.markKey
  let (token, p) ← read l.cursor
  some { l.push token with cursor := p, keyAllowed := false }

def takeBlockScalar (style : ScalarStyle) (l : Lexer) : Option Lexer := do
  let l ← l.dropKey
  let (text, p) ← takeBlock (style == .literal) l.indent l.cursor
  some { l.push (.scalar text style) with cursor := p, keyAllowed := true }

def takePlainScalar (l : Lexer) : Option Lexer := do
  let l ← l.markKey
  let (text, crossed, p) ← takePlain l.inFlow (l.indent + 1).toNat l.cursor
  some { l.push (.scalar text .plain) with cursor := p, keyAllowed := crossed }

/-- The character, if it is no indicator, may start a plain scalar. -/
def startsPlain (l : Lexer) (c : Char) : Bool :=
  !("?:,[]\x7b\x7d#&*!|>'\"%@\x60".toList.contains c) || (!l.inFlow && (c == '?' || c == ':'))

def settle (l : Lexer) : Option Lexer := do
  let l ← (l.toNextToken (l.cursor.left + 1)).dropStale
  some (l.closeBlocks l.cursor.column)

def take (l : Lexer) : Option Lexer :=
  let p := l.cursor
  match p.rest with
  | [] => l.takeEnd
  | c :: _ =>
      if p.column == 0 && c == '%' then l.takeDirectiveLine
      else if p.atMarker '-' then l.takeMarker .documentStart
      else if p.atMarker '.' then l.takeMarker .documentEnd
      else if c == '[' then l.takeFlowStart .flowSequenceStart
      else if c == '{' then l.takeFlowStart .flowMappingStart
      else if c == ']' then l.takeFlowEnd .flowSequenceEnd
      else if c == '}' then l.takeFlowEnd .flowMappingEnd
      else if c == ',' then l.takeFlowEntry
      else if c == '-' && p.gapFollows then l.takeBlockEntry
      else if c == '?' && (l.inFlow || p.gapFollows) then l.takeKey
      else if c == ':' && (l.inFlow || p.gapFollows) then l.takeValue
      else if c == '*' then
        l.takePiece fun p => (takeName p.skip).map fun found => (.alias found.1, found.2)
      else if c == '&' then
        l.takePiece fun p => (takeName p.skip).map fun found => (.anchor found.1, found.2)
      else if c == '!' then l.takePiece (takeTag l.inFlow)
      else if c == '|' && !l.inFlow then l.takeBlockScalar .literal
      else if c == '>' && !l.inFlow then l.takeBlockScalar .folded
      else if c == '\'' then
        l.takePiece fun p =>
          (takeQuoted true p).map fun found => (.scalar found.1 .singleQuoted, found.2)
      else if c == '"' then
        l.takePiece fun p =>
          (takeQuoted false p).map fun found => (.scalar found.1 .doubleQuoted, found.2)
      else if l.startsPlain c then l.takePlainScalar
      else none

def next (l : Lexer) : Option Lexer := do
  (← l.settle).take

/--
Reads tokens to the end of the text or to where it breaks off; `known` is the
number of tokens that were certain before the last one was read.
-/
def run : (fuel : Nat) → (known : Nat) → Lexer → List Placed
  | 0, known, l => l.tokens.reverse.take known
  | fuel + 1, known, l =>
      if (l.tokens.head?.map Placed.token) == some .streamEnd then l.tokens.reverse
      else
        match l.dropStale with
        | none => l.tokens.reverse.take known
        | some l =>
            match l.next with
            | none => l.tokens.reverse.take l.certain
            | some l' => run fuel l.certain l'

end Lexer

/--
The tokens of a text.  The last of them is the end of the text, unless the text
breaks off before.
-/
def tokensOf (text : List Char) : List Placed :=
  if text.all isAdmissible then Lexer.run (text.length + 2) 0 (.start text) else []

end Yaml
end LogHarvest
