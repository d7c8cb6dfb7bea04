import LogHarvest.Yaml.Character

/-!
# A point in a text

Reading goes from left to right.  The cursor is the text that is still to be
read, with the position of its first character.
-/

namespace LogHarvest
namespace Yaml

structure Cursor where
  rest : List Char
  size : Nat
  index : Nat
  line : Nat
  column : Nat
deriving Repr

namespace Cursor

def start (text : List Char) : Cursor := ⟨text, text.length, 0, 0, 0⟩

def left (p : Cursor) : Nat := p.size - p.index

def sees (p : Cursor) (c : Char) : Bool :=
  p.rest.head? == some c

def skip (p : Cursor) : Cursor :=
  { p with rest := p.rest.drop 1, index := p.index + 1, column := p.column + 1 }

def skipMany (p : Cursor) (n : Nat) : Cursor :=
  { p with rest := p.rest.drop n, index := p.index + n, column := p.column + n }

def skipWhile (p : Cursor) (belongs : Char → Bool) : Cursor :=
  p.skipMany (p.rest.takeWhile belongs).length

/--
Goes over the line break at the cursor, if there is one, and gives what it stands
for: a line feed for most of them, itself for the separators of lines and
paragraphs.
-/
def takeBreak (p : Cursor) : List Char × Cursor :=
  match p.rest with
  | '\r' :: '\n' :: rest => (['\n'], ⟨rest, p.size, p.index + 2, p.line + 1, 0⟩)
  | c :: rest =>
      if isBreak c then
        let sense := if c == '\u2028' || c == '\u2029' then c else '\n'
        ([sense], ⟨rest, p.size, p.index + 1, p.line + 1, 0⟩)
      else ([], p)
  | [] => ([], p)

def skipBreak (p : Cursor) : Cursor := p.takeBreak.2

def skipLine (p : Cursor) : Cursor :=
  p.skipWhile fun c => !isBreak c

def finishLine (p : Cursor) : Option Cursor :=
  let p' := p.skipWhile isSpace
  let p'' := if p'.sees '#' then p'.skipLine else p'
  if atLineEnd p''.rest then some p''.skipBreak else none

/-- Three equal characters stand at the start of a line and nothing is joined to them. -/
def atMarker (p : Cursor) (c : Char) : Bool :=
  p.column == 0 && p.rest.take 3 == [c, c, c] && atGap (p.rest.drop 3)

def atDocumentMarker (p : Cursor) : Bool :=
  p.atMarker '-' || p.atMarker '.'

def gapFollows (p : Cursor) : Bool :=
  atGap (p.rest.drop 1)

end Cursor
end Yaml
end LogHarvest
