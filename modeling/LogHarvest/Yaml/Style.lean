import LogHarvest.Text.Utf8
import LogHarvest.Yaml.Plain
import LogHarvest.Yaml.Token

/-!
# Which way a text is written

A text is written plainly where a reader would take it for this very text, and as
a literal block where it has several lines.  Otherwise it stands between single
quotes, or between double quotes if it has characters that need an escape.
-/

namespace LogHarvest
namespace Yaml

def adjacent (first second : Char → Bool) : List Char → Bool
  | a :: b :: rest => (first a && second b) || adjacent first second (b :: rest)
  | _ => false

def isPlainSpace (c : Char) : Bool :=
  c == ' '

def isEdge (c : Char) : Bool :=
  isPlainSpace c || isBreak c

/-- A colon before a gap, or a hash sign behind one. -/
def hasInnerIndicator : (gapBefore : Bool) → List Char → Bool
  | _, [] => false
  | gapBefore, c :: rest =>
      (c == ':' && atGap rest) || (c == '#' && gapBefore) ||
        hasInnerIndicator (isSpace c || isBreak c) rest

/-- Outside brackets and braces, a reader would take part of the text for an indicator. -/
def hasIndicator (text : List Char) : Bool :=
  match text with
  | [] => false
  | c :: rest =>
      text.take 3 == "---".toList || text.take 3 == "...".toList ||
        "#,[]\x7b\x7d&*!|>'\"%@\x60".toList.contains c || ("?:-".toList.contains c && atGap rest) ||
        hasInnerIndicator (isSpace c || isBreak c) rest

/-- A character needs an escape, or a line ends in a space. -/
def needsEscapes (text : List Char) : Bool :=
  text.any (fun c => !isShown c) || adjacent isPlainSpace isBreak text

/-- The text can be written plainly, whatever a reader takes it for. -/
def allowsPlain (text : List Char) : Bool :=
  !needsEscapes text && !text.any isBreak && !hasIndicator text &&
    !text.head?.any isEdge && !text.getLast?.any isEdge

def allowsSingleQuotes (text : List Char) : Bool :=
  !needsEscapes text && !adjacent isBreak isPlainSpace text

def allowsBlock (text : List Char) : Bool :=
  !text.isEmpty && !needsEscapes text && !text.getLast?.any isPlainSpace

/-- A reader takes the plain text for a text, and it does not look like a number. -/
def readsAsText (text : String) : Bool :=
  match Plain.ofText text with
  | .text => !Plain.isPadded text.toList
  | _ => false

def styleOf (text : String) : ScalarStyle :=
  let cs := text.toList
  if cs.contains '\n' then (if allowsBlock cs then .literal else .doubleQuoted)
  else if readsAsText text && allowsPlain cs then .plain
  else if allowsSingleQuotes cs then .singleQuoted
  else .doubleQuoted

def maxSimpleKey : Nat := 128

def isSimpleKey (key : String) : Bool :=
  !key.toList.any isBreak && Text.byteLength key.toList ≤ maxSimpleKey

end Yaml
end LogHarvest
