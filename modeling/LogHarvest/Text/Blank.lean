/-!
# White space, lines and words

Remote hosts answer in lines of words.  This module fixes which characters
count as white space (the White_Space property of the Unicode standard), how a
text is cut into lines, and how a line is cut into words.

The cutting functions work on lists of characters; the versions on `String` at
the end are the ones that other modules use.
-/

namespace LogHarvest
namespace Text

/-- The characters with the White_Space property. -/
def isBlank (c : Char) : Bool :=
  let n := c.toNat
  (9 ≤ n && n ≤ 13) || n == 0x20 || n == 0x85 || n == 0xA0 || n == 0x1680 ||
    (0x2000 ≤ n && n ≤ 0x200A) || n == 0x2028 || n == 0x2029 || n == 0x202F ||
    n == 0x205F || n == 0x3000

/-- The pieces between the separators, empty ones included; never an empty list. -/
def pieces (separates : Char → Bool) : List Char → List (List Char)
  | [] => [[]]
  | c :: rest =>
      match separates c, pieces separates rest with
      | true, found => [] :: found
      | false, [] => [[c]]
      | false, piece :: found => (c :: piece) :: found

def wordsOf (cs : List Char) : List (List Char) :=
  (pieces isBlank cs).filter fun piece => !piece.isEmpty

def dropReturn : List Char → List Char
  | [] => []
  | ['\r'] => []
  | c :: rest => c :: dropReturn rest

/--
The lines among the pieces between line feeds: every piece but the last was
ended by a line feed, and an empty last piece is no line.
-/
def endedLines : List (List Char) → List (List Char)
  | [] => []
  | [last] => if last.isEmpty then [] else [last]
  | piece :: rest => dropReturn piece :: endedLines rest

/-- The lines of a text, each without its line end (`LF` or `CRLF`). -/
def linesOf (cs : List Char) : List (List Char) :=
  endedLines (pieces (· == '\n') cs)

def dropLast (leaves : Char → Bool) (cs : List Char) : List Char :=
  (cs.reverse.dropWhile leaves).reverse

def trimmed (cs : List Char) : List Char :=
  dropLast isBlank (cs.dropWhile isBlank)

def words (s : String) : List String :=
  (wordsOf s.toList).map String.ofList

def lines (s : String) : List String :=
  (linesOf s.toList).map String.ofList

def trim (s : String) : String :=
  String.ofList (trimmed s.toList)

def isAllBlank (s : String) : Bool :=
  s.toList.all isBlank

/-- The text between the pieces, as in `joined ", " ["a", "b"] = "a, b"`. -/
def joined (between : String) (texts : List String) : String :=
  between.intercalate texts

def occursIn (part : List Char) : List Char → Bool
  | [] => part.isEmpty
  | c :: rest => part.isPrefixOf (c :: rest) || occursIn part rest

end Text
end LogHarvest
