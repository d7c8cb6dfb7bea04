/-!
# Shell scripts

A fleet can be tried out with a script in the place of the program that opens
sessions.  This module has the parts of such scripts: words, which are made of
pieces, and commands, which are made of words and of other commands.
-/

namespace LogHarvest
namespace Shell

inductive Direction
  | write
  | append
  | read
  | copy
  | text
deriving DecidableEq, Repr

inductive Joint
  | always
  | ifSucceeded
  | ifFailed
deriving DecidableEq, Repr

mutual

inductive Piece
  | text (text : String) (quoted : Bool)
  | value (name : String) (change : Change) (quoted : Bool)
  | output (lines : List Line) (quoted : Bool)
  | arithmetic (pieces : List Piece)

inductive Change
  | none
  /-- Another word, if the value is not set, or where `orEmpty` says so, if it is empty. -/
  | orElse (orEmpty : Bool) (word : List Piece)
  /-- Another word, which is also set, if the value is not set, or as above. -/
  | orSet (orEmpty : Bool) (word : List Piece)
  /-- The script ends with a message, if the value is not set, or as above. -/
  | orFail (orEmpty : Bool) (word : List Piece)
  /-- Another word, if the value is set, and where `unlessEmpty` says so, if it is not empty. -/
  | instead (unlessEmpty : Bool) (word : List Piece)
  | length
  | dropStart (longest : Bool) (pattern : List Piece)
  | dropEnd (longest : Bool) (pattern : List Piece)

inductive Redirect
  | mk (descriptor : Nat) (direction : Direction) (target : List Piece)

inductive Line
  | mk (joint : Joint) (negated : Bool) (commands : List Command)

inductive Command
  /-- Settings, words and redirections; `below` counts the line ends behind its start. -/
  | simple (below : Nat) (settings : List (String × List Piece)) (words : List (List Piece))
      (redirects : List Redirect)
  /-- Goes through words, or through the arguments if there are none. -/
  | each (name : String) (words : Option (List (List Piece))) (body : List Line)
      (redirects : List Redirect)
  /-- Picks the first clause with a pattern that fits. -/
  | choice (subject : List Piece) (clauses : List (List (List Piece) × List Line))
      (redirects : List Redirect)
  | branch (clauses : List (List Line × List Line)) (otherwise : List Line)
      (redirects : List Redirect)
  /-- Repeats its body while the condition succeeds, or until it does. -/
  | loop (untilSuccess : Bool) (condition : List Line) (body : List Line)
      (redirects : List Redirect)
  /-- Commands together; `apart` if what they set is forgotten behind them. -/
  | group (apart : Bool) (body : List Line) (redirects : List Redirect)
  | define (name : String) (body : Command)

end

instance : Inhabited Piece := ⟨.text "" true⟩
instance : Inhabited Command := ⟨.simple 0 [] [] []⟩

abbrev Word := List Piece

def Command.redirected (more : List Redirect) : Command → Command
  | .simple below settings words redirects => .simple below settings words (redirects ++ more)
  | .each name words body redirects => .each name words body (redirects ++ more)
  | .choice subject clauses redirects => .choice subject clauses (redirects ++ more)
  | .branch clauses otherwise redirects => .branch clauses otherwise (redirects ++ more)
  | .loop untilSuccess condition body redirects =>
      .loop untilSuccess condition body (redirects ++ more)
  | .group apart body redirects => .group apart body (redirects ++ more)
  | .define name body => .define name body

end Shell
end LogHarvest
