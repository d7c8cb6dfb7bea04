/-!
# Tokens of documents

A document's text is a sequence of tokens: indicators, scalars and properties,
and the starts and ends of blocks, which the text shows by indentation alone.
-/

namespace LogHarvest
namespace Yaml

inductive ScalarStyle
  | plain
  | singleQuoted
  | doubleQuoted
  | literal
  | folded
deriving DecidableEq, Repr

/-- A position in a text: its line and its column, both counted from zero. -/
structure Spot where
  line : Nat
  column : Nat
deriving DecidableEq, Repr, Inhabited

inductive Token
  | versionDirective (major minor : Nat)
  | tagDirective (handle start : String)
  | documentStart
  | documentEnd
  | blockSequenceStart
  | blockMappingStart
  | blockEnd
  | flowSequenceStart
  | flowSequenceEnd
  | flowMappingStart
  | flowMappingEnd
  | blockEntry
  | flowEntry
  | key
  | value
  | alias (name : String)
  | anchor (name : String)
  | tag (handle suffix : String)
  | scalar (text : String) (style : ScalarStyle)
  | streamEnd
deriving DecidableEq, Repr

structure Placed where
  token : Token
  spot : Spot
deriving DecidableEq, Repr

end Yaml
end LogHarvest
