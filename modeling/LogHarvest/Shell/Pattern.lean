/-!
# Patterns

A pattern describes texts: a star stands for any text, a question mark for any
character, and brackets for one of several characters.
-/

namespace LogHarvest
namespace Shell

inductive Glob
  | char (c : Char)
  | anyChar
  | anyText
  /-- One of the characters in some ranges, or where `negated` says so, none of them. -/
  | oneOf (negated : Bool) (ranges : List (Char × Char))
deriving DecidableEq, Repr

namespace Glob

def accepts (c : Char) : Glob → Bool
  | .char d => c == d
  | .anyChar => true
  | .anyText => false
  | .oneOf negated ranges => (ranges.any fun (low, high) => low ≤ c && c ≤ high) != negated

def fits : List Glob → List Char → Bool
  | [], text => text.isEmpty
  | .anyText :: pattern, [] => fits pattern []
  | .anyText :: pattern, c :: text => fits pattern (c :: text) || fits (.anyText :: pattern) text
  | part :: pattern, c :: text => part.accepts c && fits pattern text
  | _ :: _, [] => false
termination_by pattern text => pattern.length + text.length

def takeRanges : List Char → Option (List (Char × Char) × List Char)
  | [] => none
  | ']' :: rest => some ([], rest)
  | low :: '-' :: ']' :: rest => some ([(low, low), ('-', '-')], rest)
  | low :: '-' :: high :: rest =>
      (takeRanges rest).map fun (ranges, rest) => ((low, high) :: ranges, rest)
  | c :: rest => (takeRanges rest).map fun (ranges, rest) => ((c, c) :: ranges, rest)

def takeSet (text : List Char) : Option (Glob × List Char) :=
  let (negated, text) :=
    match text with
    | '!' :: rest => (true, rest)
    | '^' :: rest => (true, rest)
    | _ => (false, text)
  match text with
  | ']' :: rest =>
      (takeRanges rest).map fun (ranges, rest) => (.oneOf negated ((']', ']') :: ranges), rest)
  | _ => (takeRanges text).map fun (ranges, rest) => (.oneOf negated ranges, rest)

def ofText : (fuel : Nat) → List Char → List Glob
  | 0, _ => []
  | _, [] => []
  | fuel + 1, '*' :: rest => .anyText :: ofText fuel rest
  | fuel + 1, '?' :: rest => .anyChar :: ofText fuel rest
  | fuel + 1, '[' :: rest =>
      match takeSet rest with
      | some (set, rest) => set :: ofText fuel rest
      | none => .char '[' :: ofText fuel rest
  | fuel + 1, '\\' :: c :: rest => .char c :: ofText fuel rest
  | fuel + 1, c :: rest => .char c :: ofText fuel rest

/-- The text without a start that the pattern stands for, the shortest or the longest. -/
def dropStart (pattern : List Glob) (longest : Bool) (text : List Char) : List Char :=
  let lengths := List.range (text.length + 1)
  let lengths := if longest then lengths.reverse else lengths
  match lengths.find? fun n => fits pattern (text.take n) with
  | some n => text.drop n
  | none => text

def dropEnd (pattern : List Glob) (longest : Bool) (text : List Char) : List Char :=
  let lengths := List.range (text.length + 1)
  let lengths := if longest then lengths.reverse else lengths
  match lengths.find? fun n => fits pattern (text.drop (text.length - n)) with
  | some n => text.take (text.length - n)
  | none => text

end Glob
end Shell
end LogHarvest
