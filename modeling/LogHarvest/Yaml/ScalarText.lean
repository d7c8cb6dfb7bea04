import LogHarvest.Yaml.Cursor

/-!
# Reading scalars

The five ways in which a document can write a text: plain, between single or
double quotes, and as a literal or folded block.  Every function starts at the
first character of the scalar and ends behind its last one; `none` is returned
where the text is no scalar at all.

Lines of a plain or quoted scalar are folded: a single break becomes a space, and
of several breaks the first is dropped.
-/

namespace LogHarvest
namespace Yaml

/-- White space between two words of a scalar: blanks on one line, or line breaks. -/
structure Gap where
  /-- Blanks before the first break. -/
  blanks : List Char
  /-- What the first break stands for, if there is one. -/
  first : List Char
  /-- What the other breaks stand for. -/
  more : List Char
  broken : Bool

def Gap.none : Gap := ⟨[], [], [], false⟩

def Gap.sense (g : Gap) : List Char :=
  if g.broken then
    if g.first.head? == some '\n' then (if g.more.isEmpty then [' '] else g.more)
    else g.first ++ g.more
  else g.blanks

/--
Goes over white space.  Tabs before the column `tabsFrom` on a later line are an
error.
-/
def takeGap (tabsFrom : Nat) : (fuel : Nat) → Gap → Cursor → Option (Gap × Cursor)
  | 0, g, p => some (g, p)
  | fuel + 1, g, p =>
      match p.rest with
      | [] => some (g, p)
      | c :: _ =>
          if isSpace c then
            if g.broken then
              if c == '\t' && p.column < tabsFrom then none
              else takeGap tabsFrom fuel g p.skip
            else takeGap tabsFrom fuel { g with blanks := g.blanks ++ [c] } p.skip
          else if isBreak c then
            let (sense, p') := p.takeBreak
            if g.broken then takeGap tabsFrom fuel { g with more := g.more ++ sense } p'
            else takeGap tabsFrom fuel { g with blanks := [], first := sense, broken := true } p'
          else some (g, p)

/-!
## Quoted scalars
-/

def simpleEscape? (c : Char) : Option Char :=
  match c with
  | '0' => some '\x00'
  | 'a' => some '\x07'
  | 'b' => some '\x08'
  | 't' => some '\t'
  | '\t' => some '\t'
  | 'n' => some '\n'
  | 'v' => some '\x0b'
  | 'f' => some '\x0c'
  | 'r' => some '\r'
  | 'e' => some '\x1b'
  | ' ' => some ' '
  | '"' => some '"'
  | '\'' => some '\''
  | '/' => some '/'
  | '\\' => some '\\'
  | 'N' => some '\x85'
  | '_' => some '\xa0'
  | 'L' => some '\u2028'
  | 'P' => some '\u2029'
  | _ => none

def escapeDigits? (c : Char) : Option Nat :=
  match c with
  | 'x' => some 2
  | 'u' => some 4
  | 'U' => some 8
  | _ => none

def codePoint? (digits : List Char) : Option Char := do
  let values ← digits.mapM hexValue?
  let n := values.foldl (fun n d => n * 16 + d) 0
  if (0xD800 ≤ n && n ≤ 0xDFFF) || 0x10FFFF < n then none else some (Char.ofNat n)

def takeEscape (p : Cursor) : Option (Char × Cursor) :=
  match p.rest.drop 1 with
  | [] => none
  | c :: digits =>
      match simpleEscape? c with
      | some d => some (d, p.skipMany 2)
      | none => do
          let n ← escapeDigits? c
          if digits.length < n then none
          let d ← codePoint? (digits.take n)
          some (d, p.skipMany (2 + n))

inductive RunEnd
  | plain
  | escapedBreak

/-- Reads characters of a quoted scalar up to a gap; `acc` holds the text backwards. -/
def takeQuotedRun (single : Bool) :
    (fuel : Nat) → List Char → Cursor → Option (List Char × RunEnd × Cursor)
  | 0, acc, p => some (acc, .plain, p)
  | fuel + 1, acc, p =>
      match p.rest with
      | [] => some (acc, .plain, p)
      | c :: rest =>
          if isSpace c || isBreak c then some (acc, .plain, p)
          else if single then
            if c == '\'' then
              if rest.head? == some '\'' then
                takeQuotedRun single fuel ('\'' :: acc) (p.skipMany 2)
              else some (acc, .plain, p)
            else takeQuotedRun single fuel (c :: acc) p.skip
          else if c == '"' then some (acc, .plain, p)
          else if c == '\\' then
            if rest.any (fun _ => true) && atLineEnd rest then
              some (acc, .escapedBreak, p.skip.skipBreak)
            else
              match takeEscape p with
              | some (d, p') => takeQuotedRun single fuel (d :: acc) p'
              | none => none
          else takeQuotedRun single fuel (c :: acc) p.skip

def takeQuotedFrom (single : Bool) :
    (fuel : Nat) → List Char → Cursor → Option (List Char × Cursor)
  | 0, _, _ => none
  | fuel + 1, acc, p =>
      if p.atDocumentMarker || p.rest.isEmpty then none
      else
        match takeQuotedRun single (p.left + 1) acc p with
        | none => none
        | some (acc', ending, p') =>
            if p'.sees (if single then '\'' else '"') then some (acc', p'.skip)
            else
              let gap : Gap :=
                match ending with
                | .plain => .none
                | .escapedBreak => { Gap.none with broken := true }
              match takeGap 0 (p'.left + 1) gap p' with
              | none => none
              | some (gap', p'') =>
                  takeQuotedFrom single fuel (gap'.sense.reverse ++ acc') p''

def takeQuoted (single : Bool) (p : Cursor) : Option (String × Cursor) :=
  (takeQuotedFrom single (p.left + 1) [] p.skip).map fun found =>
    (String.ofList found.1.reverse, found.2)

/-!
## Plain scalars
-/

def endsInFlow (c : Char) : Bool :=
  c == ',' || c == '[' || c == ']' || c == '{' || c == '}'

def isLostColon (flow : Bool) (p : Cursor) : Bool :=
  flow && p.sees ':' &&
    match p.rest.drop 1 with
    | c :: _ => endsInFlow c || c == '?'
    | [] => false

def takePlainRun (flow : Bool) : (fuel : Nat) → List Char → Cursor → Option (List Char × Cursor)
  | 0, acc, p => some (acc, p)
  | fuel + 1, acc, p =>
      match p.rest with
      | [] => some (acc, p)
      | c :: rest =>
          if isSpace c || isBreak c then some (acc, p)
          else if isLostColon flow p then none
          else if (c == ':' && atGap rest) || (flow && endsInFlow c) then some (acc, p)
          else takePlainRun flow fuel (c :: acc) p.skip

/--
Reads a plain scalar; `indent` is the least column of its later lines.  The flag
in the result says that line breaks were crossed behind its last word.
-/
def takePlainFrom (flow : Bool) (indent : Nat) :
    (fuel : Nat) → List Char → Gap → Cursor → Option (List Char × Bool × Cursor)
  | 0, acc, gap, p => some (acc, gap.broken, p)
  | fuel + 1, acc, gap, p =>
      if p.atDocumentMarker || p.sees '#' then some (acc, gap.broken, p)
      else
        match takePlainRun flow (p.left + 1) [] p with
        | none => none
        | some (run, p') =>
            let acc' := if run.isEmpty then acc else run ++ gap.sense.reverse ++ acc
            let gap' := if run.isEmpty then gap else .none
            match p'.rest with
            | [] => some (acc', gap'.broken, p')
            | c :: _ =>
                if !(isSpace c || isBreak c) then some (acc', gap'.broken, p')
                else
                  match takeGap indent (p'.left + 1) gap' p' with
                  | none => none
                  | some (gap'', p'') =>
                      if !flow && p''.column < indent then some (acc', gap''.broken, p'')
                      else takePlainFrom flow indent fuel acc' gap'' p''

def takePlain (flow : Bool) (indent : Nat) (p : Cursor) : Option (String × Bool × Cursor) :=
  (takePlainFrom flow indent (p.left + 1) [] .none p).map fun found =>
    (String.ofList found.1.reverse, found.2)

/-!
## Block scalars
-/

inductive Chomping
  | strip
  | clip
  | keep
deriving DecidableEq

/-- Reads a digit from one to nine; zero is an error. -/
def takeIncrement (p : Cursor) : Option (Nat × Cursor) :=
  match p.rest with
  | c :: _ =>
      if c == '0' then none
      else if '1' ≤ c && c ≤ '9' then some (c.toNat - '0'.toNat, p.skip)
      else some (0, p)
  | [] => some (0, p)

def takeChomping (p : Cursor) : Option Chomping × Cursor :=
  if p.sees '+' then (some .keep, p.skip)
  else if p.sees '-' then (some .strip, p.skip)
  else (none, p)

/-- Reads the chomping sign and the indentation digit of a block, in either order. -/
def takeHeader (p : Cursor) : Option (Chomping × Nat × Cursor) :=
  match takeChomping p with
  | (some chomping, p') => do
      let (increment, p'') ← takeIncrement p'
      some (chomping, increment, p'')
  | (none, p') => do
      let (increment, p'') ← takeIncrement p'
      if increment == 0 then some (.clip, 0, p'')
      else
        let (chomping, p''') := takeChomping p''
        some (chomping.getD .clip, increment, p''')

/--
Goes over empty lines and the indentation of the line behind them.  Without a known
indentation (`0`) all spaces count, and the deepest line is remembered.
-/
def takeBlockBreaks (indent : Nat) :
    (fuel : Nat) → (deepest : Nat) → (breaks : List Char) → Cursor →
      Option (Nat × List Char × Cursor)
  | 0, deepest, breaks, p => some (deepest, breaks, p)
  | fuel + 1, deepest, breaks, p =>
      let spaces := (p.rest.takeWhile (· == ' ')).length
      let room := if indent == 0 then spaces else min spaces (indent - p.column)
      let p' := p.skipMany room
      let deepest' := max deepest p'.column
      if (indent == 0 || p'.column < indent) && p'.sees '\t' then none
      else
        match p'.rest with
        | c :: _ =>
            if isBreak c then
              let (sense, p'') := p'.takeBreak
              takeBlockBreaks indent fuel deepest' (breaks ++ sense) p''
            else some (deepest', breaks, p')
        | [] => some (deepest', breaks, p')

structure BlockState where
  /-- The text so far, backwards. -/
  acc : List Char
  /-- The break at the end of the line before. -/
  leading : List Char
  /-- The breaks of the empty lines behind it. -/
  trailing : List Char
  /-- The line before starts with a blank. -/
  blankBefore : Bool

def takeBlockLines (literal : Bool) (indent : Nat) :
    (fuel : Nat) → BlockState → Cursor → Option (BlockState × Cursor)
  | 0, s, p => some (s, p)
  | fuel + 1, s, p =>
      if p.column != indent || p.rest.isEmpty then some (s, p)
      else
        let blank :=
          match p.rest with
          | c :: _ => isSpace c
          | [] => false
        let folds :=
          !literal && s.leading.head? == some '\n' && !s.blankBefore && !blank
        let joint :=
          if folds then (if s.trailing.isEmpty then [' '] else []) else s.leading
        let line := p.rest.takeWhile fun c => !isBreak c
        let acc := line.reverse ++ s.trailing.reverse ++ joint.reverse ++ s.acc
        let (leading, p') := (p.skipMany line.length).takeBreak
        match takeBlockBreaks indent (p'.left + 1) 0 [] p' with
        | none => none
        | some (_, trailing, p'') =>
            takeBlockLines literal indent fuel ⟨acc, leading, trailing, blank⟩ p''

/-- Reads a block scalar; `parent` is the indentation around it, `-1` for none. -/
def takeBlock (literal : Bool) (parent : Int) (p : Cursor) : Option (String × Cursor) := do
  let (chomping, increment, p) ← takeHeader p.skip
  let p ← p.finishLine
  let known : Nat := if increment == 0 then 0 else (max parent 0).toNat + increment
  let (deepest, breaks, p) ← takeBlockBreaks known (p.left + 1) 0 [] p
  let indent := if known == 0 then max (max deepest (parent + 1).toNat) 1 else known
  let (s, p) ← takeBlockLines literal indent (p.left + 1) ⟨[], [], breaks, false⟩ p
  let tail :=
    match chomping with
    | .strip => []
    | .clip => s.leading
    | .keep => s.leading ++ s.trailing
  some (String.ofList (s.acc.reverse ++ tail), p)

end Yaml
end LogHarvest
