import LogHarvest.Shell.Command
import LogHarvest.Text.Ascii

/-!
# Reading scripts

A script is read from left to right.  Every function gives what it has read and
the rest of the text, or nothing where the text makes no sense.
-/

namespace LogHarvest
namespace Shell

open Text (isDigit isAlphanumeric)

abbrev Rest := List Char

def endsWord (c : Char) : Bool :=
  " \t\n;&|<>()".toList.contains c

def startsName (c : Char) : Bool :=
  c == '_' || (isAlphanumeric c && !isDigit c)

def continuesName (c : Char) : Bool :=
  c == '_' || isAlphanumeric c

def isSpecialName (c : Char) : Bool :=
  "@*#?$!-".toList.contains c

def skipBlanks : Rest → Rest
  | ' ' :: rest | '\t' :: rest => skipBlanks rest
  | '\\' :: '\n' :: rest => skipBlanks rest
  | '#' :: rest => rest.dropWhile (· != '\n')
  | rest => rest

def skipLines : (fuel : Nat) → Rest → Rest
  | 0, rest => rest
  | fuel + 1, rest =>
      match skipBlanks rest with
      | '\n' :: rest => skipLines fuel rest
      | rest => rest

def takeName (rest : Rest) : String × Rest :=
  match rest with
  | c :: _ =>
      if startsName c then
        (String.ofList (rest.takeWhile continuesName), rest.dropWhile continuesName)
      else ("", rest)
  | [] => ("", rest)

def takeValueName (rest : Rest) : String × Rest :=
  match rest with
  | c :: more =>
      if isSpecialName c then (String.singleton c, more)
      else if isDigit c then (String.ofList (rest.takeWhile isDigit), rest.dropWhile isDigit)
      else takeName rest
  | [] => ("", rest)

def takeKeyword (words : List String) (rest : Rest) : Option (String × Rest) :=
  let rest := skipBlanks rest
  words.findSome? fun word =>
    let behind := rest.drop word.length
    let alone :=
      match behind with
      | c :: _ => endsWord c
      | [] => true
    if word.toList.isPrefixOf rest && alone then some (word, behind) else none

def expect (word : String) (fuel : Nat) (rest : Rest) : Option Rest :=
  (takeKeyword [word] (skipLines fuel rest)).map Prod.snd

def closers : List String :=
  ["done", "fi", "esac", "then", "else", "elif", "do", "\x7d"]

def atCloser (rest : Rest) : Bool :=
  match skipBlanks rest with
  | [] | ')' :: _ | ';' :: ';' :: _ => true
  | rest => (takeKeyword closers rest).isSome

def lineEnds (rest : Rest) : Nat :=
  rest.count '\n'

def addChar (c : Char) (quoted : Bool) : List Piece → List Piece
  | .text s q :: before =>
      if q == quoted then .text (s.push c) q :: before
      else .text (String.singleton c) quoted :: .text s q :: before
  | before => .text (String.singleton c) quoted :: before

def takeQuoted (rest : Rest) : Option (String × Rest) :=
  let text := rest.takeWhile (· != '\'')
  match rest.drop text.length with
  | _ :: more => some (String.ofList text, more)
  | [] => none

/-- Goes over the sign of a redirection; the result has its descriptor and its direction. -/
def takeArrow (rest : Rest) : Option (Nat × Direction × Rest) :=
  let digits := rest.takeWhile isDigit
  let descriptor? : Option Nat := (String.ofList digits).toNat?
  match rest.drop digits.length with
  | '>' :: '>' :: more => some (descriptor?.getD 1, .append, more)
  | '>' :: '&' :: more => some (descriptor?.getD 1, .copy, more)
  | '>' :: '|' :: more => some (descriptor?.getD 1, .write, more)
  | '>' :: more => some (descriptor?.getD 1, .write, more)
  | '<' :: '&' :: more => some (descriptor?.getD 0, .copy, more)
  | '<' :: '<' :: more => some (descriptor?.getD 0, .text, more)
  | '<' :: more => some (descriptor?.getD 0, .read, more)
  | _ => none

/-- Takes lines off up to one that is the end mark; `tabs` drops the tabs before each. -/
def takeTextLines (mark : List Char) (tabs : Bool) : (fuel : Nat) → Rest → List Char × Rest
  | 0, rest => ([], rest)
  | _, [] => ([], [])
  | fuel + 1, rest =>
      let rest := if tabs then rest.dropWhile (· == '\t') else rest
      let line := rest.takeWhile (· != '\n')
      let behind := rest.drop (line.length + 1)
      if line == mark then ([], behind)
      else
        let (text, rest) := takeTextLines mark tabs fuel behind
        (line ++ '\n' :: text, rest)

/-- The text of pieces without values, and whether a part of it is quoted. -/
def markOf (word : Word) : List Char × Bool :=
  word.foldl
    (fun acc piece =>
      match piece with
      | .text text quoted => (acc.1 ++ text.toList, acc.2 || quoted)
      | _ => acc)
    ([], false)

/-- The sign of a change: what it does, and what follows it. -/
def takeChangeSign (rest : Rest) : Option ((Word → Change) × Rest) :=
  match rest with
  | ':' :: '-' :: more => some (.orElse true, more)
  | '-' :: more => some (.orElse false, more)
  | ':' :: '=' :: more => some (.orSet true, more)
  | '=' :: more => some (.orSet false, more)
  | ':' :: '?' :: more => some (.orFail true, more)
  | '?' :: more => some (.orFail false, more)
  | ':' :: '+' :: more => some (.instead true, more)
  | '+' :: more => some (.instead false, more)
  | '#' :: '#' :: more => some (.dropStart true, more)
  | '#' :: more => some (.dropStart false, more)
  | '%' :: '%' :: more => some (.dropEnd true, more)
  | '%' :: more => some (.dropEnd false, more)
  | _ => none

inductive Stop
  | wordEnd
  | brace
  | twoParentheses

def Stop.isAt (stop : Stop) (rest : Rest) : Bool :=
  match stop, rest with
  | .wordEnd, [] => true
  | .wordEnd, c :: _ => endsWord c
  | .brace, c :: _ => c == '\x7d'
  | .twoParentheses, ')' :: ')' :: _ => true
  | _, _ => false

mutual

def takeDollar : (fuel : Nat) → (quoted : Bool) → Rest → Option (Piece × Rest)
  | 0, _, _ => none
  | fuel + 1, quoted, rest =>
      match rest with
      | '(' :: '(' :: more => do
          let (pieces, more) ← takePieces fuel .twoParentheses [] more
          some (.arithmetic pieces, more.drop 2)
      | '(' :: more => do
          let (lines, more) ← takeLines fuel more
          match skipLines fuel more with
          | ')' :: more => some (.output lines quoted, more)
          | _ => none
      | '\x7b' :: '#' :: more => do
          let (name, more) := takeValueName more
          match more with
          | '\x7d' :: more => if name.isEmpty then none else some (.value name .length quoted, more)
          | _ => none
      | '\x7b' :: more => do
          let (name, more) := takeValueName more
          if name.isEmpty then none
          match more with
          | '\x7d' :: more => some (.value name .none quoted, more)
          | _ => do
              let (change, more) ← takeChangeSign more
              let (word, more) ← takePieces fuel .brace [] more
              some (.value name (change word) quoted, more.drop 1)
      | _ =>
          let (name, more) := takeValueName rest
          let (name, more) :=
            if 1 < name.length && name.toList.all isDigit then
              (String.ofList (name.toList.take 1), name.toList.drop 1 ++ more)
            else (name, more)
          if name.isEmpty then some (.text "$" quoted, rest)
          else some (.value name .none quoted, more)

def takeBackward : (fuel : Nat) → (quoted : Bool) → Rest → Option (Piece × Rest)
  | 0, _, _ => none
  | fuel + 1, quoted, rest =>
      let text := rest.takeWhile (· != '\x60')
      match rest.drop text.length with
      | _ :: more => do
          let (lines, _) ← takeLines fuel text
          some (.output lines quoted, more)
      | [] => none

/--
Reads a text with values in it: up to a double quote, or where `closed` does not say
so, to the end.  The `pieces` are those before, backwards.
-/
def takeDouble : (fuel : Nat) → (closed : Bool) → List Piece → Rest → Option (List Piece × Rest)
  | 0, _, _, _ => none
  | fuel + 1, closed, pieces, rest =>
      match rest with
      | '"' :: more =>
          if closed then some (pieces, more)
          else takeDouble fuel closed (addChar '"' true pieces) more
      | '\\' :: '\n' :: more => takeDouble fuel closed pieces more
      | '\\' :: c :: more =>
          if "$\x60\"\\".toList.contains c then takeDouble fuel closed (addChar c true pieces) more
          else takeDouble fuel closed (addChar '\\' true pieces) (c :: more)
      | '$' :: more => do
          let (piece, more) ← takeDollar fuel true more
          takeDouble fuel closed (piece :: pieces) more
      | '\x60' :: more => do
          let (piece, more) ← takeBackward fuel true more
          takeDouble fuel closed (piece :: pieces) more
      | c :: more => takeDouble fuel closed (addChar c true pieces) more
      | [] => if closed then none else some (pieces, [])

/-- Reads pieces up to a stop; `pieces` are those before, backwards. -/
def takePieces : (fuel : Nat) → Stop → List Piece → Rest → Option (Word × Rest)
  | 0, _, _, _ => none
  | fuel + 1, stop, pieces, rest =>
      if stop.isAt rest then some (pieces.reverse, rest)
      else
        match rest with
        | '\'' :: more => do
            let (text, more) ← takeQuoted more
            takePieces fuel stop (.text text true :: pieces) more
        | '"' :: more => do
            let (pieces, more) ← takeDouble fuel true (.text "" true :: pieces) more
            takePieces fuel stop pieces more
        | '\\' :: '\n' :: more => takePieces fuel stop pieces more
        | '\\' :: c :: more => takePieces fuel stop (addChar c true pieces) more
        | '$' :: more => do
            let (piece, more) ← takeDollar fuel false more
            takePieces fuel stop (piece :: pieces) more
        | '\x60' :: more => do
            let (piece, more) ← takeBackward fuel false more
            takePieces fuel stop (piece :: pieces) more
        | c :: more => takePieces fuel stop (addChar c false pieces) more
        | [] => none

def takeWord : (fuel : Nat) → Rest → Option (Word × Rest)
  | 0, _ => none
  | fuel + 1, rest => takePieces fuel .wordEnd [] rest

def takeWords : (fuel : Nat) → Rest → Option (List Word × Rest)
  | 0, _ => none
  | fuel + 1, rest => do
      let (word, rest) ← takeWord fuel (skipBlanks rest)
      if word.isEmpty then some ([], rest)
      else
        let (words, rest) ← takeWords fuel rest
        some (word :: words, rest)

def takeTarget : (fuel : Nat) → Direction → Rest → Option (Word × Rest)
  | 0, _, _ => none
  | fuel + 1, direction, rest =>
      if direction == .text then do
        let tabs := rest.head? == some '-'
        let (word, rest) ← takeWord fuel (skipBlanks (if tabs then rest.drop 1 else rest))
        let (mark, quoted) := markOf word
        let line := rest.takeWhile (· != '\n')
        let (text, below) := takeTextLines mark tabs fuel (rest.drop (line.length + 1))
        let rest := line ++ '\n' :: below
        if quoted then some ([.text (String.ofList text) true], rest)
        else
          let (pieces, _) ← takeDouble fuel false [] text
          some (pieces.reverse, rest)
      else do
        let (word, rest) ← takeWord fuel (skipBlanks rest)
        if word.isEmpty then none else some (word, rest)

def takeRedirects : (fuel : Nat) → Rest → Option (List Redirect × Rest)
  | 0, _ => none
  | fuel + 1, rest =>
      match takeArrow (skipBlanks rest) with
      | none => some ([], rest)
      | some (descriptor, direction, rest) => do
          let (word, rest) ← takeTarget fuel direction rest
          let (redirects, rest) ← takeRedirects fuel rest
          some (.mk descriptor direction word :: redirects, rest)

def takeSimple : (fuel : Nat) → (below : Nat) → List (String × Word) → List Word →
    List Redirect → Rest → Option (Command × Rest)
  | 0, _, _, _, _, _ => none
  | fuel + 1, below, settings, words, redirects, rest =>
      let rest := skipBlanks rest
      match takeArrow rest with
      | some (descriptor, direction, rest) => do
          let (word, rest) ← takeTarget fuel direction rest
          takeSimple fuel below settings words (redirects ++ [.mk descriptor direction word]) rest
      | none => do
          let (name, behind) := takeName rest
          match words, name.isEmpty, behind with
          | [], false, '=' :: behind => do
              let (word, rest) ← takeWord fuel behind
              takeSimple fuel below (settings ++ [(name, word)]) words redirects rest
          | _, _, _ => do
              let (word, rest) ← takeWord fuel rest
              if word.isEmpty then some (.simple below settings words redirects, rest)
              else takeSimple fuel below settings (words ++ [word]) redirects rest

def takeClauses : (fuel : Nat) → Rest → Option (List (List Word × List Line) × Rest)
  | 0, _ => none
  | fuel + 1, rest =>
      let rest := skipLines fuel rest
      match takeKeyword ["esac"] rest with
      | some (_, rest) => some ([], rest)
      | none => do
          let rest := if rest.head? == some '(' then rest.drop 1 else rest
          let (patterns, rest) ← takePatterns fuel rest
          let (lines, rest) ← takeLines fuel rest
          let rest := skipLines fuel rest
          let rest := if rest.take 2 == [';', ';'] then rest.drop 2 else rest
          let (clauses, rest) ← takeClauses fuel rest
          some ((patterns, lines) :: clauses, rest)

def takePatterns : (fuel : Nat) → Rest → Option (List Word × Rest)
  | 0, _ => none
  | fuel + 1, rest => do
      let (word, rest) ← takeWord fuel (skipBlanks rest)
      match skipBlanks rest with
      | ')' :: rest => some ([word], rest)
      | '|' :: rest => do
          let (words, rest) ← takePatterns fuel rest
          some (word :: words, rest)
      | _ => none

def takeBranch : (fuel : Nat) → Rest →
    Option (List (List Line × List Line) × List Line × Rest)
  | 0, _ => none
  | fuel + 1, rest => do
      let (condition, rest) ← takeLines fuel rest
      let rest ← expect "then" fuel rest
      let (body, rest) ← takeLines fuel rest
      match takeKeyword ["elif", "else", "fi"] (skipLines fuel rest) with
      | some ("elif", rest) => do
          let (clauses, otherwise, rest) ← takeBranch fuel rest
          some ((condition, body) :: clauses, otherwise, rest)
      | some ("else", rest) => do
          let (otherwise, rest) ← takeLines fuel rest
          let rest ← expect "fi" fuel rest
          some ([(condition, body)], otherwise, rest)
      | some (_, rest) => some ([(condition, body)], [], rest)
      | none => none

def takeBody : (fuel : Nat) → Rest → Option (List Line × Rest)
  | 0, _ => none
  | fuel + 1, rest => do
      let rest ← expect "do" fuel rest
      let (body, rest) ← takeLines fuel rest
      let rest ← expect "done" fuel rest
      some (body, rest)

def takeBare : (fuel : Nat) → Rest → Option (Command × Rest)
  | 0, _ => none
  | fuel + 1, rest =>
      let rest := skipBlanks rest
      match takeKeyword ["for", "case", "if", "while", "until", "\x7b"] rest with
      | some ("for", rest) => do
          let (name, rest) := takeName (skipBlanks rest)
          if name.isEmpty then none
          match takeKeyword ["in"] (skipLines fuel rest) with
          | some (_, rest) => do
              let (words, rest) ← takeWords fuel rest
              let (body, rest) ← takeBody fuel ((skipBlanks rest).dropWhile (· == ';'))
              some (.each name (some words) body [], rest)
          | none => do
              let (body, rest) ← takeBody fuel ((skipBlanks rest).dropWhile (· == ';'))
              some (.each name none body [], rest)
      | some ("case", rest) => do
          let (subject, rest) ← takeWord fuel (skipBlanks rest)
          let rest ← expect "in" fuel rest
          let (clauses, rest) ← takeClauses fuel rest
          some (.choice subject clauses [], rest)
      | some ("if", rest) => do
          let (clauses, otherwise, rest) ← takeBranch fuel rest
          some (.branch clauses otherwise [], rest)
      | some ("while", rest) => do
          let (condition, rest) ← takeLines fuel rest
          let (body, rest) ← takeBody fuel rest
          some (.loop false condition body [], rest)
      | some ("until", rest) => do
          let (condition, rest) ← takeLines fuel rest
          let (body, rest) ← takeBody fuel rest
          some (.loop true condition body [], rest)
      | some (_, rest) => do
          let (body, rest) ← takeLines fuel rest
          let rest ← expect "\x7d" fuel rest
          some (.group false body [], rest)
      | none =>
          match rest with
          | '(' :: rest => do
              let (body, rest) ← takeLines fuel rest
              match skipLines fuel rest with
              | ')' :: rest => some (.group true body [], rest)
              | _ => none
          | _ =>
              let (name, behind) := takeName rest
              match name.isEmpty, skipBlanks behind with
              | false, '(' :: behind =>
                  match skipBlanks behind with
                  | ')' :: behind => do
                      let (body, rest) ← takeCommand fuel (skipLines fuel behind)
                      some (.define name body, rest)
                  | _ => none
              | _, _ => takeSimple fuel (lineEnds rest) [] [] [] rest

def takeCommand : (fuel : Nat) → Rest → Option (Command × Rest)
  | 0, _ => none
  | fuel + 1, rest => do
      let (command, rest) ← takeBare fuel rest
      let (redirects, rest) ← takeRedirects fuel rest
      some (command.redirected redirects, rest)

def takePipeline : (fuel : Nat) → Rest → Option (List Command × Rest)
  | 0, _ => none
  | fuel + 1, rest => do
      let (command, rest) ← takeCommand fuel rest
      match skipBlanks rest with
      | '|' :: '|' :: rest => some ([command], '|' :: '|' :: rest)
      | '|' :: rest => do
          let (commands, rest) ← takePipeline fuel (skipLines fuel rest)
          some (command :: commands, rest)
      | rest => some ([command], rest)

def takeLines : (fuel : Nat) → Rest → Option (List Line × Rest)
  | 0, _ => none
  | fuel + 1, rest => takeLinesBehind fuel .always rest

def takeLinesBehind : (fuel : Nat) → Joint → Rest → Option (List Line × Rest)
  | 0, _, _ => none
  | fuel + 1, joint, rest =>
      let rest := skipLines fuel rest
      if atCloser rest then some ([], rest)
      else do
        let (negated, rest) :=
          match takeKeyword ["!"] rest with
          | some (_, rest) => (true, rest)
          | none => (false, rest)
        let (commands, rest) ← takePipeline fuel rest
        let line := Line.mk joint negated commands
        let behind (joint : Joint) (rest : Rest) : Option (List Line × Rest) := do
          let (lines, rest) ← takeLinesBehind fuel joint rest
          some (line :: lines, rest)
        match rest with
        | '&' :: '&' :: rest => behind .ifSucceeded rest
        | '|' :: '|' :: rest => behind .ifFailed rest
        | ';' :: ';' :: _ => some ([line], rest)
        | ';' :: rest | '&' :: rest | '\n' :: rest => behind .always rest
        | _ => some ([line], rest)

end

def readScript (text : String) : Option (List Line) := do
  let (lines, rest) ← takeLines (4 * text.length + 8) text.toList
  if (skipBlanks rest).isEmpty then some lines else none

end Shell
end LogHarvest
