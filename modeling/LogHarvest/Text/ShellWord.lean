/-!
# Words of a shell command

A remote command is one line that a shell on the host cuts into words.
`quoteWord` writes a text so that the shell reads it back as exactly one word;
`readWords` is the shell's side: word splitting and quote removal as POSIX
defines them for a simple command without expansions.
-/

namespace LogHarvest
namespace Text

def needsQuotes (c : Char) : Bool :=
  "|&;<>()$`\\\"' \t\n*?[#~=%".toList.contains c

/-- A single quote ends the quotes, is written escaped, and opens them again. -/
def quoteChar (c : Char) : List Char :=
  if c == '\'' then ['\'', '\\', '\'', '\''] else [c]

/-- The text as one word of a command line: as it is, or between single quotes. -/
def quoteWord (s : String) : String :=
  let cs := s.toList
  if !cs.isEmpty && !cs.any needsQuotes then s
  else String.ofList ('\'' :: cs.flatMap quoteChar ++ ['\''])

/-!
## Reading a command line

The reader has the word that is being read, if one was begun; an empty pair of
quotes begins a word.  Outside quotes it refuses the operators and expansions of
the shell (`none`), and so it accepts only lines whose meaning is fixed by word
splitting and quote removal alone.
-/

inductive Quoting
  | bare
  | single
  | double
deriving DecidableEq, Repr

def isOperator (c : Char) : Bool :=
  "|&;<>()$`*?[#~\n".toList.contains c

/-- A backslash within double quotes escapes these characters alone. -/
def escapedInDouble (c : Char) : Bool :=
  "$`\"\\".toList.contains c

def extend (word : Option (List Char)) (c : Char) : Option (List Char) :=
  some (word.getD [] ++ [c])

def endWord (word : Option (List Char)) (following : List (List Char)) : List (List Char) :=
  match word with
  | none => following
  | some w => w :: following

def readWordsFrom (mode : Quoting) (word : Option (List Char)) :
    List Char → Option (List (List Char))
  | [] =>
      match mode with
      | .bare => some (endWord word [])
      | _ => none
  | c :: rest =>
      match mode with
      | .single =>
          if c == '\'' then readWordsFrom .bare word rest
          else readWordsFrom .single (extend word c) rest
      | .double =>
          if c == '"' then readWordsFrom .bare word rest
          else if c == '\\' then
            match rest with
            | [] => none
            | d :: rest' =>
                if d == '\n' then readWordsFrom .double word rest'
                else if escapedInDouble d then readWordsFrom .double (extend word d) rest'
                else readWordsFrom .double (extend (extend word c) d) rest'
          else if c == '$' || c == '`' then none
          else readWordsFrom .double (extend word c) rest
      | .bare =>
          if c == ' ' || c == '\t' then
            (readWordsFrom .bare none rest).map (endWord word)
          else if c == '\'' then readWordsFrom .single (some (word.getD [])) rest
          else if c == '"' then readWordsFrom .double (some (word.getD [])) rest
          else if c == '\\' then
            match rest with
            | [] => none
            | d :: rest' =>
                if d == '\n' then readWordsFrom .bare word rest'
                else readWordsFrom .bare (extend word d) rest'
          else if isOperator c then none
          else readWordsFrom .bare (extend word c) rest

/-- The words of a command line, if it is a simple command without expansions. -/
def readWords (s : String) : Option (List String) :=
  (readWordsFrom .bare none s.toList).map fun found => found.map String.ofList

end Text
end LogHarvest
