import LogHarvest.Artifact.RunFolder
import LogHarvest.Text.Blank
import LogHarvest.Text.Decimal

/-!
# Small programs

The programs that scripts call most: they look at their arguments, at the bytes
that they are given, and at the files, and write bytes.
-/

namespace LogHarvest
namespace Shell

open Text (Bytes encode)

structure Task where
  arguments : List String
  input : Bytes
  tree : Tree

structure Done where
  out : Bytes
  err : Bytes
  status : Nat
  tree : Tree

namespace Task

def writes (t : Task) (out : Bytes) : Done := ⟨out, [], 0, t.tree⟩

def answers (t : Task) (good : Bool) : Done := ⟨[], [], if good then 0 else 1, t.tree⟩

def fails (t : Task) (status : Nat) (message : String) : Done :=
  ⟨[], encode (message ++ "\n"), status, t.tree⟩

end Task

/-!
## Escapes
-/

def octalValue? (c : Char) : Option Nat :=
  if '0' ≤ c && c ≤ '7' then some (c.toNat - '0'.toNat) else none

def takeOctal : (most : Nat) → Nat → List Char → Nat × List Char
  | 0, n, rest => (n, rest)
  | _ + 1, n, [] => (n, [])
  | most + 1, n, c :: rest =>
      match octalValue? c with
      | some d => takeOctal most (n * 8 + d) rest
      | none => (n, c :: rest)

def escapeByte? (c : Char) : Option UInt8 :=
  match c with
  | 'a' => some 7
  | 'b' => some 8
  | 'f' => some 12
  | 'n' => some 10
  | 'r' => some 13
  | 't' => some 9
  | 'v' => some 11
  | '\\' => some 92
  | _ => none

/--
The bytes of a text with escapes, and whether the text goes on behind them.  A zero
before an octal number does not count as one of its digits.
-/
def unescaped : (fuel : Nat) → List Char → Bytes × Bool
  | 0, _ => ([], true)
  | _, [] => ([], true)
  | fuel + 1, '\\' :: c :: rest =>
      if c == 'c' then ([], false)
      else
        match escapeByte? c, octalValue? c with
        | some b, _ =>
            let (bytes, goesOn) := unescaped fuel rest
            (b :: bytes, goesOn)
        | none, some d =>
            let (n, rest) := takeOctal (if d == 0 then 3 else 2) d rest
            let (bytes, goesOn) := unescaped fuel rest
            (n.toUInt8 :: bytes, goesOn)
        | none, none =>
            let (bytes, goesOn) := unescaped fuel rest
            (encode "\\" ++ encode (String.singleton c) ++ bytes, goesOn)
  | fuel + 1, c :: rest =>
      let (bytes, goesOn) := unescaped fuel rest
      (encode (String.singleton c) ++ bytes, goesOn)

def writeText (t : Task) (escapes : Bool) (text ends : String) : Done :=
  if escapes then
    let (bytes, goesOn) := unescaped (text.length + 1) text.toList
    t.writes (bytes ++ if goesOn then encode ends else [])
  else t.writes (encode (text ++ ends))

/-- Writes arguments with blanks between them; `escapes` are always acted on, or on demand. -/
def echo (escapes : Bool) (t : Task) : Done :=
  let write (escapes : Bool) (words : List String) (ends : String) : Done :=
    writeText t escapes (Text.joined " " words) ends
  match t.arguments with
  | "-n" :: words => write escapes words ""
  | "-e" :: words => if escapes then write true t.arguments "\n" else write true words "\n"
  | "-ne" :: words | "-en" :: words =>
      if escapes then write true t.arguments "\n" else write true words ""
  | words => write escapes words "\n"

structure Slot where
  left : Bool
  zeros : Bool
  width : Nat
  precision : Option Nat

def takeSlot (rest : List Char) : Slot × List Char :=
  let isFlag (c : Char) : Bool := "-+ #0".toList.contains c
  let flags := rest.takeWhile isFlag
  let rest := rest.drop flags.length
  let width := rest.takeWhile Text.isDigit
  let rest := rest.drop width.length
  let (precision, rest) :=
    match rest with
    | '.' :: more =>
        (some (Text.decimalValue (more.takeWhile Text.isDigit)), more.dropWhile Text.isDigit)
    | _ => (none, rest)
  (⟨flags.contains '-', flags.contains '0', Text.decimalValue width, precision⟩, rest)

def Slot.fill (slot : Slot) (isNumber : Bool) (text : Bytes) : Bytes :=
  let missing (b : UInt8) : Bytes := List.replicate (slot.width - text.length) b
  if slot.left then text ++ missing 32
  else if isNumber && slot.zeros then
    match text with
    | 45 :: digits => 45 :: missing 48 ++ digits
    | _ => missing 48 ++ text
  else missing 32 ++ text

def numberText (letter : Char) (word : String) : String :=
  let n := (Text.trim word).toInt?.getD 0
  let inBase (base : Nat) : String := String.ofList (Nat.toDigits base n.toNat)
  if letter == 'x' then inBase 16
  else if letter == 'X' then String.ofList ((inBase 16).toList.map Char.toUpper)
  else if letter == 'o' then inBase 8
  else toString n

def Slot.show (slot : Slot) (letter : Char) (word : String) : Bytes :=
  if "diuxXo".toList.contains letter then slot.fill true (encode (numberText letter word))
  else if letter == 'c' then slot.fill false (encode (String.ofList (word.toList.take 1)))
  else
    let text := if letter == 'b' then (unescaped (word.length + 1) word.toList).1 else encode word
    slot.fill false
      (match slot.precision with
      | some n => text.take n
      | none => text)

/-- One use of a format; the result says how much of the arguments is left. -/
def formatOnce : (fuel : Nat) → List Char → List String → Bytes × List String
  | 0, _, words => ([], words)
  | _, [], words => ([], words)
  | fuel + 1, '%' :: '%' :: rest, words =>
      let (bytes, words) := formatOnce fuel rest words
      (encode "%" ++ bytes, words)
  | fuel + 1, '%' :: rest, words =>
      let (slot, rest) := takeSlot rest
      match rest with
      | letter :: rest =>
          let (bytes, words') := formatOnce fuel rest words.tail
          (slot.show letter (words.headD "") ++ bytes, words')
      | [] => (encode "%", words)
  | fuel + 1, '\\' :: rest, words =>
      let (bytes, rest) :=
        match rest with
        | c :: more =>
            match octalValue? c with
            | some d =>
                let (n, more) := takeOctal 2 d more
                ([n.toUInt8], more)
            | none =>
                match escapeByte? c with
                | some b => ([b], more)
                | none => (encode "\\", rest)
        | [] => (encode "\\", rest)
      let (more, words) := formatOnce fuel rest words
      (bytes ++ more, words)
  | fuel + 1, c :: rest, words =>
      let (bytes, words) := formatOnce fuel rest words
      (encode (String.singleton c) ++ bytes, words)

def formatAll (form : List Char) : (fuel : Nat) → List String → Bytes
  | 0, _ => []
  | fuel + 1, words =>
      let (bytes, left) := formatOnce (form.length + 1) form words
      if left.isEmpty || left.length == words.length then bytes
      else bytes ++ formatAll form fuel left

def printf (t : Task) : Done :=
  match t.arguments with
  | form :: words => t.writes (formatAll form.toList (words.length + 1) words)
  | [] => t.fails 2 "printf: usage: printf format [arguments]"

/-!
## Files
-/

/-- The bytes under a name; a hyphen is the input, and the null device is empty. -/
def readNamed (t : Task) (name : String) : Except IoFault Bytes :=
  if name == "-" || name == "/dev/stdin" then .ok t.input
  else if name == "/dev/null" then .ok []
  else t.tree.read name

def plainMessage (cause : IoFault) : String :=
  (cause.message.splitOn " (os error").headD ""

def gather (program : String) (t : Task) (names : List String) : Done :=
  let names := if names.isEmpty then ["-"] else names
  names.foldl
    (fun done name =>
      match readNamed t name with
      | .ok bytes => { done with out := done.out ++ bytes }
      | .error cause =>
          { done with
            err := done.err ++ encode (program ++ ": " ++ name ++ ": " ++ plainMessage cause ++ "\n")
            status := 1 })
    (t.writes [])

def keptCount (arguments : List String) : Bool × Nat × List String :=
  match arguments with
  | "-n" :: n :: names => (true, n.toNat?.getD 10, names)
  | "-c" :: n :: names => (false, n.toNat?.getD 0, names)
  | option :: names =>
      match option.toList with
      | '-' :: 'n' :: digits => (true, (String.ofList digits).toNat?.getD 10, names)
      | '-' :: 'c' :: digits => (false, (String.ofList digits).toNat?.getD 0, names)
      | '-' :: d :: digits => (true, (String.ofList (d :: digits)).toNat?.getD 10, names)
      | _ => (true, 10, option :: names)
  | [] => (true, 10, [])

def linesOf (bytes : Bytes) : List Bytes :=
  let (lines, last) :=
    bytes.foldl
      (fun (acc : List Bytes × Bytes) b =>
        if b == 10 then ((b :: acc.2).reverse :: acc.1, []) else (acc.1, b :: acc.2))
      ([], [])
  (if last.isEmpty then lines else last.reverse :: lines).reverse

def head (t : Task) : Done :=
  match keptCount t.arguments with
  | (false, n, ["/dev/zero"]) => t.writes (List.replicate n 0)
  | (false, n, names) =>
      let done := gather "head" t names
      { done with out := done.out.take n }
  | (true, n, names) =>
      let done := gather "head" t names
      { done with out := ((linesOf done.out).take n).flatten }

def tail (t : Task) : Done :=
  let (byLine, n, names) := keptCount t.arguments
  let done := gather "tail" t names
  if byLine then
    let lines := linesOf done.out
    { done with out := (lines.drop (lines.length - n)).flatten }
  else { done with out := done.out.drop (done.out.length - n) }

def count (t : Task) : Done :=
  let text := Text.decodeLossy t.input
  match t.arguments with
  | ["-l"] => t.writes (encode (toString (t.input.filter (· == 10)).length ++ "\n"))
  | ["-w"] => t.writes (encode (toString (Text.words text).length ++ "\n"))
  | ["-c"] => t.writes (encode (toString t.input.length ++ "\n"))
  | _ => t.fails 1 "wc: cannot count that"

def charactersOf : (fuel : Nat) → List Char → List Char
  | 0, _ => []
  | _, [] => []
  | fuel + 1, '\\' :: c :: rest =>
      match octalValue? c with
      | some d =>
          let (n, rest) := takeOctal 2 d rest
          Char.ofNat n :: charactersOf fuel rest
      | none =>
          let c := ((escapeByte? c).map fun b => Char.ofNat b.toNat).getD c
          c :: charactersOf fuel rest
  | fuel + 1, low :: '-' :: high :: rest =>
      (List.range (high.toNat + 1 - low.toNat)).map (fun k => Char.ofNat (low.toNat + k)) ++
        charactersOf fuel rest
  | fuel + 1, c :: rest => c :: charactersOf fuel rest

def translate (t : Task) : Done :=
  let bytesOf (set : String) : Bytes :=
    (charactersOf (set.length + 1) set.toList).map fun c => c.toNat.toUInt8
  match t.arguments with
  | ["-d", set] =>
      let leaving := bytesOf set
      t.writes (t.input.filter fun b => !leaving.contains b)
  | [old, new] =>
      let old := bytesOf old
      let new := bytesOf new
      t.writes
        (t.input.map fun b =>
          match old.idxOf? b with
          | some k => (new[k]?.orElse fun _ => new.getLast?).getD b
          | none => b)
  | _ => t.fails 1 "tr: missing operand"

def folderOf (path : String) : String :=
  let cs := Text.dropLast (· == '/') path.toList
  if cs.isEmpty then (if path.isEmpty then "." else "/")
  else
    let front := Text.dropLast (· != '/') cs
    if front.isEmpty then "."
    else
      let folder := Text.dropLast (· == '/') front
      if folder.isEmpty then "/" else String.ofList folder

def nameOf (path ending : String) : String :=
  let cs := Text.dropLast (· == '/') path.toList
  let name := (cs.reverse.takeWhile (· != '/')).reverse
  let shorter := name.take (name.length - ending.length)
  if path.isEmpty then ""
  else if name.isEmpty then "/"
  else if !shorter.isEmpty && shorter ++ ending.toList == name then String.ofList shorter
  else String.ofList name

def forEach (program : String) (t : Task) (names : List String)
    (change : Tree → String → Except IoFault Tree) : Done :=
  names.foldl
    (fun done name =>
      match change done.tree name with
      | .ok tree => { done with tree := tree }
      | .error cause =>
          { done with
            err := done.err ++ encode (program ++ ": " ++ name ++ ": " ++ plainMessage cause ++ "\n")
            status := 1 })
    (t.writes [])

def removeFile (quiet : Bool) (t : Tree) (name : String) : Except IoFault Tree :=
  match t.locate name with
  | .ok (place, .file ..) => .ok (t.remove place)
  | .ok (_, .folder) => .error .isFolder
  | .error cause => if quiet then .ok t else .error cause

def removeFolder (t : Tree) (name : String) : Except IoFault Tree :=
  match t.locate name with
  | .ok (place, .folder) =>
      if (t.namesIn place).isEmpty then .ok (t.remove place) else .error .notEmpty
  | .ok (_, .file ..) => .error .notFolder
  | .error cause => .error cause

def touchFile (t : Tree) (name : String) : Except IoFault Tree :=
  match t.locate name with
  | .ok _ => .ok t
  | .error _ => (t.create name).map Prod.snd

def sequence (t : Task) (first last : Nat) : Done :=
  t.writes
    ((List.range (last + 1 - first)).flatMap fun k => encode (toString (first + k) ++ "\n"))

/-!
## All programs
-/

def tool? (name : String) : Option (Task → Done) :=
  match name with
  | "true" => some fun t => t.answers true
  | "false" => some fun t => t.answers false
  | "echo" => some (echo false)
  | "printf" => some printf
  | "cat" => some fun t => gather "cat" t t.arguments
  | "head" => some head
  | "tail" => some tail
  | "wc" => some count
  | "tr" => some translate
  | "dirname" => some fun t => t.writes (encode (folderOf (t.arguments.headD "") ++ "\n"))
  | "basename" =>
      some fun t =>
        t.writes
          (encode (nameOf (t.arguments.headD "") ((t.arguments.drop 1).headD "") ++ "\n"))
  | "touch" => some fun t => forEach "touch" t t.arguments touchFile
  | "mkdir" =>
      some fun t =>
        match t.arguments with
        | "-p" :: names =>
            forEach "mkdir" t names fun tree name =>
              match tree.makeFolders name with
              | (.ok (), tree) => .ok tree
              | (.error cause, _) => .error cause
        | names => forEach "mkdir" t names Tree.makeFolder
  | "rm" =>
      some fun t =>
        match t.arguments with
        | "-f" :: names | "-rf" :: names => forEach "rm" t names (removeFile true)
        | names => forEach "rm" t names (removeFile false)
  | "rmdir" => some fun t => forEach "rmdir" t t.arguments removeFolder
  | "pwd" => some fun t => t.writes (encode (Artifact.pathOf t.tree.here ++ "\n"))
  | "seq" =>
      some fun t =>
        match t.arguments.map String.toNat? with
        | [some last] => sequence t 1 last
        | [some first, some last] => sequence t first last
        | _ => t.fails 1 "seq: missing operand"
  | _ => none

end Shell
end LogHarvest
