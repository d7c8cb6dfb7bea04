import LogHarvest.Yaml.Lexer

/-!
# Documents

A document is a tree of scalars, sequences and mappings, in which a node can be
marked and stand for itself elsewhere.

A text that breaks off is still a document up to the break: whoever asks for
something that stands before the break gets it, and only who looks further finds
out.  So a sequence or mapping says whether its end was reached, and where a node
is missing there is a broken one.
-/

namespace LogHarvest
namespace Yaml

inductive Node
  | scalar (spot : Spot) (tag : Option String) (style : ScalarStyle) (text : String)
  | alias (mark : Nat)
  | sequence (spot : Spot) (items : List Node) (closed : Bool)
  | mapping (spot : Spot) (entries : List (Node × Node)) (closed : Bool)
  | broken
deriving Repr, Inhabited

def Node.blank (spot : Spot) : Node := .scalar spot none .plain ""

def Node.spot : Node → Spot
  | .scalar spot .. | .sequence spot .. | .mapping spot .. => spot
  | .alias _ | .broken => ⟨0, 0⟩

structure Document where
  /-- What the document says; an empty text says nothing. -/
  root : Node
  marked : List (Nat × Node)
  /-- The text was read to its end, and there is only this document. -/
  whole : Bool
deriving Repr

/-!
## From tokens to nodes
-/

/-- The state of reading nodes.  Where the text breaks off, no tokens are left. -/
structure Reader where
  tokens : List Placed
  /-- What the handles of tags stand for. -/
  handles : List (String × String)
  /-- The marks in use, the latest first. -/
  marks : List (String × Nat)
  marked : List (Nat × Node)

namespace Reader

def peek? (r : Reader) : Option Token :=
  r.tokens.head?.map Placed.token

def spot (r : Reader) : Spot :=
  (r.tokens.head?.map Placed.spot).getD ⟨0, 0⟩

/-- A position behind the next token, if that has one character. -/
def spotBehind (r : Reader) : Spot :=
  ⟨r.spot.line, r.spot.column + 1⟩

def skip (r : Reader) : Reader :=
  { r with tokens := r.tokens.tail }

def stop (r : Reader) : Reader :=
  { r with tokens := [] }

def goesOn (r : Reader) : Bool :=
  !r.tokens.isEmpty

def sees (r : Reader) (tokens : List Token) : Bool :=
  match r.peek? with
  | some token => tokens.contains token
  | none => false

/-- What the handles stand for where no directive says it. -/
def commonHandles : List (String × String) :=
  [("!", "!"), ("!!", "tag:yaml.org,2002:")]

def tagText? (r : Reader) (handle suffix : String) : Option String :=
  if handle.isEmpty then some suffix
  else (r.handles.lookup handle).map fun start => start ++ suffix

def markCount (r : Reader) : Nat :=
  (r.marks.map Prod.fst).eraseDups.length

structure Properties where
  mark : Option Nat
  tag : Option String

def takeMark (r : Reader) : Option String × Reader :=
  match r.peek? with
  | some (.anchor name) => (some name, r.skip)
  | _ => (none, r)

def takeTag (r : Reader) : Option (String × String) × Reader :=
  match r.peek? with
  | some (.tag handle suffix) => (some (handle, suffix), r.skip)
  | _ => (none, r)

def takeProperties (r : Reader) : Option String × Option (String × String) × Reader :=
  match r.takeMark with
  | (some name, r) =>
      let (tag, r) := r.takeTag
      (some name, tag, r)
  | (none, r) =>
      match r.takeTag with
      | (none, r) => (none, none, r)
      | (some tag, r) =>
          let (name, r) := r.takeMark
          (name, some tag, r)

def register (r : Reader) (name : Option String) : Option Nat × Reader :=
  match name with
  | none => (none, r)
  | some name =>
      let number := r.markCount
      (some number, { r with marks := (name, number) :: r.marks })

def file (r : Reader) (mark : Option Nat) (node : Node) : Reader :=
  match mark with
  | none => r
  | some number => { r with marked := (number, node) :: r.marked }

/-- The tokens behind which an item of a block sequence is blank. -/
def afterItem : List Token := [.blockEntry, .blockEnd]

def afterLooseItem : List Token := [.blockEntry, .key, .value, .blockEnd]

def afterPart : List Token := [.key, .value, .blockEnd]

mutual

/--
Reads a node.  Blocks are possible where `block` says so, and where `loose` says so
also a sequence whose hyphens stand in the column of the key before it.
-/
def takeNode (block loose : Bool) : (fuel : Nat) → Reader → Node × Reader
  | 0, r => (.broken, r.stop)
  | fuel + 1, r =>
      match r.peek? with
      | some (.alias name) =>
          match r.marks.lookup name with
          | some number => (.alias number, r.skip)
          | none => (.broken, r.stop)
      | _ =>
          let spot := r.spot
          let (name, parts, r) := r.takeProperties
          let tag := parts.map fun (handle, suffix) => r.tagText? handle suffix
          match r.peek?, tag with
          | none, _ | _, some none => (.broken, r.stop)
          | some token, tag =>
              let tag := tag.join
              let hasProperty := name.isSome || tag.isSome
              let (mark, r') := r.register name
              match token with
              | .blockEntry =>
                  if loose then
                    let (items, closed, r') := takeLooseItems fuel r'
                    let node := .sequence spot items closed
                    (node, r'.file mark node)
                  else finish spot hasProperty tag mark r r'
              | .scalar text style =>
                  let node := .scalar spot (if tag == some "!" then none else tag) style text
                  (node, r'.skip.file mark node)
              | .flowSequenceStart =>
                  let (items, closed, r') := takeFlowItems fuel true r'.skip
                  let node := .sequence spot items closed
                  (node, r'.file mark node)
              | .flowMappingStart =>
                  let (entries, closed, r') := takeFlowEntries fuel true r'.skip
                  let node := .mapping spot entries closed
                  (node, r'.file mark node)
              | .blockSequenceStart =>
                  if block then
                    let (items, closed, r') := takeItems fuel r'.skip
                    let node := .sequence spot items closed
                    (node, r'.file mark node)
                  else finish spot hasProperty tag mark r r'
              | .blockMappingStart =>
                  if block then
                    let (entries, closed, r') := takeEntries fuel r'.skip
                    let node := .mapping spot entries closed
                    (node, r'.file mark node)
                  else finish spot hasProperty tag mark r r'
              | _ => finish spot hasProperty tag mark r r'
where
  /-- A node without content: blank if it has a property, else no node. -/
  finish (spot : Spot) (hasProperty : Bool) (tag : Option String) (mark : Option Nat)
      (r r' : Reader) : Node × Reader :=
    if hasProperty then
      let node := .scalar spot tag .plain ""
      (node, r'.file mark node)
    else (.broken, r.stop)

def takePart (block loose : Bool) (blankBefore : List Token) :
    (fuel : Nat) → (blankSpot : Spot) → Reader → Node × Reader
  | 0, _, r => (.broken, r.stop)
  | fuel + 1, blankSpot, r =>
      if !r.goesOn then (.broken, r)
      else if r.sees blankBefore then (.blank blankSpot, r)
      else takeNode block loose fuel r

def takeItems : (fuel : Nat) → Reader → List Node × Bool × Reader
  | 0, r => ([], false, r.stop)
  | fuel + 1, r =>
      if r.sees [.blockEntry] then
        let (item, r) := takePart true false afterItem fuel r.spotBehind r.skip
        let (items, closed, r) := takeItems fuel r
        (item :: items, closed, r)
      else if r.sees [.blockEnd] then ([], true, r.skip)
      else ([], false, r.stop)

def takeLooseItems : (fuel : Nat) → Reader → List Node × Bool × Reader
  | 0, r => ([], false, r.stop)
  | fuel + 1, r =>
      if r.sees [.blockEntry] then
        let (item, r) := takePart true false afterLooseItem fuel r.spotBehind r.skip
        let (items, closed, r) := takeLooseItems fuel r
        (item :: items, closed, r)
      else ([], r.goesOn, r)

def takeEntries : (fuel : Nat) → Reader → List (Node × Node) × Bool × Reader
  | 0, r => ([], false, r.stop)
  | fuel + 1, r =>
      if r.sees [.key] then
        let (key, r) := takePart true true afterPart fuel r.spotBehind r.skip
        let (value, r) :=
          if r.sees [.value] then takePart true true afterPart fuel r.spotBehind r.skip
          else (if r.goesOn then .blank r.spot else .broken, r)
        let (entries, closed, r) := takeEntries fuel r
        ((key, value) :: entries, closed, r)
      else if r.sees [.blockEnd] then ([], true, r.skip)
      else ([], false, r.stop)

def takeFlowItems : (fuel : Nat) → (first : Bool) → Reader → List Node × Bool × Reader
  | 0, _, r => ([], false, r.stop)
  | fuel + 1, first, r =>
      if r.sees [.flowSequenceEnd] then ([], true, r.skip)
      else if !first && !r.sees [.flowEntry] then ([], false, r.stop)
      else
        let r := if first then r else r.skip
        if r.sees [.flowSequenceEnd] then ([], true, r.skip)
        else if !r.goesOn then ([], false, r)
        else
          let (item, r) :=
            if r.sees [.key] then takePair fuel r.skip else takeNode false false fuel r
          let (items, closed, r) := takeFlowItems fuel false r
          (item :: items, closed, r)

/-- Reads a mapping of one entry without braces, as an item of a sequence in brackets. -/
def takePair : (fuel : Nat) → Reader → Node × Reader
  | 0, r => (.broken, r.stop)
  | fuel + 1, r =>
      let spot := r.spot
      let (key, r) :=
        if r.sees [.value, .flowEntry, .flowSequenceEnd] then (.blank r.spotBehind, r.skip)
        else takeNode false false fuel r
      let (value, r) :=
        if r.sees [.value] then
          takePart false false [.flowEntry, .flowSequenceEnd] fuel r.skip.spot r.skip
        else (if r.goesOn then .blank r.spot else .broken, r)
      (.mapping spot [(key, value)] r.goesOn, r)

def takeFlowEntries :
    (fuel : Nat) → (first : Bool) → Reader → List (Node × Node) × Bool × Reader
  | 0, _, r => ([], false, r.stop)
  | fuel + 1, first, r =>
      if r.sees [.flowMappingEnd] then ([], true, r.skip)
      else if !first && !r.sees [.flowEntry] then ([], false, r.stop)
      else
        let r := if first then r else r.skip
        if r.sees [.flowMappingEnd] then ([], true, r.skip)
        else if !r.goesOn then ([], false, r)
        else
          let (key, value, r) :=
            if r.sees [.key] then
              let (key, r) :=
                takePart false false [.value, .flowEntry, .flowMappingEnd] fuel r.skip.spot r.skip
              let (value, r) :=
                if r.sees [.value] then
                  takePart false false [.flowEntry, .flowMappingEnd] fuel r.skip.spot r.skip
                else (if r.goesOn then .blank r.spot else .broken, r)
              (key, value, r)
            else
              let (key, r) := takeNode false false fuel r
              (key, if r.goesOn then .blank r.spot else .broken, r)
          let (entries, closed, r) := takeFlowEntries fuel false r
          ((key, value) :: entries, closed, r)

end

/-!
## Whole documents
-/

def isKnownVersion (major minor : Nat) : Bool :=
  major == 1 && (minor == 1 || minor == 2)

/-- Reads the directives before a document; each of them may be given once. -/
def takeDirectives : (fuel : Nat) → (versioned : Bool) → Reader → Reader
  | 0, _, r => r
  | fuel + 1, versioned, r =>
      match r.peek? with
      | some (.versionDirective major minor) =>
          if versioned || !isKnownVersion major minor then r.stop
          else takeDirectives fuel true r.skip
      | some (.tagDirective handle start) =>
          if (r.handles.lookup handle).isSome then r.stop
          else takeDirectives fuel versioned { r.skip with handles := (handle, start) :: r.handles }
      | _ => r

def announcesDocument (r : Reader) : Bool :=
  match r.peek? with
  | some (.versionDirective ..) | some (.tagDirective ..) | some .documentStart => true
  | _ => false

def atNothing (r : Reader) : Bool :=
  r.announcesDocument || r.sees [.documentEnd, .streamEnd]

def takeRoot (r : Reader) : Node × Reader :=
  let fuel := 2 * r.tokens.length + 2
  if r.announcesDocument then
    let r := r.takeDirectives (r.tokens.length + 1) false
    let r := { r with handles := r.handles ++ commonHandles }
    if r.sees [.documentStart] then
      if r.skip.atNothing then (.blank r.skip.spot, r.skip) else r.skip.takeNode true false fuel
    else (.broken, r.stop)
  else { r with handles := commonHandles }.takeNode true false fuel

def skipEnds (r : Reader) : Reader :=
  { r with tokens := r.tokens.dropWhile fun placed => placed.token == .documentEnd }

end Reader

def Document.ofTokens (tokens : List Placed) : Document :=
  let r : Reader := ⟨tokens, [], [], []⟩
  if r.sees [.streamEnd] then ⟨.blank r.spot, [], true⟩
  else
    let (root, r') := r.takeRoot
    ⟨root, r'.marked, r'.skipEnds.sees [.streamEnd]⟩

def Document.ofText (text : String) : Document :=
  .ofTokens (tokensOf text.toList)

end Yaml
end LogHarvest
