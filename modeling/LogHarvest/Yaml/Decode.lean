import LogHarvest.Text.Escaped
import LogHarvest.Yaml.Document
import LogHarvest.Yaml.Fault
import LogHarvest.Yaml.Plain

/-!
# Values of a known shape

Whoever reads a document knows which values it should hold.  The functions of
this module look at one node and give the value of the shape that is asked for,
or say where in the document something else stands.

Nodes are looked at in the order of the text, so the first mismatch wins, and a
mismatch wins over a break of the text behind it.
-/

namespace LogHarvest
namespace Yaml

structure Located where
  node : Node
  path : List Step
  marked : List (Nat × Node)

def standardTag (name : String) : String :=
  "tag:yaml.org,2002:" ++ name

mutual

def Node.isWhole : Node → Bool
  | .scalar .. | .alias _ => true
  | .sequence _ items closed => areWhole items && closed
  | .mapping _ entries closed => entriesWhole entries && closed
  | .broken => false

def areWhole : List Node → Bool
  | [] => true
  | item :: items => item.isWhole && areWhole items

def entriesWhole : List (Node × Node) → Bool
  | [] => true
  | (key, value) :: entries => key.isWhole && value.isWhole && entriesWhole entries

end

/-!
## Mismatches
-/

def invalidType (found expected : String) : String :=
  "invalid type: " ++ found ++ ", expected " ++ expected

def invalidValue (found expected : String) : String :=
  "invalid value: " ++ found ++ ", expected " ++ expected

def foundText (text : String) : String :=
  "string " ++ Text.quoted text

def Plain.found (text : String) : Plain → String
  | .null => "unit value"
  | .bool value => "boolean \x60" ++ (if value then "true" else "false") ++ "\x60"
  | .int value => integerText value
  | .float value => "floating point \x60" ++ messageStyle.render value ++ "\x60"
  | .text => foundText text

/-- The meaning that a standard tag gives to a text, and how messages call such values. -/
def Plain.ofTag? (tag text : String) : Option (Option Plain × String) :=
  if tag == standardTag "bool" then some ((bool? text).map .bool, "a boolean")
  else if tag == standardTag "int" then some ((int? text).map .int, "an integer")
  else if tag == standardTag "float" then some ((float? text).map .float, "a float")
  else if tag == standardTag "null" then
    some (if isNull text then some .null else none, "null")
  else none

def scalarMismatch (tag : Option String) (style : ScalarStyle) (text expected : String) :
    String :=
  let untagged := if style == .plain then (Plain.ofText text).found text else foundText text
  match tag with
  | none => invalidType untagged expected
  | some tag =>
      match Plain.ofTag? tag text with
      | some (some meaning, _) => invalidType (meaning.found text) expected
      | some (none, kind) => invalidValue (foundText text) kind
      | none =>
          invalidType (if tag.toList.head? == some '!' then untagged else foundText text)
            expected

/-- The text breaks off, or something else than the expected stands here. -/
def Node.mismatch (path : List Step) (expected : String) : Node → Fault
  | .scalar spot tag style text => .mismatch path spot (scalarMismatch tag style text expected)
  | .sequence spot .. => .mismatch path spot (invalidType "sequence" expected)
  | .mapping spot .. => .mismatch path spot (invalidType "map" expected)
  | .alias _ | .broken => .malformed

namespace Located

/-- The node itself, where another one stands for it. -/
def target (v : Located) : Node :=
  match v.node with
  | .alias mark => (v.marked.lookup mark).getD .broken
  | node => node

def mismatch (v : Located) (expected : String) : Fault :=
  v.target.mismatch v.path expected

def within (v : Located) (step : Step) (node : Node) : Located :=
  { v with node := node, path := v.path ++ [step] }

/-!
## Scalars
-/

def text (v : Located) (expected : String) : Except Fault String :=
  match v.target with
  | .scalar _ _ _ text => .ok text
  | _ => .error (v.mismatch expected)

/-- The text of a scalar that is written plainly, or as a block with the tag of its kind. -/
def unquoted? (v : Located) (kind : String) : Option String :=
  match v.target with
  | .scalar _ _ .plain text => some text
  | .scalar _ (some tag) .literal text => if tag == standardTag kind then some text else none
  | _ => none

def flag (v : Located) : Except Fault Bool :=
  match (v.unquoted? "bool").bind Plain.bool? with
  | some value => .ok value
  | none => .error (v.mismatch "a boolean")

def number (v : Located) : Except Fault Float :=
  match (v.unquoted? "float").bind Plain.float? with
  | some value => .ok value
  | none => .error (v.mismatch "f64")

def natural (v : Located) (bits : Nat) (expected : String) : Except Fault Nat :=
  match (v.unquoted? "int").bind Plain.natural64? with
  | some value =>
      if value < Nat.pow 2 bits then .ok value
      else .error (.mismatch v.path v.target.spot (invalidValue (Plain.integerText value) expected))
  | none => .error (v.mismatch expected)

def isBlank (v : Located) : Bool :=
  match v.target with
  | .scalar _ _ .plain text => text.isEmpty
  | _ => false

def optional {α : Type} (v : Located) (read : Located → Except Fault α) :
    Except Fault (Option α) :=
  match v.target with
  | .scalar _ none .plain text =>
      if text.isEmpty || Plain.isNull text then .ok none else (read v).map some
  | .scalar spot (some tag) .plain text =>
      if tag == standardTag "null" then
        if Plain.isNull text then .ok none
        else .error (.mismatch v.path spot (invalidValue (foundText text) "null"))
      else (read v).map some
  | _ => (read v).map some

/-!
## Sequences and mappings
-/

/-- The values of a sequence; a blank is an empty one. -/
def items {α : Type} (v : Located) (read : Located → Except Fault α) : Except Fault (List α) :=
  match v.target with
  | .sequence _ nodes closed => do
      let values ← nodes.zipIdx.mapM fun (node, index) => read (v.within (.item index) node)
      if closed then .ok values else .error .malformed
  | _ => if v.isBlank then .ok [] else .error (v.mismatch "a sequence")

def stepOf (key : Node) : Step :=
  match key with
  | .scalar _ _ _ text => .key text
  | _ => .unnamed

def entries {α : Type} (v : Located) (read : Located → Except Fault α) :
    Except Fault (List (String × α)) :=
  match v.target with
  | .mapping _ nodes closed => do
      let values ← nodes.mapM fun (key, value) => do
        let name ← Located.text { v with node := key } "a string"
        return (name, ← read (v.within (stepOf key) value))
      if closed then .ok values else .error .malformed
  | _ => if v.isBlank then .ok [] else .error (v.mismatch "a map")

/-- A field of a record: its name, and what its value does to the record. -/
structure Field (α : Type) where
  name : String
  required : Bool
  read : α → Located → Except Fault α

def recordEntries {α : Type} (v : Located) (fields : List (Field α)) :
    List (Node × Node) → (seen : List String) → α → Except Fault (List String × α)
  | [], seen, value => .ok (seen, value)
  | (key, node) :: rest, seen, value => do
      let name ← Located.text { v with node := key } "field identifier"
      match fields.find? fun field => field.name == name with
      | none =>
          if node.isWhole then v.recordEntries fields rest seen value else .error .malformed
      | some field =>
          if seen.contains name then
            .error (.mismatch v.path v.target.spot ("duplicate field \x60" ++ name ++ "\x60"))
          else
            let value ← field.read value (v.within (stepOf key) node)
            v.recordEntries fields rest (name :: seen) value

/--
A record: a mapping whose keys are names of fields.  Keys that are none are passed
over; fields that are not given keep what `start` has.
-/
def record {α : Type} (v : Located) (expected : String) (fields : List (Field α)) (start : α) :
    Except Fault α := do
  let (nodes, closed) ←
    match v.target with
    | .mapping _ nodes closed => .ok (nodes, closed)
    | _ => if v.isBlank then .ok ([], true) else .error (v.mismatch expected)
  let (seen, value) ← v.recordEntries fields nodes [] start
  if !closed then .error .malformed
  else
    match fields.find? fun field => field.required && !seen.contains field.name with
    | some field =>
        .error
          (.mismatch v.path v.target.spot ("missing field \x60" ++ field.name ++ "\x60"))
    | none => .ok value

end Located

def Document.decode {α : Type} (d : Document) (read : Located → Except Fault α) :
    Except Fault α := do
  let value ← read ⟨d.root, [], d.marked⟩
  if d.whole then .ok value else .error .notOneDocument

end Yaml
end LogHarvest
