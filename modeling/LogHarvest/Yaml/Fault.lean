import LogHarvest.Yaml.Token

/-!
# Why a document cannot be read

A document is either no YAML text at all, or its values do not have the shape
that is asked for.  In the second case the message names the value by the keys
that lead to it.
-/

namespace LogHarvest
namespace Yaml

inductive Step
  | key (name : String)
  | item (index : Nat)
  /-- The value stands under a key that is no scalar. -/
  | unnamed
deriving DecidableEq, Repr

inductive Fault
  /-- The text is no YAML document, or the document breaks off. -/
  | malformed
  | notOneDocument
  | mismatch (path : List Step) (spot : Spot) (text : String)
deriving DecidableEq, Repr

def pathText (path : List Step) : String :=
  path.foldl
    (fun before step =>
      match step with
      | .key name => if before.isEmpty then name else before ++ "." ++ name
      | .unnamed => if before.isEmpty then "?" else before ++ ".?"
      | .item index =>
          (if before.isEmpty then "." else before) ++ "[" ++ toString index ++ "]")
    ""

/-- How a message says where something stands; the start of the text goes without saying. -/
def Spot.message (spot : Spot) : String :=
  if spot = ⟨0, 0⟩ then ""
  else " at line " ++ toString (spot.line + 1) ++ " column " ++ toString (spot.column + 1)

def Fault.message : Fault → String
  | .malformed => "the text is not a document"
  | .notOneDocument =>
      "deserializing from YAML containing more than one document is not supported"
  | .mismatch path spot text =>
      (if path.isEmpty then text else pathText path ++ ": " ++ text) ++ spot.message

end Yaml
end LogHarvest
