import LogHarvest.Text.Decimal
import LogHarvest.Yaml.Character

/-!
# What plain scalars mean

A plain scalar can be a null, a truth value, an integer, a number with a point,
or just text.  A run of digits that starts with a zero is text.
-/

namespace LogHarvest
namespace Yaml

inductive Plain
  | null
  | bool (value : Bool)
  | int (value : Int)
  | float (value : Float)
  | text

namespace Plain

def isNull (text : String) : Bool :=
  ["null", "Null", "NULL", "~"].contains text

def bool? (text : String) : Option Bool :=
  if ["true", "True", "TRUE"].contains text then some true
  else if ["false", "False", "FALSE"].contains text then some false
  else none

def unsigned : List Char → List Char
  | '+' :: rest => rest
  | '-' :: rest => rest
  | cs => cs

/-- Two digits or more, of which the first is a zero, perhaps behind a sign. -/
def isPadded (text : List Char) : Bool :=
  match unsigned text with
  | '0' :: d :: rest => (d :: rest).all Text.isDigit
  | _ => false

def natural? (base : Nat) (digits : List Char) : Option Nat := do
  if digits.isEmpty then none
  let values ← digits.mapM hexValue?
  if values.all (· < base) then some (Text.digitsValue base values) else none

def magnitude? (text : List Char) : Option Nat :=
  let announced :=
    match text with
    | '0' :: 'x' :: digits => natural? 16 digits
    | '0' :: 'o' :: digits => natural? 8 digits
    | '0' :: 'b' :: digits => natural? 2 digits
    | _ => none
  announced.orElse fun _ => if isPadded text then none else natural? 10 text

/-- The least integer beyond those that are read as integers. -/
def beyond : Nat := Nat.pow 2 128

def int? (text : String) : Option Int :=
  match text.toList with
  | '-' :: digits => do
      let n ← magnitude? digits
      if n ≤ beyond / 2 then some (-n) else none
  | '+' :: digits => do
      let n ← magnitude? digits
      if n < beyond then some n else none
  | digits => do
      let n ← magnitude? digits
      if n < beyond then some n else none

def natural64? (text : String) : Option Nat :=
  let digits :=
    match text.toList with
    | '+' :: digits => digits
    | digits => digits
  (magnitude? digits).filter (· < Nat.pow 2 64)

def infinity? (text : List Char) : Option Float :=
  let isName (name : List Char) := [".inf", ".Inf", ".INF"].contains (String.ofList name)
  match text with
  | '-' :: name => if isName name then some (-1 / 0) else none
  | '+' :: name => if isName name then some (1 / 0) else none
  | name => if isName name then some (1 / 0) else none

/-- Reads a number, with or without a point; what is too great for a number is none. -/
def float? (text : String) : Option Float :=
  if [".nan", ".NaN", ".NAN"].contains text then some (0 / 0)
  else
    (infinity? text.toList).orElse fun _ =>
      (Text.readFloat? text.toList).filter Float.isFinite

def ofText (text : String) : Plain :=
  if text.isEmpty || isNull text then .null
  else
    match bool? text, int? text with
    | some value, _ => .bool value
    | none, some value => .int value
    | none, none =>
        if isPadded text.toList then .text
        else
          match float? text with
          | some value => .float value
          | none => .text

/-- The style of numbers in messages about documents: positional, always with a point. -/
def messageStyle : Text.NumberStyle :=
  { Text.plainStyle with pointAfterWhole := true }

def integerText (value : Int) : String :=
  let suffix :=
    if (Nat.pow 2 64 : Int) ≤ value then " as u128"
    else if value < -(Nat.pow 2 63 : Int) then " as i128"
    else ""
  "integer \x60" ++ toString value ++ "\x60" ++ suffix

end Plain
end Yaml
end LogHarvest
