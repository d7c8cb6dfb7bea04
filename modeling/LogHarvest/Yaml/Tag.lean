import LogHarvest.Text.Utf8
import LogHarvest.Yaml.Cursor
import LogHarvest.Yaml.Token

/-!
# Names in a document

Anchors, tags and directives.  A tag is a handle with a suffix, where a directive
says what the handle stands for, or it is written out between angle brackets.
-/

namespace LogHarvest
namespace Yaml

def takeName (p : Cursor) : Option (String × Cursor) :=
  let name := p.rest.takeWhile isNameChar
  let p' := p.skipMany name.length
  let ends :=
    match p'.rest with
    | [] => true
    | c :: _ => isSpace c || isBreak c || "?:,]\x7d%@\x60".toList.contains c
  if name.isEmpty || !ends then none else some (String.ofList name, p')

/-!
## Tags
-/

def isTagChar (wide : Bool) (c : Char) : Bool :=
  isNameChar c || ";/?:@&=+$.!~*'()".toList.contains c ||
    (wide && (c == ',' || c == '[' || c == ']'))

def octet? : List Char → Option Nat
  | '%' :: a :: b :: _ => do
      let high ← hexValue? a
      let low ← hexValue? b
      some (high * 16 + low)
  | _ => none

def octetCount? (first : Nat) : Option Nat :=
  if first < 0x80 then some 1
  else if 0xC0 ≤ first && first < 0xE0 then some 2
  else if 0xE0 ≤ first && first < 0xF0 then some 3
  else if 0xF0 ≤ first && first < 0xF8 then some 4
  else none

def takeOctets : (count : Nat) → Text.Bytes → Cursor → Option (Text.Bytes × Cursor)
  | 0, bytes, p => some (bytes, p)
  | count + 1, bytes, p => do
      let octet ← octet? p.rest
      if 0x80 ≤ octet && octet < 0xC0 then
        takeOctets count (bytes ++ [octet.toUInt8]) (p.skipMany 3)
      else none

def takeTagText (wide : Bool) : (fuel : Nat) → List Char → Cursor → Option (List Char × Cursor)
  | 0, text, p => some (text, p)
  | fuel + 1, text, p =>
      match p.rest with
      | [] => some (text, p)
      | c :: _ =>
          if c == '%' then do
            let first ← octet? p.rest
            let count ← octetCount? first
            let (bytes, p') ← takeOctets (count - 1) [first.toUInt8] (p.skipMany 3)
            takeTagText wide fuel (text ++ (Text.decodeLossy bytes).toList) p'
          else if isTagChar wide c then takeTagText wide fuel (text ++ [c]) p.skip
          else some (text, p)

/-- Reads the rest of a tag behind some text; what is read and that text are not both empty. -/
def takeTagRest (wide : Bool) (start : List Char) (p : Cursor) : Option (String × Cursor) := do
  let (text, p') ← takeTagText wide (p.left + 1) [] p
  if start.isEmpty && text.isEmpty then none
  else some (String.ofList (start.drop 1 ++ text), p')

def takeHandle (p : Cursor) : Option (List Char × Cursor) :=
  if !p.sees '!' then none
  else
    let name := p.skip.rest.takeWhile isNameChar
    let p' := p.skip.skipMany name.length
    if p'.sees '!' then some ('!' :: name ++ ['!'], p'.skip) else some ('!' :: name, p')

def isHandle (text : List Char) : Bool :=
  2 ≤ text.length && text.getLast? == some '!'

def takeTagParts (p : Cursor) : Option (String × String × Cursor) :=
  if (p.rest.drop 1).head? == some '<' then do
    let (text, p') ← takeTagRest true [] (p.skipMany 2)
    if p'.sees '>' then some ("", text, p'.skip) else none
  else do
    let (handle, p') ← takeHandle p
    if isHandle handle then
      let (suffix, p'') ← takeTagRest false [] p'
      some (String.ofList handle, suffix, p'')
    else
      let (suffix, p'') ← takeTagRest false handle p'
      if suffix.isEmpty then some ("", "!", p'') else some ("!", suffix, p'')

def takeTag (flow : Bool) (p : Cursor) : Option (Token × Cursor) := do
  let (handle, suffix, p') ← takeTagParts p
  if atGap p'.rest || (flow && p'.sees ',') then some (.tag handle suffix, p') else none

/-!
## Directives
-/

def maxVersionDigits : Nat := 9

def takeVersionNumber (p : Cursor) : Option (Nat × Cursor) :=
  let digits := p.rest.takeWhile fun c => '0' ≤ c && c ≤ '9'
  if digits.isEmpty || maxVersionDigits < digits.length then none
  else
    some (digits.foldl (fun n c => n * 10 + (c.toNat - '0'.toNat)) 0, p.skipMany digits.length)

def takeVersion (p : Cursor) : Option (Token × Cursor) := do
  let (major, p') ← takeVersionNumber (p.skipWhile isSpace)
  if !p'.sees '.' then none
  let (minor, p'') ← takeVersionNumber p'.skip
  some (.versionDirective major minor, p'')

def takeTagMeaning (p : Cursor) : Option (Token × Cursor) := do
  let (handle, p') ← takeHandle (p.skipWhile isSpace)
  if !isHandle handle && handle != ['!'] then none
  let p'' := p'.skipWhile isSpace
  if p''.index == p'.index then none
  let (start, p''') ← takeTagRest true [] p''
  if atGap p'''.rest then some (.tagDirective (String.ofList handle) start, p''') else none

def takeDirective (p : Cursor) : Option (Token × Cursor) := do
  let name := p.skip.rest.takeWhile isNameChar
  let p' := p.skip.skipMany name.length
  if !atGap p'.rest then none
  let (token, p'') ←
    if name == "YAML".toList then takeVersion p'
    else if name == "TAG".toList then takeTagMeaning p'
    else none
  some (token, ← p''.finishLine)

end Yaml
end LogHarvest
