import LogHarvest.Text.Shapeless

/-!
# Texts shown in messages

A name, a path or a command that a message mentions stands between double
quotes, with escapes for whatever would make the message ambiguous or
unreadable.  The escapes are those of most programming languages: `\t`, `\n`,
`\r`, `\0`, `\"`, `\\`, and `\u` with the hexadecimal code point in braces for
controls and for the characters of the table in `Text.Shapeless`.
-/

namespace LogHarvest
namespace Text

def hexDigits (n : Nat) : List Char :=
  Nat.toDigits 16 n

def escapedChar (c : Char) : List Char :=
  if c == '\t' then ['\\', 't']
  else if c == '\n' then ['\\', 'n']
  else if c == '\r' then ['\\', 'r']
  else if c == '\x00' then ['\\', '0']
  else if c == '"' then ['\\', '"']
  else if c == '\\' then ['\\', '\\']
  else if c.toNat < 0x20 || c.toNat == 0x7F || isShapeless c then
    ['\\', 'u', '\x7b'] ++ hexDigits c.toNat ++ ['\x7d']
  else [c]

def quoted (s : String) : String :=
  String.ofList ('"' :: s.toList.flatMap escapedChar ++ ['"'])

def shownOption (n : Option Int) : String :=
  match n with
  | none => "None"
  | some value => "Some(" ++ toString value ++ ")"

end Text
end LogHarvest
