/-!
# ASCII characters

The classes and the case map of ASCII.  Names of hosts and settings use them:
characters beyond ASCII belong to none of the classes and have no other case.
-/

namespace LogHarvest
namespace Text

def isDigit (c : Char) : Bool :=
  '0' ≤ c && c ≤ '9'

def isAlphanumeric (c : Char) : Bool :=
  ('a' ≤ c && c ≤ 'z') || ('A' ≤ c && c ≤ 'Z') || isDigit c

def lowered (c : Char) : Char :=
  if 'A' ≤ c && c ≤ 'Z' then Char.ofNat (c.toNat + 32) else c

def digitValue (c : Char) : Nat :=
  c.toNat - '0'.toNat

end Text
end LogHarvest
