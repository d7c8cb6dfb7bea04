/-!
# Bytes and text

Files and command outputs are bytes; most of them are UTF-8.  This module has
the encoding of text, the strict decoding that a configuration file needs, and
the forgiving decoding that listings need, in which every ill-formed run is
replaced by U+FFFD.
-/

namespace LogHarvest
namespace Text

abbrev Bytes := List UInt8

def encode (s : String) : Bytes :=
  s.toList.flatMap String.utf8EncodeChar

def byteLength (cs : List Char) : Nat :=
  cs.foldr (fun c n => c.utf8Size + n) 0

def isContinuation (b : UInt8) : Bool :=
  0x80 ≤ b && b ≤ 0xBF

/-- What the first byte of a character promises about those behind it. -/
structure Lead where
  /-- The bits that the first byte contributes. -/
  bits : Nat
  /-- How many bytes must follow. -/
  follow : Nat
  /-- The least value of the second byte. -/
  least : UInt8
  /-- The greatest value of the second byte. -/
  greatest : UInt8

def Lead.of? (b : UInt8) : Option Lead :=
  if 0xC2 ≤ b && b ≤ 0xDF then some ⟨b.toNat - 0xC0, 1, 0x80, 0xBF⟩
  else if b == 0xE0 then some ⟨0, 2, 0xA0, 0xBF⟩
  else if b == 0xED then some ⟨13, 2, 0x80, 0x9F⟩
  else if 0xE1 ≤ b && b ≤ 0xEF then some ⟨b.toNat - 0xE0, 2, 0x80, 0xBF⟩
  else if b == 0xF0 then some ⟨0, 3, 0x90, 0xBF⟩
  else if 0xF1 ≤ b && b ≤ 0xF3 then some ⟨b.toNat - 0xF0, 3, 0x80, 0xBF⟩
  else if b == 0xF4 then some ⟨4, 3, 0x80, 0x8F⟩
  else none

inductive Tail
  | complete (code : Nat) (rest : Bytes)
  | broken (rest : Bytes)

def readTail (least greatest : UInt8) : (follow : Nat) → (bits : Nat) → Bytes → Tail
  | 0, bits, rest => .complete bits rest
  | _ + 1, _, [] => .broken []
  | follow + 1, bits, b :: rest =>
      if least ≤ b && b ≤ greatest then
        readTail 0x80 0xBF follow (bits * 64 + (b.toNat - 0x80)) rest
      else .broken (b :: rest)

inductive Chunk
  | char (c : Char) (rest : Bytes)
  /-- The longest start that no character has in full is skipped. -/
  | illFormed (rest : Bytes)

def readChar (b : UInt8) (rest : Bytes) : Chunk :=
  if b < 0x80 then .char (Char.ofNat b.toNat) rest
  else
    match Lead.of? b with
    | none => .illFormed rest
    | some lead =>
        match readTail lead.least lead.greatest lead.follow lead.bits rest with
        | .complete code rest' => .char (Char.ofNat code) rest'
        | .broken rest' => .illFormed rest'

def decodeChunks : (fuel : Nat) → Bytes → List (Option Char)
  | 0, _ => []
  | _ + 1, [] => []
  | fuel + 1, b :: rest =>
      match readChar b rest with
      | .char c rest' => some c :: decodeChunks fuel rest'
      | .illFormed rest' => none :: decodeChunks fuel rest'

/-- The characters of some bytes, with `none` for each ill-formed run. -/
def chunksOf (bytes : Bytes) : List (Option Char) :=
  decodeChunks bytes.length bytes

def decodeLossy (bytes : Bytes) : String :=
  String.ofList ((chunksOf bytes).map fun chunk => chunk.getD '\ufffd')

def decode? (bytes : Bytes) : Option String :=
  ((chunksOf bytes).mapM id).map String.ofList

end Text
end LogHarvest
