import LogHarvest.Proofs.Artifact.Shortening
import LogHarvest.Proofs.Text.Boundaries

/-!
# Shortening byte by byte

A name can also be shortened on its bytes.  The extension is then the slice from the last
point on, and the cut walks back from its place until it does not lie within a character.
The walk could pass the first byte, and a slice could start or end within a character, but
neither ever happens: what comes out are the bytes of the shortened name
(`shortenBytes?_encode`).
-/

namespace LogHarvest
namespace Artifact

/-!
## What a cut keeps
-/

theorem takeBytes_of_le {bytes : Nat} {cs : List Char} (hfits : Text.byteLength cs ≤ bytes) :
    takeBytes bytes cs = cs := by
  rcases takeBytes_cases bytes cs with hall | ⟨c, back, hparts, hfull⟩
  · exact hall
  · have hbytes := congrArg Text.byteLength hparts
    rw [Text.byteLength_append, Text.byteLength_cons] at hbytes
    omega

structure IsLongestStart (most : Nat) (cs front : List Char) : Prop where
  start : front <+: cs
  fits : Text.byteLength front ≤ most
  longest : ∀ other, other <+: cs → Text.byteLength other ≤ most → other <+: front

theorem isLongestStart_takeBytes (most : Nat) (cs : List Char) :
    IsLongestStart most cs (takeBytes most cs) := by
  refine ⟨takeBytes_isPrefix most cs, byteLength_takeBytes_le most cs, ?_⟩
  rintro other ⟨more, rfl⟩ hfits
  have hstart := takeBytes_isPrefix_append most other more
  rwa [takeBytes_of_le hfits] at hstart

def keptFront (name : String) : String :=
  String.ofList (takeBytes keptName name.toList)

theorem toList_keptFront (name : String) :
    (keptFront name).toList = takeBytes keptName name.toList :=
  String.toList_ofList

theorem length_encode_keptFront (name : String) :
    (Text.encode (keptFront name)).length = cut name := by
  rw [Text.length_encode, toList_keptFront]
  rfl

/-!
## What is kept of an extension
-/

/-- What is kept of the part from the last point on: all of it if it is short, or nothing. -/
inductive KeepsExtension (most : Nat) (cs : List Char) : (kept : List Char) → Prop
  | short {front rest : List Char} (hparts : cs = front ++ '.' :: rest) (hlast : '.' ∉ rest)
      (hfits : Text.byteLength ('.' :: rest) ≤ most) : KeepsExtension most cs ('.' :: rest)
  | long {front rest : List Char} (hparts : cs = front ++ '.' :: rest) (hlast : '.' ∉ rest)
      (hlong : most < Text.byteLength ('.' :: rest)) : KeepsExtension most cs []
  | pointless (hpoint : '.' ∉ cs) : KeepsExtension most cs []

theorem keepsExtension_extension (cs : List Char) :
    KeepsExtension longestExtension cs (extension cs) := by
  unfold extension
  dsimp only
  rcases fromLastPoint_cases cs with ⟨hnone, hfound⟩ | ⟨front, rest, hparts, hlast, hfound⟩
  · rw [hfound, ite_self]
    exact .pointless hnone
  · rw [hfound]
    split
    · rename_i hfits
      exact .short hparts hlast hfits
    · rename_i hlong
      exact .long hparts hlast (Nat.lt_of_not_le hlong)

def keptEnd (name : String) : String :=
  String.ofList (extension name.toList)

theorem toList_keptEnd (name : String) : (keptEnd name).toList = extension name.toList :=
  String.toList_ofList

theorem shorten_eq_append {name : String} (letters : String) (hlong : isLong name = true) :
    shorten letters name = keptFront name ++ letters ++ keptEnd name := by
  apply String.toList_inj.1
  rw [toList_shorten_of_isLong hlong, String.toList_append, String.toList_append,
    toList_keptFront, toList_keptEnd, List.append_assoc]

/-!
## Slices of a name
-/

def endSlice? (name : Text.Bytes) : Option Text.Bytes :=
  match Text.lastPlace? Text.pointByte name with
  | some place =>
      if name.length - place ≤ longestExtension then Text.slice? name place name.length
      else some []
  | none => some []

/--
Shortens a name on its bytes.  This fails if the walk back from the cut passes the first
byte, and if a slice starts or ends within a character.
-/
def shortenBytes? (letters name : Text.Bytes) : Option Text.Bytes :=
  if name.length < longName then some name
  else do
    let ending ← endSlice? name
    let reached ← Text.retreat? name keptName
    let front ← Text.slice? name 0 reached.place
    return front ++ letters ++ ending

theorem encode_point_cons (rest : List Char) :
    Text.encode (String.ofList ('.' :: rest)) =
      Text.pointByte :: Text.encode (String.ofList rest) := by
  unfold Text.encode
  rw [String.toList_ofList, String.toList_ofList, List.flatMap_cons]
  rfl

theorem endSlice?_encode (name : String) :
    endSlice? (Text.encode name) = some (Text.encode (keptEnd name)) := by
  unfold endSlice? keptEnd extension
  rcases fromLastPoint_cases name.toList with ⟨hnone, hfound⟩ | ⟨front, rest, hparts, hlast, hfound⟩
  · rw [Text.lastPlace?_eq_none (by rwa [Text.pointByte_mem_encode_iff]), hfound]
    rfl
  · have hname : name = String.ofList front ++ String.ofList ('.' :: rest) := by
      rw [← String.ofList_append, ← hparts, String.ofList_toList]
    have hmissing : Text.pointByte ∉ Text.encode (String.ofList rest) := by
      rwa [Text.pointByte_mem_encode_iff, String.toList_ofList]
    have hplace : Text.lastPlace? Text.pointByte (Text.encode name) =
        some (Text.encode (String.ofList front)).length := by
      rw [hname, Text.encode_append, encode_point_cons, Text.lastPlace?_append _ hmissing]
    have hrest : (Text.encode name).length - (Text.encode (String.ofList front)).length =
        Text.byteLength ('.' :: rest) := by
      rw [hname, Text.encode_append, List.length_append, Nat.add_sub_cancel_left,
        Text.length_encode, String.toList_ofList]
    have hslice := Text.slice?_encode (String.ofList front) (String.ofList ('.' :: rest)) ""
    rw [String.append_empty, ← hname] at hslice
    rw [hplace, hfound]
    dsimp only
    rw [hrest, hslice]
    split <;> rfl

theorem slice?_keptFront (name : String) :
    Text.slice? (Text.encode name) 0 (cut name) = some (Text.encode (keptFront name)) := by
  obtain ⟨back, hparts⟩ := takeBytes_isPrefix keptName name.toList
  have hname : name = keptFront name ++ String.ofList back := by
    rw [keptFront, ← String.ofList_append, hparts, String.ofList_toList]
  have hslice := Text.slice?_encode "" (keptFront name) (String.ofList back)
  rwa [String.empty_append, ← hname, length_encode_keptFront] at hslice

theorem exists_retreat_of_isLong {name : String} (hlong : isLong name = true) :
    ∃ steps ≤ 3, Text.retreat? (Text.encode name) keptName = some ⟨steps, cut name⟩ := by
  obtain ⟨hle, hlt⟩ := cut_of_isLong hlong
  rcases takeBytes_cases keptName name.toList with hall | ⟨c, back, hparts, hfull⟩
  · have hbytes := isLong_iff.1 hlong
    rw [← hall] at hbytes
    exact absurd (Nat.le_trans hbytes hle) (by decide)
  · -- The cut comes from within the character behind the front.
    have hname : name = keptFront name ++ String.singleton c ++ String.ofList back := by
      apply String.toList_inj.1
      simp only [String.toList_append, toList_keptFront, String.toList_singleton,
        String.toList_ofList, List.append_assoc]
      exact hparts
    have hwithin : keptName - cut name < c.utf8Size :=
      (Nat.sub_lt_iff_lt_add' hle).2 hfull
    have hretreat := Text.retreat?_encode (keptFront name) (String.ofList back) c hwithin
    rw [← hname, length_encode_keptFront, Nat.add_sub_cancel' hle] at hretreat
    exact ⟨keptName - cut name, by omega, hretreat⟩

theorem shortenBytes?_encode (letters name : String) :
    shortenBytes? (Text.encode letters) (Text.encode name) =
      some (Text.encode (shorten letters name)) := by
  unfold shortenBytes?
  rw [Text.length_encode]
  by_cases hlong : isLong name = true
  · obtain ⟨steps, -, hretreat⟩ := exists_retreat_of_isLong hlong
    rw [if_neg (Nat.not_lt.2 (isLong_iff.1 hlong)), endSlice?_encode, hretreat]
    dsimp only [Option.bind_eq_bind, Option.bind_some]
    rw [slice?_keptFront, shorten_eq_append letters hlong, Text.encode_append, Text.encode_append]
    rfl
  · rw [if_pos (Nat.lt_of_not_le fun hle => hlong (isLong_iff.2 hle)), shorten_of_not_isLong hlong]

/-!
## Long names
-/

theorem utf8Size_of_toNat_lt {c : Char} (hc : c.toNat < 128) : c.utf8Size = 1 :=
  Char.utf8Size_eq_one_iff.2 (UInt32.le_iff_toNat_le.2 (Nat.le_of_lt_succ hc))

theorem length_encode_shorten_le {letters name : String} (hlength : letters.toList.length = 5)
    (hascii : ∀ c ∈ letters.toList, c.toNat < 128) (hlong : isLong name = true) :
    (Text.encode (shorten letters name)).length ≤ 251 := by
  have hfront : (Text.encode (keptFront name)).length ≤ 230 := by
    rw [length_encode_keptFront]
    exact (cut_of_isLong hlong).1
  have hletters : (Text.encode letters).length = 5 := by
    rw [Text.length_encode,
      Text.byteLength_of_single fun c hc => utf8Size_of_toNat_lt (hascii c hc),
      hlength]
  have hend : (Text.encode (keptEnd name)).length ≤ 16 := by
    rw [Text.length_encode, toList_keptEnd]
    exact byteLength_extension_le name.toList
  rw [shorten_eq_append letters hlong, Text.encode_append, Text.encode_append, List.length_append,
    List.length_append]
  omega

/--
A name of 240 bytes or more is cut between characters, wherever these have several bytes.  The
walk back from byte 230 makes at most three steps and does not pass the first byte, and the
slices in front of the cut and from the last point on are not refused.  They are the longest
start of whole characters within 230 bytes, and the extension of up to sixteen bytes or nothing;
with five letters of ASCII between them they are the shortened name.  It has at most 251
bytes, and so no walk along it is refused because of a name that is too long.
-/
theorem shorten_between_characters {letters name : String} (hlength : letters.toList.length = 5)
    (hascii : ∀ c ∈ letters.toList, c.toNat < 128) (hlong : 240 ≤ (Text.encode name).length) :
    ∃ front ending : String,
      IsLongestStart 230 name.toList front.toList ∧
      KeepsExtension 16 name.toList ending.toList ∧
      (∃ steps ≤ 3, Text.retreat? (Text.encode name) 230 =
        some ⟨steps, (Text.encode front).length⟩) ∧
      Text.slice? (Text.encode name) 0 (Text.encode front).length = some (Text.encode front) ∧
      endSlice? (Text.encode name) = some (Text.encode ending) ∧
      shortenBytes? (Text.encode letters) (Text.encode name) =
        some (Text.encode (shorten letters name)) ∧
      shorten letters name = front ++ letters ++ ending ∧
      (Text.encode (shorten letters name)).length ≤ 251 ∧
      ∀ (t : Tree) (place : Place),
        t.walk place (Path.components (shorten letters name)) ≠ .error .nameTooLong := by
  rw [Text.length_encode] at hlong
  have hlong : isLong name = true := isLong_iff.2 hlong
  have hbytes := length_encode_shorten_le hlength hascii hlong
  refine ⟨keptFront name, keptEnd name, ?_, ?_, ?_, ?_, endSlice?_encode name,
    shortenBytes?_encode letters name, shorten_eq_append letters hlong, hbytes, ?_⟩
  · rw [toList_keptFront]
    exact isLongestStart_takeBytes keptName name.toList
  · rw [toList_keptEnd]
    exact keepsExtension_extension name.toList
  · rw [length_encode_keptFront]
    exact exists_retreat_of_isLong hlong
  · rw [length_encode_keptFront]
    exact slice?_keptFront name
  · intro t place
    refine Tree.walk_ne_nameTooLong fun part hpart => ?_
    have hpart := Tree.byteLength_le_of_mem hpart
    rw [← Text.length_encode (shorten letters name)] at hpart
    exact Nat.le_trans hpart (Nat.le_trans hbytes (by decide))

def picturedName : String :=
  String.ofList (List.replicate 56 '😀' ++ '.' :: 'a' :: 'b' :: '😀' :: List.replicate 9 'x')

theorem shorten_between_characters_pictured :
    240 ≤ (Text.encode picturedName).length ∧
      Text.retreat? (Text.encode picturedName) 230 = some ⟨3, 227⟩ ∧
      ∃ front ending : String, (Text.encode front).length = 227 ∧
        shorten "a.~9Z" picturedName = front ++ "a.~9Z" ++ ending ∧
        shortenBytes? (Text.encode "a.~9Z") (Text.encode picturedName) =
          some (Text.encode (shorten "a.~9Z" picturedName)) ∧
        (Text.encode (shorten "a.~9Z" picturedName)).length ≤ 251 := by
  have hchars : picturedName.toList = _ := String.toList_ofList
  have hlong : 240 ≤ (Text.encode picturedName).length := by
    rw [Text.encode, hchars]
    decide +kernel
  have hwalk : Text.retreat? (Text.encode picturedName) 230 = some ⟨3, 227⟩ := by
    rw [Text.encode, hchars]
    decide +kernel
  have hall : "a.~9Z".toList.all (·.toNat < 128) = true := by decide
  have hascii : ∀ c ∈ "a.~9Z".toList, c.toNat < 128 := fun c hc =>
    of_decide_eq_true (List.all_eq_true.1 hall c hc)
  obtain ⟨front, ending, -, -, ⟨steps, -, hretreat⟩, -, -, hbytes, hparts, hlength, -⟩ :=
    shorten_between_characters rfl hascii hlong
  rw [hwalk, Option.some_inj, Text.Retreat.mk.injEq] at hretreat
  exact ⟨hlong, hwalk, front, ending, hretreat.2.symm, hparts, hbytes, hlength⟩

end Artifact
end LogHarvest
