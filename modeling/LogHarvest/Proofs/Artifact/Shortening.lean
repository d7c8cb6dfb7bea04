import LogHarvest.Proofs.Artifact.Distinct

/-!
# How short shortened names are

A name that is too long is cut, and gets letters and its old extension behind the cut.  The
cut leaves room for the letters and four more bytes before the name is too long again, but
an extension of up to sixteen bytes is put there.  So a shortened name can still be too
long, and even longer than it was: it is short enough exactly if the extension fits into the
room that is left (`shorten_below_iff`).
-/

namespace LogHarvest
namespace Artifact

def shortLength (name : String) : Nat :=
  cut name + drawnLength + Text.byteLength (extension name.toList)

def LeavesRoom (name : String) : Prop :=
  isLong name = true → shortLength name < longName

instance (name : String) : Decidable (LeavesRoom name) :=
  inferInstanceAs (Decidable (_ → _))

variable {letters name : String}

theorem isLong_iff : isLong name = true ↔ longName ≤ Text.byteLength name.toList :=
  decide_eq_true_iff

theorem byteLength_extension_le (cs : List Char) :
    Text.byteLength (extension cs) ≤ longestExtension := by
  unfold extension
  dsimp only
  split
  · assumption
  · exact Nat.zero_le _

theorem byteLength_shorten (hdrawn : IsDrawn letters) (hlong : isLong name = true) :
    Text.byteLength (shorten letters name).toList = shortLength name := by
  rw [toList_shorten_of_isLong hlong, Text.byteLength_append, Text.byteLength_append,
    Text.byteLength_of_alphanumeric hdrawn.alphanumeric, hdrawn.length, ← Nat.add_assoc]
  rfl

theorem shortLength_le (hlong : isLong name = true) :
    shortLength name ≤ keptName + drawnLength + longestExtension := by
  have hcut := (cut_of_isLong hlong).1
  have hextension := byteLength_extension_le name.toList
  unfold shortLength
  omega

theorem leavesRoom_of_extension (hextension : Text.byteLength (extension name.toList) ≤ 4) :
    LeavesRoom name := by
  intro hlong
  have hcut := (cut_of_isLong hlong).1
  have hkept : keptName + drawnLength + 4 < longName := by decide
  unfold shortLength
  omega

theorem not_leavesRoom (hlong : isLong name = true) (hlarge : longName ≤ shortLength name) :
    ¬ LeavesRoom name :=
  fun hroom => Nat.not_lt.2 hlarge (hroom hlong)

/-- What a short name's length has, a shortened name's has exactly if `shortLength` has it. -/
theorem byteLength_shorten_iff (hdrawn : IsDrawn letters) {p : Nat → Prop}
    (hshort : isLong name = false → p (Text.byteLength name.toList)) :
    p (Text.byteLength (shorten letters name).toList) ↔
      (isLong name = true → p (shortLength name)) := by
  by_cases hlong : isLong name = true
  · rw [byteLength_shorten hdrawn hlong]
    exact ⟨fun h _ => h, fun h => h hlong⟩
  · rw [shorten_of_not_isLong hlong]
    exact ⟨fun _ hlong' => absurd hlong' hlong, fun _ => hshort (eq_false_of_ne_true hlong)⟩

theorem byteLength_shorten_lt_iff (hdrawn : IsDrawn letters) :
    Text.byteLength (shorten letters name).toList < longName ↔ LeavesRoom name := by
  refine byteLength_shorten_iff (p := (· < longName)) hdrawn fun hshort => ?_
  refine Nat.lt_of_not_le fun hle => ?_
  rw [isLong_iff.2 hle] at hshort
  cases hshort

theorem byteLength_shorten_le_iff (hdrawn : IsDrawn letters) :
    Text.byteLength (shorten letters name).toList ≤ Text.byteLength name.toList ↔
      (isLong name = true → shortLength name ≤ Text.byteLength name.toList) :=
  byteLength_shorten_iff (p := (· ≤ Text.byteLength name.toList)) hdrawn fun _ => Nat.le_refl _

theorem shorten_shorten_iff (hdrawn : IsDrawn letters) :
    (∀ again, IsDrawn again → shorten again (shorten letters name) = shorten letters name) ↔
      LeavesRoom name := by
  rw [← byteLength_shorten_lt_iff hdrawn]
  constructor
  · intro hunchanged
    by_contra hlong
    have hlong : isLong (shorten letters name) = true := isLong_iff.2 (Nat.le_of_not_lt hlong)
    -- A name that is too long differs for different letters.
    have hdrawnA : IsDrawn "aaaaa" := isDrawn_of_all (by decide) (by decide)
    have hdrawnB : IsDrawn "bbbbb" := isDrawn_of_all (by decide) (by decide)
    exact shorten_ne_of_isLong hlong hlong hdrawnA hdrawnB (by decide)
      ((hunchanged _ hdrawnA).trans (hunchanged _ hdrawnB).symm)
  · intro hbelow again _
    exact shorten_of_not_isLong fun hlong => Nat.not_lt.2 (isLong_iff.1 hlong) hbelow

theorem fileNames_below_iff {draw : Nat → String} (hdraw : ∀ k, IsDrawn (draw k))
    (names : List String) :
    (∀ file ∈ fileNames draw names, Text.byteLength file.toList < longName) ↔
      ∀ name ∈ names, LeavesRoom name := by
  calc
    (∀ file ∈ fileNames draw names, Text.byteLength file.toList < longName)
      ↔ ∀ x ∈ names.zipIdx 1, LeavesRoom x.1 := by
        rw [fileNames, List.forall_mem_map]
        exact forall₂_congr fun x _ => byteLength_shorten_lt_iff (hdraw x.2)
    _ ↔ ∀ name ∈ (names.zipIdx 1).map Prod.fst, LeavesRoom name := List.forall_mem_map.symm
    _ ↔ ∀ name ∈ names, LeavesRoom name := by rw [List.zipIdx_map_fst]

/--
A shortened name has as many bytes as the cut, the letters and the extension; that is
less than what is too long if and only if the extension fits into the room that is left, as
one of four bytes always does.  In this case, and in no other, a name that is shortened
again stays as it is; and the names of the files of a sink are short enough exactly if
this is the case for each of them.
-/
theorem shorten_below_iff {draw : Nat → String} (hdraw : ∀ k, IsDrawn (draw k)) :
    (∀ k name, Text.byteLength (shorten (draw k) name).toList < longName ↔ LeavesRoom name) ∧
      (∀ k name, isLong name = true →
        Text.byteLength (shorten (draw k) name).toList = shortLength name ∧
          shortLength name ≤ keptName + drawnLength + longestExtension) ∧
      (∀ name, Text.byteLength (extension name.toList) ≤ 4 → LeavesRoom name) ∧
      (∀ k name,
        Text.byteLength (shorten (draw k) name).toList ≤ Text.byteLength name.toList ↔
          (isLong name = true → shortLength name ≤ Text.byteLength name.toList)) ∧
      (∀ k name,
        (∀ letters, IsDrawn letters →
            shorten letters (shorten (draw k) name) = shorten (draw k) name) ↔
          LeavesRoom name) ∧
      ∀ sink : Sink,
        (∀ file ∈ fileNames draw sink.names, Text.byteLength file.toList < longName) ↔
          ∀ name ∈ sink.names, LeavesRoom name := by
  refine ⟨?_, ?_, ?_, ?_, ?_, ?_⟩
  · exact fun k name => byteLength_shorten_lt_iff (hdraw k)
  · exact fun k name hlong => ⟨byteLength_shorten (hdraw k) hlong, shortLength_le hlong⟩
  · exact fun name => leavesRoom_of_extension
  · exact fun k name => byteLength_shorten_le_iff (hdraw k)
  · exact fun k name => shorten_shorten_iff (hdraw k)
  · exact fun sink => fileNames_below_iff hdraw sink.names

def someLetters : String := "0f3a9"

theorem isDrawn_someLetters : IsDrawn someLetters :=
  isDrawn_of_all (by decide) (by decide)

/-- A name of characters of two bytes, which is cut within its extension. -/
def accentedName : String :=
  String.ofList (List.replicate 112 'é' ++ '.' :: List.replicate 7 'é' ++ ['x'])

theorem not_leavesRoom_accentedName : ¬ LeavesRoom accentedName := by
  have hchars : accentedName.toList = _ := String.toList_ofList
  apply not_leavesRoom
  · rw [isLong_iff, hchars]
    decide +kernel
  · rw [shortLength, cut, hchars]
    decide +kernel

theorem shorten_below_iff_accented :
    ¬ LeavesRoom accentedName ∧
      ¬ Text.byteLength (shorten someLetters accentedName).toList < longName := by
  have hdraw : ∀ k : Nat, IsDrawn ((fun _ => someLetters) k) := fun _ => isDrawn_someLetters
  refine ⟨not_leavesRoom_accentedName, ?_⟩
  intro hbelow
  exact not_leavesRoom_accentedName (((shorten_below_iff hdraw).1 0 accentedName).1 hbelow)

def crowdedFile : String :=
  String.ofList (List.replicate 219 'x' ++ '.' :: List.replicate 15 'y')

def crowdedName : String :=
  "i-1--" ++ crowdedFile

def crowdedSink : Sink :=
  ((Sink.new "/run" ⟨"i-1", "", ""⟩).claim crowdedFile none).2

theorem crowdedName_facts :
    isLong crowdedName = true ∧ Text.byteLength crowdedName.toList = 240 ∧
      shortLength crowdedName = 251 := by
  have hchars : crowdedName.toList =
      "i-1--".toList ++ (List.replicate 219 'x' ++ '.' :: List.replicate 15 'y') := by
    rw [crowdedName, String.toList_append]
    exact congrArg _ String.toList_ofList
  rw [isLong_iff, shortLength, cut, hchars]
  decide +kernel

/-- The name gets longer when it is shortened, and changes when it is shortened again. -/
theorem shorten_lengthens :
    IsDrawn someLetters ∧ Text.byteLength crowdedName.toList = 240 ∧
      Text.byteLength (shorten someLetters crowdedName).toList = 251 ∧
      ¬ (∀ again, IsDrawn again →
        shorten again (shorten someLetters crowdedName) = shorten someLetters crowdedName) ∧
      ¬ ∀ file ∈ fileNames (fun _ => someLetters) crowdedSink.names,
        Text.byteLength file.toList < longName := by
  obtain ⟨hlong, hbytes, hshort⟩ := crowdedName_facts
  have hlarge : longName ≤ 251 := by decide
  have hroom : ¬ LeavesRoom crowdedName :=
    not_leavesRoom hlong (Nat.le_trans hlarge (Nat.le_of_eq hshort.symm))
  have hnames : crowdedSink.names = [crowdedName] := rfl
  refine ⟨isDrawn_someLetters, hbytes, ?_, ?_, ?_⟩
  · rw [byteLength_shorten isDrawn_someLetters hlong, hshort]
  · rwa [shorten_shorten_iff isDrawn_someLetters]
  · rw [fileNames_below_iff fun _ => isDrawn_someLetters, hnames]
    exact fun hall => hroom (hall crowdedName List.mem_cons_self)

end Artifact
end LogHarvest
