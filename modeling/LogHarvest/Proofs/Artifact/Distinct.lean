import LogHarvest.Proofs.Artifact.PathStart
import LogHarvest.Proofs.Tree.Leads
import LogHarvest.Protocol.Command
import Mathlib.Data.List.Nodup

/-!
# File names that stay apart

A sink never hands out a name twice.  Different names are kept apart when they are
shortened, unless the letters that were drawn for one of them happen to be those of
another one, or to stand in another name where the first was cut.

Names are cut after whole characters, so not all at the same place.  But the places are
less than five bytes apart, and what stands behind the letters is nothing or a point.
-/

namespace LogHarvest
namespace Text

theorem utf8Size_of_isAlphanumeric {c : Char} (hc : isAlphanumeric c = true) :
    c.utf8Size = 1 := by
  rw [Char.utf8Size_eq_one_iff]
  unfold isAlphanumeric isDigit at hc
  simp only [Bool.or_eq_true, Bool.and_eq_true, decide_eq_true_eq] at hc
  have hbelow : ∀ high : Char, c ≤ high → high.val ≤ 127 → c.val ≤ 127 := fun _ hle hhigh =>
    UInt32.le_trans hle hhigh
  rcases hc with (⟨-, hle⟩ | ⟨-, hle⟩) | ⟨-, hle⟩
  · exact hbelow 'z' hle (by decide)
  · exact hbelow 'Z' hle (by decide)
  · exact hbelow '9' hle (by decide)

theorem byteLength_of_alphanumeric {cs : List Char} (hcs : ∀ c ∈ cs, isAlphanumeric c = true) :
    byteLength cs = cs.length :=
  byteLength_of_single fun c hc => utf8Size_of_isAlphanumeric (hcs c hc)

end Text

namespace Artifact

/-!
## Names that are handed out
-/

namespace Sink

theorem numbered_injective {base : String} {m n : Nat} (hsame : numbered base m = numbered base n) :
    m = n := by
  have hchars := congrArg String.toList hsame
  simp only [numbered, String.toList_append] at hchars
  have hvalues := congrArg (Nat.ofDigitChars 10 · 0) (List.append_cancel_left hchars)
  simpa [Nat.toString_eq_ofList_toDigits] using hvalues

theorem numbered_freshNumber (claimed : List String) (base : String) :
    numbered base (freshNumber claimed base) ∉ claimed := by
  unfold freshNumber
  dsimp only
  cases hfound : ((List.range (claimed.length + 1)).map (· + 1)).find?
      fun n => !claimed.contains (numbered base n) with
  | some n =>
      rw [Option.getD_some]
      simpa using List.find?_some hfound
  | none =>
      -- There are more variants than names.
      exfalso
      set variants := (List.range (claimed.length + 1)).map fun n => numbered base (n + 1)
        with hvariants
      have hnodup : variants.Nodup :=
        List.nodup_range.map fun m n hsame => Nat.succ_injective (numbered_injective hsame)
      have hsubset : variants ⊆ claimed := by
        intro name hname
        obtain ⟨n, hn, rfl⟩ := List.mem_map.1 hname
        have htaken := List.find?_eq_none.1 hfound (n + 1) (List.mem_map_of_mem hn)
        simpa using htaken
      have hlength := hnodup.length_le_of_subset hsubset
      rw [hvariants, List.length_map, List.length_range] at hlength
      omega

theorem choose_not_mem (claimed : List String) (name : String) (fallback : Option String) :
    choose claimed name fallback ∉ claimed := by
  unfold choose
  dsimp only
  split
  · rename_i candidate hfound
    simpa using List.find?_some hfound
  · exact numbered_freshNumber claimed _

def claimAll (sink : Sink) (commands : List Protocol.LogCommand) : Sink :=
  commands.foldl (fun k command => (k.claim command.fileName command.fallback).2) sink

theorem claimAll_append (sink : Sink) (earlier later : List Protocol.LogCommand) :
    sink.claimAll (earlier ++ later) = (sink.claimAll earlier).claimAll later :=
  List.foldl_append

theorem claimAll_eq (sink : Sink) (commands : List Protocol.LogCommand) :
    sink.claimAll commands = { sink with claimed := (sink.claimAll commands).claimed } := by
  unfold claimAll
  induction commands generalizing sink with
  | nil => rfl
  | cons command rest ih => exact ih (sink.claim command.fileName command.fallback).2

/-- The names of all files of an instance before they are shortened, in order. -/
def names (sink : Sink) : List String :=
  sink.claimed.reverse.map (sink.mark ++ ·)

theorem length_names (sink : Sink) : sink.names.length = sink.claimed.length := by
  rw [names, List.length_map, List.length_reverse]

def adding (sink : Sink) (name : String) : Sink :=
  { sink with claimed := name :: sink.claimed }

theorem names_adding (sink : Sink) (name : String) :
    (sink.adding name).names = sink.names ++ [sink.mark ++ name] := by
  rw [names, names, adding, List.reverse_cons, List.map_append]
  rfl

theorem names_isPrefix_claimAll (sink : Sink) (commands : List Protocol.LogCommand) :
    sink.names <+: (sink.claimAll commands).names := by
  induction commands generalizing sink with
  | nil => exact List.prefix_rfl
  | cons command rest ih =>
      have hfirst : sink.names <+: (sink.claim command.fileName command.fallback).2.names :=
        ⟨_, (names_adding sink (choose sink.claimed command.fileName command.fallback)).symm⟩
      exact hfirst.trans (ih _)

theorem nodup_names {sink : Sink} (hnodup : sink.claimed.Nodup) : sink.names.Nodup := by
  refine (List.nodup_reverse.2 hnodup).map fun name other hsame => ?_
  have hchars := congrArg String.toList hsame
  rw [String.toList_append, String.toList_append] at hchars
  exact String.toList_inj.1 (List.append_cancel_left hchars)

theorem nodup_claimAll {sink : Sink} (hnodup : sink.claimed.Nodup)
    (commands : List Protocol.LogCommand) : (sink.claimAll commands).claimed.Nodup := by
  unfold claimAll
  induction commands generalizing sink with
  | nil => exact hnodup
  | cons command rest ih => exact ih (List.nodup_cons.2 ⟨choose_not_mem _ _ _, hnodup⟩)

end Sink

/-!
## Cuts
-/

def cut (name : String) : Nat :=
  Text.byteLength (takeBytes keptName name.toList)

def drawnLength : Nat := 5

def bytesAt (place : Nat) (name : String) : Text.Bytes :=
  ((Text.encode name).drop place).take drawnLength

structure IsDrawn (letters : String) : Prop where
  length : letters.toList.length = drawnLength
  alphanumeric : ∀ c ∈ letters.toList, Text.isAlphanumeric c = true

theorem isDrawn_of_all (hlength : letters.toList.length = drawnLength)
    (hall : letters.toList.all Text.isAlphanumeric = true) : IsDrawn letters :=
  ⟨hlength, List.all_eq_true.1 hall⟩

theorem byteLength_takeBytes_le (bytes : Nat) (cs : List Char) :
    Text.byteLength (takeBytes bytes cs) ≤ bytes := by
  induction cs generalizing bytes with
  | nil => exact Nat.zero_le _
  | cons c rest ih =>
      rw [takeBytes]
      split
      · have hrest := ih (bytes - c.utf8Size)
        rw [Text.byteLength_cons]
        omega
      · exact Nat.zero_le _

theorem lt_byteLength_takeBytes {bytes : Nat} {cs : List Char}
    (hlong : bytes < Text.byteLength cs) :
    bytes < Text.byteLength (takeBytes bytes cs) + 4 := by
  rcases takeBytes_cases bytes cs with hall | ⟨c, back, -, hfull⟩
  · rw [hall]
    omega
  · have hsize := Char.utf8Size_le_four c
    omega

theorem cut_of_isLong {name : String} (hlong : isLong name = true) :
    cut name ≤ keptName ∧ keptName < cut name + 4 := by
  have hbytes : longName ≤ Text.byteLength name.toList := of_decide_eq_true hlong
  refine ⟨byteLength_takeBytes_le _ _, lt_byteLength_takeBytes ?_⟩
  exact Nat.lt_of_lt_of_le (by decide) hbytes

theorem fromLastPoint_cases (cs : List Char) :
    ('.' ∉ cs ∧ fromLastPoint cs = []) ∨
      ∃ front rest, cs = front ++ '.' :: rest ∧ '.' ∉ rest ∧ fromLastPoint cs = '.' :: rest := by
  induction cs with
  | nil => exact .inl ⟨List.not_mem_nil, rfl⟩
  | cons c rest ih =>
      rw [fromLastPoint]
      rcases ih with ⟨hnone, -⟩ | ⟨front, tail, hparts, hlast, hfound⟩
      · rw [if_neg (by simpa using hnone)]
        by_cases hc : c = '.'
        · subst hc
          exact .inr ⟨[], rest, rfl, hnone, rfl⟩
        · rw [if_neg (by simpa using hc)]
          exact .inl ⟨List.not_mem_cons_of_ne_of_not_mem (Ne.symm hc) hnone, rfl⟩
      · have hpoint : '.' ∈ rest := hparts ▸ List.mem_append_right _ List.mem_cons_self
        rw [if_pos (by simpa using hpoint)]
        exact .inr ⟨c :: front, tail, congrArg (c :: ·) hparts, hlast, hfound⟩

theorem extension_eq (cs : List Char) : extension cs = [] ∨ ∃ rest, extension cs = '.' :: rest := by
  unfold extension
  dsimp only
  split
  · rcases fromLastPoint_cases cs with ⟨-, hfound⟩ | ⟨-, rest, -, -, hfound⟩
    · exact .inl hfound
    · exact .inr ⟨rest, hfound⟩
  · exact .inl rfl

theorem toList_shorten_of_isLong {suffix name : String} (hlong : isLong name = true) :
    (shorten suffix name).toList =
      takeBytes keptName name.toList ++ (suffix.toList ++ extension name.toList) := by
  unfold shorten
  rw [if_pos hlong, String.toList_ofList, List.append_assoc]

theorem shorten_of_not_isLong {suffix name : String} (hshort : ¬ isLong name = true) :
    shorten suffix name = name :=
  if_neg hshort

/-!
## Two names
-/

/-- Letters that stand at two places less than five bytes apart are followed by others. -/
theorem eq_nil_of_append_eq {letters letters' : String} {front ext more : List Char}
    (hdrawn : IsDrawn letters) (hdrawn' : IsDrawn letters')
    (hext : ext = [] ∨ ∃ rest, ext = '.' :: rest) (hshort : front.length < drawnLength)
    (hsame : letters.toList ++ ext = front ++ (letters'.toList ++ more)) : front = [] := by
  by_contra hfront
  have hlength := hdrawn.length
  have hlength' := hdrawn'.length
  rcases List.append_eq_append_iff.1 hsame with ⟨back, hback, -⟩ | ⟨back, hback, hrest⟩
  · rw [hback, List.length_append] at hshort
    omega
  · -- What follows the rest of the first letters belongs to the second ones.
    have hbackLength : front.length + back.length = drawnLength := by
      rw [← List.length_append, ← hback, hlength]
    have hpositive := List.length_pos_of_ne_nil hfront
    rcases List.append_eq_append_iff.1 hrest with ⟨tail, htail, -⟩ | ⟨tail, htail, hafter⟩
    · have hlengths := congrArg List.length htail
      rw [List.length_append] at hlengths
      omega
    · have hlengths := congrArg List.length htail
      rw [List.length_append] at hlengths
      cases tail with
      | nil =>
          rw [List.length_nil] at hlengths
          omega
      | cons c tail =>
          rcases hext with hnone | ⟨rest, hpoint⟩
          · rw [hnone] at hafter
            cases hafter
          · rw [hpoint] at hafter
            obtain ⟨rfl, -⟩ := List.cons.inj hafter
            have hmem : '.' ∈ letters'.toList := by
              rw [htail]
              exact List.mem_append_right _ List.mem_cons_self
            exact absurd (hdrawn'.alphanumeric '.' hmem) (by decide)

theorem letters_eq_of_append_eq {name other letters letters' : String} {front : List Char}
    (hlong : isLong name = true) (hlong' : isLong other = true) (hdrawn : IsDrawn letters)
    (hdrawn' : IsDrawn letters')
    (hcut : takeBytes keptName other.toList = takeBytes keptName name.toList ++ front)
    (hsame : letters.toList ++ extension name.toList =
      front ++ (letters'.toList ++ extension other.toList)) : letters = letters' := by
  have hshort : front.length < drawnLength := by
    have hbytes : cut other = cut name + Text.byteLength front := by
      unfold cut
      rw [hcut, Text.byteLength_append]
    have hle := Text.length_le_byteLength front
    have hname := cut_of_isLong hlong
    have hother := cut_of_isLong hlong'
    have hfive : drawnLength = 5 := rfl
    omega
  obtain rfl := eq_nil_of_append_eq hdrawn hdrawn' (extension_eq _) hshort hsame
  rw [List.nil_append] at hsame
  have hlength := hdrawn.length.trans hdrawn'.length.symm
  exact String.toList_inj.1 (List.append_inj hsame hlength).1

theorem shorten_ne_of_isLong {name other letters letters' : String} (hlong : isLong name = true)
    (hlong' : isLong other = true) (hdrawn : IsDrawn letters) (hdrawn' : IsDrawn letters')
    (hne : letters ≠ letters') : shorten letters name ≠ shorten letters' other := by
  intro hsame
  have hchars := congrArg String.toList hsame
  rw [toList_shorten_of_isLong hlong, toList_shorten_of_isLong hlong'] at hchars
  rcases List.append_eq_append_iff.1 hchars with ⟨front, hcut, hrest⟩ | ⟨front, hcut, hrest⟩
  · exact hne (letters_eq_of_append_eq hlong hlong' hdrawn hdrawn' hcut hrest)
  · exact hne (letters_eq_of_append_eq hlong' hlong hdrawn' hdrawn hcut hrest).symm

theorem bytesAt_shorten {name letters : String} (hlong : isLong name = true)
    (hdrawn : IsDrawn letters) :
    bytesAt (cut name) (shorten letters name) = Text.encode letters := by
  have hparts : shorten letters name = String.ofList (takeBytes keptName name.toList) ++
      (letters ++ String.ofList (extension name.toList)) := by
    apply String.toList_inj.1
    rw [toList_shorten_of_isLong hlong]
    simp only [String.toList_append, String.toList_ofList]
  have hcut : cut name =
      (Text.encode (String.ofList (takeBytes keptName name.toList))).length := by
    rw [Text.length_encode, String.toList_ofList]
    rfl
  have hletters : drawnLength = (Text.encode letters).length := by
    rw [Text.length_encode, Text.byteLength_of_alphanumeric hdrawn.alphanumeric, hdrawn.length]
  rw [bytesAt, hparts, Text.encode_append, Text.encode_append, hcut, List.drop_left, hletters,
    List.take_left]

/-!
## All names of an instance
-/

def fileNames (draw : Nat → String) (names : List String) : List String :=
  (names.zipIdx 1).map fun x => shorten (draw x.2) x.1

/--
The letters that are drawn for long names are like no others: they were not drawn for
another name, and they do not stand in another name at the same place.
-/
structure Unmistakable (draw : Nat → String) (names : List String) : Prop where
  drawn : ∀ x ∈ names.zipIdx 1, isLong x.1 = true → IsDrawn (draw x.2)
  fresh : ∀ x ∈ names.zipIdx 1, ∀ y ∈ names.zipIdx 1, isLong x.1 = true → isLong y.1 = true →
    x.2 ≠ y.2 → draw x.2 ≠ draw y.2
  apart : ∀ x ∈ names.zipIdx 1, ∀ y ∈ names.zipIdx 1, isLong x.1 = true → x.2 ≠ y.2 →
    bytesAt (cut x.1) y.1 ≠ Text.encode (draw x.2)

theorem Unmistakable.shorten_ne {draw : Nat → String} {names : List String}
    (hunmistakable : Unmistakable draw names) {x y : String × Nat} (hx : x ∈ names.zipIdx 1)
    (hy : y ∈ names.zipIdx 1) (hplace : x.2 ≠ y.2) (hname : x.1 ≠ y.1) :
    shorten (draw x.2) x.1 ≠ shorten (draw y.2) y.1 := by
  -- A name that is not cut has the letters of one that is cut at their place.
  have hmixed : ∀ {x y : String × Nat}, x ∈ names.zipIdx 1 → y ∈ names.zipIdx 1 → x.2 ≠ y.2 →
      isLong x.1 = true → ¬ isLong y.1 = true →
      shorten (draw x.2) x.1 ≠ shorten (draw y.2) y.1 := by
    intro x y hx hy hplace hlong hshort hsame
    refine hunmistakable.apart x hx y hy hlong hplace ?_
    rw [shorten_of_not_isLong hshort] at hsame
    rw [← hsame]
    exact bytesAt_shorten hlong (hunmistakable.drawn x hx hlong)
  by_cases hlong : isLong x.1 = true
  · by_cases hlong' : isLong y.1 = true
    · exact shorten_ne_of_isLong hlong hlong' (hunmistakable.drawn x hx hlong)
        (hunmistakable.drawn y hy hlong') (hunmistakable.fresh x hx y hy hlong hlong' hplace)
    · exact hmixed hx hy hplace hlong hlong'
  · by_cases hlong' : isLong y.1 = true
    · exact (hmixed hy hx hplace.symm hlong' hlong).symm
    · rw [shorten_of_not_isLong hlong, shorten_of_not_isLong hlong']
      exact hname

theorem nodup_fileNames {draw : Nat → String} {names : List String} (hnodup : names.Nodup)
    (hunmistakable : Unmistakable draw names) : (fileNames draw names).Nodup := by
  unfold fileNames
  rw [List.Nodup, List.pairwise_map, List.pairwise_iff_getElem]
  intro m n hm hn hless
  have hx := List.getElem_mem hm
  have hy := List.getElem_mem hn
  rw [List.getElem_zipIdx] at hx hy ⊢
  rw [List.getElem_zipIdx]
  refine hunmistakable.shorten_ne hx hy (by simp; omega) ?_
  exact List.pairwise_iff_getElem.1 hnodup m n _ _ hless

theorem Unmistakable.of_isPrefix {draw : Nat → String} {names more : List String}
    (hunmistakable : Unmistakable draw more) (hstarts : names <+: more) :
    Unmistakable draw names := by
  have hmem : ∀ x ∈ names.zipIdx 1, x ∈ more.zipIdx 1 := by
    intro x hx
    obtain ⟨rest, rfl⟩ := hstarts
    rw [List.zipIdx_append]
    exact List.mem_append_left _ hx
  constructor
  case drawn => exact fun x hx => hunmistakable.drawn x (hmem x hx)
  case fresh => exact fun x hx y hy => hunmistakable.fresh x (hmem x hx) y (hmem y hy)
  case apart => exact fun x hx y hy => hunmistakable.apart x (hmem x hx) y (hmem y hy)

theorem length_fileNames (draw : Nat → String) (names : List String) :
    (fileNames draw names).length = names.length := by
  rw [fileNames, List.length_map, List.length_zipIdx]

theorem fileNames_concat (draw : Nat → String) (names : List String) (name : String) :
    fileNames draw (names ++ [name]) =
      fileNames draw names ++ [shorten (draw (names.length + 1)) name] := by
  unfold fileNames
  rw [List.zipIdx_append, List.map_append, Nat.add_comm]
  rfl

end Artifact
end LogHarvest
