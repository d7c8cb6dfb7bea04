import LogHarvest.Artifact.Sink
import LogHarvest.Proofs.Text.Boundaries

/-!
# How the paths of an instance's files start

Shortening keeps the first bytes of a name, and the mark of the instance stands in
front.  So all files of an instance have paths with one start, which is known from
the folder and the instance.  Two instances of which neither start begins with the
other never get the same path; two with the same mark get it as soon as they are
given the same name.
-/

namespace LogHarvest
namespace Artifact

/-!
## Starts of names
-/

theorem takeBytes_isPrefix (bytes : Nat) (cs : List Char) : takeBytes bytes cs <+: cs := by
  induction cs generalizing bytes with
  | nil => exact List.nil_prefix
  | cons c rest ih =>
      rw [takeBytes]
      split
      · exact List.cons_prefix_cons.2 ⟨rfl, ih _⟩
      · exact List.nil_prefix

theorem takeBytes_isPrefix_append (bytes : Nat) (cs more : List Char) :
    takeBytes bytes cs <+: takeBytes bytes (cs ++ more) := by
  induction cs generalizing bytes with
  | nil => exact List.nil_prefix
  | cons c rest ih =>
      rw [List.cons_append, takeBytes, takeBytes]
      split
      · exact List.cons_prefix_cons.2 ⟨rfl, ih _⟩
      · exact List.nil_prefix

theorem takeBytes_cases (bytes : Nat) (cs : List Char) :
    takeBytes bytes cs = cs ∨
      ∃ c back, cs = takeBytes bytes cs ++ c :: back ∧
        bytes < Text.byteLength (takeBytes bytes cs) + c.utf8Size := by
  induction cs generalizing bytes with
  | nil => exact .inl rfl
  | cons c rest ih =>
      rw [takeBytes]
      split
      · rcases ih (bytes - c.utf8Size) with hall | ⟨next, back, hparts, hfull⟩
        · exact .inl (congrArg (c :: ·) hall)
        · refine .inr ⟨next, back, congrArg (c :: ·) hparts, ?_⟩
          rw [Text.byteLength_cons]
          omega
      · rename_i hfull
        refine .inr ⟨c, rest, rfl, ?_⟩
        rw [show Text.byteLength [] = 0 from rfl]
        omega

/-- What every file name keeps of the mark of its instance. -/
def keptMark (i : Instance) : List Char :=
  takeBytes keptName (namePrefix i).toList

theorem keptMark_isPrefix_shorten (i : Instance) (suffix name : String) :
    keptMark i <+: (shorten suffix (namePrefix i ++ name)).toList := by
  unfold shorten
  split
  · rw [String.toList_ofList, String.toList_append, List.append_assoc]
    exact (takeBytes_isPrefix_append keptName _ _).trans (List.prefix_append _ _)
  · rw [String.toList_append]
    exact (takeBytes_isPrefix keptName _).trans (List.prefix_append _ _)

theorem keptMark_ne_nil (i : Instance) : keptMark i ≠ [] := by
  have hmark : (namePrefix i).toList ≠ [] := by
    simp [namePrefix, String.toList_append]
  unfold keptMark
  cases hcs : (namePrefix i).toList with
  | nil => exact absurd hcs hmark
  | cons c rest =>
      have hfits : c.utf8Size ≤ keptName := Nat.le_trans (Char.utf8Size_le_four c) (by decide)
      rw [takeBytes, if_pos hfits]
      exact List.cons_ne_nil _ _

/-!
## Starts of paths
-/

theorem isAbsolute_of_isPrefix {a b : String} (hstarts : a.toList <+: b.toList)
    (hne : a.toList ≠ []) : Path.isAbsolute b = Path.isAbsolute a := by
  obtain ⟨more, hmore⟩ := hstarts
  unfold Path.isAbsolute
  cases ha : a.toList with
  | nil => exact absurd ha hne
  | cons c rest =>
      rw [← hmore, ha]
      rfl

theorem join_isPrefix_join (folder : Path) {a b : String} (hstarts : a.toList <+: b.toList)
    (hne : a.toList ≠ []) : (Path.join folder a).toList <+: (Path.join folder b).toList := by
  unfold Path.join
  rw [isAbsolute_of_isPrefix hstarts hne]
  split
  · exact hstarts
  · split
    · rw [String.toList_append, String.toList_append]
      exact (List.prefix_append_right_inj _).2 hstarts
    · have happend : ∀ name : String, String.toList (folder ++ "/" ++ name) =
          String.toList (folder ++ "/") ++ name.toList := fun name => String.toList_append
      rw [happend, happend]
      exact (List.prefix_append_right_inj _).2 hstarts

def filePath (folder : Path) (i : Instance) (suffix name : String) : Path :=
  Path.join folder (shorten suffix (namePrefix i ++ name))

def pathStart (folder : Path) (i : Instance) : List Char :=
  (Path.join folder (String.ofList (keptMark i))).toList

theorem pathStart_isPrefix (folder : Path) (i : Instance) (suffix name : String) :
    pathStart folder i <+: (filePath folder i suffix name).toList := by
  apply join_isPrefix_join
  · rw [String.toList_ofList]
    exact keptMark_isPrefix_shorten i suffix name
  · rw [String.toList_ofList]
    exact keptMark_ne_nil i

/-- Neither of the starts of two instances begins with the other. -/
def Apart (folder : Path) (i j : Instance) : Prop :=
  ¬ pathStart folder i <+: pathStart folder j ∧ ¬ pathStart folder j <+: pathStart folder i

instance (folder : Path) (i j : Instance) : Decidable (Apart folder i j) := by
  unfold Apart
  infer_instance

theorem filePath_ne_of_apart {folder : Path} {i j : Instance} (hapart : Apart folder i j)
    (suffix name suffix' name' : String) :
    filePath folder i suffix name ≠ filePath folder j suffix' name' := by
  intro hsame
  have hi := pathStart_isPrefix folder i suffix name
  have hj := pathStart_isPrefix folder j suffix' name'
  rw [hsame] at hi
  -- Of two starts of one path, one begins with the other.
  rcases List.prefix_or_prefix_of_prefix hi hj with hij | hji
  · exact hapart.1 hij
  · exact hapart.2 hji

theorem filePath_eq_of_mark {folder : Path} {i j : Instance} {name : String}
    (hmark : namePrefix i = namePrefix j) (hshort : isLong (namePrefix i ++ name) = false)
    (suffix suffix' : String) :
    filePath folder i suffix name = filePath folder j suffix' name := by
  have hshort' : isLong (namePrefix j ++ name) = false := by
    rw [← hmark]
    exact hshort
  unfold filePath shorten
  rw [hshort, hshort', hmark]
  rfl

end Artifact
end LogHarvest
