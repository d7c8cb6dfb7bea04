import LogHarvest.Proofs.Artifact.PathStart
import LogHarvest.Proofs.Tree.Sound
import Mathlib.Data.List.DropRight

/-!
# What leads to a name

A text that is joined to a folder's path may have slashes.  Only what stands behind the
last of them is a name then; what stands before is part of the way.  So the joined path
leads into the folder itself exactly if this part of the way leads back there.
-/

namespace LogHarvest
namespace Path

def lead (name : String) : String :=
  String.ofList (name.toList.rdropWhile (· != '/'))

def lastName (name : String) : String :=
  String.ofList (name.toList.rtakeWhile (· != '/'))

theorem lead_append_lastName (name : String) : lead name ++ lastName name = name := by
  apply String.toList_inj.1
  rw [String.toList_append, lead, lastName, String.toList_ofList, String.toList_ofList]
  exact List.rdropWhile_append_rtakeWhile

theorem plain_lastName (name : String) : ∀ c ∈ (lastName name).toList, (c == '/') = false := by
  intro c hc
  rw [lastName, String.toList_ofList] at hc
  simpa using List.mem_rtakeWhile_imp hc

theorem lead_eq_empty {name : String} (hplain : '/' ∉ name.toList) : lead name = "" := by
  have hnothing : name.toList.rdropWhile (· != '/') = [] := by
    refine List.rdropWhile_eq_nil_iff.2 fun c hc => ?_
    simpa using ne_of_mem_of_not_mem hc hplain
  rw [lead, hnothing]

theorem lead_cases (name : String) : lead name = "" ∨ endsInSlash (lead name) = true := by
  by_cases hnothing : name.toList.rdropWhile (· != '/') = []
  · left
    rw [lead, hnothing]
  · right
    have hlast := List.rdropWhile_last_not _ _ hnothing
    rw [endsInSlash, lead, String.toList_ofList, List.getLast?_eq_getLast_of_ne_nil hnothing]
    simpa using hlast

theorem endsInSlash_append {name : String} (front : String) (hname : endsInSlash name = true) :
    endsInSlash (front ++ name) = true := by
  rw [endsInSlash, beq_iff_eq] at hname ⊢
  obtain ⟨rest, hrest⟩ := List.getLast?_eq_some_iff.1 hname
  rw [String.toList_append, hrest, ← List.append_assoc, List.getLast?_concat]

theorem endsInSlash_join_lead {folder : Path} (hfolder : folder.isEmpty = false) (name : String) :
    endsInSlash (folder.join (lead name)) = true := by
  unfold join
  rcases lead_cases name with hnone | hslash
  · rw [hnone, hfolder]
    simp only [String.append_empty]
    split
    · rename_i h
      exact absurd h (by decide)
    · split
      · assumption
      · exact endsInSlash_append folder (by decide)
  · split
    · exact hslash
    · split
      · exact endsInSlash_append folder hslash
      · exact endsInSlash_append _ hslash

theorem join_append {lead name : String} (folder : Path)
    (hname : isAbsolute (lead ++ name) = isAbsolute lead) :
    folder.join (lead ++ name) = folder.join lead ++ name := by
  unfold join
  rw [hname]
  split
  · rfl
  · split
    · exact (String.append_assoc ..).symm
    · exact (String.append_assoc ..).symm

theorem isAbsolute_of_plain {name : String} (hplain : ∀ c ∈ name.toList, (c == '/') = false) :
    isAbsolute name = false := by
  unfold isAbsolute
  cases hcs : name.toList with
  | nil => rfl
  | cons c rest => simpa using hplain c (by rw [hcs]; exact List.mem_cons_self)

theorem join_lead_append {name : String} (folder : Path) (text : String)
    (hplain : ∀ c ∈ name.toList, (c == '/') = false) :
    folder.join (lead text ++ name) = folder.join (lead text) ++ name := by
  apply join_append
  rcases lead_cases text with hnone | hslash
  · rw [hnone, String.empty_append, isAbsolute_of_plain hplain]
    rfl
  · refine Artifact.isAbsolute_of_isPrefix ?_ ?_
    · rw [String.toList_append]
      exact List.prefix_append _ _
    · intro hnil
      rw [endsInSlash, hnil] at hslash
      cases hslash

end Path

namespace Tree

theorem precheck_eq_ok_iff {path : Path} :
    precheck path = .ok () ↔ '\x00' ∉ path.toList ∧ path.isEmpty = false ∧
      Text.byteLength path.toList ≤ maxPath := by
  unfold precheck
  by_cases hnul : '\x00' ∈ path.toList
  · simp [hnul]
  · by_cases hempty : path.isEmpty = true
    · simp [hnul, hempty]
    · by_cases hlong : maxPath < Text.byteLength path.toList
      · simp [hnul, hempty, hlong]
      · simp [hnul, hempty, hlong, Nat.le_of_not_lt hlong]

theorem precheck_of_append {path : Path} {more : String} (hpath : path.isEmpty = false)
    (hcheck : precheck (path ++ more) = .ok ()) : precheck path = .ok () := by
  obtain ⟨hnul, -, hshort⟩ := precheck_eq_ok_iff.1 hcheck
  rw [String.toList_append] at hnul hshort
  rw [Text.byteLength_append] at hshort
  exact precheck_eq_ok_iff.2 ⟨fun hmem => hnul (List.mem_append_left _ hmem), hpath,
    Nat.le_trans (Nat.le_add_right _ _) hshort⟩

theorem components_append_of_endsInSlash {path : Path} {name : String}
    (hslash : path.endsInSlash = true) (hplain : ∀ c ∈ name.toList, (c == '/') = false)
    (hne : name.toList ≠ []) :
    Path.components (path ++ name) = path.components ++ [name] := by
  obtain ⟨front, hfront⟩ : ∃ front, path.toList = front ++ ['/'] :=
    List.getLast?_eq_some_iff.1 (by simpa [Path.endsInSlash] using hslash)
  have hname : parts name.toList = [name.toList] := by
    rw [parts, Text.pieces_of_plain hplain, List.filter_cons_of_pos (by simpa using hne)]
    rfl
  have hpath : parts path.toList = parts front := by
    rw [hfront, parts_append_slash]
    exact List.append_nil _
  rw [components_eq, components_eq, String.toList_append, hpath, hfront, List.append_assoc,
    List.singleton_append, parts_append_slash, hname, List.map_append, List.map_singleton,
    String.ofList_toList]

theorem target_append_name {t : Tree} {path : Path} {name : String} {place : Place}
    (hslash : path.endsInSlash = true) (hplain : ∀ c ∈ name.toList, (c == '/') = false)
    (hlong : 2 < name.toList.length) (htarget : t.target (path ++ name) = .ok place) :
    ∃ above, t.target path = .ok above ∧ place = above ++ [name] := by
  have hpath : path.isEmpty = false := by
    cases hempty : path.isEmpty with
    | false => rfl
    | true =>
        rw [String.isEmpty_iff.1 hempty] at hslash
        cases hslash
  have hne : name.toList ≠ [] := List.ne_nil_of_length_pos (Nat.zero_lt_of_lt hlong)
  obtain ⟨hcheck, hwalk⟩ := target_eq_ok_iff.1 htarget
  rw [components_append_of_endsInSlash hslash hplain hne, start_append hpath,
    walk_append_eq_ok_iff] at hwalk
  obtain ⟨above, habove, hlast⟩ := hwalk
  have hdots : ∀ dots : String, dots.toList.length < 3 → name ≠ dots := by
    rintro dots hdots rfl
    exact Nat.lt_irrefl _ (Nat.lt_of_lt_of_le hdots hlong)
  rw [walk_singleton] at hlast
  obtain ⟨-, hplace⟩ := descend_name (hdots "." (by decide)) (hdots ".." (by decide)) hlast
  exact ⟨above, target_eq_ok_iff.2 ⟨precheck_of_append hpath hcheck, habove⟩, hplace⟩

/-- A text that is joined to a folder's path leads where its last name stands on the way. -/
theorem target_join_lead {t : Tree} {folder : Path} {text name : String} {place : Place}
    (hfolder : folder.isEmpty = false) (hplain : ∀ c ∈ name.toList, (c == '/') = false)
    (hlong : 2 < name.toList.length)
    (htarget : t.target (folder.join (Path.lead text ++ name)) = .ok place) :
    ∃ above, t.target (folder.join (Path.lead text)) = .ok above ∧ place = above ++ [name] := by
  rw [Path.join_lead_append folder text hplain] at htarget
  exact target_append_name (Path.endsInSlash_join_lead hfolder text) hplain hlong htarget

theorem walk_of_target_join {t : Tree} {folder : Path} {place : Place}
    (hfolder : folder.isEmpty = false) (htarget : t.target (folder.join "") = .ok place) :
    t.walk (t.start folder) folder.components = .ok place := by
  have hwalk := (target_eq_ok_iff.1 htarget).2
  rw [start_join hfolder rfl, components_join hfolder rfl] at hwalk
  have hnone : Path.components "" = [] := rfl
  rwa [hnone, List.append_nil] at hwalk

end Tree
end LogHarvest
