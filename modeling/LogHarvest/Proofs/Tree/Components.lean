import LogHarvest.Proofs.Text.Boundaries
import LogHarvest.Proofs.Text.Pieces
import LogHarvest.Proofs.Tree.Folders

/-!
# Where longer paths lead

A text that is put behind a path goes to its last component.  So the file whose path
has an ending stands in the folder that the last component is looked up in, and not
where the path itself leads to.
-/

namespace LogHarvest
namespace Tree

def parts (cs : List Char) : List (List Char) :=
  (Text.pieces (· == '/') cs).filter fun piece => !piece.isEmpty

theorem components_eq (path : Path) :
    Path.components path = (parts path.toList).map String.ofList :=
  rfl

theorem components_of_mem {path : Path} {name : String} (hmem : name ∈ Path.components path) :
    Path.components name = [name] ∧ Path.isAbsolute name = false := by
  obtain ⟨piece, hpiece, rfl⟩ := List.mem_map.1 hmem
  obtain ⟨hpiece, hne⟩ := List.mem_filter.1 hpiece
  have hplain := Text.plain_of_mem_pieces hpiece
  rw [components_eq, parts, Path.isAbsolute, String.toList_ofList, Text.pieces_of_plain hplain]
  constructor
  · rw [List.filter_cons_of_pos (by exact hne)]
    rfl
  · cases piece with
    | nil => cases hne
    | cons c rest => simpa using hplain c List.mem_cons_self

theorem chars_of_mem {path : Path} {name : String} (hmem : name ∈ Path.components path) :
    name.toList ≠ [] ∧ name.toList ⊆ path.toList ∧ '/' ∉ name.toList := by
  obtain ⟨piece, hpiece, rfl⟩ := List.mem_map.1 hmem
  obtain ⟨hpiece, hne⟩ := List.mem_filter.1 hpiece
  rw [String.toList_ofList]
  refine ⟨by simpa using hne, (Text.sublist_of_mem_pieces hpiece).subset, ?_⟩
  intro hslash
  cases Text.plain_of_mem_pieces hpiece '/' hslash

theorem byteLength_le_of_mem {path : Path} {name : String} (hmem : name ∈ Path.components path) :
    Text.byteLength name.toList ≤ Text.byteLength path.toList := by
  obtain ⟨piece, hpiece, rfl⟩ := List.mem_map.1 hmem
  rw [String.toList_ofList]
  exact Text.byteLength_le_of_sublist (Text.sublist_of_mem_pieces (List.mem_filter.1 hpiece).1)

theorem walk_append (t : Tree) (place : Place) (front back : List String) :
    t.walk place (front ++ back) = (t.walk place front).bind fun p => t.walk p back := by
  unfold walk
  rw [List.foldlM_append]
  rfl

theorem walk_append_eq_ok_iff {t : Tree} {place goal : Place} {front back : List String} :
    t.walk place (front ++ back) = .ok goal ↔
      ∃ middle, t.walk place front = .ok middle ∧ t.walk middle back = .ok goal := by
  rw [walk_append]
  cases t.walk place front with
  | error cause => simp [Except.bind]
  | ok middle => simp [Except.bind]

theorem walk_singleton (t : Tree) (place : Place) (part : String) :
    t.walk place [part] = t.descend place part := by
  unfold walk
  rw [List.foldlM_cons]
  cases t.descend place part <;> rfl

theorem walk_cons_eq_ok_iff {t : Tree} {place goal : Place} {part : String} {rest : List String} :
    t.walk place (part :: rest) = .ok goal ↔
      ∃ next, t.descend place part = .ok next ∧ t.walk next rest = .ok goal := by
  rw [← List.singleton_append, walk_append_eq_ok_iff, walk_singleton]

theorem byteLength_le_of_walk {t : Tree} {place goal : Place} {parts : List String}
    (hwalk : t.walk place parts = .ok goal) {name : String} (hmem : name ∈ parts)
    (hdot : name ≠ ".") (hparent : name ≠ "..") : Text.byteLength name.toList ≤ maxName := by
  induction parts generalizing place with
  | nil => cases hmem
  | cons part rest ih =>
      obtain ⟨next, hstep, hrest⟩ := walk_cons_eq_ok_iff.1 hwalk
      rcases List.mem_cons.1 hmem with rfl | hmem
      · obtain ⟨-, hnext⟩ := descend_eq_ok_iff.1 hstep
        rw [if_neg (by simpa using hdot), if_neg (by simpa using hparent)] at hnext
        exact Nat.le_of_not_lt hnext.1
      · exact ih hrest hmem

theorem descend_ne_nameTooLong {t : Tree} {place : Place} {part : String}
    (hfits : Text.byteLength part.toList ≤ maxName) :
    t.descend place part ≠ .error .nameTooLong := by
  unfold descend
  split
  · nofun
  · nofun
  · split
    · nofun
    · split
      · nofun
      · rw [if_neg (Nat.not_lt.2 hfits)]
        nofun

theorem walk_ne_nameTooLong {t : Tree} {place : Place} {parts : List String}
    (hfits : ∀ part ∈ parts, Text.byteLength part.toList ≤ maxName) :
    t.walk place parts ≠ .error .nameTooLong := by
  induction parts generalizing place with
  | nil => nofun
  | cons part rest ih =>
      obtain ⟨hpart, hrest⟩ := List.forall_mem_cons.1 hfits
      rw [← List.singleton_append, walk_append, walk_singleton]
      cases hstep : t.descend place part with
      | error cause =>
          intro hcause
          cases hcause
          exact descend_ne_nameTooLong hpart hstep
      | ok next => exact ih hrest

/-!
## Endings
-/

theorem descend_name {t : Tree} {place goal : Place} {name : String} (hdot : name ≠ ".")
    (hparent : name ≠ "..") (hdescend : t.descend place name = .ok goal) :
    t.hasFolder place = true ∧ goal = place ++ [name] := by
  obtain ⟨hfolder, hgoal⟩ := descend_eq_ok_iff.1 hdescend
  rw [if_neg (by simpa using hdot), if_neg (by simpa using hparent)] at hgoal
  exact ⟨hfolder, hgoal.2⟩

theorem ofList_append_ne_of_length {last ending : List Char} {name : String}
    (hlong : name.toList.length < ending.length) : String.ofList (last ++ ending) ≠ name := by
  intro hsame
  have hlength : (last ++ ending).length = name.toList.length := by
    rw [← hsame, String.toList_ofList]
  rw [List.length_append] at hlength
  omega

theorem start_append {t : Tree} {path ending : Path} (hpath : path.isEmpty = false) :
    t.start (path ++ ending) = t.start path := by
  have hhead : (path ++ ending).toList.head? = path.toList.head? := by
    rw [String.toList_append]
    cases hcs : path.toList with
    | nil =>
        have hempty : path = "" := by
          rw [← String.ofList_toList (s := path), hcs]
        rw [hempty] at hpath
        cases hpath
    | cons c rest => rfl
  unfold start Path.isAbsolute
  rw [hhead]

theorem not_isEmpty_of_precheck {path : Path} (hcheck : precheck path = .ok ()) :
    path.isEmpty = false := by
  unfold precheck at hcheck
  split at hcheck
  · cases hcheck
  · split at hcheck
    · cases hcheck
    · rename_i hne
      simpa using hne

theorem exists_components_append (path : Path) {ending : Path}
    (hplain : ∀ c ∈ ending.toList, (c == '/') = false) (hne : ending.toList ≠ []) :
    ∃ front : List String, ∃ last : List Char,
      Path.components path = front ++ (if last = [] then [] else [String.ofList last]) ∧
        Path.components (path ++ ending) = front ++ [String.ofList (last ++ ending.toList)] := by
  obtain ⟨front, last, hpieces, hpieces'⟩ :=
    Text.exists_pieces_append path.toList ending.toList hplain
  refine ⟨(front.filter fun piece => !piece.isEmpty).map String.ofList, last, ?_, ?_⟩
  · rw [components_eq, parts, hpieces, List.filter_append]
    cases last with
    | nil => simp
    | cons c rest => simp
  · rw [components_eq, parts, String.toList_append, hpieces', List.filter_append]
    have hending : last ++ ending.toList ≠ [] := fun hnil => hne (List.append_eq_nil_iff.1 hnil).2
    rw [List.filter_cons_of_pos (by simpa using hending)]
    simp

theorem cases_of_descend {t : Tree} {place goal : Place} {part : String}
    (hdescend : t.descend place part = .ok goal) :
    goal.length ≤ place.length ∨ goal = place ++ [part] := by
  obtain ⟨-, hgoal⟩ := descend_eq_ok_iff.1 hdescend
  split at hgoal
  · exact Or.inl (Nat.le_of_eq (congrArg List.length hgoal))
  · split at hgoal
    · left
      rw [hgoal, List.length_dropLast]
      exact Nat.sub_le _ _
    · exact Or.inr hgoal.2

/-- With an ending of three letters or more a path leads somewhere else. -/
theorem target_append_ne {t : Tree} {path ending : Path} {place : Place}
    (hplain : ∀ c ∈ ending.toList, (c == '/') = false) (hlong : 2 < ending.toList.length)
    (htarget : t.target (path ++ ending) = .ok place) : t.target path ≠ .ok place := by
  intro hsame
  obtain ⟨hcheck, hwalk⟩ := target_eq_ok_iff.1 hsame
  have hwalk' := (target_eq_ok_iff.1 htarget).2
  have hne : ending.toList ≠ [] := List.ne_nil_of_length_pos (Nat.lt_trans (by decide) hlong)
  obtain ⟨front, last, hcomponents, hcomponents'⟩ := exists_components_append path hplain hne
  rw [hcomponents', start_append (not_isEmpty_of_precheck hcheck), walk_append_eq_ok_iff] at hwalk'
  obtain ⟨folder, hfolder, hlast⟩ := hwalk'
  rw [walk_singleton] at hlast
  obtain ⟨-, hplace⟩ := descend_name (ofList_append_ne_of_length (Nat.lt_trans (by decide) hlong))
    (ofList_append_ne_of_length hlong) hlast
  -- The path itself leads to the folder, to the one above it, or to another name in it.
  rw [hcomponents, walk_append_eq_ok_iff] at hwalk
  obtain ⟨folder', hfolder', hgoal⟩ := hwalk
  rw [hfolder] at hfolder'
  cases hfolder'
  have hlonger : ¬ place.length ≤ folder.length := by
    rw [hplace, List.length_append, List.length_singleton]
    omega
  split at hgoal
  · cases hgoal
    exact hlonger (Nat.le_refl _)
  · rw [walk_singleton] at hgoal
    rcases cases_of_descend hgoal with hshort | hname
    · exact hlonger hshort
    · have hsingle : [String.ofList last] = [String.ofList (last ++ ending.toList)] :=
        List.append_cancel_left (hname.symm.trans hplace)
      have hchars := congrArg String.toList (List.singleton_inj.1 hsingle)
      rw [String.toList_ofList, String.toList_ofList] at hchars
      have hlengths := congrArg List.length hchars
      rw [List.length_append] at hlengths
      omega

end Tree
end LogHarvest
