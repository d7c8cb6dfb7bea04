import LogHarvest.Proofs.Tree.Components
import LogHarvest.Proofs.Tree.Contents

/-!
# Nothing stands below a free place

In the trees that the program meets every node stands in a folder.  So there is
nothing in a folder that was just made, and a path that goes on behind it with a name
leads to a place that was free before.
-/

namespace LogHarvest
namespace Tree

/-- The current folder is there, and every node stands in a folder. -/
structure Sound (t : Tree) : Prop where
  here : t.hasFolder t.here = true
  above : ∀ place node, t.get? place = some node → t.hasFolder place.dropLast = true

theorem sound_empty : Sound empty where
  here := rfl
  above := by
    intro place node hnode
    unfold get? at hnode
    split at hnode
    · rename_i hroot
      rw [List.isEmpty_iff.1 hroot]
      rfl
    · cases hnode

theorem Sound.above_folder {t : Tree} (hsound : t.Sound) {place : Place}
    (hfolder : t.hasFolder place = true) : t.hasFolder place.dropLast = true := by
  rw [hasFolder, beq_iff_eq] at hfolder
  exact hsound.above place .folder hfolder

theorem Sound.walk {t : Tree} (hsound : t.Sound) {place goal : Place} {parts : List String}
    (hplace : t.hasFolder place.dropLast = true) (hwalk : t.walk place parts = .ok goal) :
    t.hasFolder goal.dropLast = true := by
  induction parts generalizing place with
  | nil =>
      cases hwalk
      exact hplace
  | cons part rest ih =>
      obtain ⟨next, hstep, hrest⟩ := walk_cons_eq_ok_iff.1 hwalk
      refine ih ?_ hrest
      obtain ⟨hfolder, hnext⟩ := descend_eq_ok_iff.1 hstep
      split at hnext
      · rw [hnext]
        exact hplace
      · split at hnext
        · rw [hnext]
          exact hsound.above_folder hplace
        · rw [hnext.2, List.dropLast_concat]
          exact hfolder

theorem Sound.target {t : Tree} (hsound : t.Sound) {path : Path} {place : Place}
    (htarget : t.target path = .ok place) : t.hasFolder place.dropLast = true := by
  refine hsound.walk ?_ (target_eq_ok_iff.1 htarget).2
  unfold start
  split
  · rfl
  · exact hsound.above_folder hsound.here

theorem Sound.put {t : Tree} {place : Place} {node : Node} (hsound : t.Sound)
    (habove : t.hasFolder place.dropLast = true) (hfree : t.hasFolder place = false) :
    (t.put place node).Sound := by
  have hfolders : ∀ p, t.hasFolder p = true → (t.put place node).hasFolder p = true := by
    intro p hfolder
    have hne : p ≠ place := by
      rintro rfl
      rw [hfree] at hfolder
      cases hfolder
    rw [hasFolder, get?_put, if_neg hne]
    split
    · rfl
    · exact hfolder
  constructor
  · exact hfolders _ hsound.here
  · intro goal found hfound
    refine hfolders _ ?_
    rw [get?_put] at hfound
    split at hfound
    · rename_i hroot
      rw [hroot]
      rfl
    · split at hfound
      · rename_i hsame
        rw [hsame]
        exact habove
      · exact hsound.above goal found hfound

theorem Sound.makeFolder {t t' : Tree} {path : Path} (hsound : t.Sound)
    (hmake : t.makeFolder path = .ok t') : t'.Sound := by
  obtain ⟨place, htarget, hfree, rfl⟩ := makeFolder_eq_ok_iff.1 hmake
  refine hsound.put (hsound.target htarget) ?_
  rw [hasFolder, hfree]
  rfl

theorem Sound.get?_below {t : Tree} (hsound : t.Sound) {place : Place} (hfree : t.get? place = none)
    (name : String) : t.get? (place ++ [name]) = none := by
  cases hnode : t.get? (place ++ [name]) with
  | none => rfl
  | some node =>
      have hfolder := hsound.above _ node hnode
      rw [List.dropLast_concat, hasFolder, hfree] at hfolder
      cases hfolder

/-!
## Names behind a folder's path
-/

theorem parts_append_slash (front back : List Char) :
    parts (front ++ '/' :: back) = parts front ++ parts back := by
  unfold parts
  rw [Text.pieces_append_separator front back rfl, List.filter_append]

theorem join_eq {folder : Path} {name : String} (hfolder : folder.isEmpty = false)
    (hname : Path.isAbsolute name = false) :
    ∃ front, folder.toList = front ∧ (folder.join name).toList = front ++ '/' :: name.toList ∨
      folder.toList = front ++ ['/'] ∧ (folder.join name).toList = front ++ '/' :: name.toList := by
  unfold Path.join
  rw [if_neg (by simp [hfolder, hname])]
  split
  · rename_i hslash
    obtain ⟨front, hfront⟩ : ∃ front, folder.toList = front ++ ['/'] := by
      have hlast : folder.toList.getLast? = some '/' := by simpa [Path.endsInSlash] using hslash
      exact List.getLast?_eq_some_iff.1 hlast
    refine ⟨front, Or.inr ⟨hfront, ?_⟩⟩
    rw [String.toList_append, hfront, List.append_assoc]
    rfl
  · refine ⟨folder.toList, Or.inl ⟨rfl, ?_⟩⟩
    have happend : (folder ++ "/" ++ name).toList = folder.toList ++ "/".toList ++ name.toList := by
      simp [String.toList_append]
    exact happend.trans (List.append_assoc _ _ _)

theorem components_join {folder : Path} {name : String} (hfolder : folder.isEmpty = false)
    (hname : Path.isAbsolute name = false) :
    (folder.join name).components = folder.components ++ Path.components name := by
  rw [components_eq, components_eq, components_eq, ← List.map_append]
  obtain ⟨front, ⟨hfront, hjoin⟩ | ⟨hfront, hjoin⟩⟩ := join_eq hfolder hname
  · rw [hjoin, hfront, parts_append_slash]
  · rw [hjoin, hfront, parts_append_slash, parts_append_slash]
    have hnothing : parts [] = [] := rfl
    rw [hnothing, List.append_nil]

theorem start_join {t : Tree} {folder : Path} {name : String} (hfolder : folder.isEmpty = false)
    (hname : Path.isAbsolute name = false) : t.start (folder.join name) = t.start folder := by
  have hhead : (folder.join name).toList.head? = folder.toList.head? := by
    obtain ⟨front, ⟨hfront, hjoin⟩ | ⟨hfront, hjoin⟩⟩ := join_eq hfolder hname
    · rw [hjoin, hfront]
      cases front with
      | nil =>
          have hempty : folder = "" := by rw [← String.ofList_toList (s := folder), hfront]
          rw [hempty] at hfolder
          cases hfolder
      | cons c rest => rfl
    · rw [hjoin, hfront]
      cases front <;> rfl
  unfold start Path.isAbsolute
  rw [hhead]

structure Opens (front : List Char) : Prop where
  plain : ∀ c ∈ front, (c == '/') = false
  dot : ∀ more, front ++ more ≠ ".".toList
  parent : ∀ more, front ++ more ≠ "..".toList

theorem Opens.isAbsolute {front : List Char} (hopens : Opens front) {name : String}
    (hfront : front <+: name.toList) : Path.isAbsolute name = false := by
  obtain ⟨more, hname⟩ := hfront
  unfold Path.isAbsolute
  rw [← hname]
  cases front with
  | nil => exact absurd rfl (hopens.dot ['.'])
  | cons c rest => simpa using hopens.plain c List.mem_cons_self

theorem Opens.components {front : List Char} (hopens : Opens front) {name : String}
    (hfront : front <+: name.toList) :
    ∃ first rest, Path.components name = first :: rest ∧ first ≠ "." ∧ first ≠ ".." := by
  obtain ⟨cs, hname⟩ := hfront
  obtain ⟨more, rest, hpieces⟩ := Text.exists_pieces_of_plain_append hopens.plain cs
  have hne : front ++ more ≠ [] := fun hnil => by
    have hfirst := (List.append_eq_nil_iff.1 hnil).1
    exact hopens.dot ['.'] (by rw [hfirst]; rfl)
  refine ⟨String.ofList (front ++ more),
    (rest.filter fun piece => !piece.isEmpty).map String.ofList,
    ?_, ?_, ?_⟩
  · rw [components_eq, parts, ← hname, hpieces, List.filter_cons_of_pos (by simpa using hne)]
    rfl
  · intro hsame
    exact hopens.dot more (by rw [← hsame, String.toList_ofList])
  · intro hsame
    exact hopens.parent more (by rw [← hsame, String.toList_ofList])

/-- Behind a folder without folders in it, a path goes on by one component or leads nowhere. -/
theorem exists_component_of_target_join {t : Tree} {folder : Path} {place goal : Place}
    {name : String} {front : List Char} (hplace : t.target folder = .ok place)
    (hnoFolder : ∀ part, t.hasFolder (place ++ [part]) = false) (hopens : Opens front)
    (hfront : front <+: name.toList) (htarget : t.target (folder.join name) = .ok goal) :
    ∃ first, Path.components name = [first] ∧ first ≠ "." ∧ first ≠ ".." ∧
      goal = place ++ [first] := by
  obtain ⟨hcheck, hwalk⟩ := target_eq_ok_iff.1 hplace
  have hfolder := not_isEmpty_of_precheck hcheck
  have hname := hopens.isAbsolute hfront
  have hinside := (target_eq_ok_iff.1 htarget).2
  rw [start_join hfolder hname, components_join hfolder hname, walk_append_eq_ok_iff] at hinside
  obtain ⟨middle, hmiddle, hrest⟩ := hinside
  rw [hwalk] at hmiddle
  cases hmiddle
  obtain ⟨first, rest, hcomponents, hdot, hparent⟩ := hopens.components hfront
  rw [hcomponents] at hrest
  obtain ⟨next, hfirst, hlast⟩ := walk_cons_eq_ok_iff.1 hrest
  obtain ⟨-, rfl⟩ := descend_name hdot hparent hfirst
  cases rest with
  | nil =>
      cases hlast
      exact ⟨first, hcomponents, hdot, hparent, rfl⟩
  | cons second others =>
      obtain ⟨_, hsecond, -⟩ := walk_cons_eq_ok_iff.1 hlast
      have hfolder' := (descend_eq_ok_iff.1 hsecond).1
      rw [hnoFolder] at hfolder'
      cases hfolder'

theorem Sound.hasFolder_below {t : Tree} (hsound : t.Sound) {place : Place}
    (hfree : t.get? place = none) (name : String) :
    (t.put place .folder).hasFolder (place ++ [name]) = false := by
  rw [hasFolder, get?_put, if_neg (by simp), if_neg (by simp), hsound.get?_below hfree]
  rfl

theorem get?_of_target_join {t t' : Tree} {folder : Path} {name : String} {front : List Char}
    {goal : Place} (hsound : t.Sound) (hmake : t.makeFolder folder = .ok t')
    (hopens : Opens front) (hfront : front <+: name.toList)
    (htarget : t'.target (folder.join name) = .ok goal) : t.get? goal = none := by
  have hgrown := grown_makeFolder hmake
  obtain ⟨place, hplace, hfree, rfl⟩ := makeFolder_eq_ok_iff.1 hmake
  obtain ⟨first, -, -, -, rfl⟩ := exists_component_of_target_join (hgrown.extends.target hplace)
    (hsound.hasFolder_below hfree) hopens hfront htarget
  exact hsound.get?_below hfree first

end Tree
end LogHarvest
