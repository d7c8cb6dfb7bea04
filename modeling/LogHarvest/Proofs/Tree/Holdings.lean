import LogHarvest.Proofs.Tree.Leads
import Mathlib.Data.List.Nodup

/-!
# Folders that hold nothing but files

A folder without folders in it (`Tree.Bare`) takes files under names of one component
only: a path that goes on behind it leads nowhere, and one that ends in a slash is no file.

`Tree.Holds` says which files there are, and that each one can be opened under the path of
its name.  A file that is created under another name is added at the end, and nothing else
about the folder changes.
-/

namespace LogHarvest

namespace Path

/-- One component of a path that is a name, and does not mean a folder itself or its parent. -/
structure IsName (name : String) : Prop where
  plain : '/' ∉ name.toList
  nonempty : name ≠ ""
  dot : name ≠ "."
  parent : name ≠ ".."

theorem endsInSlash_join {name : String} (folder : Path) (hname : endsInSlash name = true) :
    endsInSlash (folder.join name) = true := by
  unfold join
  split
  · exact hname
  · split
    · exact endsInSlash_append folder hname
    · exact endsInSlash_append _ hname

theorem IsName.isAbsolute {name : String} (hname : IsName name) : isAbsolute name = false := by
  rw [Path.isAbsolute, beq_eq_false_iff_ne]
  exact fun hhead => hname.plain (List.mem_of_mem_head? hhead)

end Path

namespace Tree

/-!
## Nodes
-/

theorem get?_put_of_ne {t : Tree} {place p : Place} {node : Node} (hother : p ≠ place) :
    (t.put place node).get? p = t.get? p := by
  rw [get?_put, if_neg hother]
  split
  · rename_i hroot
    rw [hroot]
    rfl
  · rfl

/-!
## Names behind a folder without folders
-/

structure Bare (t : Tree) (folder : Path) (place : Place) : Prop where
  target : t.target folder = .ok place
  noFolder : ∀ name, t.hasFolder (place ++ [name]) = false

theorem Bare.of_sameFolders {t t' : Tree} {folder : Path} {place : Place}
    (hbare : t.Bare folder place) (hsame : t.SameFolders t') : t'.Bare folder place where
  target := target_eq_ok hsame hbare.target
  noFolder name := by
    rw [hsame.folders]
    exact hbare.noFolder name

theorem Sound.exists_bare {t t' : Tree} {folder : Path} (hsound : t.Sound)
    (hmake : t.makeFolder folder = .ok t') : ∃ place, t'.Bare folder place := by
  have hgrown := grown_makeFolder hmake
  obtain ⟨place, htarget, hfree, rfl⟩ := makeFolder_eq_ok_iff.1 hmake
  exact ⟨place, hgrown.extends.target htarget, hsound.hasFolder_below hfree⟩

theorem parts_ne_nil {cs : List Char} {c : Char} (hlast : cs.getLast? = some c) (hc : c ≠ '/') :
    parts cs ≠ [] := by
  obtain ⟨front, rfl⟩ := List.getLast?_eq_some_iff.1 hlast
  have hplain : ∀ c' ∈ [c], (c' == '/') = false := by simpa using hc
  obtain ⟨pieces, last, -, hpieces⟩ := Text.exists_pieces_append front [c] hplain
  have hmem : last ++ [c] ∈ parts (front ++ [c]) := by
    rw [parts, hpieces]
    exact List.mem_filter.2 ⟨by simp, by simp⟩
  exact List.ne_nil_of_mem hmem

theorem plain_of_components {name first : String} {front : List Char} (hopens : Opens front)
    (hfront : front <+: name.toList) (hends : Path.endsInSlash name = false)
    (hone : Path.components name = [first]) : '/' ∉ name.toList := by
  intro hslash
  obtain ⟨head, tail, hname, hhead⟩ := List.eq_append_cons_of_mem hslash
  have hplain : ∀ c ∈ head, (c == '/') = false := fun c hc =>
    beq_eq_false_iff_ne.2 fun hsame => hhead (hsame ▸ hc)
  have hne : head ≠ [] := by
    rintro rfl
    have habsolute := hopens.isAbsolute hfront
    rw [Path.isAbsolute, hname] at habsolute
    cases habsolute
  have hparts : parts name.toList = head :: parts tail := by
    rw [hname, parts_append_slash]
    unfold parts
    rw [Text.pieces_of_plain hplain, List.filter_cons_of_pos (by simpa using hne)]
    rfl
  have hnothing : parts tail = [] := by
    rw [components_eq, hparts, List.map_cons] at hone
    exact List.map_eq_nil_iff.1 (List.cons.inj hone).2
  have hlast : ∀ front, name.toList ≠ front ++ ['/'] := by
    intro front hsame
    rw [Path.endsInSlash, hsame, List.getLast?_concat] at hends
    cases hends
  rcases List.eq_nil_or_concat' tail with rfl | ⟨rest, c, rfl⟩
  · exact hlast head hname
  · refine parts_ne_nil List.getLast?_concat ?_ hnothing
    rintro rfl
    exact hlast (head ++ '/' :: rest) (by rw [hname, List.append_assoc]; rfl)

theorem components_of_plain {name : String} (hplain : '/' ∉ name.toList) (hne : name ≠ "") :
    Path.components name = [name] := by
  have hwhole : ∀ c ∈ name.toList, (c == '/') = false := fun c hc =>
    beq_eq_false_iff_ne.2 fun hsame => hplain (hsame ▸ hc)
  have hchars : name.toList ≠ [] := fun hnil => hne (String.toList_eq_nil_iff.1 hnil)
  rw [components_eq, parts, Text.pieces_of_plain hwhole,
    List.filter_cons_of_pos (by simpa using hchars)]
  exact congrArg (· :: []) String.ofList_toList

/-- A file that can be opened behind such a folder is named by one component. -/
theorem Bare.openForWriting {t : Tree} {folder : Path} {place goal : Place} {name : String}
    {front : List Char} (hbare : t.Bare folder place) (hopens : Opens front)
    (hfront : front <+: name.toList)
    (hopen : t.openForWriting (folder.join name) = .ok goal) :
    Path.IsName name ∧ goal = place ++ [name] := by
  obtain ⟨htarget, hslash, -⟩ := openForWriting_eq_ok_iff.1 hopen
  obtain ⟨first, hcomponents, hdot, hparent, rfl⟩ :=
    exists_component_of_target_join hbare.target hbare.noFolder hopens hfront htarget
  have hends : Path.endsInSlash name = false := by
    cases hname : Path.endsInSlash name with
    | false => rfl
    | true => exact absurd (Path.endsInSlash_join folder hname) (by rw [hslash]; decide)
  have hplain := plain_of_components hopens hfront hends hcomponents
  have hne : name ≠ "" := by
    rintro rfl
    cases hcomponents
  rw [components_of_plain hplain hne] at hcomponents
  obtain rfl : name = first := (List.cons.inj hcomponents).1
  exact ⟨⟨hplain, hne, hdot, hparent⟩, rfl⟩

/-!
## Files of a folder
-/

theorem mem_filesBelow {t : Tree} {place : Place} {name : String} {content : Text.Bytes} :
    ([name], content) ∈ t.filesBelow place ↔
      ∃ runnable, (place ++ [name], .file content runnable) ∈ t.nodes := by
  unfold filesBelow
  rw [List.mem_filterMap]
  constructor
  · rintro ⟨⟨p, node⟩, hmem, hentry⟩
    cases node with
    | folder => cases hentry
    | file found runnable =>
        dsimp only at hentry
        split at hentry
        · rename_i hbelow
          obtain ⟨hname, rfl⟩ := Prod.mk.inj (Option.some.inj hentry)
          unfold isBelow at hbelow
          rw [Bool.and_eq_true, List.isPrefixOf_iff_prefix] at hbelow
          obtain ⟨rest, rfl⟩ := hbelow.1
          rw [List.drop_left] at hname
          rw [hname] at hmem
          exact ⟨runnable, hmem⟩
        · cases hentry
  · rintro ⟨runnable, hmem⟩
    exact ⟨_, hmem, by simp [isBelow]⟩

theorem mem_nodes_of_get? {t : Tree} {place : Place} {name : String} {node : Node}
    (hnode : t.get? (place ++ [name]) = some node) : (place ++ [name], node) ∈ t.nodes := by
  rw [get?, if_neg (by simp)] at hnode
  obtain ⟨front, back, hnodes, -⟩ := List.lookup_eq_some_iff.1 hnode
  rw [hnodes]
  simp

theorem filesBelow_put_of_free {t : Tree} {place : Place} {name : String}
    (hfree : t.get? (place ++ [name]) = none) (content : Text.Bytes) (runnable : Bool) :
    (t.put (place ++ [name]) (.file content runnable)).filesBelow place =
      t.filesBelow place ++ [([name], content)] := by
  have hgo : ∀ nodes : List (Place × Node), nodes.lookup (place ++ [name]) = none →
      put.go (place ++ [name]) (.file content runnable) nodes =
        nodes ++ [(place ++ [name], .file content runnable)] := by
    intro nodes hnodes
    induction nodes with
    | nil => rfl
    | cons first rest ih =>
        obtain ⟨p, node⟩ := first
        rw [lookup_cons_eq_ite] at hnodes
        split at hnodes
        · cases hnodes
        · rename_i hother
          rw [put.go, if_neg (by simpa using Ne.symm hother), ih hnodes]
          rfl
  rw [get?, if_neg (by simp)] at hfree
  unfold filesBelow put
  dsimp only
  rw [hgo t.nodes hfree, List.filterMap_append]
  simp [isBelow]

theorem put_put (t : Tree) (place : Place) (first second : Node) :
    (t.put place first).put place second = t.put place second := by
  have hgo : ∀ nodes : List (Place × Node), put.go place second (put.go place first nodes) =
      put.go place second nodes := by
    intro nodes
    induction nodes with
    | nil => simp [put.go]
    | cons entry rest ih =>
        obtain ⟨p, node⟩ := entry
        by_cases hp : p = place
        · simp [put.go, hp]
        · simp [put.go, hp, ih]
  unfold put
  dsimp only
  rw [hgo t.nodes]

/-!
## Folders that hold some files
-/

structure SameWithin (t t' : Tree) (folder : Path) (place : Place) : Prop where
  target : t'.target folder = t.target folder
  folders : ∀ below, t'.hasFolder (place ++ below) = t.hasFolder (place ++ below)
  files : t'.filesBelow place = t.filesBelow place

theorem SameWithin.refl (t : Tree) (folder : Path) (place : Place) : t.SameWithin t folder place :=
  ⟨rfl, fun _ => rfl, rfl⟩

/-- The folder that a path leads to holds these files, each under its name, and nothing else. -/
structure Holds (t : Tree) (folder : Path) (place : Place) (files : List (String × Text.Bytes)) :
    Prop where
  bare : t.Bare folder place
  below : t.filesBelow place = files.map fun file => ([file.1], file.2)
  named : ∀ file ∈ files, Path.IsName file.1 ∧
    t.openForWriting (folder.join file.1) = .ok (place ++ [file.1])

variable {t t' : Tree} {folder : Path} {place : Place} {files : List (String × Text.Bytes)}

theorem holds_nil (hbare : t.Bare folder place) (hempty : t.filesBelow place = []) :
    t.Holds folder place [] :=
  ⟨hbare, hempty, nofun⟩

theorem SameWithin.openForWriting {name : String} (hsame : t.SameWithin t' folder place)
    (hfolder : t.target folder = .ok place) (hname : Path.IsName name)
    (hopen : t.openForWriting (folder.join name) = .ok (place ++ [name])) :
    t'.openForWriting (folder.join name) = .ok (place ++ [name]) := by
  have hwalks : ∀ {t : Tree}, t.target folder = .ok place →
      t.walk (t.start (folder.join name)) (folder.join name).components = t.descend place name := by
    intro t hfolder
    obtain ⟨hcheck, hwalk⟩ := target_eq_ok_iff.1 hfolder
    have hne := not_isEmpty_of_precheck hcheck
    rw [start_join hne hname.isAbsolute, components_join hne hname.isAbsolute,
      components_of_plain hname.plain hname.nonempty, walk_append, hwalk]
    exact walk_singleton t place name
  obtain ⟨htarget, hslash, hnone⟩ := openForWriting_eq_ok_iff.1 hopen
  obtain ⟨hcheck, hwalk⟩ := target_eq_ok_iff.1 htarget
  rw [hwalks hfolder] at hwalk
  obtain ⟨hplace, hgoal⟩ := descend_eq_ok_iff.1 hwalk
  refine openForWriting_eq_ok_iff.2 ⟨target_eq_ok_iff.2 ⟨hcheck, ?_⟩, hslash, ?_⟩
  · rw [hwalks (hsame.target.trans hfolder)]
    refine descend_eq_ok_iff.2 ⟨?_, hgoal⟩
    have hsamePlace := hsame.folders []
    rw [List.append_nil] at hsamePlace
    rw [hsamePlace]
    exact hplace
  · rw [hsame.folders]
    exact hnone

theorem Holds.of_sameWithin (hholds : t.Holds folder place files)
    (hsame : t.SameWithin t' folder place) : t'.Holds folder place files where
  bare :=
    { target := hsame.target.trans hholds.bare.target
      noFolder := fun name => (hsame.folders [name]).trans (hholds.bare.noFolder name) }
  below := hsame.files.trans hholds.below
  named file hfile := by
    obtain ⟨hname, hopen⟩ := hholds.named file hfile
    exact ⟨hname, hsame.openForWriting hholds.bare.target hname hopen⟩

theorem Holds.get?_eq_none (hholds : t.Holds folder place files) {name : String}
    (hnew : name ∉ files.map Prod.fst) : t.get? (place ++ [name]) = none := by
  cases hnode : t.get? (place ++ [name]) with
  | none => rfl
  | some node =>
      cases node with
      | folder =>
          have hfolder := hholds.bare.noFolder name
          rw [hasFolder, hnode] at hfolder
          cases hfolder
      | file content runnable =>
          have hmem := mem_filesBelow.2 ⟨runnable, mem_nodes_of_get? hnode⟩
          rw [hholds.below, List.mem_map] at hmem
          obtain ⟨file, hfile, hsame⟩ := hmem
          obtain rfl := List.singleton_inj.1 (Prod.mk.inj hsame).1
          exact absurd (List.mem_map_of_mem hfile) hnew

theorem Holds.fill {created : Tree} {goal : Place} {name : String} {front : List Char}
    (hholds : t.Holds folder place files) (hopens : Opens front) (hfront : front <+: name.toList)
    (hnew : name ∉ files.map Prod.fst) (hcreate : t.create (folder.join name) = .ok (goal, created))
    (content : Text.Bytes) :
    (created.fill goal content).Holds folder place (files ++ [(name, content)]) := by
  obtain ⟨hopen, rfl⟩ := create_eq_ok_iff.1 hcreate
  obtain ⟨hname, rfl⟩ := hholds.bare.openForWriting hopens hfront hopen
  have hsame : t.SameFolders (t.put (place ++ [name]) (.file content
      ((t.put (place ++ [name]) (.file [] (t.runnableAt (place ++ [name])))).runnableAt
        (place ++ [name])))) := sameFolders_put (hasFolder_of_create hcreate) nofun
  rw [Tree.fill, put_put]
  constructor
  case bare => exact hholds.bare.of_sameFolders hsame
  case below =>
    rw [filesBelow_put_of_free (hholds.get?_eq_none hnew), hholds.below, List.map_append]
    rfl
  case named =>
    intro file hfile
    rcases List.mem_append.1 hfile with hearlier | hadded
    · obtain ⟨hname', hopen'⟩ := hholds.named file hearlier
      exact ⟨hname', openForWriting_eq_ok hsame hopen'⟩
    · rw [List.mem_singleton.1 hadded]
      exact ⟨hname, openForWriting_eq_ok hsame hopen⟩

theorem Holds.content? (hholds : t.Holds folder place files) (hnodup : (files.map Prod.fst).Nodup)
    {name : String} {content : Text.Bytes} (hfile : (name, content) ∈ files) :
    t.content? (folder.join name) = some content := by
  obtain ⟨-, hopen⟩ := hholds.named _ hfile
  obtain ⟨htarget, hslash, hfolder⟩ := openForWriting_eq_ok_iff.1 hopen
  have hmem : ([name], content) ∈ t.filesBelow place := by
    rw [hholds.below]
    exact List.mem_map_of_mem hfile
  obtain ⟨_, hlisted⟩ := mem_filesBelow.1 hmem
  cases hnode : t.get? (place ++ [name]) with
  | none =>
      rw [get?, if_neg (by simp)] at hnode
      have hskipped := List.lookup_eq_none_iff.1 hnode _ hlisted
      simp at hskipped
  | some node =>
      cases node with
      | folder =>
          rw [Tree.hasFolder, hnode] at hfolder
          cases hfolder
      | file found runnable =>
          have hmem' := mem_filesBelow.2 ⟨runnable, mem_nodes_of_get? hnode⟩
          rw [hholds.below, List.mem_map] at hmem'
          obtain ⟨file, hfile', hsame⟩ := hmem'
          obtain ⟨hname, rfl⟩ := Prod.mk.inj hsame
          have heq := List.inj_on_of_nodup_map hnodup hfile' hfile (List.singleton_inj.1 hname)
          rw [heq] at hnode
          exact content?_eq_some_iff.2 ⟨place ++ [name], runnable, htarget, hnode, hslash⟩

theorem Holds.nodup_paths (hholds : t.Holds folder place files)
    (hnodup : (files.map Prod.fst).Nodup) :
    (files.map fun file => folder.join file.1).Nodup := by
  refine List.Nodup.map_on ?_ (hnodup.of_map _)
  intro file hfile other hother hsame
  have hopen := (hholds.named file hfile).2
  rw [hsame, (hholds.named other hother).2] at hopen
  have hplaces := List.append_cancel_left (Except.ok.inj hopen)
  exact List.inj_on_of_nodup_map hnodup hfile hother (List.singleton_inj.1 hplaces).symm

end Tree
end LogHarvest
