import LogHarvest.Proofs.Tree.Folders

/-!
# What a file holds

The content at a path depends on the folders and on the one node that the path leads
to.  So it outlasts whatever is done to other files, and the folders that are added.
-/

namespace LogHarvest
namespace Tree

def content? (t : Tree) (path : Path) : Option Text.Bytes :=
  (t.read path).toOption

/-!
## Folders that are added
-/

/-- Folders are added to a tree where nothing was. -/
inductive Grown (t : Tree) : Tree → Prop
  | same : Grown t t
  | folder {t' : Tree} {place : Place} (hgrown : Grown t t') (hfree : t'.get? place = none) :
      Grown t (t'.put place .folder)

theorem Grown.trans {t t' t'' : Tree} (hfirst : t.Grown t') (hsecond : t'.Grown t'') :
    t.Grown t'' := by
  induction hsecond with
  | same => exact hfirst
  | folder _ hfree ih => exact ih.folder hfree

theorem Grown.get? {t t' : Tree} (hgrown : t.Grown t') {place : Place} {node : Node}
    (hnode : t.get? place = some node) : t'.get? place = some node := by
  induction hgrown with
  | same => exact hnode
  | @folder t' added _ hfree ih =>
      rw [get?_put]
      by_cases hroot : place = []
      · rw [if_pos hroot]
        rw [hroot] at hnode
        exact hnode
      · rw [if_neg hroot]
        by_cases hsame : place = added
        · rw [hsame, hfree] at ih
          cases ih
        · rw [if_neg hsame]
          exact ih

theorem Grown.get?_cases {t t' : Tree} (hgrown : t.Grown t') (place : Place) :
    t'.get? place = t.get? place ∨ t.get? place = none ∧ t'.get? place = some .folder := by
  induction hgrown with
  | same => exact Or.inl rfl
  | @folder t' added hgrown hfree ih =>
      rw [get?_put]
      by_cases hroot : place = []
      · rw [if_pos hroot, hroot]
        exact Or.inl rfl
      · rw [if_neg hroot]
        by_cases hadded : place = added
        · rw [if_pos hadded]
          rcases ih with hsame | ⟨hnone, -⟩
          · rw [← hsame, hadded]
            exact Or.inr ⟨hfree, rfl⟩
          · exact Or.inr ⟨hnone, rfl⟩
        · rw [if_neg hadded]
          exact ih

theorem Grown.here {t t' : Tree} (hgrown : t.Grown t') : t'.here = t.here := by
  induction hgrown with
  | same => rfl
  | folder _ _ ih => exact ih

theorem Grown.extends {t t' : Tree} (hgrown : t.Grown t') : t.Extends t' where
  here := hgrown.here
  folders := by
    intro place hfolder
    rw [hasFolder, beq_iff_eq] at hfolder ⊢
    exact hgrown.get? hfolder

/-!
## Contents
-/

theorem read_eq_ok_iff {t : Tree} {path : Path} {content : Text.Bytes} :
    t.read path = .ok content ↔ t.content? path = some content := by
  unfold content?
  cases t.read path with
  | error cause => simp [Except.toOption]
  | ok found => simp [Except.toOption]

theorem content?_eq_some_iff {t : Tree} {path : Path} {content : Text.Bytes} :
    t.content? path = some content ↔
      ∃ place runnable, t.target path = .ok place ∧
        t.get? place = some (.file content runnable) ∧ path.endsInSlash = false := by
  rw [← read_eq_ok_iff, read_eq_ok_iff_locate]
  refine exists_congr fun place => exists_congr fun runnable => ?_
  rw [locate_eq_ok_iff]
  simp

theorem Grown.content? {t t' : Tree} (hgrown : t.Grown t') {path : Path} {content : Text.Bytes}
    (hcontent : t.content? path = some content) : t'.content? path = some content := by
  obtain ⟨place, runnable, htarget, hfile, hslash⟩ := content?_eq_some_iff.1 hcontent
  exact content?_eq_some_iff.2
    ⟨place, runnable, hgrown.extends.target htarget, hgrown.get? hfile, hslash⟩

theorem content?_congr {t t' : Tree} (hsame : t.SameFolders t') {path : Path}
    (hnode : ∀ place, t.target path = .ok place → t'.get? place = t.get? place) :
    t'.content? path = t.content? path := by
  have htarget : ∀ place, t'.target path = .ok place ↔ t.target path = .ok place := fun place =>
    ⟨target_eq_ok hsame.symm, target_eq_ok hsame⟩
  have hcontent : ∀ content, t'.content? path = some content ↔ t.content? path = some content := by
    intro content
    rw [content?_eq_some_iff, content?_eq_some_iff]
    constructor
    · rintro ⟨place, runnable, hplace, hfile, hslash⟩
      have hplace' := (htarget place).1 hplace
      rw [hnode place hplace'] at hfile
      exact ⟨place, runnable, hplace', hfile, hslash⟩
    · rintro ⟨place, runnable, hplace, hfile, hslash⟩
      rw [← hnode place hplace] at hfile
      exact ⟨place, runnable, (htarget place).2 hplace, hfile, hslash⟩
  exact Option.ext hcontent

theorem content?_put {t : Tree} {path : Path} {place : Place} {node : Node}
    (hplace : t.hasFolder place = false) (hnode : node ≠ .folder)
    (hother : t.target path ≠ .ok place) : (t.put place node).content? path = t.content? path := by
  refine content?_congr (sameFolders_put hplace hnode) ?_
  intro goal hgoal
  have hne : goal ≠ place := by
    rintro rfl
    exact hother hgoal
  rw [get?_put]
  by_cases hroot : goal = []
  · rw [if_pos hroot, hroot]
    rfl
  · rw [if_neg hroot, if_neg hne]

theorem content?_create_fill {t created : Tree} {path other : Path} {place : Place}
    (hcreate : t.create other = .ok (place, created)) (hother : t.target path ≠ .ok place)
    (data : Text.Bytes) :
    created.content? path = t.content? path ∧
      (created.fill place data).content? path = t.content? path := by
  have hplace := hasFolder_of_create hcreate
  have hcreated : created.content? path = t.content? path := by
    rw [(create_eq_ok_iff.1 hcreate).2]
    exact content?_put hplace nofun hother
  have hsame := sameFolders_create hcreate
  refine ⟨hcreated, ?_⟩
  rw [← hcreated]
  refine content?_put ?_ nofun ?_
  · rw [hsame.folders]
    exact hplace
  · exact fun htarget => hother (target_eq_ok hsame.symm htarget)

theorem get?_create_fill {t created : Tree} {path : Path} {place : Place}
    (hcreate : t.create path = .ok (place, created)) (data : Text.Bytes) :
    (created.fill place data).get? place = some (.file data (created.runnableAt place)) := by
  rw [fill, get?_put, if_neg (ne_nil_of_hasFolder (hasFolder_of_create hcreate)), if_pos rfl]

/-!
## Copies
-/

theorem get?_put_empty {t : Tree} {origin : Place} {content : Text.Bytes} {runnable : Bool}
    (hfile : t.get? origin = some (.file content runnable)) (goal : Place) (runs : Bool) :
    ∃ runs', (t.put goal (.file [] runs)).get? origin =
      some (.file (if goal = origin then [] else content) runs') := by
  rw [get?_put, if_neg (ne_nil_of_hasFolder (hasFolder_eq_false hfile))]
  by_cases hsame : origin = goal
  · rw [if_pos hsame, if_pos hsame.symm]
    exact ⟨runs, rfl⟩
  · rw [if_neg hsame, if_neg (Ne.symm hsame)]
    exact ⟨runnable, hfile⟩

theorem copy_eq_ok_iff {t t' : Tree} {source destination : Path} :
    t.copy source destination = .ok t' ↔
      ∃ origin content runnable goal, t.locate source = .ok (origin, .file content runnable) ∧
        t.openForWriting destination = .ok goal ∧
        t' = (t.put goal (.file [] (t.runnableAt goal))).put goal
          (.file (if goal = origin then [] else content) runnable) := by
  unfold copy
  rw [bind_eq_ok_iff]
  constructor
  · rintro ⟨⟨origin, node⟩, hlocate, hcopied⟩
    cases node with
    | folder => cases hcopied
    | file content runnable =>
        obtain ⟨⟨goal, created⟩, hcreate, hcopied⟩ := bind_eq_ok_iff.1 hcopied
        obtain ⟨hopen, rfl⟩ := create_eq_ok_iff.1 hcreate
        refine ⟨origin, content, runnable, goal, hlocate, hopen, ?_⟩
        obtain ⟨runs, hemptied⟩ :=
          get?_put_empty (locate_eq_ok hlocate).2 goal (t.runnableAt goal)
        dsimp only at hcopied
        rw [hemptied] at hcopied
        exact (Except.ok.inj hcopied).symm
  · rintro ⟨origin, content, runnable, goal, hlocate, hopen, rfl⟩
    refine ⟨_, hlocate, bind_eq_ok_iff.2 ⟨_, create_eq_ok_iff.2 ⟨hopen, rfl⟩, ?_⟩⟩
    obtain ⟨runs, hemptied⟩ := get?_put_empty (locate_eq_ok hlocate).2 goal (t.runnableAt goal)
    dsimp only
    rw [hemptied]

theorem exists_copy {t : Tree} {source destination : Path} {goal : Place} {content : Text.Bytes}
    (hcontent : t.content? source = some content)
    (hopen : t.openForWriting destination = .ok goal) :
    ∃ t', t.copy source destination = .ok t' := by
  obtain ⟨origin, runnable, hlocate⟩ := read_eq_ok_iff_locate.1 (read_eq_ok_iff.2 hcontent)
  exact ⟨_, copy_eq_ok_iff.2 ⟨origin, content, runnable, goal, hlocate, hopen, rfl⟩⟩

/-- What a copy leaves: its place filled, and all other places as they were. -/
theorem copy_eq_ok {t t' : Tree} {source destination : Path}
    (hcopy : t.copy source destination = .ok t') :
    ∃ origin goal content, t.target source = .ok origin ∧ t.content? source = some content ∧
      t.openForWriting destination = .ok goal ∧ t.SameFolders t' ∧
      ∃ runnable, ∀ place, t'.get? place =
        if place = goal then some (.file (if goal = origin then [] else content) runnable)
        else t.get? place := by
  obtain ⟨origin, content, runnable, goal, hlocate, hopen, rfl⟩ := copy_eq_ok_iff.1 hcopy
  have hcontent : t.content? source = some content :=
    read_eq_ok_iff.1 (read_eq_ok_iff_locate.2 ⟨origin, runnable, hlocate⟩)
  have hgoal := (openForWriting_eq_ok_iff.1 hopen).2.2
  have hemptied : t.SameFolders (t.put goal (.file [] (t.runnableAt goal))) :=
    sameFolders_put hgoal nofun
  refine ⟨origin, goal, content, (locate_eq_ok hlocate).1, hcontent, hopen,
    hemptied.trans (sameFolders_put ?_ nofun), runnable, ?_⟩
  · rw [hemptied.folders]
    exact hgoal
  · intro place
    rw [get?_put, get?_put]
    by_cases hplace : place = goal
    · rw [if_pos hplace, if_pos hplace, if_neg (hplace ▸ ne_nil_of_hasFolder hgoal)]
    · rw [if_neg hplace, if_neg hplace, if_neg hplace]
      split
      · rename_i hroot
        rw [hroot]
        rfl
      · rfl

/-!
## Making folders
-/

theorem grown_makeFolder {t t' : Tree} {path : Path} (hmake : t.makeFolder path = .ok t') :
    t.Grown t' := by
  obtain ⟨place, -, hfree, rfl⟩ := makeFolder_eq_ok_iff.1 hmake
  exact .folder .same hfree

/-- What the making of one folder keeps, the making of a folder and those above it keeps. -/
theorem makeFolders_induction {P : Tree → Prop}
    (hmake : ∀ {t t' path}, P t → t.makeFolder path = .ok t' → P t') {t : Tree} (ht : P t)
    (path : Path) : P (t.makeFolders path).2 := by
  have hwithin : ∀ depth t path, P t → P (makeFoldersWithin depth t path).2 := by
    intro depth
    induction depth with
    | zero => exact fun t path ht => ht
    | succ depth ih =>
        intro t path ht
        unfold makeFoldersWithin
        split
        · exact ht
        · split
          · rename_i t' hfirst
            exact hmake ht hfirst
          · split
            · split
              · exact ht
              · rename_i above _
                have habove := ih t above ht
                split
                · rename_i t' hfault
                  rw [hfault] at habove
                  exact habove
                · rename_i t' hok
                  rw [hok] at habove
                  split
                  · rename_i t'' hsecond
                    exact hmake habove hsecond
                  · exact habove
            · exact ht
  exact hwithin _ t path ht

theorem grown_makeFolders (t : Tree) (path : Path) : t.Grown (t.makeFolders path).2 :=
  makeFolders_induction (fun hgrown hmake => hgrown.trans (grown_makeFolder hmake)) .same path

theorem hasFolder_of_isFolder {t : Tree} {path : Path} (hfolder : t.isFolder path = true) :
    ∃ place, t.target path = .ok place ∧ t.hasFolder place = true := by
  unfold isFolder at hfolder
  split at hfolder
  · rename_i place hlocate
    obtain ⟨htarget, hnode⟩ := locate_eq_ok hlocate
    exact ⟨place, htarget, by rw [hasFolder, hnode]; rfl⟩
  · cases hfolder

theorem makeFolders_of_isFolder {t : Tree} {path : Path} (hfolder : t.isFolder path = true) :
    t.makeFolders path = (.ok (), t) := by
  obtain ⟨place, htarget, hplace⟩ := hasFolder_of_isFolder hfolder
  have hexists : t.makeFolder path = .error .alreadyExists := by
    rw [hasFolder, beq_iff_eq] at hplace
    unfold makeFolder
    rw [htarget]
    simp only [bind, Except.bind, hplace]
  unfold makeFolders makeFoldersWithin
  rw [hexists, hfolder]
  split <;> rfl

theorem hasFolder_of_makeFolder {t t' : Tree} {path : Path} (hmake : t.makeFolder path = .ok t') :
    ∃ place, t'.target path = .ok place ∧ t'.hasFolder place = true := by
  have hgrown := grown_makeFolder hmake
  obtain ⟨place, htarget, -, rfl⟩ := makeFolder_eq_ok_iff.1 hmake
  refine ⟨place, hgrown.extends.target htarget, ?_⟩
  rw [hasFolder, get?_put, if_pos rfl]
  split <;> rfl

theorem hasFolder_of_makeFolders {t t' : Tree} {path : Path} (hpath : path.isEmpty = false)
    (hmake : t.makeFolders path = (.ok (), t')) :
    ∃ place, t'.target path = .ok place ∧ t'.hasFolder place = true := by
  have hchecked : ∀ {t : Tree} {fault : IoFault},
      ((if t.isFolder path then .ok () else .error fault : Except IoFault Unit), t) = (.ok (), t') →
        ∃ place, t'.target path = .ok place ∧ t'.hasFolder place = true := by
    intro t fault hresult
    obtain ⟨hresult, rfl⟩ := Prod.mk.inj hresult
    split at hresult
    · rename_i hfolder
      exact hasFolder_of_isFolder hfolder
    · cases hresult
  unfold makeFolders makeFoldersWithin at hmake
  rw [if_neg (by rw [hpath]; exact Bool.false_ne_true)] at hmake
  split at hmake
  · rename_i made hfirst
    cases hmake
    exact hasFolder_of_makeFolder hfirst
  · split at hmake
    · split at hmake
      · cases hmake
      · split at hmake
        · cases hmake
        · split at hmake
          · rename_i made hsecond
            cases hmake
            exact hasFolder_of_makeFolder hsecond
          · exact hchecked hmake
    · exact hchecked hmake

end Tree
end LogHarvest
