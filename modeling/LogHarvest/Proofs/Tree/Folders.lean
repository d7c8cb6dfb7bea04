import LogHarvest.Artifact.Sink
import LogHarvest.Proofs.Fleet.Absorbing
import LogHarvest.Proofs.Tree.Operations

/-!
# What only depends on the folders

Whether a file can be created at a path, and where, is decided by the folders alone.
To write files, and to put a document in its place, leaves the folders as they are.
So writers of files, however many there are, do not get in each other's way.
-/

namespace LogHarvest
namespace Tree

structure SameFolders (t t' : Tree) : Prop where
  here : t'.here = t.here
  folders : ∀ place, t'.hasFolder place = t.hasFolder place

theorem SameFolders.refl (t : Tree) : t.SameFolders t :=
  ⟨rfl, fun _ => rfl⟩

theorem SameFolders.symm {t t' : Tree} (hsame : t.SameFolders t') : t'.SameFolders t :=
  ⟨hsame.here.symm, fun place => (hsame.folders place).symm⟩

theorem SameFolders.trans {t t' t'' : Tree} (hfirst : t.SameFolders t')
    (hsecond : t'.SameFolders t'') : t.SameFolders t'' :=
  ⟨hsecond.here.trans hfirst.here,
    fun place => (hsecond.folders place).trans (hfirst.folders place)⟩

/-!
## Nodes
-/

theorem lookup_cons_eq_ite (p q : Place) (n : Node) (rest : List (Place × Node)) :
    ((p, n) :: rest).lookup q = if q = p then some n else rest.lookup q := by
  rw [List.lookup_cons]
  by_cases hq : q = p
  · simp [hq]
  · have hskip : (q == p) = false := by simpa using hq
    simp [hskip, hq]

theorem lookup_go (place q : Place) (node : Node) (nodes : List (Place × Node)) :
    (put.go place node nodes).lookup q = if q = place then some node else nodes.lookup q := by
  induction nodes with
  | nil => rw [put.go, lookup_cons_eq_ite]
  | cons first rest ih =>
      obtain ⟨p, n⟩ := first
      rw [put.go]
      split
      · rename_i hp
        have hp : p = place := by simpa using hp
        subst hp
        rw [lookup_cons_eq_ite, lookup_cons_eq_ite]
        split <;> rfl
      · rename_i hp
        have hp : p ≠ place := by simpa using hp
        rw [lookup_cons_eq_ite, lookup_cons_eq_ite, ih]
        by_cases hq : q = p
        · rw [if_pos hq, if_pos hq, if_neg (hq ▸ hp)]
        · rw [if_neg hq, if_neg hq]

theorem get?_put (t : Tree) (place q : Place) (node : Node) :
    (t.put place node).get? q =
      if q = [] then some .folder else if q = place then some node else t.get? q := by
  unfold get? put
  by_cases hq : q = []
  · simp [hq]
  · have hfalse : q.isEmpty = false := by simpa using hq
    simp [hfalse, hq, lookup_go]

theorem get?_remove (t : Tree) (place q : Place) :
    (t.remove place).get? q =
      if q = [] then some .folder else if q = place then none else t.get? q := by
  have hlookup : ∀ nodes : List (Place × Node),
      (nodes.filter fun entry => entry.1 != place).lookup q =
        if q = place then none else nodes.lookup q := by
    intro nodes
    induction nodes with
    | nil => simp
    | cons first rest ih =>
        obtain ⟨p, n⟩ := first
        by_cases hp : p = place
        · subst hp
          rw [List.filter_cons_of_neg (by simp), ih, lookup_cons_eq_ite]
          split <;> rfl
        · rw [List.filter_cons_of_pos (by simpa using hp), lookup_cons_eq_ite,
            lookup_cons_eq_ite, ih]
          by_cases hq : q = p
          · rw [if_pos hq, if_pos hq, if_neg (hq ▸ hp)]
          · rw [if_neg hq, if_neg hq]
  unfold get? remove
  by_cases hq : q = []
  · simp [hq]
  · have hfalse : q.isEmpty = false := by simpa using hq
    simp [hfalse, hq, hlookup]

theorem sameFolders_put {t : Tree} {place : Place} {node : Node}
    (hplace : t.hasFolder place = false) (hnode : node ≠ .folder) :
    t.SameFolders (t.put place node) := by
  refine ⟨rfl, ?_⟩
  intro q
  unfold hasFolder at hplace ⊢
  rw [get?_put]
  split
  · rename_i hq
    subst hq
    rfl
  · split
    · rename_i hq
      rw [hq, hplace]
      simpa using hnode
    · rfl

theorem sameFolders_remove {t : Tree} {place : Place} (hplace : t.hasFolder place = false) :
    t.SameFolders (t.remove place) := by
  refine ⟨rfl, ?_⟩
  intro q
  unfold hasFolder at hplace ⊢
  rw [get?_remove]
  split
  · rename_i hq
    subst hq
    rfl
  · split
    · rename_i hq
      rw [hq, hplace]
      rfl
    · rfl

/-!
## Places
-/

theorem descend_eq_ok_iff {t : Tree} {place place' : Place} {part : String} :
    t.descend place part = .ok place' ↔
      t.hasFolder place = true ∧
        (if part == "." then place' = place
        else if part == ".." then place' = place.dropLast
        else ¬ maxName < Text.byteLength part.toList ∧ place' = place ++ [part]) := by
  unfold descend hasFolder
  cases t.get? place with
  | none => simp
  | some node =>
      cases node with
      | file content runnable => simp
      | folder =>
          simp only [beq_self_eq_true, true_and]
          split
          · simp [eq_comm]
          · split
            · simp [eq_comm]
            · split
              · rename_i hlong
                simp [hlong]
              · rename_i hshort
                simp [hshort, eq_comm]

structure Extends (t t' : Tree) : Prop where
  here : t'.here = t.here
  folders : ∀ place, t.hasFolder place = true → t'.hasFolder place = true

theorem SameFolders.extends {t t' : Tree} (hsame : t.SameFolders t') : t.Extends t' where
  here := hsame.here
  folders := by
    intro place hfolder
    rw [hsame.folders]
    exact hfolder

theorem Extends.walk {t t' : Tree} (hextends : t.Extends t') {place place' : Place}
    {parts : List String} (hwalk : t.walk place parts = .ok place') :
    t'.walk place parts = .ok place' := by
  unfold Tree.walk at hwalk ⊢
  induction parts generalizing place with
  | nil => exact hwalk
  | cons part rest ih =>
      rw [List.foldlM_cons] at hwalk ⊢
      cases hstep : t.descend place part with
      | error cause =>
          rw [hstep] at hwalk
          cases hwalk
      | ok next =>
          obtain ⟨hfolder, hnext⟩ := descend_eq_ok_iff.1 hstep
          have hstep' : t'.descend place part = .ok next :=
            descend_eq_ok_iff.2 ⟨hextends.folders place hfolder, hnext⟩
          rw [hstep] at hwalk
          rw [hstep']
          exact ih hwalk

theorem Extends.target {t t' : Tree} (hextends : t.Extends t') {path : Path} {place : Place}
    (htarget : t.target path = .ok place) : t'.target path = .ok place := by
  obtain ⟨hcheck, hwalk⟩ := target_eq_ok_iff.1 htarget
  have hstart : t'.start path = t.start path := by
    unfold start
    rw [hextends.here]
  refine target_eq_ok_iff.2 ⟨hcheck, ?_⟩
  rw [hstart]
  exact hextends.walk hwalk

theorem target_eq_ok {t t' : Tree} (hsame : t.SameFolders t') {path : Path} {place : Place}
    (htarget : t.target path = .ok place) : t'.target path = .ok place :=
  hsame.extends.target htarget

theorem openForWriting_eq_ok {t t' : Tree} (hsame : t.SameFolders t') {path : Path} {place : Place}
    (hopen : t.openForWriting path = .ok place) : t'.openForWriting path = .ok place := by
  obtain ⟨htarget, hslash, hfolder⟩ := openForWriting_eq_ok_iff.1 hopen
  refine openForWriting_eq_ok_iff.2 ⟨target_eq_ok hsame htarget, hslash, ?_⟩
  rw [hsame.folders]
  exact hfolder

/-!
## Writing
-/

theorem sameFolders_create {t created : Tree} {path : Path} {place : Place}
    (hcreate : t.create path = .ok (place, created)) : t.SameFolders created := by
  rw [(create_eq_ok_iff.1 hcreate).2]
  exact sameFolders_put (hasFolder_of_create hcreate) nofun

theorem sameFolders_fill {t : Tree} {place : Place} (hplace : t.hasFolder place = false)
    (content : Text.Bytes) : t.SameFolders (t.fill place content) :=
  sameFolders_put hplace nofun

theorem sameFolders_create_fill {t created : Tree} {path : Path} {place : Place}
    (hcreate : t.create path = .ok (place, created)) (content : Text.Bytes) :
    t.SameFolders (created.fill place content) := by
  have hcreated := sameFolders_create hcreate
  refine hcreated.trans (sameFolders_fill ?_ content)
  rw [hcreated.folders]
  exact hasFolder_of_create hcreate

/-- A file that is created is created at the same place wherever the folders are the same. -/
theorem exists_create {t t' created : Tree} (hsame : t.SameFolders t') {path : Path}
    {place : Place} (hcreate : t.create path = .ok (place, created)) :
    ∃ created', t'.create path = .ok (place, created') := by
  have hopen := openForWriting_eq_ok hsame (create_eq_ok_iff.1 hcreate).1
  exact ⟨_, create_eq_ok_iff.2 ⟨hopen, rfl⟩⟩

theorem sameFolders_rename {t renamed : Tree} {source destination : Path} {origin : Place}
    (hsource : t.target source = .ok origin) (hfile : t.hasFolder origin = false)
    (hrename : t.rename source destination = .ok renamed) : t.SameFolders renamed := by
  obtain ⟨place, node, goal, hlocate, -, -, haccepted, rfl⟩ := rename_eq_ok_iff.1 hrename
  obtain ⟨hplace, hnode⟩ := locate_eq_ok hlocate
  obtain rfl : origin = place := Except.ok.inj (hsource.symm.trans hplace)
  have hnotFolder : node ≠ .folder := by
    rintro rfl
    rw [hasFolder, hnode] at hfile
    cases hfile
  have hremoved := sameFolders_remove hfile
  refine hremoved.trans (sameFolders_put ?_ hnotFolder)
  rw [hremoved.folders]
  exact (haccepted hnotFolder).2

end Tree

open LogHarvest.Tree

/-!
## Writing documents
-/

theorem sameFolders_sync (c : FleetConfig) (mishap : Option Mishap) (t : Tree) :
    t.SameFolders (c.sync mishap t).2 := by
  have hwritten := c.written_sync mishap t
  generalize c.sync mishap t = result at hwritten
  cases hwritten with
  | untouched cause => exact .refl t
  | drafted hcreate cause written => exact sameFolders_create_fill hcreate _
  | replaced hcreate hrename =>
      have hfilled := sameFolders_create_fill hcreate c.bytes
      refine hfilled.trans
        (sameFolders_rename (target_eq_ok hfilled (target_of_create hcreate)) ?_ hrename)
      rw [hfilled.folders]
      exact hasFolder_of_create hcreate

theorem sameFolders_of_rewritten {t t' : Tree} (hrewritten : Rewritten t t') :
    t.SameFolders t' := by
  rcases hrewritten with rfl | ⟨c, mishap, rfl⟩
  · exact .refl _
  · exact sameFolders_sync c mishap t

/-!
## Writing outputs
-/

namespace Artifact

theorem sameFolders_write (k : Sink) (suffix name : String) (data : Text.Bytes)
    (flaw : Option IoFault) (t : Tree) :
    t.SameFolders (k.write suffix name data flaw t).2 := by
  have hwrote := k.wrote_write suffix name data flaw t
  generalize k.write suffix name data flaw t = result at hwrote
  cases hwrote with
  | refused hcreate => exact .refl t
  | emptied hcreate hflaw => exact sameFolders_create hcreate
  | filled hcreate hflaw => exact sameFolders_create_fill hcreate data

theorem write_eq_ok {t t' : Tree} (hsame : t.SameFolders t') {k : Sink} {suffix name : String}
    {data : Text.Bytes} {flaw : Option IoFault} {path : Path}
    (hwrite : (k.write suffix name data flaw t).1 = .ok path) :
    (k.write suffix name data flaw t').1 = .ok path := by
  have hwrote := k.wrote_write suffix name data flaw t
  generalize k.write suffix name data flaw t = result at hwrote hwrite
  cases hwrote with
  | refused hcreate => cases hwrite
  | emptied hcreate hflaw => cases hwrite
  | filled hcreate hflaw =>
      cases hwrite
      obtain ⟨created', hcreate'⟩ := exists_create hsame hcreate
      unfold Sink.write
      dsimp only
      rw [hcreate', hflaw]

end Artifact
end LogHarvest
