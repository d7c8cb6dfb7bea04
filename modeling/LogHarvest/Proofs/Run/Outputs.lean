import LogHarvest.Proofs.Artifact.PathStart
import LogHarvest.Proofs.Collect.Filing
import LogHarvest.Proofs.Run.Alone
import LogHarvest.Proofs.Run.Carried
import LogHarvest.Proofs.Run.OnDisk
import LogHarvest.Proofs.Tree.Sound

/-!
# Where the outputs of a run go

The folder of a run is made for it, and the name of an output starts with the
identifier of its instance.  If no identifier has a slash, every output is put directly
into that folder, where nothing was before.  In particular it is not put where the
document of the fleet stands.
-/

namespace LogHarvest
namespace Artifact

/-!
## How names start
-/

theorem takeBytes_eq_or_lt (bytes : Nat) (cs : List Char) :
    takeBytes bytes cs = cs ∨ bytes < 4 * ((takeBytes bytes cs).length + 1) := by
  rcases takeBytes_cases bytes cs with hall | ⟨c, back, -, hfull⟩
  · exact Or.inl hall
  · right
    have hsize := c.utf8Size_le_four
    have hkept := Text.byteLength_le (takeBytes bytes cs)
    omega

def keptId (i : Instance) : List Char :=
  takeBytes keptName (i.id.toList ++ ['-'])

theorem keptId_isPrefix_shorten (i : Instance) (suffix name : String) :
    keptId i <+: (shorten suffix (namePrefix i ++ name)).toList := by
  have hmark : (namePrefix i).toList = i.id.toList ++ ['-'] ++
      (shortHost i.publicName ++ ['-']) := by
    simp [namePrefix, String.toList_append]
  have hkept : keptId i <+: keptMark i := by
    unfold keptMark
    rw [hmark]
    exact takeBytes_isPrefix_append keptName _ _
  exact hkept.trans (keptMark_isPrefix_shorten i suffix name)

theorem opens_keptId {i : Instance} (hid : '/' ∉ i.id.toList) : Tree.Opens (keptId i) := by
  have hpart : ∀ c ∈ keptId i, c ∈ i.id.toList ++ ['-'] := fun c hmem =>
    (takeBytes_isPrefix keptName _).subset hmem
  -- Either the dash is there, or there are more than two characters.
  have hother : ∀ dots more, '-' ∉ dots → dots.length ≤ 2 → keptId i ++ more ≠ dots := by
    intro dots more hdash hlength hsame
    rcases takeBytes_eq_or_lt keptName (i.id.toList ++ ['-']) with hall | hlong
    · refine hdash ?_
      rw [← hsame, keptId, hall]
      simp
    · have hkept : (keptId i).length ≤ 2 := by
        have hle : (keptId i).length ≤ dots.length := by
          rw [← hsame, List.length_append]
          omega
        exact Nat.le_trans hle hlength
      have hbytes : keptName < 4 * ((keptId i).length + 1) := hlong
      unfold keptName at hbytes
      omega
  constructor
  · intro c hmem
    rcases List.mem_append.1 (hpart c hmem) with hchar | hdash
    · have hne : c ≠ '/' := fun hslash => hid (hslash ▸ hchar)
      simpa using hne
    · rw [List.mem_singleton.1 hdash]
      rfl
  · exact fun more => hother _ more (by decide) (by decide)
  · exact fun more => hother _ more (by decide) (by decide)

end Artifact

/-- Whatever is asked of the hosts, the folders stay the same. -/
structure Connector.KeepsFolders {σ : Type} (connector : Connector σ) : Prop where
  connect : ∀ w i (before : Surroundings σ),
    before.tree.SameFolders (connector.connect w i before).after.tree
  run : ∀ w i line verbose (before : Surroundings σ),
    before.tree.SameFolders (connector.run w i line verbose before).after.tree
  close : ∀ w i (before : Surroundings σ),
    before.tree.SameFolders (connector.close w i before).tree

namespace Run
namespace State

variable {σ : Type} {setting : Setting σ} {roster : List (String × Instance)} {folder : Path}
  {first : Tree}

structure Placed (roster : List (String × Instance)) (folder : Path) (first : Tree) (_ : Unit)
    (around : Surroundings σ) (w : Nat) (c : Collector) : Prop where
  folders : first.SameFolders around.tree
  member : roster[w]? = some (c.group, c.subject)
  folder : c.sink.folder = folder
  mark : c.sink.mark = Artifact.namePrefix c.subject

theorem Placed.among {before : Surroundings σ} {w : Nat} {c : Collector}
    (hplaced : Placed roster folder first () before w c) {after : Surroundings σ}
    (hfolders : before.tree.SameFolders after.tree) :
    Placed roster folder first () after w c :=
  { hplaced with folders := hplaced.folders.trans hfolders }

theorem sameFolders_of_answer (hkeeps : setting.connector.KeepsFolders) {w : Nat} {c : Collector}
    {before after : Surroundings σ} {answer : Response}
    (hanswer : Answer setting w c before answer after) : before.tree.SameFolders after.tree := by
  cases hanswer with
  | passed => exact .refl _
  | calledOff => exact .refl _
  | connected _ _ => exact hkeeps.connect w c.subject before
  | output _ _ => exact hkeeps.run w c.subject _ _ before
  | @saved name data _ => exact Progress.sameFolders_save c.sink name data before.tree
  | closed _ => exact hkeeps.close w c.subject before

theorem sameFolders_of_unanswered (hkeeps : setting.connector.KeepsFolders) {w : Nat}
    {c : Collector} {before after : Surroundings σ}
    (hnever : Unanswered setting w c before after) : before.tree.SameFolders after.tree := by
  cases hnever with
  | connect _ _ => exact hkeeps.connect w c.subject before
  | run _ _ => exact hkeeps.run w c.subject _ _ before

theorem lasting_placed (hkeeps : setting.connector.KeepsFolders) :
    Lasting setting true (Placed roster folder first) where
  told := by
    intro _ before after w c answer hplaced hanswer _
    have hfolders := sameFolders_of_answer hkeeps hanswer
    have htask := c.sameTask_resume answer
    refine ⟨(), ⟨hplaced.folders.trans hfolders, ?_, ?_, ?_⟩, fun _ _ _ hother =>
      hother.among hfolders⟩
    · rw [htask.group, htask.subject]
      exact hplaced.member
    · rw [htask.folder]
      exact hplaced.folder
    · rw [htask.mark, htask.subject]
      exact hplaced.mark
  unanswered := fun _ hnever => ⟨(), fun _ _ _ hother =>
    hother.among (sameFolders_of_unanswered hkeeps hnever)⟩
  rewritten := fun hplaced hrewritten => hplaced.among (sameFolders_of_rewritten hrewritten)

end State
end Run

namespace Fleet

open Run State

variable {σ : Type}

theorem exists_makeFolder_of_prepare {store : FleetStore} {endings : List String} {folder : Path}
    (hprepared : (prepare store endings).1 = .ok folder) (hsound : store.tree.Sound) :
    ∃ t : Tree, t.Sound ∧ store.tree.Grown t ∧
      t.makeFolder folder = .ok (prepare store endings).2.tree := by
  have hmade := Tree.makeFolders_induction Tree.Sound.makeFolder hsound store.config.logDir
  have hgrown := Tree.grown_makeFolders store.tree store.config.logDir
  have hprepare : prepare store endings = (.ok folder, (prepare store endings).2) :=
    Prod.ext hprepared rfl
  obtain ⟨-, -, -, t, tree, hfolders, hallocate, hstore⟩ := prepare_eq_ok_iff.1 hprepare
  rw [hfolders] at hmade hgrown
  refine ⟨t, hmade, hgrown, ?_⟩
  rw [hstore]
  unfold Artifact.allocateFolder at hallocate
  cases hfirst : Artifact.makeFirst t (Artifact.absolute t store.config.logDir)
      (folderStart store.config) endings with
  | error cause =>
      rw [hfirst] at hallocate
      cases hallocate
  | ok found =>
      rw [hfirst] at hallocate
      cases hallocate
      exact makeFolder_of_makeFirst hfirst

/-- With identifiers that have no slash no output goes where the document stands. -/
theorem keepsClear_of_plain_ids {setting : Setting σ} {f : Fleet σ} {stages : List Protocol.Stage}
    {endings : List String} {folder : Path} (hkeeps : setting.connector.KeepsFolders)
    (hprepared : (prepare f.store endings).1 = .ok folder) (hsound : f.store.tree.Sound)
    (hdocument : (f.store.tree.content? f.store.config.path).isSome)
    (hplain : ∀ member ∈ f.store.config.status.roster, '/' ∉ member.2.id.toList) :
    KeepsClear setting ((f.prepared endings).startRun stages folder) := by
  intro s w c name data place hreaches hcollector _ houtput hsame
  obtain ⟨t, ht, hgrown, hmake⟩ := exists_makeFolder_of_prepare hprepared hsound
  have hconfig : (f.prepared endings).store.config = f.store.config :=
    config_prepare f.store endings
  have hstart : Carried (Placed f.store.config.status.roster folder (f.prepared endings).store.tree)
      ((f.prepared endings).startRun stages folder) := by
    refine carried_start (g := ()) ?_
    intro w group i hmember
    rw [hconfig] at hmember
    exact ⟨.refl _, hmember, rfl, rfl⟩
  obtain ⟨_, hcarrying⟩ :=
    (hstart.of_reaches (lasting_placed hkeeps) (fun _ => rfl) hreaches).carrying
  have hplaced := hcarrying w c hcollector
  have hback := hplaced.folders.symm
  -- The output's place was free when the run's folder was made.
  have hfree : t.get? place = none := by
    have htarget := Tree.target_eq_ok hback houtput
    unfold outputPath Artifact.Sink.pathFor at htarget
    rw [hplaced.folder, hplaced.mark] at htarget
    have hid := hplain _ (List.mem_of_getElem? hplaced.member)
    exact Tree.get?_of_target_join ht hmake (Artifact.opens_keptId hid)
      (Artifact.keptId_isPrefix_shorten c.subject _ name) htarget
  -- The document's place was not.
  obtain ⟨content, hcontent⟩ := Option.isSome_iff_exists.1 hdocument
  obtain ⟨goal, runnable, htarget, hfile, -⟩ :=
    Tree.content?_eq_some_iff.1 (hgrown.content? hcontent)
  have htarget' := (Tree.grown_makeFolder hmake).extends.target htarget
  have hgoal : goal = place := by
    have hpath : ((f.prepared endings).startRun stages folder).config.path = f.store.config.path :=
      congrArg FleetConfig.path hconfig
    rw [hpath] at hsame
    have hplace := Tree.target_eq_ok hback hsame
    exact Except.ok.inj (htarget'.symm.trans hplace)
  rw [hgoal, hfree] at hfile
  cases hfile

end Fleet
end LogHarvest
