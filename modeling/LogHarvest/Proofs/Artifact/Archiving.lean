import LogHarvest.Proofs.Artifact.Copies

/-!
# What becomes of the files that are archived

An archive has the recorded files and the configuration as sources, and copies each one
under its own name.  So a source that stands in the archive's folder is its own copy, and
loses what it held (`archive_keeps_iff`); and sources of one name have one copy in common,
which holds what the last of them held (`archive_copies`), although all of them count.
-/

namespace LogHarvest
namespace Artifact

open LogHarvest.Tree

def sources (s : Status) (config : Path) : List Path :=
  s.allPaths ++ [config]

def archived (s : Status) (config folder : Path) (t : Tree) : List Path :=
  match t.makeFolders folder with
  | (.ok (), made) => copied folder (sources s config) made
  | (.error _, _) => []

variable {s : Status} {config folder : Path} {t t' : Tree}

theorem ready_of_makeFolders (hmake : t.makeFolders folder = (.ok (), t')) : Ready t' folder := by
  intro place htarget
  cases hfolder : folder.isEmpty with
  | true =>
      have hcheck := (target_eq_ok_iff.1 htarget).1
      rw [not_isEmpty_of_precheck hcheck] at hfolder
      cases hfolder
  | false =>
      obtain ⟨found, hfound, hnode⟩ := hasFolder_of_makeFolders hfolder hmake
      rw [htarget] at hfound
      cases hfound
      exact hnode

theorem archive_of_made {made : Tree} (hmake : t.makeFolders folder = (.ok (), made)) :
    archive s config folder t =
      ((archiveFiles folder (sources s config) made).1.map fun _ => s.allPaths.length,
        (archiveFiles folder (sources s config) made).2) := by
  unfold archive sources
  rw [hmake]
  dsimp only
  split
  · rename_i after hdone
    rw [hdone]
    rfl
  · rename_i fault after hdone
    rw [hdone]
    rfl

theorem made_of_archive {n : Nat} (harchive : archive s config folder t = (.ok n, t')) :
    ∃ made, t.makeFolders folder = (.ok (), made) ∧
      archiveFiles folder (sources s config) made = (.ok (), t') ∧ n = s.allPaths.length := by
  rcases hmake : t.makeFolders folder with ⟨_ | _, made⟩
  · unfold archive at harchive
    rw [hmake] at harchive
    cases harchive
  · rw [archive_of_made hmake] at harchive
    rcases hfiles : archiveFiles folder (sources s config) made with ⟨_ | _, after⟩
    · rw [hfiles] at harchive
      cases harchive
    · rw [hfiles] at harchive
      cases harchive
      exact ⟨made, rfl, hfiles, rfl⟩

theorem content_archive {path : Path} {content : Text.Bytes} {place : Place}
    (hcontent : t.content? path = some content) (htarget : t.target path = .ok place) :
    (archive s config folder t).2.content? path =
      match lastTo (t.makeFolders folder).2 folder (archived s config folder t) place with
      | none => some content
      | some last => brought (t.makeFolders folder).2 last place := by
  have hgrown := grown_makeFolders t folder
  have hmade := hgrown.content? hcontent
  obtain ⟨-, -, -, -, hslash⟩ := content?_eq_some_iff.1 hcontent
  unfold archived
  rcases hmake : t.makeFolders folder with ⟨result, made⟩
  rw [hmake] at hgrown hmade
  cases result with
  | error cause =>
      unfold archive
      rw [hmake]
      exact hmade
  | ok _ =>
      rw [archive_of_made hmake]
      have hfiles := content_archiveFiles (ready_of_makeFolders hmake) (sources s config)
        (hgrown.extends.target htarget) hslash
      rw [hmade] at hfiles
      exact hfiles

theorem archive_keeps_elsewhere
    (helsewhere : ∀ source ∈ sources s config, ∀ other ∈ sources s config,
      ¬ Meets (t.makeFolders folder).2 folder other source)
    {source : Path} {content : Text.Bytes} (hsource : source ∈ sources s config)
    (hcontent : t.content? source = some content) :
    (archive s config folder t).2.content? source = some content := by
  obtain ⟨place, -, htarget, -⟩ := content?_eq_some_iff.1 hcontent
  have hextends := (grown_makeFolders t folder).extends
  rw [content_archive hcontent htarget]
  have hnone :
      lastTo (t.makeFolders folder).2 folder (archived s config folder t) place = none := by
    rw [lastTo_eq_none_iff]
    intro other hother hgoes
    have hmem : other ∈ sources s config := by
      unfold archived at hother
      split at hother
      · exact copied_subset _ _ _ hother
      · cases hother
    exact helsewhere source hsource other hmem ⟨place, hextends.target htarget, hgoes⟩
  rw [hnone]

/--
An archive leaves every source as it was exactly if whatever it copies last onto a source
brings there what the source held.  A source that is copied onto itself brings nothing.
-/
theorem archive_keeps_iff (s : Status) (config folder : Path) (t : Tree) :
    (∀ source ∈ sources s config, ∀ content, t.content? source = some content →
        (archive s config folder t).2.content? source = some content) ↔
      ∀ source ∈ sources s config, ∀ content place, t.content? source = some content →
        t.target source = .ok place → ∀ last ∈
          lastTo (t.makeFolders folder).2 folder (archived s config folder t) place,
        brought (t.makeFolders folder).2 last place = some content := by
  constructor
  · intro hkeeps source hsource content place hcontent htarget last hlast
    have hafter := hkeeps source hsource content hcontent
    rw [content_archive hcontent htarget, Option.mem_def.1 hlast] at hafter
    exact hafter
  · intro hbrings source hsource content hcontent
    obtain ⟨place, -, htarget, -⟩ := content?_eq_some_iff.1 hcontent
    rw [content_archive hcontent htarget]
    cases hlast : lastTo (t.makeFolders folder).2 folder (archived s config folder t) place with
    | none => rfl
    | some last => exact hbrings source hsource content place hcontent htarget last hlast

def logged (paths : List (String × Path)) : Status :=
  ⟨.ofList (paths.map fun entry => (entry.1, ⟨.empty, .ofList [("i", [entry.2])]⟩))⟩

def rootFiles : Tree where
  nodes :=
    [(["a"], .file (Text.encode "a\n") false),
     (["fleet.yaml"], .file (Text.encode "name: demo\n") false)]
  here := []

/-- An archive in the folder of its sources leaves all of them empty, and reports no failure. -/
theorem archive_empties_sources :
    (archive (logged [("g", "/a")]) "/fleet.yaml" "/" rootFiles).1 = .ok 1 ∧
      ¬ ∀ source ∈ sources (logged [("g", "/a")]) "/fleet.yaml", ∀ content,
        rootFiles.content? source = some content →
          (archive (logged [("g", "/a")]) "/fleet.yaml" "/" rootFiles).2.content? source =
            some content := by
  refine ⟨by decide +kernel, ?_⟩
  intro hkeeps
  have hempty : (archive (logged [("g", "/a")]) "/fleet.yaml" "/" rootFiles).2.content? "/a" =
      some [] := by decide +kernel
  have hkept := hkeeps "/a" (by decide +kernel) (Text.encode "a\n") (by decide +kernel)
  rw [hempty] at hkept
  exact absurd hkept (by decide +kernel)

/-!
## Copies that replace others
-/

/--
When an archive is complete and none of its sources stands where a copy goes, every source
is as it was, and its copy holds what the last source of that name holds.  All recorded
files count; but each of them has a copy of its own only if no two sources share a name.
-/
theorem archive_copies {n : Nat} (harchive : archive s config folder t = (.ok n, t'))
    (helsewhere : ∀ source ∈ sources s config, ∀ other ∈ sources s config,
      ¬ Meets t' folder other source) :
    n = s.allPaths.length ∧
      (∀ source ∈ sources s config, ∀ content, t.content? source = some content →
        t'.content? source = some content) ∧
      (∀ source ∈ sources s config, ∃ place last content, GoesTo t' folder source place ∧
        lastTo t' folder (sources s config) place = some last ∧
        t'.content? last = some content ∧
        t'.content? (archivedPath folder source) = some content) ∧
      (OwnCopies t' folder (sources s config) ↔
        ((sources s config).map Path.fileName).Nodup) := by
  obtain ⟨made, hmake, hall, rfl⟩ : ∃ made, t.makeFolders folder = (.ok (), made) ∧
      archiveFiles folder (sources s config) made = (.ok (), t') ∧ n = s.allPaths.length :=
    made_of_archive harchive
  have hready := ready_of_makeFolders hmake
  have hsame : made.SameFolders t' := sameFolders_of_archived hready hall
  have hmade : ∀ source ∈ sources s config, ∀ other ∈ sources s config,
      ¬ Meets made folder other source := by
    intro source hsource other hother hmeets
    exact helsewhere source hsource other hother ((meets_congr hsame).2 hmeets)
  refine ⟨rfl, ?_, ?_, ownCopies_iff_nodup hready hall hmade⟩
  · intro source hsource content hcontent
    have hkeeps : (archive s config folder t).2.content? source = some content :=
      archive_keeps_elsewhere (by rw [hmake]; exact hmade) hsource hcontent
    rw [harchive] at hkeeps
    exact hkeeps
  · intro source hsource
    obtain ⟨place, last, hgoes, hlast, hcontents⟩ := last_archiveFiles hready hall hmade hsource
    obtain ⟨content, hcontent, hkept⟩ :=
      kept_archiveFiles hready hall hmade (mem_of_lastTo hlast).1
    exact ⟨place, last, content, (goesTo_congr hsame).2 hgoes, (lastTo_congr hsame _).trans hlast,
      hkept, hcontents.trans hcontent⟩

def runFiles (second : String) : Tree where
  nodes :=
    [(["r1"], .folder), (["r1", "x"], .file (Text.encode "first") false), (["r2"], .folder),
     (["r2", second], .file (Text.encode "second") false),
     (["fleet.yaml"], .file (Text.encode "name: demo\n") false)]
  here := []

theorem archive_copies_apart :
    ∃ t', archive (logged [("a", "/r1/x"), ("b", "/r2/y")]) "/fleet.yaml" "/out" (runFiles "y") =
        (.ok 2, t') ∧
      OwnCopies t' "/out" (sources (logged [("a", "/r1/x"), ("b", "/r2/y")]) "/fleet.yaml") := by
  have hcount : (archive (logged [("a", "/r1/x"), ("b", "/r2/y")]) "/fleet.yaml" "/out"
      (runFiles "y")).1 = .ok 2 := by decide +kernel
  have harchive : archive (logged [("a", "/r1/x"), ("b", "/r2/y")]) "/fleet.yaml" "/out"
      (runFiles "y") = (.ok 2, _) := Prod.ext hcount rfl
  exact ⟨_, harchive, (archive_copies harchive (by decide +kernel)).2.2.2.2 (by decide +kernel)⟩

/-- Two files of one name are recorded and both count, but no copy of the first is left. -/
theorem archive_replaces_copy :
    (logged [("a", "/r1/x"), ("b", "/r2/x")]).allPaths = ["/r1/x", "/r2/x"] ∧
      (archive (logged [("a", "/r1/x"), ("b", "/r2/x")]) "/fleet.yaml" "/out"
        (runFiles "x")).1 = .ok 2 ∧
      (runFiles "x").content? "/r1/x" = some (Text.encode "first") ∧
      ∀ entry ∈ (archive (logged [("a", "/r1/x"), ("b", "/r2/x")]) "/fleet.yaml" "/out"
        (runFiles "x")).2.filesBelow ["out"], entry.2 ≠ Text.encode "first" := by
  decide +kernel

end Artifact
end LogHarvest
