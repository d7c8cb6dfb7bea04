import LogHarvest.Proofs.Artifact.Archiving
import LogHarvest.Proofs.Fleet.Entries
import LogHarvest.Proofs.Tree.Leads

/-!
# Archives that end halfway

An archive makes its copies one after the other.  Where they can be put side by side, away
from their sources (`Receives`), each of them fills one place and leaves all that is to be
copied later as it was.  So the sources before the first one that cannot be read are copied,
and no others (`archive_copies_front`).

Whether a source can be read is seen when its turn comes, and the archive's folder has been
made by then.  A path that goes through a folder which was missing until then can be read
although it could not be before (`archive_copies_missing`).
-/

namespace LogHarvest
namespace Artifact

open LogHarvest.Tree

/-- A path leads to a file, and has a name to copy it under. -/
def Readable (t : Tree) (source : Path) : Prop :=
  source.fileName.isSome ∧ (t.content? source).isSome

instance (t : Tree) (source : Path) : Decidable (Readable t source) :=
  inferInstanceAs (Decidable (_ ∧ _))

def StandsIn (t : Tree) (home : Place) (source : Path) : Prop :=
  ∃ name, t.target source = .ok (home ++ [name])

instance (t : Tree) (home : Place) (source : Path) : Decidable (StandsIn t home source) :=
  match htarget : t.target source with
  | .ok place => decidable_of_iff (∃ name ∈ place.getLast?, place = home ++ [name]) (by
      unfold StandsIn
      rw [htarget]
      constructor
      · rintro ⟨name, -, rfl⟩
        exact ⟨name, rfl⟩
      · rintro ⟨name, hplace⟩
        cases hplace
        exact ⟨name, List.getLast?_concat, rfl⟩)
  | .error _ => isFalse (by simp [StandsIn, htarget])

/--
A path leads to a folder in which sources can be copied side by side: no copy has a path
that is too long or a folder in its way, no source stands there itself, and no two have
the same name.
-/
structure Receives (t : Tree) (folder : Path) (home : Place) (sources : List Path) : Prop where
  leads : t.walk (t.start folder) folder.components = .ok home
  there : t.hasFolder home = true
  fits : ∀ source ∈ sources, Text.byteLength (archivedPath folder source).toList ≤ maxPath
  free : ∀ source ∈ sources, ∀ name ∈ source.fileName, t.hasFolder (home ++ [name]) = false
  outside : ∀ source ∈ sources, ¬ StandsIn t home source
  apart : (sources.filterMap Path.fileName).Nodup

instance (t : Tree) (folder : Path) (home : Place) (sources : List Path) :
    Decidable (Receives t folder home sources) :=
  decidable_of_iff (_ ∧ _ ∧ _ ∧ _ ∧ _ ∧ _)
    ⟨fun ⟨leads, there, fits, free, outside, apart⟩ => ⟨leads, there, fits, free, outside, apart⟩,
      fun ⟨leads, there, fits, free, outside, apart⟩ => ⟨leads, there, fits, free, outside, apart⟩⟩

/-- Sources have been copied into a folder, and nothing else has changed. -/
structure Copies (before after : Tree) (home : Place) (sources : List Path) : Prop where
  same : before.SameFolders after
  filled : ∀ source ∈ sources, ∃ name content runnable, source.fileName = some name ∧
    before.content? source = some content ∧
    after.get? (home ++ [name]) = some (.file content runnable)
  others : ∀ place, (∀ name ∈ sources.filterMap Path.fileName, place ≠ home ++ [name]) →
    after.get? place = before.get? place

variable {s : Status} {config folder source first : Path} {home : Place}
variable {sources front back rest : List Path} {t t' t'' : Tree}
variable {name : String} {content : Text.Bytes}

/-!
## Room for copies
-/

theorem Receives.of_sameFolders (hreceives : Receives t folder home sources)
    (hsame : t.SameFolders t') : Receives t' folder home sources where
  leads := by
    have hstart : t'.start folder = t.start folder := by
      unfold start
      rw [hsame.here]
    rw [hstart]
    exact hsame.extends.walk hreceives.leads
  there := by
    rw [hsame.folders]
    exact hreceives.there
  fits := hreceives.fits
  free := by
    intro source hsource name hname
    rw [hsame.folders]
    exact hreceives.free source hsource name hname
  outside := by
    rintro source hsource ⟨name, htarget⟩
    exact hreceives.outside source hsource ⟨name, target_eq_ok hsame.symm htarget⟩
  apart := hreceives.apart

theorem Receives.tail (hreceives : Receives t folder home (first :: rest)) :
    Receives t folder home rest where
  leads := hreceives.leads
  there := hreceives.there
  fits := fun source hsource => hreceives.fits source (List.mem_cons_of_mem first hsource)
  free := fun source hsource => hreceives.free source (List.mem_cons_of_mem first hsource)
  outside := fun source hsource => hreceives.outside source (List.mem_cons_of_mem first hsource)
  apart := hreceives.apart.sublist ((List.sublist_cons_self first rest).filterMap _)

theorem nulFree_of_makeFolders (hmake : t.makeFolders folder = (.ok (), t')) :
    '\x00' ∉ folder.toList := by
  cases hfolder : folder.isEmpty with
  | true =>
      rw [String.isEmpty_iff.1 hfolder]
      exact List.not_mem_nil
  | false =>
      obtain ⟨place, htarget, -⟩ := hasFolder_of_makeFolders hfolder hmake
      exact (precheck_eq_ok_iff.1 (target_eq_ok_iff.1 htarget).1).1

theorem archivedPath_eq_append (folder : Path) (hname : source.fileName = some name) :
    ∃ lead, (∀ c ∈ lead, c ∈ folder.toList ∨ c = '/') ∧
      (archivedPath folder source).toList = lead ++ name.toList := by
  unfold archivedPath Path.join
  rw [hname]
  dsimp only
  split
  · exact ⟨[], nofun, rfl⟩
  · split
    · exact ⟨folder.toList, fun c hc => Or.inl hc, String.toList_append⟩
    · refine ⟨folder.toList ++ ['/'], ?_, ?_⟩
      · intro c hc
        rcases List.mem_append.1 hc with hc | hc
        · exact Or.inl hc
        · exact Or.inr (List.mem_singleton.1 hc)
      · rw [String.toList_append, String.toList_append]
        rfl

theorem Receives.openForWriting (hreceives : Receives t folder home sources)
    (hnul : '\x00' ∉ folder.toList) (hsource : source ∈ sources)
    (hname : source.fileName = some name) (hcontent : t.content? source = some content) :
    t.openForWriting (archivedPath folder source) = .ok (home ++ [name]) := by
  obtain ⟨origin, -, htarget, -, -⟩ := content?_eq_some_iff.1 hcontent
  obtain ⟨hcheck, hwalk⟩ := target_eq_ok_iff.1 htarget
  obtain ⟨hplain, -, -⟩ := precheck_eq_ok_iff.1 hcheck
  obtain ⟨hmem, hdot, hparent⟩ := mem_components_of_fileName hname
  obtain ⟨hne, hsubset, hslash⟩ := chars_of_mem hmem
  obtain ⟨lead, hlead, hpath⟩ := archivedPath_eq_append folder hname
  have hnotEmpty : (archivedPath folder source).isEmpty = false := by
    cases hempty : (archivedPath folder source).isEmpty with
    | false => rfl
    | true =>
        rw [String.isEmpty_iff.1 hempty] at hpath
        exact absurd (List.append_eq_nil_iff.1 hpath.symm).2 hne
  have hnulFree : '\x00' ∉ (archivedPath folder source).toList := by
    rw [hpath, List.mem_append]
    rintro (hc | hc)
    · rcases hlead _ hc with hc | hc
      · exact hnul hc
      · exact absurd hc (by decide)
    · exact hplain (hsubset hc)
  have hends : (archivedPath folder source).endsInSlash = false := by
    rw [Path.endsInSlash, hpath, List.getLast?_append_of_ne_nil lead hne,
      List.getLast?_eq_getLast_of_ne_nil hne]
    have hlast := ne_of_mem_of_not_mem (List.getLast_mem hne) hslash
    simpa using hlast
  have hstep : t.descend home name = .ok (home ++ [name]) := by
    refine descend_eq_ok_iff.2 ⟨hreceives.there, ?_⟩
    rw [if_neg (by simpa using hdot), if_neg (by simpa using hparent)]
    exact ⟨Nat.not_lt.2 (byteLength_le_of_walk hwalk hmem hdot hparent), rfl⟩
  refine openForWriting_eq_ok_iff.2 ⟨target_eq_ok_iff.2 ⟨?_, ?_⟩, hends, ?_⟩
  · exact precheck_eq_ok_iff.2 ⟨hnulFree, hnotEmpty, hreceives.fits source hsource⟩
  · rw [walk_archivedPath t folder hname, walk_append_eq_ok_iff]
    exact ⟨home, hreceives.leads, (walk_singleton t home name).trans hstep⟩
  · exact hreceives.free source hsource name hname

/-!
## One copy
-/

theorem exists_archiveFile (hreceives : Receives t folder home sources)
    (hnul : '\x00' ∉ folder.toList) (hsource : source ∈ sources) (hreadable : Readable t source) :
    ∃ t', archiveFile folder t source = .ok t' ∧ Copies t t' home [source] := by
  obtain ⟨name, hname⟩ := Option.isSome_iff_exists.1 hreadable.1
  obtain ⟨content, hcontent⟩ := Option.isSome_iff_exists.1 hreadable.2
  have hopen := hreceives.openForWriting hnul hsource hname hcontent
  obtain ⟨t', hcopy⟩ := exists_copy hcontent hopen
  obtain ⟨origin, goal, held, htarget, hheld, hopen', hsame, runnable, hnodes⟩ := copy_eq_ok hcopy
  cases hcontent.symm.trans hheld
  cases hopen.symm.trans hopen'
  have haway : home ++ [name] ≠ origin := by
    rintro rfl
    exact hreceives.outside source hsource ⟨name, htarget⟩
  rw [if_neg haway] at hnodes
  refine ⟨t', archiveFile_eq_ok_iff.2 hcopy, hsame, ?_, ?_⟩
  · intro other hother
    cases List.mem_singleton.1 hother
    exact ⟨name, content, runnable, hname, hcontent, (hnodes _).trans (if_pos rfl)⟩
  · intro place helsewhere
    rw [List.filterMap_cons_some hname] at helsewhere
    rw [hnodes, if_neg (helsewhere name List.mem_cons_self)]

theorem archiveFile_of_not_readable (hready : Ready t folder) (hreadable : ¬ Readable t source) :
    ∃ cause,
      archiveFile folder t source = .error (.copy source (archivedPath folder source) cause) := by
  cases hcopy : t.copy source (archivedPath folder source) with
  | error cause => exact ⟨cause, by rw [archiveFile_eq, hcopy]; rfl⟩
  | ok t' =>
      have hcopied := copied_of_archiveFile hready (archiveFile_eq_ok_iff.2 hcopy)
      obtain ⟨name, -, hname, -⟩ := hcopied.named
      exact absurd ⟨Option.isSome_of_eq_some hname, hcopied.readable⟩ hreadable

/-!
## Copies one after the other
-/

theorem Copies.content? (hcopies : Copies t t' home sources)
    (houtside : ¬ StandsIn t home source) :
    t'.content? source = t.content? source := by
  refine content?_congr hcopies.same ?_
  intro place htarget
  refine hcopies.others place ?_
  rintro name - rfl
  exact houtside ⟨name, htarget⟩

theorem Copies.readable_iff (hcopies : Copies t t' home sources)
    (houtside : ¬ StandsIn t home source) :
    Readable t' source ↔ Readable t source := by
  unfold Readable
  rw [hcopies.content? houtside]

theorem Copies.nil (t : Tree) (home : Place) : Copies t t home [] where
  same := .refl t
  filled := nofun
  others := fun _ _ => rfl

theorem Copies.cons (hfirst : Copies t t' home [first]) (hrest : Copies t' t'' home rest)
    (houtside : ∀ source ∈ rest, ¬ StandsIn t home source)
    (hapart : ((first :: rest).filterMap Path.fileName).Nodup) :
    Copies t t'' home (first :: rest) where
  same := hfirst.same.trans hrest.same
  filled := by
    intro source hsource
    rcases List.mem_cons.1 hsource with rfl | hsource
    · obtain ⟨name, content, runnable, hname, hcontent, hfile⟩ :=
        hfirst.filled source List.mem_cons_self
      refine ⟨name, content, runnable, hname, hcontent, ?_⟩
      rw [List.filterMap_cons_some hname, List.nodup_cons] at hapart
      rw [hrest.others, hfile]
      -- The copies that follow have other names.
      intro other hother hsame
      have hnames : name = other := List.singleton_inj.1 (List.append_cancel_left hsame)
      exact hapart.1 (hnames ▸ hother)
    · obtain ⟨name, content, runnable, hname, hcontent, hfile⟩ := hrest.filled source hsource
      rw [hfirst.content? (houtside source hsource)] at hcontent
      exact ⟨name, content, runnable, hname, hcontent, hfile⟩
  others := by
    intro place helsewhere
    rw [hrest.others, hfirst.others]
    · intro name hname
      refine helsewhere name ?_
      exact ((List.nil_sublist rest).cons_cons first |>.filterMap Path.fileName).subset hname
    · intro name hname
      refine helsewhere name ?_
      exact ((List.sublist_cons_self first rest).filterMap Path.fileName).subset hname

theorem archiveFiles_append (hnul : '\x00' ∉ folder.toList)
    (hreceives : Receives t folder home (front ++ back))
    (hreadable : ∀ source ∈ front, Readable t source) :
    ∃ t', archiveFiles folder (front ++ back) t = archiveFiles folder back t' ∧
      Copies t t' home front := by
  induction front generalizing t with
  | nil => exact ⟨t, rfl, .nil t home⟩
  | cons first rest ih =>
      obtain ⟨t', hcopy, hfirst⟩ :=
        exists_archiveFile hreceives hnul List.mem_cons_self (hreadable first List.mem_cons_self)
      have houtside : ∀ source ∈ rest, ¬ StandsIn t home source :=
        fun source hsource => hreceives.tail.outside source (List.mem_append_left back hsource)
      have hreadable' : ∀ source ∈ rest, Readable t' source := fun source hsource =>
        (hfirst.readable_iff (houtside source hsource)).2
          (hreadable source (List.mem_cons_of_mem first hsource))
      obtain ⟨t'', hfiles, hrest⟩ := ih (hreceives.tail.of_sameFolders hfirst.same) hreadable'
      refine ⟨t'', ?_, hfirst.cons hrest houtside ?_⟩
      · rw [List.cons_append, archiveFiles, hcopy]
        exact hfiles
      · have hapart := hreceives.apart
        rw [List.filterMap_append] at hapart
        exact hapart.of_append_left

/-!
## The whole archive
-/

/--
An archive copies its sources in ascending order of groups and instances, the configuration
last, up to the first that cannot be read once the archive's folder has been made.  If there
is one, the failure tells of it, and what stands before it has been copied; otherwise all
has been copied, and the recorded files count.  Apart from these copies, only folders that
lead to the archive's folder are new, and none if it was there before.
-/
theorem archive_copies_front {made : Tree} (hmake : t.makeFolders folder = (.ok (), made))
    (hreceives : Receives made folder home (Artifact.sources s config)) :
    (s.allPaths = s.entries.flatMap Entry.paths ∧
      s.entries.Pairwise fun a b => a.group < b.group ∨ a.group = b.group ∧ a.id < b.id) ∧
    ((∀ place, made.get? place = t.get? place ∨
        t.get? place = none ∧ made.get? place = some .folder) ∧
      (∀ path content, t.content? path = some content → made.content? path = some content) ∧
      (t.isFolder folder = true → made = t)) ∧
    ((∀ source ∈ Artifact.sources s config, Readable made source) →
      ∃ t', archive s config folder t = (.ok s.allPaths.length, t') ∧
        Copies made t' home (Artifact.sources s config)) ∧
    ∀ front failing back, Artifact.sources s config = front ++ failing :: back →
      (∀ source ∈ front, Readable made source) → ¬ Readable made failing →
      ∃ cause t', archive s config folder t =
          (.error (.copy failing (archivedPath folder failing) cause), t') ∧
        Copies made t' home front := by
  have hnul := nulFree_of_makeFolders hmake
  have hgrown : t.Grown made := by
    have hgrown := grown_makeFolders t folder
    rwa [hmake] at hgrown
  refine ⟨⟨s.allPaths_eq, s.pairwise_entries⟩, ⟨hgrown.get?_cases, ?_, ?_⟩, ?_, ?_⟩
  · exact fun path content => hgrown.content?
  · intro hfolder
    rw [makeFolders_of_isFolder hfolder] at hmake
    exact (Prod.mk.inj hmake).2.symm
  · intro hreadable
    have hroom : Receives made folder home (Artifact.sources s config ++ []) := by
      rwa [List.append_nil]
    obtain ⟨t', hfiles, hcopies⟩ := archiveFiles_append hnul hroom hreadable
    rw [List.append_nil] at hfiles
    refine ⟨t', ?_, hcopies⟩
    rw [archive_of_made hmake, hfiles]
    rfl
  · intro front failing back hsources hreadable hfailing
    rw [hsources] at hreceives
    obtain ⟨t', hfiles, hcopies⟩ := archiveFiles_append hnul hreceives hreadable
    have hready : Ready t' folder := (ready_of_makeFolders hmake).of_sameFolders hcopies.same
    have houtside := hreceives.outside failing (List.mem_append_right front List.mem_cons_self)
    rw [← hcopies.readable_iff houtside] at hfailing
    obtain ⟨cause, hfault⟩ := archiveFile_of_not_readable hready hfailing
    refine ⟨cause, t', ?_, hcopies⟩
    rw [archive_of_made hmake, hsources, hfiles, archiveFiles, hfault]
    rfl

theorem archive_copies_front_missing :
    ∃ cause t', archive (logged [("a", "/r1/x"), ("b", "/r2/z")]) "/fleet.yaml" "/out"
        (runFiles "y") = (.error (.copy "/r2/z" "/out/z" cause), t') ∧
      Copies ((runFiles "y").makeFolders "/out").2 t' ["out"] ["/r1/x"] := by
  have hdone : ((runFiles "y").makeFolders "/out").1 = .ok () := by decide +kernel
  have hmake : (runFiles "y").makeFolders "/out" = (.ok (), _) := Prod.ext hdone rfl
  have hsources : Artifact.sources (logged [("a", "/r1/x"), ("b", "/r2/z")]) "/fleet.yaml" =
      ["/r1/x"] ++ "/r2/z" :: ["/fleet.yaml"] := by decide +kernel
  have hreceives : Receives ((runFiles "y").makeFolders "/out").2 "/out" ["out"]
      (Artifact.sources (logged [("a", "/r1/x"), ("b", "/r2/z")]) "/fleet.yaml") := by
    decide +kernel
  exact (archive_copies_front hmake hreceives).2.2.2 ["/r1/x"] "/r2/z" ["/fleet.yaml"] hsources
    (by decide +kernel) (by decide +kernel)

/-- A recorded file that is missing at first is found by way of a folder made for the archive. -/
theorem archive_copies_missing :
    (rootFiles.makeFolders "/b/out").1 = .ok () ∧
      Receives (rootFiles.makeFolders "/b/out").2 "/b/out" ["b", "out"]
        (Artifact.sources (logged [("g", "/b/../a")]) "/fleet.yaml") ∧
      ¬ Readable rootFiles "/b/../a" ∧
      (archive (logged [("g", "/b/../a")]) "/fleet.yaml" "/b/out" rootFiles).1 = .ok 1 := by
  decide +kernel

end Artifact
end LogHarvest
