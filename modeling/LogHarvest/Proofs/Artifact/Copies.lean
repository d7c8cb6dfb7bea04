import Mathlib.Data.List.Nodup
import LogHarvest.Artifact.Archive
import LogHarvest.Collect.Record
import LogHarvest.Proofs.Tree.Sound

/-!
# What copies make of files

A copy is made at a place that only depends on the folders and on the last component of
its source (`exists_goal`).  It fills that one place and leaves every other one alone, so
what a file holds after a series of copies is what the last copy to its place brought
(`content_archiveFiles`), or what it held before.

A source that is copied brings what it held at first: a copy to the source's own file has
the source's name, and then the source is its own copy (`goesTo_origin`).
-/

namespace LogHarvest
namespace Artifact

open LogHarvest.Tree

def GoesTo (t : Tree) (folder source : Path) (place : Place) : Prop :=
  t.target (archivedPath folder source) = .ok place

instance (t : Tree) (folder source : Path) (place : Place) :
    Decidable (GoesTo t folder source place) :=
  inferInstanceAs (Decidable (_ = _))

def Meets (t : Tree) (folder source file : Path) : Prop :=
  ∃ place, t.target file = .ok place ∧ GoesTo t folder source place

instance (t : Tree) (folder source file : Path) : Decidable (Meets t folder source file) :=
  match hfile : t.target file with
  | .ok place => decidable_of_iff (GoesTo t folder source place) (by simp [Meets, hfile])
  | .error _ => isFalse (by simp [Meets, hfile])

/-- The sources that are copied before one cannot be. -/
def copied (folder : Path) : List Path → Tree → List Path
  | [], _ => []
  | source :: rest, t =>
      match archiveFile folder t source with
      | .ok t' => source :: copied folder rest t'
      | .error _ => []

def lastTo (t : Tree) (folder : Path) (sources : List Path) (place : Place) : Option Path :=
  (sources.filter fun source => GoesTo t folder source place).getLast?

def Named (t : Tree) (path : Path) : Prop :=
  ∃ name front, path.fileName = some name ∧ t.target path = .ok (front ++ [name])

/-- What a copy of a source brings to a place: nothing to the source's own file. -/
def brought (t : Tree) (source : Path) (place : Place) : Option Text.Bytes :=
  if t.target source = .ok place then some [] else t.content? source

variable {t t' : Tree} {folder source other : Path} {place : Place} {content : Text.Bytes}

/-!
## Where copies go
-/

theorem goesTo_congr (hsame : t.SameFolders t') :
    GoesTo t' folder source place ↔ GoesTo t folder source place :=
  ⟨target_eq_ok hsame.symm, target_eq_ok hsame⟩

theorem meets_congr (hsame : t.SameFolders t') :
    Meets t' folder source other ↔ Meets t folder source other := by
  constructor
  · rintro ⟨place, htarget, hgoes⟩
    exact ⟨place, target_eq_ok hsame.symm htarget, (goesTo_congr hsame).1 hgoes⟩
  · rintro ⟨place, htarget, hgoes⟩
    exact ⟨place, target_eq_ok hsame htarget, (goesTo_congr hsame).2 hgoes⟩

theorem lastTo_congr (hsame : t.SameFolders t') (sources : List Path) :
    lastTo t' folder sources place = lastTo t folder sources place := by
  unfold lastTo
  simp only [goesTo_congr hsame]

theorem mem_components_of_fileName {path : Path} {name : String}
    (hname : path.fileName = some name) : name ∈ path.components ∧ name ≠ "." ∧ name ≠ ".." := by
  unfold Path.fileName at hname
  split at hname
  · rename_i part hlast
    split at hname
    · cases hname
    · rename_i hparent
      cases hname
      obtain ⟨hmem, hdot⟩ := List.mem_filter.1 (List.mem_of_getLast? hlast)
      exact ⟨hmem, by simpa using hdot, by simpa using hparent⟩
  · cases hname

theorem Named.of_sameFolders (hnamed : Named t source) (hsame : t.SameFolders t') :
    Named t' source := by
  obtain ⟨name, front, hname, htarget⟩ := hnamed
  exact ⟨name, front, hname, target_eq_ok hsame htarget⟩

theorem named_of_content {name : String} (hname : source.fileName = some name)
    (hcontent : t.content? source = some content) : Named t source := by
  obtain ⟨place, runnable, htarget, hfile, -⟩ := content?_eq_some_iff.1 hcontent
  obtain ⟨-, hwalk⟩ := target_eq_ok_iff.1 htarget
  have hsteps := hname
  unfold Path.fileName Path.steps at hsteps
  rcases List.eq_nil_or_concat source.components with hnone | ⟨front, last, hparts⟩
  · rw [hnone] at hsteps
    cases hsteps
  · rw [List.concat_eq_append] at hparts
    rw [hparts, walk_append_eq_ok_iff] at hwalk
    obtain ⟨middle, -, hlast⟩ := hwalk
    rw [walk_singleton] at hlast
    -- A path that ends in a dot leads to a folder.
    have hdot : last ≠ "." := by
      rintro rfl
      obtain ⟨hfolder, hsame⟩ := descend_eq_ok_iff.1 hlast
      rw [show place = middle from hsame] at hfile
      rw [hasFolder, hfile] at hfolder
      cases hfolder
    rw [hparts, List.filter_append, List.filter_cons_of_pos (by simpa using hdot),
      List.filter_nil, List.getLast?_concat] at hsteps
    dsimp only at hsteps
    split at hsteps
    · cases hsteps
    · rename_i hparent
      cases hsteps
      rw [(descend_name hdot (by simpa using hparent) hlast).2] at htarget
      exact ⟨name, middle, hname, htarget⟩

theorem walk_archivedPath (t : Tree) (folder : Path) {name : String}
    (hname : source.fileName = some name) :
    t.walk (t.start (archivedPath folder source)) (archivedPath folder source).components =
      t.walk (t.start folder) (folder.components ++ [name]) := by
  obtain ⟨hcomponents, habsolute⟩ := components_of_mem (mem_components_of_fileName hname).1
  unfold archivedPath
  rw [hname]
  dsimp only
  cases hfolder : folder.isEmpty with
  | true =>
      have hempty : folder = "" := String.isEmpty_iff.1 hfolder
      subst hempty
      have hjoin : Path.join "" name = name := by
        unfold Path.join
        rw [if_pos (by rw [hfolder, Bool.or_true])]
      have hstart : t.start name = t.start "" := by
        unfold start
        rw [habsolute]
        rfl
      rw [hjoin, hcomponents, hstart]
      rfl
  | false =>
      rw [components_join hfolder habsolute, start_join hfolder habsolute, hcomponents]

theorem exists_goal {name : String} (hname : source.fileName = some name)
    (hgoes : GoesTo t folder source place) :
    ∃ front, t.walk (t.start folder) folder.components = .ok front ∧ place = front ++ [name] := by
  obtain ⟨-, hdot, hparent⟩ := mem_components_of_fileName hname
  obtain ⟨-, hwalk⟩ := target_eq_ok_iff.1 hgoes
  rw [walk_archivedPath t folder hname, walk_append_eq_ok_iff] at hwalk
  obtain ⟨front, hfront, hlast⟩ := hwalk
  rw [walk_singleton] at hlast
  exact ⟨front, hfront, (descend_name hdot hparent hlast).2⟩

theorem goesTo_of_fileName (hnames : source.fileName = other.fileName)
    (hgoes : GoesTo t folder source place) : GoesTo t folder other place := by
  unfold GoesTo archivedPath at hgoes ⊢
  rw [← hnames]
  exact hgoes

/-- A source that another source is copied onto is copied onto itself. -/
theorem goesTo_origin (hnamed : Named t source) (hother : Named t other)
    (htarget : t.target source = .ok place) (hgoes : GoesTo t folder other place) :
    GoesTo t folder source place := by
  obtain ⟨name, front, hname, hplace⟩ := hnamed
  obtain ⟨name', -, hname', -⟩ := hother
  obtain ⟨front', -, hgoal⟩ := exists_goal hname' hgoes
  rw [htarget] at hplace
  have hnames : name = name' :=
    List.singleton_inj.1 (List.append_inj_right' ((Except.ok.inj hplace).symm.trans hgoal) rfl)
  exact goesTo_of_fileName (by rw [hname, hname', hnames]) hgoes

theorem fileName_eq_of_goesTo {name name' : String} (hname : source.fileName = some name)
    (hname' : other.fileName = some name') (hgoes : GoesTo t folder source place)
    (hgoes' : GoesTo t folder other place) : name = name' := by
  obtain ⟨front, -, hplace⟩ := exists_goal hname hgoes
  obtain ⟨front', -, hplace'⟩ := exists_goal hname' hgoes'
  exact List.singleton_inj.1 (List.append_inj_right' (hplace.symm.trans hplace') rfl)

/-!
## One copy
-/

def Ready (t : Tree) (folder : Path) : Prop :=
  ∀ place, t.target folder = .ok place → t.hasFolder place = true

theorem Ready.of_sameFolders (hready : Ready t folder) (hsame : t.SameFolders t') :
    Ready t' folder := by
  intro place htarget
  rw [hsame.folders]
  exact hready place (target_eq_ok hsame.symm htarget)

structure Copied (folder : Path) (t : Tree) (source : Path) (t' : Tree) : Prop where
  same : t.SameFolders t'
  named : Named t source
  readable : (t.content? source).isSome
  goal : ∃ place, GoesTo t folder source place ∧
    (archivedPath folder source).endsInSlash = false
  kept : ∀ path, ¬ Meets t folder source path → t'.content? path = t.content? path
  filled : ∀ path place, t.target path = .ok place → GoesTo t folder source place →
    path.endsInSlash = false → t'.content? path = brought t source place

theorem archiveFile_eq (folder : Path) (t : Tree) (source : Path) :
    archiveFile folder t source = (t.copy source (archivedPath folder source)).mapError fun cause =>
      .copy source (archivedPath folder source) cause :=
  rfl

theorem archiveFile_eq_ok_iff :
    archiveFile folder t source = .ok t' ↔ t.copy source (archivedPath folder source) = .ok t' := by
  rw [archiveFile_eq]
  cases t.copy source (archivedPath folder source) with
  | error cause => simp [Except.mapError]
  | ok copy => simp [Except.mapError]

theorem copied_of_archiveFile (hready : Ready t folder)
    (harchive : archiveFile folder t source = .ok t') : Copied folder t source t' := by
  obtain ⟨origin, goal, content, htarget, hcontent, hopen, hsame, runnable, hnodes⟩ :=
    copy_eq_ok (archiveFile_eq_ok_iff.1 harchive)
  obtain ⟨hgoal, hslash, hfree⟩ := openForWriting_eq_ok_iff.1 hopen
  constructor
  case same => exact hsame
  case readable => exact Option.isSome_of_eq_some hcontent
  case goal => exact ⟨goal, hgoal, hslash⟩
  case named =>
    cases hname : source.fileName with
    | some name => exact named_of_content hname hcontent
    | none =>
        -- The copy would have to replace the folder.
        unfold archivedPath at hgoal
        rw [hname] at hgoal
        rw [hready goal hgoal] at hfree
        cases hfree
  case kept =>
    intro path helsewhere
    refine content?_congr hsame ?_
    intro place hplace
    rw [hnodes, if_neg]
    rintro rfl
    exact helsewhere ⟨place, hplace, hgoal⟩
  case filled =>
    intro path place hplace hgoes hslash
    obtain rfl : goal = place := Except.ok.inj (hgoal.symm.trans hgoes)
    have hfile : t'.get? goal = some (.file (if goal = origin then [] else content) runnable) := by
      rw [hnodes, if_pos rfl]
    rw [content?_eq_some_iff.2 ⟨goal, runnable, target_eq_ok hsame hplace, hfile, hslash⟩, brought]
    by_cases hself : goal = origin
    · rw [if_pos hself, if_pos (by rw [htarget, hself])]
    · rw [if_neg hself, if_neg, hcontent]
      intro hsame
      rw [htarget] at hsame
      exact hself (Except.ok.inj hsame).symm

/-!
## A series of copies
-/

variable {sources : List Path}

theorem exists_copied (hready : Ready t folder) (hmem : source ∈ copied folder sources t) :
    ∃ before after, t.SameFolders before ∧ Copied folder before source after ∧
      ((∀ other ∈ sources, ¬ Meets t folder other source) →
        before.content? source = t.content? source) := by
  induction sources generalizing t with
  | nil => cases hmem
  | cons first rest ih =>
      unfold copied at hmem
      split at hmem
      · rename_i t' harchive
        have hcopied := copied_of_archiveFile hready harchive
        rcases List.mem_cons.1 hmem with rfl | hmem
        · exact ⟨t, t', .refl t, hcopied, fun _ => rfl⟩
        · obtain ⟨before, after, hsame, hlater, hkept⟩ :=
            ih (hready.of_sameFolders hcopied.same) hmem
          refine ⟨before, after, hcopied.same.trans hsame, hlater, ?_⟩
          intro helsewhere
          rw [hkept, hcopied.kept source (helsewhere first List.mem_cons_self)]
          intro other hother
          rw [meets_congr hcopied.same]
          exact helsewhere other (List.mem_cons_of_mem first hother)
      · cases hmem

theorem named_of_mem_copied (hready : Ready t folder) (hmem : source ∈ copied folder sources t) :
    Named t source := by
  obtain ⟨before, after, hsame, hcopied, -⟩ := exists_copied hready hmem
  exact hcopied.named.of_sameFolders hsame.symm

theorem mem_of_lastTo (hlast : lastTo t folder sources place = some source) :
    source ∈ sources ∧ GoesTo t folder source place := by
  obtain ⟨hmem, hgoes⟩ := List.mem_filter.1 (List.mem_of_getLast? hlast)
  exact ⟨hmem, of_decide_eq_true hgoes⟩

theorem lastTo_eq_none_iff :
    lastTo t folder sources place = none ↔ ∀ source ∈ sources, ¬ GoesTo t folder source place := by
  unfold lastTo
  rw [List.getLast?_eq_none_iff, List.filter_eq_nil_iff]
  simp only [decide_eq_true_eq]

theorem lastTo_cons (first : Path) (rest : List Path) :
    lastTo t folder (first :: rest) place =
      if GoesTo t folder first place then some ((lastTo t folder rest place).getD first)
      else lastTo t folder rest place := by
  unfold lastTo
  by_cases hgoes : GoesTo t folder first place
  · rw [if_pos hgoes, List.filter_cons, if_pos (decide_eq_true hgoes), List.getLast?_cons]
  · rw [if_neg hgoes, List.filter_cons, if_neg (by simpa using hgoes)]

theorem Copied.brought (hcopied : Copied folder t source t') (hother : Named t other)
    (hgoes : GoesTo t folder other place) : brought t' other place = brought t other place := by
  unfold Artifact.brought
  by_cases hself : t.target other = .ok place
  · rw [if_pos hself, if_pos (target_eq_ok hcopied.same hself)]
  · rw [if_neg hself, if_neg fun h => hself (target_eq_ok hcopied.same.symm h)]
    refine hcopied.kept other ?_
    rintro ⟨origin, htarget, hhit⟩
    have hhome : GoesTo t folder other origin := goesTo_origin hother hcopied.named htarget hhit
    obtain rfl : origin = place := Except.ok.inj (hhome.symm.trans hgoes)
    exact hself htarget

/-- A file holds what the last copy to it brought, or what it held before. -/
theorem content_archiveFiles (hready : Ready t folder) (sources : List Path) {path : Path}
    (htarget : t.target path = .ok place) (hslash : path.endsInSlash = false) :
    (archiveFiles folder sources t).2.content? path =
      match lastTo t folder (copied folder sources t) place with
      | none => t.content? path
      | some last => brought t last place := by
  induction sources generalizing t with
  | nil => rfl
  | cons first rest ih =>
      unfold archiveFiles copied
      cases harchive : archiveFile folder t first with
      | error fault => rfl
      | ok t' =>
          have hcopied := copied_of_archiveFile hready harchive
          have hready' := hready.of_sameFolders hcopied.same
          dsimp only
          rw [ih hready' (target_eq_ok hcopied.same htarget), lastTo_congr hcopied.same,
            lastTo_cons]
          cases hlast : lastTo t folder (copied folder rest t') place with
          | some last =>
              obtain ⟨hmem, hgoes⟩ := mem_of_lastTo hlast
              have hnamed := (named_of_mem_copied hready' hmem).of_sameFolders hcopied.same.symm
              rw [Option.getD_some, ite_self]
              exact hcopied.brought hnamed hgoes
          | none =>
              by_cases hgoes : GoesTo t folder first place
              · rw [if_pos hgoes]
                exact hcopied.filled path place htarget hgoes hslash
              · rw [if_neg hgoes]
                refine hcopied.kept path ?_
                rintro ⟨found, hfound, hhit⟩
                rw [htarget] at hfound
                cases hfound
                exact hgoes hhit

theorem sameFolders_archiveFiles (hready : Ready t folder) (sources : List Path) :
    t.SameFolders (archiveFiles folder sources t).2 := by
  induction sources generalizing t with
  | nil => exact .refl t
  | cons first rest ih =>
      unfold archiveFiles
      split
      · rename_i t' harchive
        have hcopied := copied_of_archiveFile hready harchive
        exact hcopied.same.trans (ih (hready.of_sameFolders hcopied.same))
      · exact .refl t

theorem sameFolders_of_archived {result : Except FleetFault Unit} (hready : Ready t folder)
    (hdone : archiveFiles folder sources t = (result, t')) : t.SameFolders t' := by
  have hfolders := sameFolders_archiveFiles hready sources
  rw [hdone] at hfolders
  exact hfolders

theorem copied_of_archiveFiles (hall : (archiveFiles folder sources t).1 = .ok ()) :
    copied folder sources t = sources := by
  induction sources generalizing t with
  | nil => rfl
  | cons first rest ih =>
      unfold archiveFiles at hall
      unfold copied
      cases harchive : archiveFile folder t first with
      | error fault =>
          rw [harchive] at hall
          cases hall
      | ok t' =>
          rw [harchive] at hall
          exact congrArg (first :: ·) (ih hall)

theorem copied_subset (folder : Path) (sources : List Path) (t : Tree) :
    copied folder sources t ⊆ sources := by
  induction sources generalizing t with
  | nil => exact List.Subset.refl []
  | cons first rest ih =>
      unfold copied
      split
      · exact List.cons_subset_cons first (ih _)
      · exact List.nil_subset _

/-!
## Copies that are made elsewhere
-/

theorem kept_archiveFiles (hready : Ready t folder)
    (hall : archiveFiles folder sources t = (.ok (), t'))
    (helsewhere : ∀ source ∈ sources, ∀ other ∈ sources, ¬ Meets t folder other source)
    (hsource : source ∈ sources) :
    ∃ content, t.content? source = some content ∧ t'.content? source = some content := by
  have hcopied : copied folder sources t = sources := copied_of_archiveFiles (by rw [hall])
  obtain ⟨before, after, -, hcopy, hkept⟩ := exists_copied hready (by rw [hcopied]; exact hsource)
  have hreadable := hcopy.readable
  rw [hkept (helsewhere source hsource)] at hreadable
  obtain ⟨content, hcontent⟩ := Option.isSome_iff_exists.1 hreadable
  obtain ⟨place, -, htarget, -, hslash⟩ := content?_eq_some_iff.1 hcontent
  have hcontents := content_archiveFiles hready sources htarget hslash
  have hnone : lastTo t folder sources place = none := by
    rw [lastTo_eq_none_iff]
    exact fun other hother hgoes => helsewhere source hsource other hother ⟨place, htarget, hgoes⟩
  rw [hall, hcopied, hnone] at hcontents
  exact ⟨content, hcontent, hcontents.trans hcontent⟩

theorem last_archiveFiles (hready : Ready t folder)
    (hall : archiveFiles folder sources t = (.ok (), t'))
    (helsewhere : ∀ source ∈ sources, ∀ other ∈ sources, ¬ Meets t folder other source)
    (hsource : source ∈ sources) :
    ∃ place last, GoesTo t folder source place ∧ lastTo t folder sources place = some last ∧
      t'.content? (archivedPath folder source) = t.content? last := by
  have hcopied : copied folder sources t = sources := copied_of_archiveFiles (by rw [hall])
  obtain ⟨before, after, hsame, hcopy, -⟩ := exists_copied hready (by rw [hcopied]; exact hsource)
  obtain ⟨place, hgoes, hslash⟩ := hcopy.goal
  have hgoes : GoesTo t folder source place := (goesTo_congr hsame).1 hgoes
  have hcontents := content_archiveFiles hready sources hgoes hslash
  rw [hall, hcopied] at hcontents
  cases hlast : lastTo t folder sources place with
  | none => exact absurd hgoes (lastTo_eq_none_iff.1 hlast source hsource)
  | some last =>
      obtain ⟨hmem, hgoes'⟩ := mem_of_lastTo hlast
      rw [hlast] at hcontents
      refine ⟨place, last, hgoes, hlast, hcontents.trans (if_neg ?_)⟩
      exact fun hself => helsewhere last hmem last hmem ⟨place, hself, hgoes'⟩

/-- Each source has a copy of its own. -/
structure OwnCopies (t : Tree) (folder : Path) (sources : List Path) : Prop where
  copies : ∀ source ∈ sources, ∃ place content, GoesTo t folder source place ∧
    t.content? source = some content ∧ t.content? (archivedPath folder source) = some content
  apart : sources.Pairwise fun source other =>
    ∀ place, GoesTo t folder source place → ¬ GoesTo t folder other place

theorem ownCopies_iff_nodup (hready : Ready t folder)
    (hall : archiveFiles folder sources t = (.ok (), t'))
    (helsewhere : ∀ source ∈ sources, ∀ other ∈ sources, ¬ Meets t folder other source) :
    OwnCopies t' folder sources ↔ (sources.map Path.fileName).Nodup := by
  have hcopied : copied folder sources t = sources := copied_of_archiveFiles (by rw [hall])
  have hsame : t.SameFolders t' := sameFolders_of_archived hready hall
  have hnamed : ∀ source ∈ sources, Named t source := by
    intro source hsource
    exact named_of_mem_copied hready (by rw [hcopied]; exact hsource)
  constructor
  · intro hown
    rw [List.Nodup, List.pairwise_map]
    refine hown.apart.imp_of_mem ?_
    intro source other hsource _ hapart hnames
    obtain ⟨place, -, hgoes, -⟩ := hown.copies source hsource
    exact hapart place hgoes (goesTo_of_fileName hnames hgoes)
  · intro hnames
    have hsole : ∀ source ∈ sources, ∀ other ∈ sources, ∀ place,
        GoesTo t folder source place → GoesTo t folder other place → source = other := by
      intro source hsource other hother place hgoes hgoes'
      obtain ⟨name, -, hname, -⟩ := hnamed source hsource
      obtain ⟨name', -, hname', -⟩ := hnamed other hother
      refine List.inj_on_of_nodup_map hnames hsource hother ?_
      rw [hname, hname', fileName_eq_of_goesTo hname hname' hgoes hgoes']
    constructor
    · intro source hsource
      obtain ⟨place, last, hgoes, hlast, hcontents⟩ :=
        last_archiveFiles hready hall helsewhere hsource
      obtain ⟨hmem, hgoes'⟩ := mem_of_lastTo hlast
      obtain rfl := hsole source hsource last hmem place hgoes hgoes'
      obtain ⟨content, hcontent, hkept⟩ := kept_archiveFiles hready hall helsewhere hsource
      exact ⟨place, content, (goesTo_congr hsame).2 hgoes, hkept, hcontents.trans hcontent⟩
    · refine (List.Nodup.of_map Path.fileName hnames).imp_of_mem ?_
      intro source other hsource hother hdistinct place hgoes hgoes'
      exact hdistinct (hsole source hsource other hother place ((goesTo_congr hsame).1 hgoes)
        ((goesTo_congr hsame).1 hgoes'))

end Artifact
end LogHarvest
