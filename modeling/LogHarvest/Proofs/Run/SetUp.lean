import LogHarvest.Proofs.Run.OnDisk
import LogHarvest.Proofs.Tree.Leads

/-!
# What a run is set up with

Before any worker starts, a run gets a bucket, a number of permits and a folder.  Of a
configuration that is accepted the bucket is always in order, and there is a permit.  Two
things are not checked: a semaphore cannot have as many permits as may be asked for, and
the name of a fleet may lead out of the folder that its runs are to be put in.
-/

namespace LogHarvest

/-!
## Folders
-/

namespace Artifact

/-- The path leads to a free place directly in the folder of the other one. -/
def NewIn (t : Tree) (base folder : Path) : Prop :=
  ∃ place last, t.target base = .ok place ∧ t.target folder = .ok (place ++ [last]) ∧
    t.get? (place ++ [last]) = none

theorem exists_letters_of_makeFirst {t t' : Tree} {base path : Path} {start : String}
    {endings : List String} (hmake : makeFirst t base start endings = .ok (path, t')) :
    ∃ letters ∈ endings, path = base.join (start ++ letters) := by
  induction endings with
  | nil => cases hmake
  | cons letters more ih =>
      unfold makeFirst at hmake
      dsimp only at hmake
      split at hmake
      · cases hmake
        exact ⟨letters, List.mem_cons_self, rfl⟩
      · split at hmake
        · obtain ⟨found, hfound, hpath⟩ := ih hmake
          exact ⟨found, List.mem_cons_of_mem _ hfound, hpath⟩
        · cases hmake

theorem allocateFolder_eq_ok_iff {t t' : Tree} {base path : Path} {start : String}
    {endings : List String} :
    allocateFolder t base start endings = .ok (path, t') ↔
      makeFirst t (absolute t base) start endings = .ok (path, t') := by
  unfold allocateFolder
  cases makeFirst t (absolute t base) start endings with
  | error cause => exact ⟨nofun, nofun⟩
  | ok found => exact ⟨fun h => by cases h; rfl, fun h => by cases h; rfl⟩

theorem isEmpty_join {folder : Path} {name : String} (hname : name.isEmpty = false) :
    (folder.join name).isEmpty = false := by
  have hne : name ≠ "" := by simpa using hname
  unfold Path.join
  split
  · exact hname
  · split <;> simp [hne]

theorem absolute_ne_empty (t : Tree) {base : Path} (hbase : base.isEmpty = false) :
    (absolute t base).isEmpty = false := by
  unfold absolute
  split
  · exact hbase
  · exact isEmpty_join hbase

theorem walk_absolute {t : Tree} (hhere : t.target (pathOf t.here) = .ok t.here) (base : Path) :
    t.walk (t.start (absolute t base)) (absolute t base).components =
      t.walk (t.start base) base.components := by
  unfold absolute
  split
  · rfl
  · rename_i hrelative
    have hrelative : base.isAbsolute = false := by simpa using hrelative
    obtain ⟨hcheck, hwalk⟩ := Tree.target_eq_ok_iff.1 hhere
    have hne := Tree.not_isEmpty_of_precheck hcheck
    rw [Tree.start_join hne hrelative, Tree.components_join hne hrelative, Tree.walk_append, hwalk]
    unfold Tree.start
    rw [hrelative]
    rfl

end Artifact

/-!
## The folder of a run
-/

namespace Fleet

open Artifact Run

/-- A run's bucket is in order, and so is its semaphore as far as the fewest permits go. -/
structure Paced {σ : Type} (c : FleetConfig) (s : State σ Float Rate.Millis) : Prop where
  qps : 0 < s.bucket.qps
  rate : s.bucket.qps = c.limits.qps
  burst : 1 ≤ c.limits.burst.toNat
  capacity : s.bucket.burst = Float.ofNat c.limits.burst.toNat
  permits : ∀ n, s.permits = some n → 1 ≤ n

theorem paced_start {σ : Type} {f : Fleet σ} (hvalid : f.store.config.validate = .ok ())
    (stages : List Protocol.Stage) (folder : Path) :
    Paced f.store.config (f.startRun stages folder) := by
  have haccepted := FleetConfig.validate_eq_ok_iff.1 hvalid
  have hone : 1 ≤ f.store.config.limits.burst.toNat :=
    Nat.one_le_iff_ne_zero.2 fun hzero =>
      haccepted.burst (UInt32.toNat_inj.1 (hzero.trans UInt32.toNat_zero.symm))
  refine ⟨haccepted.qps, rfl, hone, ?_, ?_⟩
  · exact congrArg Float.ofNat (Nat.max_eq_left hone)
  · intro n hpermits
    obtain ⟨sessions, hsome, rfl⟩ := Option.map_eq_some_iff.1 hpermits
    refine Nat.one_le_iff_ne_zero.2 fun hzero => ?_
    rw [UInt64.toNat_inj.1 (hzero.trans UInt64.toNat_zero.symm)] at hsome
    exact haccepted.maxSessions hsome

theorem exceedsPermits_iff {σ : Type} (f : Fleet σ) (stages : List Protocol.Stage)
    (folder : Path) :
    exceedsPermits f.store.config = true ↔
      ∃ n, (f.startRun stages folder).permits = some n ∧ FleetFault.permitLimit < n := by
  have hpermits : (f.startRun stages folder).permits =
      f.store.config.limits.maxSessions.map UInt64.toNat := rfl
  rw [hpermits, exceedsPermits]
  cases f.store.config.limits.maxSessions with
  | none => simp
  | some n => simp

section Allocation

variable {c : FleetConfig} {t tree : Tree} {folder : Path} {endings : List String}

theorem exists_above_of_allocateFolder (hvalid : c.validate = .ok ())
    (hletters : ∀ letters ∈ endings, ∀ x ∈ letters.toList, Text.isAlphanumeric x = true)
    (hallocate : allocateFolder t c.logDir (folderStart c) endings = .ok (folder, tree)) :
    ∃ above last, t.target ((absolute t c.logDir).join (Path.lead c.name)) = .ok above ∧
      t.target folder = .ok (above ++ [last]) ∧ t.get? (above ++ [last]) = none ∧
      tree = t.put (above ++ [last]) .folder := by
  have hfirst := allocateFolder_eq_ok_iff.1 hallocate
  obtain ⟨letters, hmem, hfolder⟩ := exists_letters_of_makeFirst hfirst
  obtain ⟨place, htarget, hfree, htree⟩ :=
    Tree.makeFolder_eq_ok_iff.1 (makeFolder_of_makeFirst hfirst)
  let last := Path.lastName c.name ++ ("-logs" ++ letters)
  have hlast : last.toList =
      (Path.lastName c.name).toList ++ ("-logs".toList ++ letters.toList) := by
    rw [String.toList_append, String.toList_append]
  have hlogs : ∀ x ∈ "-logs".toList, (x == '/') = false := by simp
  have hplain : ∀ x ∈ last.toList, (x == '/') = false := by
    intro x hx
    rw [hlast, List.mem_append, List.mem_append] at hx
    rcases hx with hx | hx | hx
    · exact Path.plain_lastName c.name x hx
    · exact hlogs x hx
    · have hletter := hletters letters hmem x hx
      refine beq_eq_false_iff_ne.2 ?_
      rintro rfl
      cases hletter
  have hlong : 2 < last.toList.length := by
    rw [hlast, List.length_append, List.length_append]
    have hfive : "-logs".toList.length = 5 := rfl
    omega
  have htext : folderStart c ++ letters = Path.lead c.name ++ last := by
    calc folderStart c ++ letters
        = Path.lead c.name ++ Path.lastName c.name ++ "-logs" ++ letters := by
          rw [Path.lead_append_lastName, folderStart]
      _ = Path.lead c.name ++ last := by simp only [last, String.append_assoc]
  rw [hfolder, htext] at htarget
  obtain ⟨above, habove, rfl⟩ := Tree.target_join_lead
    (absolute_ne_empty t (FleetConfig.validate_eq_ok_iff.1 hvalid).logDir) hplain hlong htarget
  refine ⟨above, last, habove, ?_, hfree, htree⟩
  rw [hfolder, htext]
  exact htarget

theorem newIn_iff (hvalid : c.validate = .ok ())
    (hletters : ∀ letters ∈ endings, ∀ x ∈ letters.toList, Text.isAlphanumeric x = true)
    (hallocate : allocateFolder t c.logDir (folderStart c) endings = .ok (folder, tree)) :
    NewIn t c.logDir folder ↔
      t.target ((absolute t c.logDir).join (Path.lead c.name)) = t.target c.logDir := by
  obtain ⟨above, last, habove, htarget, hfree, -⟩ :=
    exists_above_of_allocateFolder hvalid hletters hallocate
  constructor
  · rintro ⟨place, last', hplace, htarget', -⟩
    have hsame : place ++ [last'] = above ++ [last] := Except.ok.inj (htarget'.symm.trans htarget)
    rw [habove, hplace, (List.append_inj' hsame rfl).1]
  · intro hback
    exact ⟨above, last, hback.symm.trans habove, htarget, hfree⟩

theorem newIn_of_plain (hvalid : c.validate = .ok ())
    (hletters : ∀ letters ∈ endings, ∀ x ∈ letters.toList, Text.isAlphanumeric x = true)
    (hallocate : allocateFolder t c.logDir (folderStart c) endings = .ok (folder, tree))
    (hname : '/' ∉ c.name.toList) (hhere : t.target (pathOf t.here) = .ok t.here)
    (hmade : ∃ place, t.target c.logDir = .ok place) : NewIn t c.logDir folder := by
  obtain ⟨above, last, habove, htarget, hfree, -⟩ :=
    exists_above_of_allocateFolder hvalid hletters hallocate
  rw [Path.lead_eq_empty hname] at habove
  have hbase := (FleetConfig.validate_eq_ok_iff.1 hvalid).logDir
  have hwalk := Tree.walk_of_target_join (absolute_ne_empty t hbase) habove
  rw [walk_absolute hhere] at hwalk
  obtain ⟨place, hplace⟩ := hmade
  have hcheck := (Tree.target_eq_ok_iff.1 hplace).1
  exact ⟨above, last, Tree.target_eq_ok_iff.2 ⟨hcheck, hwalk⟩, htarget, hfree⟩

end Allocation

/-!
## Preparing a run
-/

variable {σ : Type} {f : Fleet σ} {endings : List String} {t tree : Tree} {folder : Path}

theorem prepare_of_allocateFolder (henabled : f.store.config.enabled = true)
    (hvalid : f.store.config.validate = .ok ())
    (hmade : f.store.tree.makeFolders f.store.config.logDir = (.ok (), t))
    (hallocate : allocateFolder t f.store.config.logDir (folderStart f.store.config) endings =
      .ok (folder, tree)) :
    prepare f.store endings =
      (if exceedsPermits f.store.config then .error .tooManySessions else .ok folder,
        { f.store with tree := tree }) := by
  unfold prepare
  simp only [henabled, Bool.not_true, Bool.false_eq_true, if_false, hvalid, hmade, hallocate]

theorem prepare_iff_permits {store store' : FleetStore} {permits : Option Nat}
    (hprepare : prepare store endings =
      (if exceedsPermits store.config then .error .tooManySessions else .ok folder, store'))
    (hexceeds : exceedsPermits store.config = true ↔
      ∃ n, permits = some n ∧ FleetFault.permitLimit < n) :
    ((prepare store endings).1 = .ok folder ↔
      ∀ n, permits = some n → n ≤ FleetFault.permitLimit) ∧
    ((prepare store endings).1 = .error .tooManySessions ↔
      ∃ n, permits = some n ∧ FleetFault.permitLimit < n) := by
  rw [hprepare, ← hexceeds]
  cases hlimit : exceedsPermits store.config with
  | true =>
      obtain ⟨n, hn, hmany⟩ := hexceeds.1 hlimit
      refine ⟨⟨fun hok => ?_, fun hfew => absurd (hfew n hn) (Nat.not_le.2 hmany)⟩, ?_⟩
      · cases hok
      · exact ⟨fun _ => rfl, fun _ => rfl⟩
  | false =>
      refine ⟨⟨fun _ n hn => Nat.le_of_not_lt fun hmany => ?_, fun _ => rfl⟩, fun hfault => ?_,
        fun hfalse => ?_⟩
      · rw [hexceeds.2 ⟨n, hn, hmany⟩] at hlimit
        cases hlimit
      · cases hfault
      · cases hfalse

/--
What a run is set up with, if its configuration is accepted.  Its bucket gains tokens and
holds one, and of permits there is none or one at least.  Once its folder is allocated,
the run can begin unless more permits are asked for than a semaphore may have.  The folder
is new; it is in the log directory exactly if all of the fleet's name up to its last slash
leads there, and so it is if the name has no slash.
-/
theorem setUp_of_validate (hvalid : f.store.config.validate = .ok ())
    (hletters : ∀ letters ∈ endings, ∀ x ∈ letters.toList, Text.isAlphanumeric x = true) :
    (∀ (stages : List Protocol.Stage) (folder : Path),
      Paced f.store.config ((f.prepared endings).startRun stages folder)) ∧
    ∀ (t tree : Tree) (folder : Path),
      f.store.tree.makeFolders f.store.config.logDir = (.ok (), t) →
      allocateFolder t f.store.config.logDir (folderStart f.store.config) endings =
        .ok (folder, tree) →
      (f.store.config.enabled = true →
        (prepare f.store endings).2.tree = tree ∧
        ∀ (stages : List Protocol.Stage),
          let permits := ((f.prepared endings).startRun stages folder).permits
          ((prepare f.store endings).1 = .ok folder ↔
            ∀ n, permits = some n → n ≤ FleetFault.permitLimit) ∧
          ((prepare f.store endings).1 = .error .tooManySessions ↔
            ∃ n, permits = some n ∧ FleetFault.permitLimit < n)) ∧
      t.makeFolder folder = .ok tree ∧
      (NewIn t f.store.config.logDir folder ↔
        t.target ((absolute t f.store.config.logDir).join (Path.lead f.store.config.name)) =
          t.target f.store.config.logDir) ∧
      ('/' ∉ f.store.config.name.toList →
        f.store.tree.target (pathOf f.store.tree.here) = .ok f.store.tree.here →
        NewIn t f.store.config.logDir folder) := by
  have hconfig : (f.prepared endings).store.config = f.store.config :=
    config_prepare f.store endings
  constructor
  · intro stages folder
    rw [← hconfig]
    exact paced_start (by rw [hconfig]; exact hvalid) stages folder
  · intro t tree folder hmade hallocate
    refine ⟨?_, ?_, newIn_iff hvalid hletters hallocate, ?_⟩
    · intro henabled
      have hprepare := prepare_of_allocateFolder henabled hvalid hmade hallocate
      refine ⟨by rw [hprepare], fun stages => ?_⟩
      have hexceeds := exceedsPermits_iff (f.prepared endings) stages folder
      rw [hconfig] at hexceeds
      exact prepare_iff_permits hprepare hexceeds
    · exact makeFolder_of_makeFirst (allocateFolder_eq_ok_iff.1 hallocate)
    · intro hname hhere
      have hgrown := Tree.grown_makeFolders f.store.tree f.store.config.logDir
      rw [hmade] at hgrown
      have hhere' := hgrown.extends.target hhere
      rw [← hgrown.extends.here] at hhere'
      obtain ⟨place, hplace, -⟩ :=
        Tree.hasFolder_of_makeFolders (FleetConfig.validate_eq_ok_iff.1 hvalid).logDir hmade
      exact newIn_of_plain hvalid hletters hallocate hname hhere' ⟨place, hplace⟩

def named (name : String) (maxSessions : Option UInt64) : Fleet Unit :=
  ⟨⟨{ FleetConfig.new name "/logs" "/fleetlog.yaml" with limits := ⟨1000, 100, maxSessions⟩ },
    Tree.empty.put ["logs"] .folder, []⟩, (), false⟩

theorem prepared_named :
    (prepare (named "demo" (some 2)).store ["abc123"]).1 = .ok "/logs/demo-logsabc123" := by
  decide +kernel

theorem setUp_of_validate_named :
    ∃ t, (named "demo" (some 2)).store.tree.makeFolders "/logs" = (.ok (), t) ∧
      NewIn t "/logs" "/logs/demo-logsabc123" := by
  have hletters : ∀ letters ∈ ["abc123"], ∀ x ∈ letters.toList, Text.isAlphanumeric x = true := by
    intro letters hmem
    rw [List.mem_singleton.1 hmem]
    exact List.all_eq_true.1 (by decide)
  obtain ⟨-, hfolder⟩ := setUp_of_validate (f := named "demo" (some 2)) (by decide +kernel) hletters
  obtain ⟨-, -, -, t, tree, hmade, hallocate, -⟩ :=
    prepare_eq_ok_iff.1 (Prod.ext prepared_named rfl)
  obtain ⟨-, -, -, hplain⟩ := hfolder t tree _ hmade hallocate
  exact ⟨t, hmade, hplain (by decide) rfl⟩

def overbooked : Fleet Unit :=
  named "demo" (some 2305843009213693952)

def astray : Fleet Unit :=
  named "../x" none

/--
Two configurations that are accepted.  One ends the program while the run is set up; the
other has the folder of its runs beside the log directory.
-/
theorem setUp_goes_wrong :
    (overbooked.store.config.validate = .ok () ∧
      (prepare overbooked.store ["abc123"]).1 = .error .tooManySessions) ∧
    astray.store.config.validate = .ok () ∧
      (prepare astray.store ["abc123"]).1 = .ok "/logs/../x-logsabc123" ∧
      (prepare astray.store ["abc123"]).2.tree.target "/logs" = .ok ["logs"] ∧
      (prepare astray.store ["abc123"]).2.tree.target "/logs/../x-logsabc123" =
        .ok ["x-logsabc123"] := by
  decide +kernel

end Fleet
end LogHarvest
