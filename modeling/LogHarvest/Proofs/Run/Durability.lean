import LogHarvest.Proofs.Run.Artifacts
import LogHarvest.Proofs.Run.Outputs

/-!
# What is left of the document when a run is cut off

From the moment that a run is prepared on, the document on disk is the one from before
the run or one of the configuration after some of the records, whatever fails and
wherever the run is cut off.  This needs that no output goes where the document stands.
An identifier with slashes can lead an output out of the folder of the run, and then
the document may be lost.
-/

namespace LogHarvest

open Run State

namespace Script

theorem tree_connect (s : Script) (i : Instance) (before : Surroundings Account) :
    (s.connect i before).after.tree = before.tree := by
  unfold connect
  dsimp only
  repeat' split
  all_goals rfl

theorem tree_run (s : Script) (i : Instance) (line : String) (before : Surroundings Account) :
    (s.run i line before).after.tree = before.tree := by
  unfold run
  dsimp only
  split <;> rfl

theorem spares (s : Script) (path : Path) : s.connector.Spares path where
  connect _ i around := congrArg (fun t => t.content? path) (s.tree_connect i around)
  run _ i line _ around := congrArg (fun t => t.content? path) (s.tree_run i line around)
  close _ _ _ := rfl

theorem keepsFolders (s : Script) : s.connector.KeepsFolders where
  connect _ i before := by
    show before.tree.SameFolders (s.connect i before).after.tree
    rw [s.tree_connect i before]
    exact .refl _
  run _ i line _ before := by
    show before.tree.SameFolders (s.run i line before).after.tree
    rw [s.tree_run i line before]
    exact .refl _
  close _ _ _ := .refl _

end Script

namespace Fleet

variable {σ : Type} {setting : Setting σ} {stages : List Protocol.Stage} {endings : List String}
  {f : Fleet σ} {folder : Path} {last : State σ Float Rate.Millis}

/--
While a run is prepared the document stays as it is.  In every state of the run there
is a document that was the last to take its place, or none yet, and what is on disk,
there and whenever the run is cut off, is as `Durable` says.
-/
theorem document_survives (hfetching : f.Fetching setting stages endings folder last)
    (hspares : setting.connector.Spares f.store.config.path)
    (hclear : KeepsClear setting ((f.prepared endings).startRun stages folder)) :
    (∀ t old, f.store.tree.Grown t → f.store.tree.content? f.store.config.path = some old →
      t.content? f.store.config.path = some old) ∧
    f.store.tree.Grown (f.prepared endings).store.tree ∧
    (∃ kept, Keeping setting ((f.prepared endings).startRun stages folder) kept last) ∧
    ∀ kept, Keeping setting ((f.prepared endings).startRun stages folder) kept last →
      Durable setting ((f.prepared endings).startRun stages folder) kept last := by
  have hpath : ((f.prepared endings).startRun stages folder).config.path = f.store.config.path :=
    congrArg FleetConfig.path (config_prepare f.store endings)
  refine ⟨fun t old hgrown hold => hgrown.content? hold, grown_prepare f.store endings,
    exists_keeping hfetching.reached, ?_⟩
  intro kept hkeeping
  refine durable_of_keeping ⟨rfl, rfl, rfl, Status.growing_nil (.refl _)⟩ nofun ?_ hclear hkeeping
  rw [hpath]
  exact hspares

/-!
## One member whose identifier may climb
-/

def documented (id : String) (logDir : Path) : Fleet Account :=
  let c := FleetConfig.new "demo" logDir "/fleetlog.yaml"
  let config := { c with
    limits := ⟨1000, 100, none⟩
    status := c.status.addInstance "a" ⟨id, "10.0.0.1", ""⟩ }
  ⟨⟨config, Tree.empty.put ["fleetlog.yaml"] (.file config.bytes false), []⟩, .zero, false⟩

theorem sound_documented (id : String) (logDir : Path) : (documented id logDir).store.tree.Sound :=
  Tree.sound_empty.put rfl rfl

theorem content?_fleetlog (data : Text.Bytes) :
    (Tree.empty.put ["fleetlog.yaml"] (.file data false)).content? "/fleetlog.yaml" =
    some data := by
  have htarget : Tree.empty.target "/fleetlog.yaml" = .ok ["fleetlog.yaml"] := by decide +kernel
  have hsame : Tree.empty.SameFolders (Tree.empty.put ["fleetlog.yaml"] (.file data false)) :=
    Tree.sameFolders_put rfl nofun
  exact Tree.content?_eq_some_iff.2
    ⟨_, false, Tree.target_eq_ok hsame htarget, rfl, by decide +kernel⟩

theorem content?_documented (id : String) (logDir : Path) :
    (documented id logDir).store.tree.content? "/fleetlog.yaml" =
      some (documented id logDir).store.config.bytes :=
  content?_fleetlog _

/-- Every document starts with the key of the fleet's name. -/
theorem head?_bytes (c : FleetConfig) : c.bytes.head? = some 110 := by
  have hkey : Yaml.keyText 0 "name" = "name:".toList := by decide +kernel
  have hstacked : ∀ text texts, ∃ more : List Char,
      Yaml.stacked 0 (("name:".toList ++ text) :: texts) = 'n' :: more := by
    intro text texts
    cases texts with
    | nil => exact ⟨_, rfl⟩
    | cons next others =>
        unfold Yaml.stacked Yaml.endLine
        split <;> exact ⟨_, rfl⟩
  have hdocument : ∃ more, c.document.toList = 'n' :: more := by
    unfold FleetConfig.document FleetConfig.toValue Yaml.Value.render
    rw [String.toList_ofList, if_neg (by simp [Yaml.Value.isLeaf]), Yaml.blockText,
      Yaml.entryTexts, hkey]
    · dsimp only
      obtain ⟨more, hmore⟩ := hstacked _ _
      rw [hmore]
      unfold Yaml.endLine
      split <;> exact ⟨_, rfl⟩
    · intro items hitems
      cases hitems
  obtain ⟨more, hmore⟩ := hdocument
  unfold FleetConfig.bytes Text.encode
  rw [hmore]
  rfl

def documentedLast : Option (State Account Float Rate.Millis) :=
  (((documented "i-1" "/logs").prepared ["x"]).startRun oneCommand "/logs/demo-logsx").steps
    rehearsed (List.replicate 8 (.work 0) ++ List.replicate 3 .receive)

theorem documentedLast_facts :
    (documentedLast.map fun s => (s.receiver, s.synced.length)) =
      some (.returned (.ok ⟨⟨1, 0, 1⟩, false⟩), 2) := by
  decide +kernel

theorem document_survives_single :
    ∃ last, (documented "i-1" "/logs").Fetching rehearsed oneCommand ["x"] "/logs/demo-logsx" last ∧
      last.tree.content? "/fleetlog.yaml" = some last.config.bytes := by
  obtain ⟨last, hlast, hfacts⟩ := Option.map_eq_some_iff.1 documentedLast_facts
  obtain ⟨hreceiver, -⟩ := Prod.mk.inj hfacts
  have hfetching : (documented "i-1" "/logs").Fetching rehearsed oneCommand ["x"]
      "/logs/demo-logsx" last := ⟨by decide +kernel, reaches_of_steps hlast⟩
  have hresult : last.receiver.result? = some (.ok ⟨⟨1, 0, 1⟩, false⟩) := by
    rw [hreceiver]
    rfl
  have hclear : KeepsClear rehearsed
      (((documented "i-1" "/logs").prepared ["x"]).startRun oneCommand "/logs/demo-logsx") :=
    keepsClear_of_plain_ids Script.canned.keepsFolders hfetching.prepared (sound_documented _ _)
      (Option.isSome_iff_exists.2 ⟨_, content?_documented "i-1" "/logs"⟩) (by decide +kernel)
  obtain ⟨-, -, ⟨kept, hkeeping⟩, hdurable⟩ :=
    document_survives hfetching (Script.canned.spares _) hclear
  exact ⟨last, hfetching, (hdurable kept hkeeping).returned _ hresult⟩

/-- The output's name goes on where the identifier has led. -/
def climbing : List Protocol.Stage :=
  [.fixed [⟨"uptime", "/../fleetlog.yaml", none⟩]]

def climber : Fleet Account :=
  let f := documented "../../d" "/d--"
  let c := f.store.config
  let config := { c with status := (c.status.record "a" "../../d" []).toOption.getD c.status }
  ⟨⟨config, Tree.empty.put ["fleetlog.yaml"] (.file config.bytes false), []⟩, .zero, false⟩

/-- A configuration, with its keys in an order in which none is written. -/
def otherDocument : String := "log_dir: /logs\nname: demo\n"

theorem otherDocument_ne_bytes (c : FleetConfig) : Text.encode otherDocument ≠ c.bytes := by
  intro hsame
  have hhead : (Text.encode otherDocument).head? = some 110 := by
    rw [hsame]
    exact head?_bytes c
  revert hhead
  decide +kernel

def answersDocument : Setting Account :=
  { rehearsed with
    connector := Script.connector { Script.canned with
      outputs := [("uptime", Text.encode otherDocument)] } }

def climberLast : Option (State Account Float Rate.Millis) :=
  ((climber.prepared ["x"]).startRun climbing "/d--/demo-logsx").steps answersDocument
    (List.replicate 8 (.work 0) ++ [.receive])

theorem climberLast_facts :
    (climberLast.map fun s =>
      (s.receiver, s.tree.content? "/fleetlog.yaml", s.config.status.collected,
        (FleetConfig.load s.tree "/fleetlog.yaml").toOption.map fun c => c.status.collected)) =
      some (.returned (.error (.duplicateInstance "a" "../../d")),
        some (Text.encode otherDocument), 1, some 0) := by
  decide +kernel

/--
An output that climbs out of the run's folder takes the place of the document.  What is
read back is a configuration that was never in memory.
-/
theorem document_overwritten :
    ∃ last, climber.Fetching answersDocument climbing ["x"] "/d--/demo-logsx" last ∧
      last.receiver.result? = some (.error (.duplicateInstance "a" "../../d")) ∧
      last.tree.content? "/fleetlog.yaml" ≠ climber.store.tree.content? "/fleetlog.yaml" ∧
      (∀ c : FleetConfig, last.tree.content? "/fleetlog.yaml" ≠ some c.bytes) ∧
      ∃ c, FleetConfig.load last.tree "/fleetlog.yaml" = .ok c ∧ c.status ≠ last.config.status := by
  obtain ⟨last, hlast, hfacts⟩ := Option.map_eq_some_iff.1 climberLast_facts
  simp only [Prod.mk.injEq] at hfacts
  obtain ⟨hreceiver, hcontent, hcollected, hloaded⟩ := hfacts
  have hother : ∀ c : FleetConfig, last.tree.content? "/fleetlog.yaml" ≠ some c.bytes := by
    intro c hsame
    exact otherDocument_ne_bytes c (Option.some.inj (hcontent.symm.trans hsame))
  refine ⟨last, ⟨by decide +kernel, reaches_of_steps hlast⟩, ?_, ?_, hother, ?_⟩
  · rw [hreceiver]
    rfl
  · rw [show climber.store.tree.content? "/fleetlog.yaml" = _ from content?_fleetlog _]
    exact hother _
  · cases hload : FleetConfig.load last.tree "/fleetlog.yaml" with
    | error fault =>
        rw [hload] at hloaded
        cases hloaded
    | ok c =>
        rw [hload] at hloaded
        refine ⟨c, rfl, ?_⟩
        intro hsame
        have hnone : c.status.collected = 0 := Option.some.inj hloaded
        rw [hsame, hcollected] at hnone
        cases hnone

end Fleet
end LogHarvest
