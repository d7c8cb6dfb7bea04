import LogHarvest.Proofs.Artifact.Distinct
import LogHarvest.Proofs.Run.Confinement
import LogHarvest.Proofs.Run.Solitary

/-!
# Every output has a file of its own

A collector that works on its own, in a folder where nothing is yet, overwrites nothing:
a name that it writes to was not used before.  So in the end the folder holds one file
for every output that was kept, with the bytes that the command returned, and these are
the files that the record lists (`preserved_of_filed`).

The names that the sink hands out are different.  That they stay different when they are
shortened, takes random letters that are like no others (`Artifact.Unmistakable`).
-/

namespace LogHarvest

/-- Whatever is asked of the hosts, nothing happens to the folder. -/
structure Connector.LeavesAlone {σ : Type} (connector : Connector σ) (folder : Path)
    (place : Place) : Prop where
  connect : ∀ w i (before : Surroundings σ),
    before.tree.SameWithin (connector.connect w i before).after.tree folder place
  run : ∀ w i line verbose (before : Surroundings σ),
    before.tree.SameWithin (connector.run w i line verbose before).after.tree folder place
  close : ∀ w i (before : Surroundings σ),
    before.tree.SameWithin (connector.close w i before).tree folder place

namespace Run

variable {σ : Type} {setting : Setting σ} {draw : Nat → String} {i : Instance} {folder : Path}
  {place : Place} {sink : Artifact.Sink} {outputs : List Text.Bytes} {paths : List Path} {t : Tree}

/-!
## Outputs and their files
-/

/-- The folder holds the outputs under the names that were handed out, and the paths are theirs. -/
structure Stored (draw : Nat → String) (folder : Path) (place : Place) (sink : Artifact.Sink)
    (outputs : List Text.Bytes) (paths : List Path) (t : Tree) : Prop where
  number : sink.claimed.length = outputs.length
  listed : paths = (Artifact.fileNames draw sink.names).map folder.join
  holds : t.Holds folder place ((Artifact.fileNames draw sink.names).zip outputs)

theorem Stored.of_sameWithin {t' : Tree} (hstored : Stored draw folder place sink outputs paths t)
    (hsame : t.SameWithin t' folder place) : Stored draw folder place sink outputs paths t' :=
  { hstored with holds := hstored.holds.of_sameWithin hsame }

theorem Stored.length_fileNames (hstored : Stored draw folder place sink outputs paths t) :
    (Artifact.fileNames draw sink.names).length = outputs.length := by
  rw [Artifact.length_fileNames, Artifact.Sink.length_names, hstored.number]

theorem Stored.map_fst (hstored : Stored draw folder place sink outputs paths t) :
    ((Artifact.fileNames draw sink.names).zip outputs).map Prod.fst =
      Artifact.fileNames draw sink.names :=
  List.map_fst_zip (Nat.le_of_eq hstored.length_fileNames)

theorem exists_create_of_save {w : Nat} {name : String} {data : Text.Bytes} {path : Path}
    (hsave : (setting.save w sink name data t).1 = .ok path) :
    ∃ goal created, t.create path = .ok (goal, created) ∧
      (setting.save w sink name data t).2 = created.fill goal data := by
  have hwrote := setting.wrote_save w sink name data t
  rw [← Setting.save_eq_ok hsave] at hwrote
  generalize setting.save w sink name data t = result at hwrote hsave
  cases hwrote with
  | refused hcreate => cases hsave
  | emptied hcreate hflaw => cases hsave
  | filled hcreate hflaw => exact ⟨_, _, hcreate, rfl⟩

theorem Stored.save {w : Nat} {commands : List Protocol.LogCommand} {name : String}
    {data : Text.Bytes} {path : Path}
    (hstored : Stored (setting.suffix w) folder place sink outputs paths t)
    (hid : '/' ∉ i.id.toList)
    (hsink : sink.adding name = (Artifact.Sink.new folder i).claimAll commands)
    (hunmistakable : Artifact.Unmistakable (setting.suffix w) (sink.adding name).names)
    (hsave : (setting.save w (sink.adding name) name data t).1 = .ok path) :
    Stored (setting.suffix w) folder place (sink.adding name) (outputs ++ [data]) (paths ++ [path])
      (setting.save w (sink.adding name) name data t).2 := by
  have htask := hsink.trans (Artifact.Sink.claimAll_eq _ _)
  have hfolder : sink.folder = folder := congrArg Artifact.Sink.folder htask
  have hmark : sink.mark = Artifact.namePrefix i := congrArg Artifact.Sink.mark htask
  set component := Artifact.shorten (setting.suffix w (sink.claimed.length + 1)) (sink.mark ++ name)
    with hcomponent
  have hnames : Artifact.fileNames (setting.suffix w) (sink.adding name).names =
      Artifact.fileNames (setting.suffix w) sink.names ++ [component] := by
    rw [Artifact.Sink.names_adding, Artifact.fileNames_concat, Artifact.Sink.length_names]
  have hnew : component ∉ Artifact.fileNames (setting.suffix w) sink.names := by
    have hclaimed : (sink.adding name).claimed.Nodup := by
      rw [hsink]
      exact Artifact.Sink.nodup_claimAll List.nodup_nil commands
    have hdistinct := Artifact.nodup_fileNames (Artifact.Sink.nodup_names hclaimed) hunmistakable
    rw [hnames, List.nodup_append_comm, List.singleton_append, List.nodup_cons] at hdistinct
    exact hdistinct.1
  have hpath : path = folder.join component := by
    rw [Setting.save_eq_ok hsave, Artifact.Sink.pathFor]
    rw [show (sink.adding name).folder = folder from hfolder]
    rfl
  obtain ⟨goal, created, hcreate, htree⟩ := exists_create_of_save hsave
  rw [hpath] at hcreate
  have hstarts : Artifact.keptId i <+: component.toList := by
    rw [hcomponent, hmark]
    exact Artifact.keptId_isPrefix_shorten i _ name
  rw [htree]
  constructor
  case number =>
    rw [List.length_append, ← hstored.number]
    rfl
  case listed =>
    rw [hnames, List.map_append, ← hstored.listed, hpath]
    rfl
  case holds =>
    rw [hnames, List.zip_append hstored.length_fileNames]
    refine hstored.holds.fill (Artifact.opens_keptId hid) hstarts ?_ hcreate data
    rw [hstored.map_fst]
    exact hnew

/-!
## Collectors
-/

/-- The folder holds the outputs that were kept, but for one that is being saved. -/
def Orderly (draw : Nat → String) (folder : Path) (place : Place)
    (kept : List (Protocol.LogCommand × Text.Bytes)) (c : Collector) (t : Tree) : Prop :=
  match c.phase with
  | .saving name data _ paths =>
      ∃ sink outputs, c.sink = sink.adding name ∧ kept.map Prod.snd = outputs ++ [data] ∧
        Stored draw folder place sink outputs paths t
  | .closing (.error _) | .finished (.error _) => True
  | _ => Stored draw folder place c.sink (kept.map Prod.snd) c.listed t

theorem Orderly.of_sameWithin {kept : List (Protocol.LogCommand × Text.Bytes)} {c : Collector}
    {t' : Tree} (horderly : Orderly draw folder place kept c t)
    (hsame : t.SameWithin t' folder place) :
    Orderly draw folder place kept c t' := by
  obtain ⟨group, subject, stages, sink, phase⟩ := c
  cases phase with
  | saving name data rest paths =>
      obtain ⟨sink, outputs, hsink, hkept, hstored⟩ := horderly
      exact ⟨sink, outputs, hsink, hkept, hstored.of_sameWithin hsame⟩
  | closing result =>
      cases result with
      | ok paths => exact Stored.of_sameWithin horderly hsame
      | error fault => exact trivial
  | finished result =>
      cases result with
      | ok paths => exact Stored.of_sameWithin horderly hsame
      | error fault => exact trivial
  | _ => exact Stored.of_sameWithin horderly hsame

theorem orderly_proceed {kept : List (Protocol.LogCommand × Text.Bytes)} {c : Collector}
    (hstored : Stored draw folder place c.sink (kept.map Prod.snd) paths t) (todo : List Errand) :
    Orderly draw folder place kept { c with phase := Collector.proceed todo paths } t := by
  cases todo <;> exact hstored

theorem Orderly.resume {kept : List (Protocol.LogCommand × Text.Bytes)} {w : Nat} {c : Collector}
    {before after : Surroundings σ} {answer : Response}
    (hleaves : setting.connector.LeavesAlone folder place) (hid : '/' ∉ i.id.toList)
    (hsink : c.sink = (Artifact.Sink.new folder i).claimAll (kept.map Prod.fst))
    (hunmistakable : Artifact.Unmistakable (setting.suffix w) c.sink.names)
    (horderly : Orderly (setting.suffix w) folder place kept c before.tree)
    (hanswer : State.Answer setting w c before answer after) :
    Orderly (setting.suffix w) folder place (kept ++ c.kept answer) (c.resume answer)
      after.tree := by
  obtain ⟨group, subject, stages, sink, phase⟩ := c
  -- An output that is kept waits to be saved; only when it is, the folder gets a file.
  cases hanswer with
  | passed =>
      rw [show Collector.kept _ .passed = [] from Collector.kept_eq_nil nofun, List.append_nil]
      cases phase <;> exact horderly
  | calledOff =>
      rw [show Collector.kept _ .calledOff = [] from Collector.kept_eq_nil nofun, List.append_nil]
      cases phase with
      | entering => exact trivial
      | between errand rest paths => exact trivial
      | _ => exact horderly
  | @connected result hrequest hverdict =>
      rw [show Collector.kept _ (.connected _) = [] from Collector.kept_eq_nil nofun,
        List.append_nil]
      cases phase with
      | connecting =>
          cases result with
          | error cause => exact trivial
          | ok _ =>
              have hstored := Stored.of_sameWithin horderly (hleaves.connect w subject before)
              exact orderly_proceed hstored (Errand.ofStages stages)
      | _ => cases hrequest
  | @output line result hrequest hverdict =>
      cases phase with
      | running errand rest paths =>
          have hstored := Stored.of_sameWithin horderly
            (hleaves.run w subject line setting.verbose before)
          cases result with
          | error cause => exact trivial
          | ok output =>
              cases errand with
              | keep command => exact ⟨sink, kept.map Prod.snd, rfl, List.map_append, hstored⟩
              | explore discovery =>
                  rw [show Collector.kept _ _ = [] from rfl, List.append_nil]
                  exact orderly_proceed hstored _
      | _ => cases hrequest
  | @saved name data hrequest =>
      rw [show Collector.kept _ (.saved _) = [] from Collector.kept_eq_nil nofun, List.append_nil]
      cases phase with
      | saving name' data' rest paths =>
          cases hrequest
          obtain ⟨earlier, outputs, hearlier, hkept, hstored⟩ := horderly
          obtain rfl : sink = earlier.adding name := hearlier
          cases hresult : (setting.save w (earlier.adding name) name data before.tree).1 with
          | error fault => exact trivial
          | ok path =>
              have hsaved := hstored.save hid hsink hunmistakable hresult
              rw [← hkept] at hsaved
              exact orderly_proceed hsaved rest
      | _ => cases hrequest
  | closed hrequest =>
      rw [show Collector.kept _ .closed = [] from Collector.kept_eq_nil nofun, List.append_nil]
      cases phase with
      | closing result =>
          have hclosed := horderly.of_sameWithin (hleaves.close w subject before)
          cases result <;> exact hclosed
      | _ => cases hrequest

theorem orderly_of_dialogue {group : String} {stages : List Protocol.Stage} {w : Nat} {remote : σ}
    {kept : List (Protocol.LogCommand × Text.Bytes)} {c : Collector} {around : Surroundings σ}
    (hleaves : setting.connector.LeavesAlone folder place) (hid : '/' ∉ i.id.toList)
    (hbare : t.Bare folder place) (hempty : t.filesBelow place = [])
    (hdialogue : Dialogue setting w (.new group i stages folder) ⟨remote, t⟩ kept c around)
    (hunmistakable : Artifact.Unmistakable (setting.suffix w) c.sink.names) :
    Orderly (setting.suffix w) folder place kept c around.tree := by
  induction hdialogue with
  | start => exact ⟨rfl, rfl, Tree.holds_nil hbare hempty⟩
  | @told kept c answer before after hdialogue hanswer ih =>
      have hearlier : Artifact.Unmistakable (setting.suffix w) c.sink.names := by
        rw [c.sink_resume answer] at hunmistakable
        exact hunmistakable.of_isPrefix (Artifact.Sink.names_isPrefix_claimAll _ _)
      exact (ih hearlier).resume hleaves hid (sink_of_dialogue hdialogue) hearlier hanswer

/-- The paths lead to the outputs, one for each, and there is nothing else in the folder. -/
structure Preserved (draw : Nat → String) (folder : Path) (place : Place) (sink : Artifact.Sink)
    (kept : List (Protocol.LogCommand × Text.Bytes)) (paths : List Path) (t : Tree) : Prop
    extends Stored draw folder place sink (kept.map Prod.snd) paths t where
  distinct : paths.Nodup
  count : (t.filesBelow place).length = paths.length ∧ kept.length = paths.length
  contents : ∀ (n : Nat) path, paths[n]? = some path →
    ∃ command output, kept[n]? = some (command, output) ∧ t.content? path = some output

theorem Stored.preserved {kept : List (Protocol.LogCommand × Text.Bytes)}
    (hstored : Stored draw folder place sink (kept.map Prod.snd) paths t)
    (hnodup : (Artifact.fileNames draw sink.names).Nodup) :
    Preserved draw folder place sink kept paths t := by
  have hnames := hstored.map_fst
  have hlength := hstored.length_fileNames
  rw [List.length_map] at hlength
  have hpaths := hstored.listed
  rw [← hnames] at hnodup
  refine { hstored with distinct := ?_, count := ⟨?_, ?_⟩, contents := ?_ }
  · rw [hpaths, ← hnames, List.map_map]
    exact hstored.holds.nodup_paths hnodup
  · rw [hstored.holds.below, hpaths]
    simp [hlength]
  · rw [hpaths, List.length_map, hlength]
  · intro n path hpath
    rw [hpaths, List.getElem?_map] at hpath
    obtain ⟨name, hname, rfl⟩ := Option.map_eq_some_iff.1 hpath
    have hn : n < kept.length := by
      rw [← hlength]
      exact (List.getElem?_eq_some_iff.1 hname).1
    refine ⟨kept[n].1, kept[n].2, List.getElem?_eq_getElem hn, hstored.holds.content? hnodup ?_⟩
    refine List.mem_of_getElem? (List.getElem?_zip_eq_some.2 ⟨hname, ?_⟩)
    rw [List.getElem?_map, List.getElem?_eq_getElem hn]
    rfl

namespace State

variable {α τ : Type} [Rate.Meter α τ] [LE τ] [DecidableLE τ]

/--
A collector on its own, whose member's identifier has no slash, starts in a folder where
nothing is.  If it succeeds, and the letters that were drawn for long names are like no
others, then every command whose output was kept has a file of its own, which has all
that the command returned; the record lists these files, and there are no others.
-/
theorem preserved_of_filed {group : String} {stages : List Protocol.Stage} {bucket : Rate.Bucket α τ}
    {now : τ} {calledOff : Bool} {remote : σ} {s : State σ α τ} {w : Nat} {r : Record}
    (hid : '/' ∉ i.id.toList) (hbare : t.Bare folder place) (hempty : t.filesBelow place = [])
    (hleaves : setting.connector.LeavesAlone folder place)
    (hreaches : (solo (.new group i stages folder) t bucket now calledOff remote).Reaches setting s)
    (hfiled : (w, r, sink) ∈ s.filed) (hok : r.outcome = .ok paths)
    (hunmistakable : Artifact.Unmistakable (setting.suffix w) sink.names) :
    ∃ kept c, Dialogue setting w (.new group i stages folder) ⟨remote, t⟩ kept c s.around ∧
      sink = (Artifact.Sink.new folder i).claimAll (kept.map Prod.fst) ∧
      Preserved (setting.suffix w) folder place sink kept paths s.tree := by
  obtain ⟨rfl, kept, c, hdialogue, hrecord, rfl⟩ := exists_dialogue_of_filed hreaches hfiled
  have hsink := sink_of_dialogue hdialogue
  have horderly := orderly_of_dialogue hleaves hid hbare hempty hdialogue hunmistakable
  obtain ⟨hphase, -, -⟩ := Collector.record?_eq_some_iff.1 hrecord
  have hstored : Stored (setting.suffix 0) folder place c.sink (kept.map Prod.snd) paths s.tree := by
    unfold Orderly Collector.listed at horderly
    rw [hphase, hok] at horderly
    exact horderly
  have hnodup : c.sink.claimed.Nodup := by
    rw [hsink]
    exact Artifact.Sink.nodup_claimAll List.nodup_nil _
  exact ⟨kept, c, hdialogue, hsink, hstored.preserved
    (Artifact.nodup_fileNames (Artifact.Sink.nodup_names hnodup) hunmistakable)⟩

end State
end Run

namespace Script

theorem leavesAlone (s : Script) (folder : Path) (place : Place) :
    s.connector.LeavesAlone folder place where
  connect _ i before := by
    show before.tree.SameWithin (s.connect i before).after.tree folder place
    rw [s.tree_connect i before]
    exact .refl _ _ _
  run _ i line _ before := by
    show before.tree.SameWithin (s.run i line before).after.tree folder place
    rw [s.tree_run i line before]
    exact .refl _ _ _
  close _ _ _ := .refl _ _ _

end Script

namespace Fleet

open Run State

def clashingHost : Setting Account :=
  { rehearsed with
    connector := Script.connector { Script.canned with
      outputs := [("uptime", Text.encode "up 3 days"), ("uname", Text.encode "Linux"),
        (Protocol.listLogFiles, Text.encode "/var/log/messages\n/var/log/old/messages\n"),
        ("sudo cat /var/log/messages", Text.encode "booted"),
        ("sudo cat /var/log/old/messages", Text.encode "halted")] } }

def clashingStages : List Protocol.Stage :=
  [.fixed [⟨"uptime", "messages", none⟩, ⟨"uname", "messages", none⟩], .discover .varLogFiles]

def clashingTree : Tree :=
  Tree.empty.put ["run"] .folder

theorem bare_clashingTree : clashingTree.Bare "/run" ["run"] where
  target := by decide +kernel
  noFolder name := by
    rw [clashingTree, Tree.hasFolder, Tree.get?_put_of_ne (by simp)]
    rfl

def clashingStart : State Account Rat Rat :=
  .solo (.new "a" ⟨"i-1", "10.0.0.1", ""⟩ clashingStages "/run") clashingTree (.full 1000 100 0) 0
    false .zero

def clashingPaths : List Path :=
  ["/run/i-1--messages", "/run/i-1--messages.1", "/run/i-1--var-log-messages",
    "/run/i-1--var-log-old-messages"]

def clashingSink : Artifact.Sink :=
  ⟨"/run", "i-1--", "i-1", ["var-log-old-messages", "var-log-messages", "messages.1", "messages"]⟩

theorem clashing_facts :
    ((clashingStart.steps clashingHost (List.replicate 17 (.work 0))).map fun s => s.filed) =
      some [(0, .success "a" "i-1" clashingPaths, clashingSink)] := by
  decide +kernel

theorem preserved_clashingHost :
    ∃ s kept, clashingStart.Reaches clashingHost s ∧
      Preserved (clashingHost.suffix 0) "/run" ["run"] clashingSink kept clashingPaths s.tree := by
  obtain ⟨s, hs, hfiled⟩ := Option.map_eq_some_iff.1 clashing_facts
  have hreaches := reaches_of_steps hs
  have hshort : ∀ x ∈ clashingSink.names.zipIdx 1, ¬ Artifact.isLong x.1 = true := by decide +kernel
  obtain ⟨kept, -, -, -, hpreserved⟩ := preserved_of_filed (by decide) bare_clashingTree rfl
    (Script.leavesAlone _ _ _) hreaches (hfiled ▸ List.mem_singleton_self _) rfl
    ⟨fun x hx hlong => absurd hlong (hshort x hx), fun x hx _ _ hlong => absurd hlong (hshort x hx),
      fun x hx _ _ hlong => absurd hlong (hshort x hx)⟩
  exact ⟨s, kept, hreaches, hpreserved⟩

end Fleet
end LogHarvest
