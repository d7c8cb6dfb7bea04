import LogHarvest.Proofs.Run.Outputs
import LogHarvest.Proofs.Run.Durability
import LogHarvest.Proofs.Tree.Holdings

/-!
# Outputs stay in the folder of the run

Hosts decide how units and files are called, and units go into file names as they
are.  A name may have slashes and dots, and so lead elsewhere.  But it starts with
the identifier of the instance, and if that has no slash, the first component of the
name is a name in the folder of the run.  Where there are no folders below that, a
path that goes on leads nowhere, and one that ends in a slash is no file.

So what is written is a file directly in the folder, under a name that is one
component, and every other name is refused before anything is written (`confined`).
-/

namespace LogHarvest

namespace Collector

def listed (c : Collector) : List Path :=
  match c.phase with
  | .between _ _ paths | .running _ _ paths | .saving _ _ _ paths => paths
  | .closing (.ok paths) | .finished (.ok paths) => paths
  | _ => []

theorem listed_proceed (c : Collector) (todo : List Errand) (paths : List Path) :
    ({ c with phase := proceed todo paths } : Collector).listed = paths := by
  cases todo <;> rfl

theorem mem_listed_resume {c : Collector} {answer : Response} {path : Path}
    (hmem : path ∈ (c.resume answer).listed) :
    path ∈ c.listed ∨ answer = .saved (.ok path) := by
  unfold resume at hmem
  split at hmem
  · cases hmem
  · cases hmem
  · rw [listed_proceed] at hmem
    cases hmem
  · cases hmem
  · rename_i hphase
    left
    rw [listed, hphase]
    exact hmem
  · cases hmem
  · rename_i errand rest paths output hphase
    left
    rw [listed, hphase]
    cases errand with
    | keep command => exact hmem
    | explore discovery =>
        unfold digest at hmem
        rwa [listed_proceed] at hmem
  · cases hmem
  · rename_i hphase
    rw [listed_proceed, List.mem_append, List.mem_singleton] at hmem
    rcases hmem with hearlier | rfl
    · left
      rw [listed, hphase]
      exact hearlier
    · exact Or.inr rfl
  · cases hmem
  · rename_i result hphase
    left
    rw [listed, hphase]
    cases result <;> exact hmem
  · exact Or.inl hmem

end Collector

namespace Run

namespace State

variable {σ α τ : Type} {setting : Setting σ} {folder : Path} {place : Place}

/-- What comes of an output: it is refused, or it goes into a file directly in the folder. -/
inductive Confined (folder : Path) (place : Place) (path : Path) (id : String) (t : Tree) :
    Except CollectFault Path × Tree → Prop
  | refused (cause : IoFault) :
      Confined folder place path id t (.error (.createFile path id cause), t)
  | inside {name : String} {result : Except CollectFault Path} {t' : Tree}
      (hname : Path.IsName name)
      (hpath : path = folder.join name) (htarget : t.target path = .ok (place ++ [name]))
      (hresult : result = .ok path ∨ ∃ cause, result = .error (.writeFile path id cause))
      (hothers : ∀ p, p ≠ place ++ [name] → t'.get? p = t.get? p) :
      Confined folder place path id t (result, t')

theorem Confined.exists_name {path saved : Path} {id : String} {t : Tree}
    {outcome : Except CollectFault Path × Tree}
    (hconfined : Confined folder place path id t outcome)
    (hok : outcome.1 = .ok saved) : ∃ name, Path.IsName name ∧ saved = folder.join name := by
  cases hconfined with
  | refused cause => cases hok
  | inside hname hpath _ hresult _ =>
      rcases hresult with rfl | ⟨cause, rfl⟩
      · cases hok
        exact ⟨_, hname, hpath⟩
      · cases hok

theorem confined_save {roster : List (String × Instance)} {first : Tree}
    {around : Surroundings σ} {w : Nat} {c : Collector} (hbare : first.Bare folder place)
    (hplaced : Placed roster folder first () around w c) (hid : '/' ∉ c.subject.id.toList)
    (name : String) (data : Text.Bytes) :
    Confined folder place (outputPath setting w c name) c.sink.id around.tree
      (setting.save w c.sink name data around.tree) := by
  set component := Artifact.shorten (setting.suffix w c.sink.claimed.length)
    (Artifact.namePrefix c.subject ++ name) with hcomponent
  have hpath : outputPath setting w c name = folder.join component := by
    unfold outputPath Artifact.Sink.pathFor
    rw [hplaced.folder, hplaced.mark]
  have hinside : ∀ {goal : Place} {created : Tree},
      around.tree.create (folder.join component) = .ok (goal, created) →
        Path.IsName component ∧ goal = place ++ [component] ∧
          ∀ p, p ≠ place ++ [component] → created.get? p = around.tree.get? p := by
    intro goal created hcreate
    obtain ⟨hopen, hcreated⟩ := Tree.create_eq_ok_iff.1 hcreate
    obtain ⟨hname, rfl⟩ := (hbare.of_sameFolders hplaced.folders).openForWriting
      (Artifact.opens_keptId hid) (Artifact.keptId_isPrefix_shorten c.subject _ name) hopen
    refine ⟨hname, rfl, fun p hother => ?_⟩
    rw [hcreated]
    exact Tree.get?_put_of_ne hother
  have hwrote := setting.wrote_save w c.sink name data around.tree
  rw [show c.sink.pathFor _ name = folder.join component from hpath] at hwrote
  rw [hpath]
  generalize setting.save w c.sink name data around.tree = result at hwrote
  cases hwrote with
  | refused hcreate => exact .refused _
  | emptied hcreate hflaw =>
      obtain ⟨hname, rfl, hothers⟩ := hinside hcreate
      exact .inside hname rfl (Tree.target_of_create hcreate) (.inr ⟨_, rfl⟩) hothers
  | filled hcreate hflaw =>
      obtain ⟨hname, rfl, hothers⟩ := hinside hcreate
      refine .inside hname rfl (Tree.target_of_create hcreate) (.inl rfl) fun p hother => ?_
      exact (Tree.get?_put_of_ne hother).trans (hothers p hother)

structure Inside (roster : List (String × Instance)) (folder : Path) (first : Tree) (g : Unit)
    (around : Surroundings σ) (w : Nat) (c : Collector) : Prop where
  placed : Placed roster folder first g around w c
  listed : '/' ∉ c.subject.id.toList → ∀ path ∈ c.listed,
    ∃ name, Path.IsName name ∧ path = folder.join name

theorem lasting_inside {roster : List (String × Instance)} {first : Tree}
    (hkeeps : setting.connector.KeepsFolders) (hbare : first.Bare folder place) :
    Lasting setting true (Inside roster folder first) where
  told := by
    intro _ before after w c answer hinside hanswer hstop
    obtain ⟨_, hplaced, hothers⟩ := (lasting_placed hkeeps).told hinside.placed hanswer hstop
    refine ⟨(), ⟨hplaced, fun hid path hpath => ?_⟩, fun v c' hv hother =>
      ⟨hothers v c' hv hother.placed, hother.listed⟩⟩
    rw [(c.sameTask_resume answer).subject] at hid
    rcases Collector.mem_listed_resume hpath with hearlier | hsaved
    · exact hinside.listed hid path hearlier
    · -- The only new path is that of an output that was not refused.
      cases hanswer with
      | @saved name data _ =>
          have hconfined : Confined folder place (outputPath setting w c name) _ _ _ :=
            confined_save hbare hinside.placed hid name data
          exact hconfined.exists_name (Response.saved.inj hsaved)
      | _ => cases hsaved
  unanswered := fun hinside hnever => by
    obtain ⟨g', hothers⟩ := (lasting_placed hkeeps).unanswered hinside.placed hnever
    exact ⟨g', fun v c' hv hother => ⟨hothers v c' hv hother.placed, hother.listed⟩⟩
  rewritten := fun hinside hrewritten =>
    ⟨(lasting_placed hkeeps).rewritten hinside.placed hrewritten, hinside.listed⟩

variable [Rate.Meter α τ] [LE τ] [DecidableLE τ]

/--
Whatever the hosts answer, a member whose identifier has no slash writes only files
directly in the folder of the run; an output that would go elsewhere is refused and
changes nothing.  What its record lists is the folder's path with one name behind it.
-/
theorem confined {store : FleetStore} {stages : List Protocol.Stage} {bucket : Rate.Bucket α τ}
    {now : τ} {calledOff : Bool} {remote : σ} {s : State σ α τ}
    (hkeeps : setting.connector.KeepsFolders) (hbare : store.tree.Bare folder place)
    (hreaches : (start store stages folder bucket now calledOff remote).Reaches setting s) :
    (∀ w c name data, s.collector? w = some c → '/' ∉ c.subject.id.toList →
        c.request = .save name data →
        Confined folder place (outputPath setting w c name) c.sink.id s.tree
            (setting.save w c.sink name data s.tree) ∧
          ((∀ component, s.tree.target (outputPath setting w c name) ≠ .ok (place ++ [component])) →
            ∃ cause, setting.save w c.sink name data s.tree =
              (.error (.createFile (outputPath setting w c name) c.sink.id cause), s.tree))) ∧
      ∀ w r sink paths, (w, r, sink) ∈ s.filed → '/' ∉ r.id.toList → r.outcome = .ok paths →
        ∀ path ∈ paths, ∃ name, Path.IsName name ∧ path = folder.join name := by
  have hstart : Carried (Inside store.config.status.roster folder store.tree)
      (start store stages folder bucket now calledOff remote) :=
    carried_start (g := ()) fun w group i hmember =>
      ⟨⟨.refl _, hmember, rfl, rfl⟩, fun _ => List.forall_mem_nil _⟩
  have hcarried := hstart.of_reaches (lasting_inside hkeeps hbare) (fun _ => rfl) hreaches
  constructor
  · intro w c name data hcollector hid _
    obtain ⟨_, hcarrying⟩ := hcarried.carrying
    have hconfined : Confined folder place (outputPath setting w c name) c.sink.id s.tree
        (setting.save w c.sink name data s.tree) :=
      confined_save hbare (hcarrying w c hcollector).placed hid name data
    refine ⟨hconfined, fun helsewhere => ?_⟩
    generalize setting.save w c.sink name data s.tree = result at hconfined
    cases hconfined with
    | refused cause => exact ⟨cause, rfl⟩
    | inside _ _ htarget _ _ => exact absurd htarget (helsewhere _)
  · intro w r sink paths hfiled hid hok path hpath
    obtain ⟨_, around, c, hinside, hrecord, -⟩ := hcarried.filed w r sink hfiled
    obtain ⟨hphase, -, hsubject⟩ := Collector.record?_eq_some_iff.1 hrecord
    rw [hsubject] at hid
    refine hinside.listed hid path ?_
    rw [Collector.listed, hphase, hok]
    exact hpath

end State
end Run

namespace Fleet

open Run State

variable {σ : Type}

theorem exists_bare_of_prepare {store : FleetStore} {endings : List String} {folder : Path}
    (hprepared : (prepare store endings).1 = .ok folder) (hsound : store.tree.Sound) :
    ∃ place, (prepare store endings).2.tree.Bare folder place := by
  obtain ⟨t, ht, -, hmake⟩ := exists_makeFolder_of_prepare hprepared hsound
  exact ht.exists_bare hmake

def climbingHost : Setting Account :=
  { rehearsed with
    connector := Script.connector { Script.canned with
      outputs := [(Protocol.listUnits, Text.encode "/../../x.service loaded active running X")] } }

def climbingHostState : Option (State Account Float Rate.Millis) :=
  (((documented "i-1" "/logs").prepared ["x"]).startRun [.discover .serviceUnits]
    "/logs/demo-logsx").steps climbingHost (List.replicate 7 (.work 0))

theorem climbingHostState_facts :
    (climbingHostState.bind fun s => (s.collector? 0).map fun c =>
      (c.subject.id, c.request, outputPath climbingHost 0 c "/../../x.service.out.log",
        c.sink.id, (s.tree.target "/logs/demo-logsx/i-1--/../../x.service.out.log").toOption)) =
      some ("i-1", .save "/../../x.service.out.log" (Text.encode cannedOutput),
        "/logs/demo-logsx/i-1--/../../x.service.out.log", "i-1", none) := by
  decide +kernel

theorem confined_climbingHost :
    ∃ s c cause, climbingHostState = some s ∧ s.collector? 0 = some c ∧
      climbingHost.save 0 c.sink "/../../x.service.out.log" (Text.encode cannedOutput) s.tree =
        (.error (.createFile "/logs/demo-logsx/i-1--/../../x.service.out.log" "i-1" cause),
          s.tree) := by
  obtain ⟨s, hs, hfacts⟩ := Option.bind_eq_some_iff.1 climbingHostState_facts
  obtain ⟨c, hcollector, hfacts⟩ := Option.map_eq_some_iff.1 hfacts
  simp only [Prod.mk.injEq] at hfacts
  obtain ⟨hid, hrequest, hpath, hsink, htarget⟩ := hfacts
  have hprepared : (prepare (documented "i-1" "/logs").store ["x"]).1 = .ok "/logs/demo-logsx" := by
    decide +kernel
  obtain ⟨place, hbare⟩ := exists_bare_of_prepare hprepared (sound_documented "i-1" "/logs")
  have hkeeps : climbingHost.connector.KeepsFolders := Script.keepsFolders _
  obtain ⟨hsaves, -⟩ := confined hkeeps hbare (reaches_of_steps hs)
  obtain ⟨-, helsewhere⟩ := hsaves 0 c _ _ hcollector (by rw [hid]; decide) hrequest
  obtain ⟨cause, hrefused⟩ := helsewhere fun component hgoal => by
    rw [hpath] at hgoal
    rw [hgoal] at htarget
    cases htarget
  rw [hpath, hsink] at hrefused
  exact ⟨s, c, cause, hs, hcollector, hrefused⟩

end Fleet
end LogHarvest
