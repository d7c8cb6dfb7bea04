import LogHarvest.Proofs.Collect.Filing
import LogHarvest.Proofs.Run.Carried
import LogHarvest.Proofs.Tree.Operations
import LogHarvest.Session.Rehearsal

/-!
# Which files two members share

The record of a success lists a file for each name that the sink of the member's
collector handed out, whatever the order of the moves.  Every collector has a sink
of its own, so what keeps the files of two members apart is the start of their
paths alone.  Members of two groups may have one identifier and one host name; then
they have the same start, and a name that both are given leads to one file.
-/

namespace LogHarvest
namespace Run

variable {σ : Type}

def Setting.pathFor (setting : Setting σ) (folder : Path) (w : Nat) (i : Instance) (n : Nat)
    (name : String) : Path :=
  Artifact.filePath folder i (setting.suffix w n) name

theorem Setting.wrote_save (setting : Setting σ) (w : Nat) (k : Artifact.Sink) (name : String)
    (data : Text.Bytes) (t : Tree) :
    Artifact.Sink.Wrote (k.pathFor (setting.suffix w k.claimed.length) name) k.id data t
      (setting.flaw w k.claimed.length) (setting.save w k name data t) := by
  unfold save
  exact k.wrote_write _ name data _ t

theorem Setting.save_eq_ok {setting : Setting σ} {w : Nat} {k : Artifact.Sink} {name : String}
    {data : Text.Bytes} {t : Tree} {path : Path}
    (hsave : (setting.save w k name data t).1 = .ok path) :
    path = k.pathFor (setting.suffix w k.claimed.length) name := by
  have hwrote := setting.wrote_save w k name data t
  generalize setting.save w k name data t = result at hwrote hsave
  cases hwrote with
  | refused hcreate => cases hsave
  | emptied hcreate hflaw => cases hsave
  | filled hcreate hflaw => exact (Except.ok.inj hsave).symm

namespace State

def Filed (setting : Setting σ) (roster : List (String × Instance)) (folder : Path)
    (_ : Unit) (_ : Surroundings σ) (w : Nat) (c : Collector) : Prop :=
  roster[w]? = some (c.group, c.subject) ∧ c.sink.folder = folder ∧
    c.sink.mark = Artifact.namePrefix c.subject ∧ c.Filing (setting.pathFor folder w c.subject)

theorem filed_of_answer {setting : Setting σ} {roster : List (String × Instance)} {folder : Path}
    {before after : Surroundings σ} {w : Nat} {c : Collector} {answer : Response}
    (hfiled : Filed setting roster folder () before w c)
    (hanswer : Answer setting w c before answer after) :
    Filed setting roster folder () after w (c.resume answer) := by
  obtain ⟨hmember, hfolder, hmark, hfiling⟩ := hfiled
  have htask := c.sameTask_resume answer
  unfold Filed
  rw [htask.group, htask.subject, htask.folder, htask.mark]
  refine ⟨hmember, hfolder, hmark, Collector.filing_resume hfiling ?_⟩
  intro path name data rest paths hsaved hphase
  cases hanswer with
  | saved hrequest =>
      have hrequest' : c.request = .save name data := by
        unfold Collector.request
        rw [hphase]
      rw [hrequest] at hrequest'
      cases hrequest'
      have hok := Response.saved.inj hsaved
      rw [Setting.save_eq_ok hok, Artifact.Sink.pathFor, hfolder, hmark]
      rfl
  | _ => cases hsaved

theorem lasting_filed (setting : Setting σ) (roster : List (String × Instance)) (folder : Path) :
    Lasting setting true (Filed setting roster folder) where
  told hfiled hanswer _ := ⟨(), filed_of_answer hfiled hanswer, fun _ _ _ hother => hother⟩
  unanswered _ _ := ⟨(), fun _ _ _ hother => hother⟩
  rewritten hfiled _ := hfiled

end State
end Run

namespace Fleet

open Run State

variable {σ : Type} {setting : Setting σ} {stages : List Protocol.Stage} {endings : List String}
  {f : Fleet σ} {folder : Path} {last : State σ Float Rate.Millis}

theorem paths_of_filed (hfetching : f.Fetching setting stages endings folder last) {w : Nat}
    {r : Record} {k : Artifact.Sink} {paths : List Path} (hfiled : (w, r, k) ∈ last.filed)
    (hok : r.outcome = .ok paths) :
    ∃ i, f.store.config.status.roster[w]? = some (r.group, i) ∧
      paths = Collector.pathsOf (setting.pathFor folder w i) k.claimed := by
  have hstart : Carried (Filed setting f.store.config.status.roster folder)
      ((f.prepared endings).startRun stages folder) := by
    refine carried_start (g := ()) ?_
    intro w group i hmember
    rw [prepared, config_prepare] at hmember
    exact ⟨hmember, rfl, rfl, rfl⟩
  -- The collector that handed the record over still had every name it was given in its sink.
  have hcarried := hstart.of_reaches (lasting_filed setting _ _) (fun _ => rfl) hfetching.reached
  obtain ⟨-, around, c, ⟨hmember, -, -, hfiling⟩, hrecord, hsink⟩ := hcarried.filed w r k hfiled
  obtain ⟨hphase, hgroup, -⟩ := Collector.record?_eq_some_iff.1 hrecord
  refine ⟨c.subject, ?_, ?_⟩
  · rw [hgroup]
    exact hmember
  · rw [← hsink]
    exact Collector.filing_of_phase hphase hfiling hok

/--
The records of two members share no file just in case no name of the one leads to the
path of a name of the other.  They share none if the starts of their paths are apart;
if their marks are equal, they share the file of every short name that both were given.
-/
theorem disjoint_paths_iff (hfetching : f.Fetching setting stages endings folder last)
    {v w : Nat} {r r' : Record} {k k' : Artifact.Sink} {ps qs : List Path}
    (hv : (v, r, k) ∈ last.filed) (hw : (w, r', k') ∈ last.filed)
    (hok : r.outcome = .ok ps) (hok' : r'.outcome = .ok qs) :
    ∃ i j, f.store.config.status.roster[v]? = some (r.group, i) ∧
      f.store.config.status.roster[w]? = some (r'.group, j) ∧
      ((∀ p ∈ ps, p ∉ qs) ↔ ∀ m n name name',
        k.claimed.reverse[m]? = some name → k'.claimed.reverse[n]? = some name' →
        setting.pathFor folder v i (m + 1) name ≠ setting.pathFor folder w j (n + 1) name') ∧
      (Artifact.Apart folder i j → ∀ p ∈ ps, p ∉ qs) ∧
      (Artifact.namePrefix i = Artifact.namePrefix j → ∀ name ∈ k.claimed, name ∈ k'.claimed →
        Artifact.isLong (Artifact.namePrefix i ++ name) = false →
        ∃ p ∈ ps, p ∈ qs) := by
  obtain ⟨i, hi, hps⟩ := paths_of_filed hfetching hv hok
  obtain ⟨j, hj, hqs⟩ := paths_of_filed hfetching hw hok'
  have hiff : (∀ p ∈ ps, p ∉ qs) ↔ ∀ m n name name',
      k.claimed.reverse[m]? = some name → k'.claimed.reverse[n]? = some name' →
      setting.pathFor folder v i (m + 1) name ≠ setting.pathFor folder w j (n + 1) name' := by
    constructor
    · intro hdisjoint m n name name' hm hn hsame
      have hp : setting.pathFor folder v i (m + 1) name ∈ ps := by
        rw [hps]
        exact Collector.mem_pathsOf.2 ⟨m, name, hm, rfl⟩
      have hq : setting.pathFor folder v i (m + 1) name ∈ qs := by
        rw [hqs, hsame]
        exact Collector.mem_pathsOf.2 ⟨n, name', hn, rfl⟩
      exact hdisjoint _ hp hq
    · intro hdifferent p hp hq
      rw [hps] at hp
      rw [hqs] at hq
      obtain ⟨m, name, hm, hpath⟩ := Collector.mem_pathsOf.1 hp
      obtain ⟨n, name', hn, hpath'⟩ := Collector.mem_pathsOf.1 hq
      exact hdifferent m n name name' hm hn (hpath.symm.trans hpath')
  refine ⟨i, j, hi, hj, hiff, ?_, ?_⟩
  · intro hapart
    refine hiff.2 ?_
    intro m n name name' _ _
    exact Artifact.filePath_ne_of_apart hapart _ _ _ _
  · intro hmark name hname hname' hshort
    obtain ⟨m, hm⟩ := List.mem_iff_getElem?.1 (List.mem_reverse.2 hname)
    obtain ⟨n, hn⟩ := List.mem_iff_getElem?.1 (List.mem_reverse.2 hname')
    refine ⟨setting.pathFor folder v i (m + 1) name, ?_, ?_⟩
    · rw [hps]
      exact Collector.mem_pathsOf.2 ⟨m, name, hm, rfl⟩
    · rw [hqs, Setting.pathFor, Artifact.filePath_eq_of_mark hmark hshort _ (setting.suffix w (n + 1))]
      exact Collector.mem_pathsOf.2 ⟨n, name, hn, rfl⟩

/-!
## One identifier in two groups
-/

def twins : Fleet Account :=
  let c := FleetConfig.new "demo" "/logs" "/fleetlog.yaml"
  let group := c.status.addInstance "a" ⟨"i-1", "10.0.0.1", ""⟩
  let config := { c with
    limits := ⟨1000, 100, none⟩
    status := group.addInstance "b" ⟨"i-1", "10.0.0.2", ""⟩ }
  ⟨⟨config, .empty, []⟩, .zero, false⟩

def rehearsed : Setting Account where
  connector := Script.canned.connector
  verbose := false
  suffix _ _ := ""
  flaw _ _ := none

def oneCommand : List Protocol.Stage :=
  [.fixed [⟨"uptime", "up.log", none⟩]]

def twinsLast : Option (State Account Float Rate.Millis) :=
  ((twins.prepared ["x"]).startRun oneCommand "/logs/demo-logsx").steps rehearsed
    (List.replicate 7 (.work 0) ++ List.replicate 7 (.work 1))

def twinsEntry (w : Nat) (group : String) : Nat × Record × Artifact.Sink :=
  (w, .success group "i-1" ["/logs/demo-logsx/i-1--up.log"],
    ⟨"/logs/demo-logsx", "i-1--", "i-1", ["up.log"]⟩)

theorem exists_twinsLast :
    ∃ last, twins.Fetching rehearsed oneCommand ["x"] "/logs/demo-logsx" last ∧
      last.filed = [twinsEntry 1 "b", twinsEntry 0 "a"] := by
  have hfiled : (twinsLast.map fun s => s.filed) = some [twinsEntry 1 "b", twinsEntry 0 "a"] := by
    decide +kernel
  obtain ⟨last, hlast, hfiled⟩ := Option.map_eq_some_iff.1 hfiled
  exact ⟨last, ⟨by decide +kernel, reaches_of_steps hlast⟩, hfiled⟩

theorem disjoint_paths_iff_twins :
    ∃ last, twins.Fetching rehearsed oneCommand ["x"] "/logs/demo-logsx" last ∧
      ∃ i j, twins.store.config.status.roster[0]? = some ("a", i) ∧
        twins.store.config.status.roster[1]? = some ("b", j) ∧
        ¬ Artifact.Apart "/logs/demo-logsx" i j := by
  obtain ⟨last, hfetching, hfiled⟩ := exists_twinsLast
  have ha : twinsEntry 0 "a" ∈ last.filed := by simp [hfiled]
  have hb : twinsEntry 1 "b" ∈ last.filed := by simp [hfiled]
  obtain ⟨i, j, hi, hj, -, hapart, -⟩ := disjoint_paths_iff hfetching ha hb rfl rfl
  refine ⟨last, hfetching, i, j, hi, hj, ?_⟩
  intro h
  exact hapart h _ List.mem_cons_self List.mem_cons_self

/-- Two members of one run list one file. -/
theorem twins_share_file :
    ¬ ∀ last v w r r' k k' ps qs,
      twins.Fetching rehearsed oneCommand ["x"] "/logs/demo-logsx" last → v ≠ w →
      (v, r, k) ∈ last.filed → (w, r', k') ∈ last.filed →
      r.outcome = .ok ps → r'.outcome = .ok qs → ∀ p ∈ ps, p ∉ qs := by
  intro hclaim
  obtain ⟨last, hfetching, hfiled⟩ := exists_twinsLast
  have ha : twinsEntry 0 "a" ∈ last.filed := by simp [hfiled]
  have hb : twinsEntry 1 "b" ∈ last.filed := by simp [hfiled]
  exact hclaim last 0 1 _ _ _ _ _ _ hfetching (by decide) ha hb rfl rfl _ List.mem_cons_self
    List.mem_cons_self

end Fleet
end LogHarvest
