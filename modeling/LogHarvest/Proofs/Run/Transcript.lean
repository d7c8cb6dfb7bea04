import LogHarvest.Proofs.Collect.Trace
import LogHarvest.Proofs.Run.Artifacts

/-!
# What the collectors of a run meet

In a run a collector gets its answers from the gate, from the connector and from the files,
and much else happens in between.  A `Transcript` is the list of the answers that it got.
Each of them can be looked up by its number, so they make up circumstances
(`circumstances`), and the collector is on the one way that these leave open
(`exists_circumstances`).
-/

namespace LogHarvest

def Fate.of : Except CollectFault Path → Fate
  | .error (.createFile _ _ cause) => .notCreated cause
  | .error (.writeFile _ _ cause) => .notFilled cause
  | _ => .kept

theorem Fate.of_result (id : String) (path : Path) (fate : Fate) :
    Fate.of (fate.result id path) = fate := by
  cases fate <;> rfl

namespace Response

def admitted? : Response → Option Bool
  | .passed => some true
  | .calledOff => some false
  | _ => none

def connection? : Response → Option (Except SessionFault Unit)
  | .connected result => some result
  | _ => none

def output? : Response → Option (Except SessionFault Text.Bytes)
  | .output result => some result
  | _ => none

def fate? : Response → Option Fate
  | .saved result => some (.of result)
  | _ => none

end Response

namespace Run

variable {σ : Type}

def Answered (setting : Setting σ) (w : Nat) (c : Collector) (answer : Response) : Prop :=
  (answer.admitted?.isSome = true → c.request = .gate) ∧
    ∃ before after, State.Answer setting w c before answer after

inductive Transcript (setting : Setting σ) (w : Nat) (first : Attempt) :
    List Response → Attempt → Prop
  | nothing : Transcript setting w first [] first
  | more {heard : List Response} {a : Attempt} {answer : Response} :
      Transcript setting w first heard a → Answered setting w a.collector answer →
      Transcript setting w first (heard ++ [answer]) (a.tell answer)

/-- The circumstances in which a worker's collector gets these answers. -/
def circumstances (setting : Setting σ) (w : Nat) (heard : List Response) : Circumstances where
  gate n := (heard.filterMap Response.admitted?)[n]?.getD true
  connect := (heard.filterMap Response.connection?)[0]?.getD (.ok ())
  output n := (heard.filterMap Response.output?)[n - 1]?.getD (.ok [])
  suffix := setting.suffix w
  fate n := (heard.filterMap Response.fate?)[n - 1]?.getD .kept

/-!
## Numbers of answers
-/

structure Heard (heard : List Response) (gates connections outputs fates : Nat) : Prop where
  gates : (heard.filterMap Response.admitted?).length = gates
  connections : (heard.filterMap Response.connection?).length = connections
  outputs : (heard.filterMap Response.output?).length = outputs
  fates : (heard.filterMap Response.fate?).length = fates

/-- The next answer of each kind has the number that the collector's phase says. -/
def Numbered (heard : List Response) (a : Attempt) : Prop :=
  let issued := a.issued.length
  let claimed := a.collector.sink.claimed.length
  match a.collector.phase with
  | .entering => Heard heard 0 0 0 0 ∧ issued = 0 ∧ claimed = 0
  | .connecting => Heard heard 1 0 0 0 ∧ issued = 0 ∧ claimed = 0
  | .between .. => Heard heard (issued + 1) 1 issued claimed
  | .running .. => ∃ n, issued = n + 1 ∧ Heard heard (n + 2) 1 n claimed
  | .saving .. => ∃ n, claimed = n + 1 ∧ Heard heard (issued + 1) 1 issued n
  | .closing _ | .finished _ => True

theorem filterMap_concat {β : Type} (f : Response → Option β) (heard : List Response)
    (answer : Response) :
    (heard ++ [answer]).filterMap f = heard.filterMap f ++ (f answer).toList := by
  rw [List.filterMap_append, List.filterMap_cons]
  cases f answer <;> rfl

theorem Heard.concat {heard : List Response} {gates connections outputs fates : Nat}
    (hheard : Heard heard gates connections outputs fates) (answer : Response) :
    Heard (heard ++ [answer]) (gates + answer.admitted?.toList.length)
      (connections + answer.connection?.toList.length) (outputs + answer.output?.toList.length)
      (fates + answer.fate?.toList.length) := by
  constructor
  case gates => rw [filterMap_concat, List.length_append, hheard.gates]
  case connections => rw [filterMap_concat, List.length_append, hheard.connections]
  case outputs => rw [filterMap_concat, List.length_append, hheard.outputs]
  case fates => rw [filterMap_concat, List.length_append, hheard.fates]

theorem numbered_proceed {heard : List Response} {c : Collector} {issued : List String}
    (hheard : Heard heard (issued.length + 1) 1 issued.length c.sink.claimed.length)
    (todo : List Errand) (paths : List Path) :
    Numbered heard (.inPhase c issued (Collector.proceed todo paths)) := by
  cases todo with
  | nil => exact trivial
  | cons errand rest => exact hheard

variable {setting : Setting σ} {w : Nat} {heard : List Response} {a : Attempt} {answer : Response}

theorem numbered_tell (hnumbered : Numbered heard a)
    (hanswered : Answered setting w a.collector answer) :
    Numbered (heard ++ [answer]) (a.tell answer) := by
  obtain ⟨⟨group, subject, stages, sink, phase⟩, issued⟩ := a
  obtain ⟨hgate, before, after, hanswer⟩ := hanswered
  -- Each answer is one to a single request, and adds one to the answers of its own kind.
  cases hanswer with
  | passed =>
      cases phase with
      | entering =>
          obtain ⟨hheard, hissued, hclaimed⟩ := hnumbered
          exact ⟨hheard.concat .passed, hissued, hclaimed⟩
      | between errand rest paths =>
          exact ⟨issued.length, List.length_append, Heard.concat hnumbered .passed⟩
      | _ => cases hgate rfl
  | calledOff =>
      cases phase with
      | entering => exact trivial
      | between errand rest paths => exact trivial
      | _ => cases hgate rfl
  | @connected result hrequest hverdict =>
      cases phase with
      | connecting =>
          obtain ⟨hheard, hissued, hclaimed⟩ := hnumbered
          cases result with
          | error cause => exact trivial
          | ok _ =>
              rw [Circumstances.tell_of_resume rfl (Circumstances.request_proceed _ _ _)]
              refine numbered_proceed ?_ _ _
              rw [hissued, hclaimed]
              exact hheard.concat (.connected (.ok ()))
      | _ => cases hrequest
  | @output line result hrequest hverdict =>
      cases phase with
      | running errand rest paths =>
          obtain ⟨n, hissued, hheard⟩ := hnumbered
          cases result with
          | error cause => exact trivial
          | ok output =>
              have hmore : Heard (heard ++ [.output (.ok output)]) (issued.length + 1) 1
                  issued.length sink.claimed.length := by
                rw [show issued.length = n + 1 from hissued]
                exact hheard.concat (.output (.ok output))
              cases errand with
              | keep command => exact ⟨sink.claimed.length, rfl, hmore⟩
              | explore discovery =>
                  rw [Circumstances.tell_of_resume rfl (Circumstances.request_proceed _ _ _)]
                  exact numbered_proceed hmore _ _
      | _ => cases hrequest
  | @saved name data hrequest =>
      cases phase with
      | saving name' data' rest paths =>
          cases hresult : (setting.save w sink name data before.tree).1 with
          | error fault => exact trivial
          | ok path =>
              obtain ⟨n, hclaimed, hheard⟩ := hnumbered
              rw [Circumstances.tell_of_resume rfl (Circumstances.request_proceed _ _ _)]
              refine numbered_proceed ?_ _ _
              rw [hclaimed]
              exact hheard.concat (.saved (.ok path))
      | _ => cases hrequest
  | closed hrequest =>
      cases phase with
      | closing result => exact trivial
      | _ => cases hrequest

variable {group : String} {i : Instance} {stages : List Protocol.Stage} {folder : Path}

theorem numbered_of_transcript
    (htranscript : Transcript setting w ⟨.new group i stages folder, []⟩ heard a) :
    Numbered heard a := by
  induction htranscript with
  | nothing => exact ⟨⟨rfl, rfl, rfl, rfl⟩, rfl, rfl⟩
  | more _ hanswered ih => exact numbered_tell ih hanswered

/-!
## Looking answers up
-/

theorem exists_fate_save (setting : Setting σ) (w : Nat) (sink : Artifact.Sink) (name : String)
    (data : Text.Bytes) (t : Tree) :
    ∃ fate : Fate, (setting.save w sink name data t).1 =
      fate.result sink.id (sink.pathFor (setting.suffix w sink.claimed.length) name) := by
  have hwrote := setting.wrote_save w sink name data t
  generalize setting.save w sink name data t = result at hwrote
  cases hwrote with
  | refused hcreate => exact ⟨.notCreated _, rfl⟩
  | emptied hcreate hflaw => exact ⟨.notFilled _, rfl⟩
  | filled hcreate hflaw => exact ⟨.kept, rfl⟩

theorem getElem?_filterMap {β : Type} {f : Response → Option β} {value : β} {n : Nat}
    (hvalue : f answer = some value) (hlength : (heard.filterMap f).length = n)
    (later : List Response) : ((heard ++ answer :: later).filterMap f)[n]? = some value := by
  rw [List.filterMap_append, List.filterMap_cons_some hvalue, ← hlength,
    List.getElem?_append_right (Nat.le_refl _), Nat.sub_self, List.getElem?_cons_zero]

theorem gateAnswer_circumstances {n : Nat} {passes : Bool}
    (hanswer : answer.admitted? = some passes)
    (hgates : (heard.filterMap Response.admitted?).length = n) (later : List Response) :
    (circumstances setting w (heard ++ answer :: later)).gateAnswer n = answer := by
  have hgate : (circumstances setting w (heard ++ answer :: later)).gate n = passes := by
    unfold circumstances
    dsimp only
    rw [getElem?_filterMap hanswer hgates, Option.getD_some]
  cases answer with
  | passed =>
      cases hanswer
      exact Circumstances.gateAnswer_of_true hgate
  | calledOff =>
      cases hanswer
      exact Circumstances.gateAnswer_of_false hgate
  | _ => cases hanswer

theorem connect_circumstances {result : Except SessionFault Unit}
    (hconnections : (heard.filterMap Response.connection?).length = 0) (later : List Response) :
    (circumstances setting w (heard ++ .connected result :: later)).connect = result := by
  unfold circumstances
  dsimp only
  rw [getElem?_filterMap (f := Response.connection?) rfl hconnections, Option.getD_some]

theorem output_circumstances {n : Nat} {result : Except SessionFault Text.Bytes}
    (houtputs : (heard.filterMap Response.output?).length = n) (later : List Response) :
    (circumstances setting w (heard ++ .output result :: later)).output (n + 1) = result := by
  unfold circumstances
  dsimp only
  rw [Nat.add_sub_cancel, getElem?_filterMap (f := Response.output?) rfl houtputs, Option.getD_some]

theorem fate_circumstances {n : Nat} {result : Except CollectFault Path}
    (hfates : (heard.filterMap Response.fate?).length = n) (later : List Response) :
    (circumstances setting w (heard ++ .saved result :: later)).fate (n + 1) = .of result := by
  unfold circumstances
  dsimp only
  rw [Nat.add_sub_cancel, getElem?_filterMap (f := Response.fate?) rfl hfates, Option.getD_some]

theorem answer?_circumstances (hnumbered : Numbered heard a)
    (hanswered : Answered setting w a.collector answer) (later : List Response) :
    (circumstances setting w (heard ++ answer :: later)).answer? a = some answer := by
  obtain ⟨⟨group, subject, stages, sink, phase⟩, issued⟩ := a
  obtain ⟨hgate, before, after, hanswer⟩ := hanswered
  cases hanswer with
  | passed =>
      cases phase with
      | entering => exact congrArg some (gateAnswer_circumstances rfl hnumbered.1.gates later)
      | between errand rest paths =>
          exact congrArg some (gateAnswer_circumstances rfl (Heard.gates hnumbered) later)
      | _ => cases hgate rfl
  | calledOff =>
      cases phase with
      | entering => exact congrArg some (gateAnswer_circumstances rfl hnumbered.1.gates later)
      | between errand rest paths =>
          exact congrArg some (gateAnswer_circumstances rfl (Heard.gates hnumbered) later)
      | _ => cases hgate rfl
  | @connected result hrequest hverdict =>
      cases phase with
      | connecting =>
          exact congrArg (some ∘ Response.connected)
            (connect_circumstances hnumbered.1.connections later)
      | _ => cases hrequest
  | @output line result hrequest hverdict =>
      cases phase with
      | running errand rest paths =>
          obtain ⟨n, hissued, hheard⟩ := hnumbered
          refine congrArg (some ∘ Response.output) ?_
          rw [show issued.length = n + 1 from hissued]
          exact output_circumstances hheard.outputs later
      | _ => cases hrequest
  | @saved name data hrequest =>
      cases phase with
      | saving name' data' rest paths =>
          obtain ⟨n, hclaimed, hheard⟩ := hnumbered
          cases hrequest
          obtain ⟨fate, hsave⟩ := exists_fate_save setting w sink name data before.tree
          rw [show (setting.save w _ name data before.tree).1 = _ from hsave]
          refine congrArg (fun fate : Fate => some (Response.saved (fate.result sink.id
            (sink.pathFor (setting.suffix w sink.claimed.length) name)))) ?_
          rw [Circumstances.fateIn, show sink.claimed.length = n + 1 from hclaimed,
            fate_circumstances hheard.fates, Fate.of_result]
      | _ => cases hrequest
  | closed hrequest =>
      cases phase with
      | closing result => rfl
      | _ => cases hrequest

/-- A transcript is the way that its circumstances leave open. -/
theorem leads_of_transcript
    (htranscript : Transcript setting w ⟨.new group i stages folder, []⟩ heard a)
    (later : List Response) :
    (circumstances setting w (heard ++ later)).Leads ⟨.new group i stages folder, []⟩ a := by
  induction htranscript generalizing later with
  | nothing => exact .here
  | @more heard a answer htranscript hanswered ih =>
      rw [List.append_assoc, List.singleton_append]
      refine (ih (answer :: later)).tell ?_
      exact answer?_circumstances (numbered_of_transcript htranscript) hanswered later

theorem cases_of_leads
    (htranscript : Transcript setting w ⟨.new group i stages folder, []⟩ heard a)
    {later : List Response} {b : Attempt}
    (hleads : (circumstances setting w (heard ++ later)).Leads
      ⟨.new group i stages folder, []⟩ b) :
    (circumstances setting w (heard ++ later)).Leads a b ∨
      ∃ answer, (circumstances setting w (heard ++ later)).answer? b = some answer ∧
        Answered setting w b.collector answer := by
  induction htranscript generalizing later with
  | nothing => exact Or.inl hleads
  | @more heard a answer htranscript hanswered ih =>
      have hnext := answer?_circumstances (numbered_of_transcript htranscript) hanswered later
      rw [List.append_assoc, List.singleton_append] at hleads ⊢
      rcases ih hleads with hlater | hearlier
      · rcases hlater.cases_first with rfl | ⟨answer', hanswer', hrest⟩
        · exact Or.inr ⟨answer, hnext, hanswered⟩
        · cases hnext.symm.trans hanswer'
          exact Or.inl hrest
      · exact Or.inr hearlier

/-!
## Collectors of a run
-/

theorem collector_tell (a : Attempt) (answer : Response) :
    (a.tell answer).collector = a.collector.resume answer := by
  unfold Attempt.tell
  dsimp only
  split <;> rfl

theorem resume_of_not_gate {c : Collector} (hnot : c.request ≠ .gate)
    (hgate : answer.admitted?.isSome = true) : c.resume answer = c := by
  obtain ⟨group, subject, stages, sink, phase⟩ := c
  cases phase with
  | entering => exact absurd rfl hnot
  | between errand rest paths => exact absurd rfl hnot
  | _ =>
      cases answer with
      | passed => rfl
      | calledOff => rfl
      | _ => cases hgate

theorem exists_transcript_resume {first : Attempt} {c : Collector} {issued : List String}
    (htranscript : Transcript setting w first heard ⟨c, issued⟩) {before after : Surroundings σ}
    (hanswer : State.Answer setting w c before answer after) :
    ∃ heard' issued', Transcript setting w first heard' ⟨c.resume answer, issued'⟩ := by
  by_cases hfits : answer.admitted?.isSome = true → c.request = .gate
  · have hmore := htranscript.more ⟨hfits, before, after, hanswer⟩
    rw [← collector_tell ⟨c, issued⟩ answer]
    exact ⟨_, _, hmore⟩
  · obtain ⟨hgate, hnot⟩ := Classical.not_imp.1 hfits
    rw [resume_of_not_gate hnot hgate]
    exact ⟨heard, issued, htranscript⟩

namespace State

def Transcribed (setting : Setting σ) (roster : List (String × Instance))
    (stages : List Protocol.Stage) (folder : Path) (_ : Unit) (_ : Surroundings σ) (w : Nat)
    (c : Collector) : Prop :=
  ∃ group i heard issued, roster[w]? = some (group, i) ∧
    Transcript setting w ⟨.new group i stages folder, []⟩ heard ⟨c, issued⟩

theorem lasting_transcribed (setting : Setting σ) (roster : List (String × Instance))
    (stages : List Protocol.Stage) (folder : Path) :
    Lasting setting true (Transcribed setting roster stages folder) where
  told := by
    rintro _ before after w c answer ⟨group, i, heard, issued, hmember, htranscript⟩ hanswer -
    obtain ⟨heard', issued', hmore⟩ := exists_transcript_resume htranscript hanswer
    exact ⟨(), ⟨group, i, heard', issued', hmember, hmore⟩, fun _ _ _ hother => hother⟩
  unanswered _ _ := ⟨(), fun _ _ _ hother => hother⟩
  rewritten htranscribed _ := htranscribed

end State
end Run

namespace Fleet

open Run State

variable {σ : Type} {setting : Setting σ} {stages : List Protocol.Stage} {endings : List String}
  {f : Fleet σ} {folder : Path} {last : State σ Float Rate.Millis}

/--
Every record that is handed over in a run is what its member's collector comes to in some
circumstances, and whatever the collector is told in these is an answer of the run.  So
what holds of collectors in all circumstances holds of the collectors of all runs.
-/
theorem exists_circumstances (hfetching : f.Fetching setting stages endings folder last) {w : Nat}
    {r : Record} {sink : Artifact.Sink} (hfiled : (w, r, sink) ∈ last.filed) :
    ∃ group i k issued, f.store.config.status.roster[w]? = some (group, i) ∧
      Circumstances.Ends k ⟨.new group i stages folder, []⟩ issued r ∧
      ∀ a answer, k.Leads ⟨.new group i stages folder, []⟩ a → k.answer? a = some answer →
        Answered setting w a.collector answer := by
  have hstart : Carried (Transcribed setting f.store.config.status.roster stages folder)
      ((f.prepared endings).startRun stages folder) := by
    refine carried_start (g := ()) ?_
    intro w group i hmember
    rw [prepared, config_prepare] at hmember
    exact ⟨group, i, [], [], hmember, .nothing⟩
  have hcarried := hstart.of_reaches (lasting_transcribed setting _ stages folder) (fun _ => rfl)
    hfetching.reached
  obtain ⟨-, -, c, ⟨group, i, heard, issued, hmember, htranscript⟩, hrecord, -⟩ :=
    hcarried.filed w r sink hfiled
  have hleads := leads_of_transcript htranscript []
  rw [List.append_nil] at hleads
  refine ⟨group, i, circumstances setting w heard, issued, hmember,
    Circumstances.ends_of_leads hleads hrecord, ?_⟩
  intro a answer ha hanswer
  rw [← List.append_nil heard] at ha hanswer
  rcases cases_of_leads htranscript ha with hlater | ⟨answer', hanswer', hanswered⟩
  · -- Nothing comes after the record.
    rcases hlater.cases_first with rfl | ⟨_, hnext, -⟩
    · rw [Circumstances.answer?_of_record? hrecord] at hanswer
      cases hanswer
    · rw [Circumstances.answer?_of_record? hrecord] at hnext
      cases hnext
  · cases hanswer.symm.trans hanswer'
    exact hanswered

end Fleet
end LogHarvest
