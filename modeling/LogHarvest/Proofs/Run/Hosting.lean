import LogHarvest.Proofs.Collect.Filing
import LogHarvest.Proofs.Run.Alone
import LogHarvest.Proofs.Run.Carried

/-!
# Collectors that do not disturb each other

The hosts behind a connector answer by what was issued in a session, and the folders
of the program are none of their business.  Then it does not matter to a collector
what others do meanwhile: as long as nobody calls the run off, what it comes to is
what it comes to alone.

The sessions that are open, and what was issued in them, are no part of any state.
`Hosts.Behind` says how a state of the connector stands to them, and every answer
says what becomes of them.
-/

namespace LogHarvest

def Collector.Holds (c : Collector) (session : Option (List String)) : Prop :=
  match c.phase with
  | .entering | .connecting => session = none
  | .between .. | .running .. | .saving .. | .closing _ => session.isSome = true
  | .finished _ => True

namespace Run

variable {σ : Type}

abbrev Sessions := Nat → Option (List String)

def Sessions.set (sessions : Sessions) (w : Nat) (session : Option (List String)) : Sessions :=
  fun v => if v = w then session else sessions v

theorem Sessions.set_self (sessions : Sessions) (w : Nat) (session : Option (List String)) :
    sessions.set w session w = session :=
  if_pos rfl

theorem Sessions.set_of_ne (sessions : Sessions) {v w : Nat} (hne : v ≠ w)
    (session : Option (List String)) : sessions.set w session v = sessions v :=
  if_neg hne

/--
The hosts of members are behind a connector: to connect and to run a command gives
their answers, to the members that have no session and that have one, and no call
touches a folder.  `view` relates the states of the connector to the open sessions.
-/
structure Hosts.Behind (hosts : Hosts) (setting : Setting σ) (roster : List (String × Instance))
    (view : σ → Sessions → Prop) : Prop where
  connect : ∀ {before : Surroundings σ} {sessions : Sessions} {w : Nat} {group : String}
    {i : Instance} {result : Except SessionFault Unit}, view before.state sessions →
    roster[w]? = some (group, i) → sessions w = none →
    (setting.connector.connect w i before).verdict = .now result →
    result = hosts.connect i ∧ view (setting.connector.connect w i before).after.state
      (sessions.set w (result.toOption.map fun _ => []))
  run : ∀ {before : Surroundings σ} {sessions : Sessions} {w : Nat} {group : String}
    {i : Instance} {issued : List String} {line : String}
    {result : Except SessionFault Text.Bytes}, view before.state sessions →
    roster[w]? = some (group, i) → sessions w = some issued →
    (setting.connector.run w i line setting.verbose before).verdict = .now result →
    result = hosts.run i issued line ∧
      view (setting.connector.run w i line setting.verbose before).after.state
        (sessions.set w (some (issued ++ [line])))
  close : ∀ {before : Surroundings σ} {sessions : Sessions} {w : Nat} {group : String}
    {i : Instance} {issued : List String}, view before.state sessions →
    roster[w]? = some (group, i) → sessions w = some issued →
    view (setting.connector.close w i before).state (sessions.set w none)
  /-- A call that is never answered is lost to its own session only. -/
  connectLost : ∀ {before : Surroundings σ} {sessions : Sessions} {w : Nat} {group : String}
    {i : Instance}, view before.state sessions → roster[w]? = some (group, i) →
    sessions w = none → (setting.connector.connect w i before).verdict = .never →
    ∃ session, view (setting.connector.connect w i before).after.state (sessions.set w session)
  runLost : ∀ {before : Surroundings σ} {sessions : Sessions} {w : Nat} {group : String}
    {i : Instance} {issued : List String} {line : String}, view before.state sessions →
    roster[w]? = some (group, i) → sessions w = some issued →
    (setting.connector.run w i line setting.verbose before).verdict = .never →
    ∃ session, view (setting.connector.run w i line setting.verbose before).after.state
      (sessions.set w session)
  connectFolders : ∀ w i (before : Surroundings σ),
    before.tree.SameFolders (setting.connector.connect w i before).after.tree
  runFolders : ∀ w i line (before : Surroundings σ),
    before.tree.SameFolders (setting.connector.run w i line setting.verbose before).after.tree
  closeFolders : ∀ w i (before : Surroundings σ),
    before.tree.SameFolders (setting.connector.close w i before).tree

/-!
## Sessions and phases
-/

section Holding

variable {c : Collector} {session : Option (List String)}

theorem holds_proceed (todo : List Errand) (paths : List Path) (issued : List String) :
    ({ c with phase := Collector.proceed todo paths } : Collector).Holds (some issued) := by
  cases todo <;> rfl

theorem holds_passed (hholds : c.Holds session) : (c.resume .passed).Holds session := by
  obtain ⟨group, i, stages, sink, phase⟩ := c
  cases phase <;> exact hholds

theorem eq_none_of_holds (hrequest : c.request = .connect) (hholds : c.Holds session) :
    session = none := by
  obtain ⟨group, i, stages, sink, phase⟩ := c
  cases phase with
  | connecting => exact hholds
  | _ => cases hrequest

theorem isSome_of_holds (hrequest : (∃ line, c.request = .run line) ∨ c.request = .close)
    (hholds : c.Holds session) : ∃ issued, session = some issued := by
  obtain ⟨group, i, stages, sink, phase⟩ := c
  cases phase with
  | running => exact Option.isSome_iff_exists.1 hholds
  | closing => exact Option.isSome_iff_exists.1 hholds
  | _ => rcases hrequest with ⟨line, hrun⟩ | hclose <;> contradiction

theorem holds_connected (hrequest : c.request = .connect) (result : Except SessionFault Unit) :
    (c.resume (.connected result)).Holds (result.toOption.map fun _ => []) := by
  obtain ⟨group, i, stages, sink, phase⟩ := c
  cases phase with
  | connecting =>
      cases result with
      | error cause => trivial
      | ok _ => exact holds_proceed (c := ⟨group, i, stages, sink, .connecting⟩) _ _ _
  | _ => cases hrequest

theorem holds_output {line : String} (hrequest : c.request = .run line)
    (result : Except SessionFault Text.Bytes) (issued : List String) :
    (c.resume (.output result)).Holds (some issued) := by
  obtain ⟨group, i, stages, sink, phase⟩ := c
  cases phase with
  | running errand rest paths =>
      cases result with
      | error cause => rfl
      | ok output =>
          cases errand with
          | keep command => rfl
          | explore discovery =>
              exact holds_proceed
                (c := ⟨group, i, stages, sink, .running (.explore discovery) rest paths⟩) _ _ _
  | _ => cases hrequest

theorem holds_saved {name : String} {data : Text.Bytes} (hrequest : c.request = .save name data)
    (hholds : c.Holds session) (result : Except CollectFault Path) :
    (c.resume (.saved result)).Holds session := by
  obtain ⟨group, i, stages, sink, phase⟩ := c
  cases phase with
  | saving name data rest paths =>
      obtain ⟨issued, rfl⟩ := Option.isSome_iff_exists.1 hholds
      cases result with
      | error fault => rfl
      | ok path =>
          exact holds_proceed (c := ⟨group, i, stages, sink, .saving name data rest paths⟩) _ _ _
  | _ => cases hrequest

theorem holds_closed (hrequest : c.request = .close) : (c.resume .closed).Holds session := by
  obtain ⟨group, i, stages, sink, phase⟩ := c
  cases phase with
  | closing result => trivial
  | _ => cases hrequest

end Holding

/-!
## Everybody is on course
-/

namespace State

/-- A collector will come to what it comes to alone, among the folders of the first tree. -/
structure OnCourse (hosts : Hosts) (setting : Setting σ) (roster : List (String × Instance))
    (view : σ → Sessions → Prop) (stages : List Protocol.Stage) (folder : Path) (first : Tree)
    (sessions : Sessions) (around : Surroundings σ) (w : Nat) (c : Collector) : Prop where
  view : view around.state sessions
  folders : first.SameFolders around.tree
  member : roster[w]? = some (c.group, c.subject)
  holds : c.Holds (sessions w)
  prospect : (prospect hosts setting w c ((sessions w).getD []) first).toOption =
    (alone hosts setting w c.subject stages folder first).toOption

variable {hosts : Hosts} {setting : Setting σ} {roster : List (String × Instance)}
  {view : σ → Sessions → Prop} {stages : List Protocol.Stage} {folder : Path} {first : Tree}
  {sessions : Sessions} {before after : Surroundings σ} {w : Nat} {c : Collector}

theorem onCourse_new {group : String} {i : Instance} {remote : σ} {tree : Tree}
    (hview : view remote fun _ => none) (hmember : roster[w]? = some (group, i)) :
    OnCourse hosts setting roster view stages folder tree (fun _ => none) ⟨remote, tree⟩ w
      (.new group i stages folder) :=
  ⟨hview, .refl tree, hmember, rfl, rfl⟩

theorem OnCourse.beside (hcourse : OnCourse hosts setting roster view stages folder first sessions
    before w c) {v : Nat} (hne : w ≠ v) {session : Option (List String)}
    (hview : view after.state (sessions.set v session))
    (hfolders : before.tree.SameFolders after.tree) :
    OnCourse hosts setting roster view stages folder first (sessions.set v session) after w c where
  view := hview
  folders := hcourse.folders.trans hfolders
  member := hcourse.member
  holds := by
    rw [sessions.set_of_ne hne]
    exact hcourse.holds
  prospect := by
    rw [sessions.set_of_ne hne]
    exact hcourse.prospect

theorem OnCourse.among (hcourse : OnCourse hosts setting roster view stages folder first sessions
    before w c) {tree : Tree} (hfolders : before.tree.SameFolders tree) :
    OnCourse hosts setting roster view stages folder first sessions ⟨before.state, tree⟩ w c :=
  { hcourse with folders := hcourse.folders.trans hfolders }

theorem OnCourse.resume (hcourse : OnCourse hosts setting roster view stages folder first sessions
    before w c) {answer : Response} {sessions' : Sessions}
    (hview : view after.state sessions') (hfolders : before.tree.SameFolders after.tree)
    (hholds : (c.resume answer).Holds (sessions' w))
    (hprospect : (Run.prospect hosts setting w (c.resume answer) ((sessions' w).getD [])
        first).toOption =
      (Run.prospect hosts setting w c ((sessions w).getD []) first).toOption) :
    OnCourse hosts setting roster view stages folder first sessions' after w (c.resume answer) := by
  have htask := c.sameTask_resume answer
  refine ⟨hview, hcourse.folders.trans hfolders, ?_, hholds, ?_⟩
  · rw [htask.group, htask.subject]
    exact hcourse.member
  · rw [htask.subject, hprospect]
    exact hcourse.prospect

theorem onCourse_of_answer (hbehind : hosts.Behind setting roster view)
    (hcourse : OnCourse hosts setting roster view stages folder first sessions before w c)
    {answer : Response} (hanswer : Answer setting w c before answer after)
    (hcalm : answer ≠ .calledOff) :
    ∃ sessions', OnCourse hosts setting roster view stages folder first sessions' after w
        (c.resume answer) ∧
      ∀ v c', v ≠ w →
        OnCourse hosts setting roster view stages folder first sessions before v c' →
        OnCourse hosts setting roster view stages folder first sessions' after v c' := by
  cases hanswer with
  | passed =>
      refine ⟨sessions, hcourse.resume hcourse.view (.refl _) (holds_passed hcourse.holds) ?_,
        fun _ _ _ hother => hother⟩
      rw [prospect_passed]
  | calledOff => exact absurd rfl hcalm
  | connected hrequest hverdict =>
      have hnone := eq_none_of_holds hrequest hcourse.holds
      obtain ⟨rfl, hview⟩ := hbehind.connect hcourse.view hcourse.member hnone hverdict
      have hfolders := hbehind.connectFolders w c.subject before
      refine ⟨_, hcourse.resume hview hfolders ?_ ?_,
        fun v c' hv hother => hother.beside hv hview hfolders⟩
      · rw [Sessions.set_self]
        exact holds_connected hrequest _
      · have hnothing : ((hosts.connect c.subject).toOption.map fun _ => ([] : List String)).getD []
            = [] := by
          cases (hosts.connect c.subject).toOption <;> rfl
        rw [Sessions.set_self, hnothing, prospect_connected hrequest]
  | @output line _ hrequest hverdict =>
      obtain ⟨issued, hissued⟩ := isSome_of_holds (Or.inl ⟨_, hrequest⟩) hcourse.holds
      obtain ⟨rfl, hview⟩ := hbehind.run hcourse.view hcourse.member hissued hverdict
      have hfolders := hbehind.runFolders w c.subject line before
      refine ⟨_, hcourse.resume hview hfolders ?_ ?_,
        fun v c' hv hother => hother.beside hv hview hfolders⟩
      · rw [Sessions.set_self]
        exact holds_output hrequest _ _
      · rw [Sessions.set_self, hissued]
        exact congrArg Except.toOption (prospect_output hrequest)
  | @saved name data hrequest =>
      -- The others see one more file, or another text in one, but no other folder.
      have hfolders : before.tree.SameFolders (setting.save w c.sink name data before.tree).2 :=
        Progress.sameFolders_save c.sink name data before.tree
      exact ⟨sessions, hcourse.resume hcourse.view hfolders (holds_saved hrequest hcourse.holds _)
        (prospect_saved hrequest hcourse.folders), fun _ _ _ hother => hother.among hfolders⟩
  | closed hrequest =>
      obtain ⟨issued, hissued⟩ := isSome_of_holds (Or.inr hrequest) hcourse.holds
      have hview := hbehind.close hcourse.view hcourse.member hissued
      have hfolders := hbehind.closeFolders w c.subject before
      refine ⟨_, hcourse.resume hview hfolders (holds_closed hrequest) ?_,
        fun v c' hv hother => hother.beside hv hview hfolders⟩
      exact congrArg Except.toOption (prospect_closed hrequest _)

theorem onCourse_of_unanswered (hbehind : hosts.Behind setting roster view)
    (hcourse : OnCourse hosts setting roster view stages folder first sessions before w c)
    (hunanswered : Unanswered setting w c before after) :
    ∃ sessions', ∀ v c', v ≠ w →
      OnCourse hosts setting roster view stages folder first sessions before v c' →
      OnCourse hosts setting roster view stages folder first sessions' after v c' := by
  cases hunanswered with
  | connect hrequest hverdict =>
      have hnone := eq_none_of_holds hrequest hcourse.holds
      obtain ⟨session, hview⟩ :=
        hbehind.connectLost hcourse.view hcourse.member hnone hverdict
      exact ⟨_, fun v c' hv hother => hother.beside hv hview (hbehind.connectFolders w _ before)⟩
  | run hrequest hverdict =>
      obtain ⟨issued, hissued⟩ := isSome_of_holds (Or.inl ⟨_, hrequest⟩) hcourse.holds
      obtain ⟨session, hview⟩ := hbehind.runLost hcourse.view hcourse.member hissued hverdict
      exact ⟨_, fun v c' hv hother => hother.beside hv hview (hbehind.runFolders w _ _ before)⟩

theorem lasting_onCourse (hbehind : hosts.Behind setting roster view) :
    Lasting setting false (OnCourse hosts setting roster view stages folder first) where
  told hcourse hanswer hcalm :=
    onCourse_of_answer hbehind hcourse hanswer (fun hcalledOff => by cases hcalm hcalledOff)
  unanswered := onCourse_of_unanswered hbehind
  rewritten hcourse hrewritten := hcourse.among (sameFolders_of_rewritten hrewritten)

theorem OnCourse.record (hcourse : OnCourse hosts setting roster view stages folder first sessions
    before w c) {r : Record} (hrecord : c.record? = some r) :
    ∃ i, roster[w]? = some (r.group, i) ∧ r.id = i.id ∧
      r.outcome.toOption = (alone hosts setting w i stages folder first).toOption := by
  obtain ⟨hphase, hgroup, hid⟩ := Collector.record?_eq_some_iff.1 hrecord
  refine ⟨c.subject, ?_, hid, ?_⟩
  · rw [hgroup]
    exact hcourse.member
  · have hprospect := hcourse.prospect
    unfold Run.prospect at hprospect
    rw [hphase] at hprospect
    exact hprospect

variable {α τ : Type}

theorem carried_onCourse_start {store : FleetStore} {bucket : Rate.Bucket α τ} {now : τ}
    {calledOff : Bool} {remote : σ} (hview : view remote fun _ => none) :
    Carried (OnCourse hosts setting store.config.status.roster view stages folder store.tree)
      (start store stages folder bucket now calledOff remote) :=
  carried_start fun _ _ _ hmember => onCourse_new hview hmember

theorem carried_onCourse_solo {group : String} {i : Instance} {tree : Tree}
    {bucket : Rate.Bucket α τ} {now : τ} {calledOff : Bool} {remote : σ}
    (hview : view remote fun _ => none) :
    Carried (OnCourse hosts setting [(group, i)] view stages folder tree)
      (solo (.new group i stages folder) tree bucket now calledOff remote) where
  carrying := by
    refine ⟨fun _ => none, ?_⟩
    intro w c hcollector
    cases w with
    | zero =>
        cases hcollector
        exact onCourse_new hview rfl
    | succ w => cases hcollector
  filed := by
    intro w r k hmem
    cases hmem

variable [Rate.Meter α τ] [LE τ] [DecidableLE τ]

/-- What a run that nobody calls off files is what every instance comes to alone. -/
theorem outcome_of_filed {s s' : State σ α τ} (hbehind : hosts.Behind setting roster view)
    (hstart : Carried (OnCourse hosts setting roster view stages folder first) s)
    (hreaches : s.Reaches setting s') (hcalm : s'.calledOff = false) {r : Record}
    {k : Artifact.Sink} (hfiled : (w, r, k) ∈ s'.filed) :
    ∃ i, roster[w]? = some (r.group, i) ∧ r.id = i.id ∧
      r.outcome.toOption = (alone hosts setting w i stages folder first).toOption := by
  have hcarried := hstart.of_reaches (lasting_onCourse hbehind)
    (fun hcalledOff => by rw [hcalm] at hcalledOff; exact hcalledOff) hreaches
  obtain ⟨sessions, around, c, hcourse, hrecord, -⟩ := hcarried.filed w r k hfiled
  exact hcourse.record hrecord

theorem outcome_of_solo {group : String} {i : Instance} {tree : Tree} {bucket : Rate.Bucket α τ}
    {now : τ} {calledOff : Bool} {remote : σ} {s : State σ α τ}
    (hbehind : hosts.Behind setting [(group, i)] view) (hview : view remote fun _ => none)
    (hreaches : (solo (.new group i stages folder) tree bucket now calledOff remote).Reaches
      setting s)
    (hcalm : s.calledOff = false) {r : Record} {k : Artifact.Sink} (hfiled : (w, r, k) ∈ s.filed) :
    r.group = group ∧ r.id = i.id ∧
      r.outcome.toOption = (alone hosts setting 0 i stages folder tree).toOption := by
  obtain ⟨j, hmember, hid, houtcome⟩ :=
    outcome_of_filed hbehind (carried_onCourse_solo hview) hreaches hcalm hfiled
  cases w with
  | zero =>
      cases hmember
      exact ⟨rfl, hid, houtcome⟩
  | succ w => cases hmember

end State
end Run
end LogHarvest
