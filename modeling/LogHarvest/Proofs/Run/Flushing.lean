import LogHarvest.Proofs.Run.Durability

/-!
# Documents that could not be written

A document that cannot be written is no reason for the receiver to stop: the next
record that it merges, or the end of the run, has the document written again.  But a
record that the status refuses ends the run at once, and then nothing is written any
more.  `Attempting` takes a course together with what became of every document, and
`complete_iff_retried` says what a run that ends so leaves on disk: all that is in
memory if and only if every document that could not be written was followed by
another one, which need not be.
-/

namespace LogHarvest

/-- Every document that could not be written was followed by another one. -/
def Retried (attempts : List (FleetConfig × Bool)) : Prop :=
  ∀ later c earlier, attempts = later ++ (c, false) :: earlier → later ≠ []

theorem retried_nil : Retried [] := by
  intro later c earlier hsplit
  cases later <;> cases hsplit

theorem retried_cons_iff {c : FleetConfig} {ok : Bool} {earlier : List (FleetConfig × Bool)} :
    Retried ((c, ok) :: earlier) ↔ ok = true := by
  constructor
  · intro hretried
    cases ok with
    | true => rfl
    | false => exact absurd rfl (hretried [] c earlier rfl)
  · rintro rfl later c' earlier' hsplit rfl
    cases hsplit

def onDisk (first : FleetConfig) (attempts : List (FleetConfig × Bool)) : FleetConfig :=
  ((attempts.find? Prod.snd).map Prod.fst).getD first

namespace Run

variable {σ α τ : Type}

def Receiver.isUnfinished : Receiver → Bool
  | .returned (.ok _) | .returned (.error (.sync ..)) => false
  | _ => true

theorem Receiver.isUnfinished_of_fatal {fault : FleetFault}
    (hfatal : (∃ name, fault = .unknownGroup name) ∨
      ∃ group id, fault = .duplicateInstance group id) :
    (Receiver.returned (.error fault)).isUnfinished = true := by
  rcases hfatal with ⟨name, rfl⟩ | ⟨group, id, rfl⟩ <;> rfl

namespace State

/-!
## What becomes of a document
-/

theorem not_writes_of_synced {s s' : State σ α τ} {c : FleetConfig} (hsame : s'.synced = s.synced) :
    ¬ s.Writes c s' := by
  intro hwrites
  have hcons : c :: s.synced = s.synced := hwrites.synced.symm.trans hsame
  exact List.cons_ne_self c s.synced hcons

theorem isUnfinished_of_finished {s s' : State σ α τ} {calledOff : Bool}
    (hfinished : Finished s calledOff s') : s'.receiver.isUnfinished = false := by
  rcases hfinished.receiver with hreceiver | ⟨path, cause, hreceiver⟩ <;> rw [hreceiver] <;> rfl

/-- What the attempts of a run have come to before its receiver finishes. -/
structure Attempted (first s : State σ α τ) (attempts : List (FleetConfig × Bool)) : Prop where
  configs : attempts.map Prod.fst = s.synced
  /-- Each of them was made for a record, and none on its own account. -/
  count : attempts.length = s.merged.countP Record.isOk
  untouched : attempts = [] → s.status = first.status
  /-- The latest one was about all that is in memory, and something of that was new. -/
  latest : ∀ e earlier, attempts = e :: earlier → e.1 = s.config ∧
    ∃ group id paths, s.status.logsFor group id = some paths ∧
      first.status.logsFor group id = none ∧
      ∀ e' ∈ earlier, e'.1.status.logsFor group id = none

theorem Attempted.of_same {first s s' : State σ α τ} {attempts : List (FleetConfig × Bool)}
    (hattempted : Attempted first s attempts) (hconfig : s'.config = s.config)
    (hcount : s'.merged.countP Record.isOk = s.merged.countP Record.isOk)
    (hsynced : s'.synced = s.synced) : Attempted first s' attempts := by
  have hstatus : s'.status = s.status := congrArg FleetConfig.status hconfig
  constructor
  case configs =>
    rw [hsynced]
    exact hattempted.configs
  case count =>
    rw [hcount]
    exact hattempted.count
  case untouched =>
    rw [hstatus]
    exact hattempted.untouched
  case latest =>
    rw [hconfig, hstatus]
    exact hattempted.latest

theorem Attempted.of_failure {first s s' : State σ α τ} {attempts : List (FleetConfig × Bool)}
    {r : Record} {status : Status} (hattempted : Attempted first s attempts)
    (hmerge : s.status.merge r = .ok status) (htook : Took s r status s')
    (hfailed : r.isOk = false) :
    Attempted first s' attempts := by
  have hstatus : status = s.status := by
    obtain ⟨group, id, outcome⟩ := r
    cases outcome with
    | error fault =>
        cases hmerge
        rfl
    | ok paths => cases hfailed
  refine hattempted.of_same ?_ ?_ ?_
  · rw [htook.config, hstatus]
    rfl
  · rw [htook.merged, List.countP_cons_of_neg (by simp [hfailed])]
  · rw [htook.synced, documented, hfailed]
    rfl

theorem Attempted.of_success {first s s' : State σ α τ} {attempts : List (FleetConfig × Bool)}
    {r : Record} {status : Status} (hattempted : Attempted first s attempts)
    (hledger : Ledger first s) (hmerge : s.status.merge r = .ok status)
    (htook : Took s r status s') (hok : r.isOk = true) (ok : Bool) :
    Attempted first s' ((s'.config, ok) :: attempts) := by
  have hstatus : s'.status = status := congrArg FleetConfig.status htook.config
  constructor
  case configs =>
    rw [List.map_cons, hattempted.configs, htook.synced, documented, hok]
    rfl
  case count => rw [List.length_cons, hattempted.count, htook.merged, List.countP_cons_of_pos hok]
  case untouched => exact nofun
  case latest =>
    intro e earlier hcons
    cases hcons
    refine ⟨rfl, ?_⟩
    obtain ⟨group, id, outcome⟩ := r
    cases outcome with
    | error fault => cases hok
    | ok paths =>
        have hrecord : s.status.record group id paths = .ok status := hmerge
        have hfresh := Status.logsFor_eq_none_of_record hrecord
        refine ⟨group, id, paths, ?_, hledger.documents.within.logsFor_eq_none hfresh, ?_⟩
        · rw [hstatus, Status.logsFor_of_record hrecord, if_pos ⟨rfl, rfl⟩]
        · intro e' he'
          have hmem : e'.1.status ∈ s.synced.map FleetConfig.status := by
            rw [← hattempted.configs]
            exact List.mem_map_of_mem (List.mem_map_of_mem he')
          exact (hledger.documents.between _ hmem).2.logsFor_eq_none hfresh

theorem Attempted.within_iff {first s : State σ α τ} {attempts : List (FleetConfig × Bool)}
    (hattempted : Attempted first s attempts) :
    s.status.Within (onDisk first.config attempts).status ↔ Retried attempts := by
  cases hattempts : attempts with
  | nil =>
      have hsame : s.status = (onDisk first.config []).status := hattempted.untouched hattempts
      rw [hsame]
      exact ⟨fun _ => retried_nil, fun _ => .refl _⟩
  | cons e earlier =>
      obtain ⟨c, ok⟩ := e
      obtain ⟨hlatest, group, id, paths, hthere, hfirst, hnone⟩ :=
        hattempted.latest (c, ok) earlier hattempts
      rw [retried_cons_iff]
      cases ok with
      | true =>
          have hdisk : onDisk first.config ((c, true) :: earlier) = s.config := hlatest
          rw [hdisk]
          exact ⟨fun _ => rfl, fun _ => .refl _⟩
      | false =>
          -- What was new in the latest attempt is in no earlier one.
          have hmissing : (onDisk first.config earlier).status.logsFor group id = none := by
            rw [onDisk]
            cases hfind : earlier.find? Prod.snd with
            | none => exact hfirst
            | some e' => exact hnone e' (List.mem_of_find?_eq_some hfind)
          have hskip : onDisk first.config ((c, false) :: earlier) = onDisk first.config earlier :=
            rfl
          rw [hskip]
          constructor
          · intro hwithin
            rw [hwithin group id paths hthere] at hmissing
            cases hmissing
          · exact fun hsuccess => absurd hsuccess Bool.false_ne_true

/-!
## Courses with their attempts
-/

variable [Rate.Meter α τ] [LE τ] [DecidableLE τ] {setting : Setting σ}
  {first s s' : State σ α τ} {attempts : List (FleetConfig × Bool)}

/--
A course, with the configurations whose documents were to be written and whether they took
their place, the latest first.
-/
inductive Attempting (setting : Setting σ) (first : State σ α τ) :
    List (FleetConfig × Bool) → State σ α τ → Prop
  | here : Attempting setting first [] first
  | other {attempts : List (FleetConfig × Bool)} {a b : State σ α τ} {m : Move τ}
      (hcourse : Attempting setting first attempts a) (hstep : a.step setting m = some b)
      (hnot : ∀ c, ¬ a.Writes c b) : Attempting setting first attempts b
  | wrote {attempts : List (FleetConfig × Bool)} {a b : State σ α τ} {m : Move τ}
      {c : FleetConfig} (hcourse : Attempting setting first attempts a)
      (hstep : a.step setting m = some b) (hwrites : a.Writes c b) :
      Attempting setting first ((c, (c.sync a.mishap a.tree).1.isOk) :: attempts) b

theorem exists_attempting (hreaches : first.Reaches setting s) :
    ∃ attempts, Attempting setting first attempts s := by
  induction hreaches with
  | here => exact ⟨[], .here⟩
  | @move a b m _ hstep ih =>
      obtain ⟨attempts, hattempting⟩ := ih
      by_cases hwrites : ∃ c, a.Writes c b
      · obtain ⟨c, hwrites⟩ := hwrites
        exact ⟨_, hattempting.wrote hstep hwrites⟩
      · exact ⟨attempts, hattempting.other hstep fun c h => hwrites ⟨c, h⟩⟩

theorem reaches_of_attempting (hattempting : Attempting setting first attempts s) :
    first.Reaches setting s := by
  induction hattempting with
  | here => exact .here
  | other _ hstep _ ih => exact ih.move hstep
  | wrote _ hstep _ ih => exact ih.move hstep

theorem keeping_of_attempting (hattempting : Attempting setting first attempts s) :
    Keeping setting first ((attempts.find? Prod.snd).map Prod.fst) s := by
  induction hattempting with
  | here => exact .here
  | other _ hstep hnot ih => exact ih.other hstep fun c hreplaces => hnot c hreplaces.1
  | @wrote attempts a b m c _ hstep hwrites ih =>
      cases hresult : (c.sync a.mishap a.tree).1 with
      | ok _ => exact ih.replaced hstep ⟨hwrites, hresult⟩
      | error fault =>
          refine ih.other hstep ?_
          rintro c' ⟨hwrites', hok⟩
          have hsame : c' = c :=
            (List.cons.inj (hwrites'.synced.symm.trans hwrites.synced)).1
          rw [hsame, hresult] at hok
          cases hok

theorem sameBooks_or_receive {m : Move τ} (hstep : s.step setting m = some s') :
    s.SameBooks s' ∨ s.receive = some s' := by
  rcases cases_of_step hstep with ⟨hbeside, -⟩ | ⟨w, hworked⟩ | hreceive
  · exact Or.inl hbeside.sameBooks
  · exact Or.inl hworked.sameBooks
  · exact Or.inr hreceive

theorem isUnfinished_of_step {m : Move τ} (hstep : s.step setting m = some s')
    (hunfinished : s'.receiver.isUnfinished = true) : s.receiver.isUnfinished = true := by
  cases hreceiver : s.receiver with
  | returned result =>
      have hsame := sameBooks_of_returned hreceiver (reaches_of_step hstep)
      rw [hsame.receiver, hreceiver] at hunfinished
      exact hunfinished
  | _ => rfl

theorem attempted_of_attempting (hfirst : Ledger first first) (hmerged : first.merged = [])
    (hsynced : first.synced = []) (hattempting : Attempting setting first attempts s)
    (hunfinished : s.receiver.isUnfinished = true) : Attempted first s attempts := by
  -- A course adds an attempt for a success that is merged, and for nothing else.
  induction hattempting with
  | here =>
      refine ⟨?_, ?_, fun _ => rfl, nofun⟩
      · rw [hsynced]
        rfl
      · rw [hmerged]
        rfl
  | @other attempts a b m hcourse hstep hnot ih =>
      have hbefore := ih (isUnfinished_of_step hstep hunfinished)
      rcases sameBooks_or_receive hstep with hsame | hreceive
      · exact hbefore.of_same hsame.config (by rw [hsame.merged]) hsame.synced
      · cases received_of_receive hreceive with
        | @took r status _ _ hmerge htook =>
            cases hok : r.isOk with
            | false => exact hbefore.of_failure hmerge htook hok
            | true =>
                have hadded : b.synced = b.config :: a.synced := by
                  rw [htook.synced, documented, hok]
                  rfl
                rcases silent_or_writes_of_receive hreceive with hsilent | ⟨c, hwrites⟩
                · exact absurd (hadded.symm.trans hsilent.synced) (List.cons_ne_self _ _)
                · exact absurd hwrites (hnot c)
        | finished _ hfinished =>
            rw [isUnfinished_of_finished hfinished] at hunfinished
            cases hunfinished
        | _ => exact hbefore.of_same rfl rfl rfl
  | @wrote attempts a b m c hcourse hstep hwrites ih =>
      have hbefore := ih (isUnfinished_of_step hstep hunfinished)
      rcases sameBooks_or_receive hstep with hsame | hreceive
      · exact absurd hwrites (not_writes_of_synced hsame.synced)
      · cases received_of_receive hreceive with
        | @took r status _ _ hmerge htook =>
            cases hok : r.isOk with
            | true =>
                rw [← hwrites.config]
                exact hbefore.of_success (hfirst.of_reaches (reaches_of_attempting hcourse)) hmerge
                  htook hok _
            | false =>
                refine absurd hwrites (not_writes_of_synced ?_)
                rw [htook.synced, documented, hok]
                rfl
        | finished _ hfinished =>
            rw [isUnfinished_of_finished hfinished] at hunfinished
            cases hunfinished
        | _ => exact absurd hwrites (not_writes_of_synced rfl)

theorem synced_suffix_of_reaches (hreaches : s.Reaches setting s') : s.synced <:+ s'.synced := by
  induction hreaches with
  | here => exact List.suffix_refl _
  | @move a b m _ hstep ih =>
      rcases sameBooks_or_receive hstep with hsame | hreceive
      · rw [hsame.synced]
        exact ih
      · rcases silent_or_writes_of_receive hreceive with hsilent | ⟨c, hwrites⟩
        · rw [hsilent.synced]
          exact ih
        · rw [hwrites.synced]
          exact ih.trans (List.suffix_cons _ _)

theorem Attempting.of_silent (hattempting : Attempting setting first attempts s)
    (hreaches : s.Reaches setting s') (hsame : s'.synced = s.synced) :
    Attempting setting first attempts s' := by
  induction hreaches with
  | here => exact hattempting
  | @move a b m hbefore hstep ih =>
      have hlater := synced_suffix_of_reaches (reaches_of_step hstep)
      rw [hsame] at hlater
      have hbetween := hlater.eq_of_length_le (synced_suffix_of_reaches hbefore).length_le
      refine (ih hbetween).other hstep fun c => not_writes_of_synced ?_
      rw [hsame, hbetween]

end State
end Run

namespace Fleet

open Run State

variable {σ : Type} {setting : Setting σ} {stages : List Protocol.Stage} {endings : List String}
  {f : Fleet σ} {folder : Path} {last : State σ Float Rate.Millis}

/--
A run that ends because the status refuses a record has tried to write one document for
every success that it merged, and none besides.  What it leaves on disk is the latest of
them that took its place, or the document from before the run.  That has every entry in
memory if and only if every document that could not be written was followed by another
one.
-/
theorem complete_iff_retried {fault : FleetFault} {attempts : List (FleetConfig × Bool)}
    (hresult : last.receiver.result? = some (.error fault))
    (hfatal : (∃ name, fault = .unknownGroup name) ∨
      ∃ group id, fault = .duplicateInstance group id)
    (hattempting :
      Attempting setting ((f.prepared endings).startRun stages folder) attempts last) :
    attempts.map Prod.fst = last.synced ∧
      attempts.length = last.merged.countP Record.isOk ∧
      (setting.connector.Spares f.store.config.path →
        KeepsClear setting ((f.prepared endings).startRun stages folder) →
        f.store.tree.content? f.store.config.path = some f.store.config.bytes →
        last.tree.content? f.store.config.path = some (onDisk f.store.config attempts).bytes) ∧
      (last.status.Within (onDisk f.store.config attempts).status ↔ Retried attempts) := by
  have hconfig : ((f.prepared endings).startRun stages folder).config = f.store.config :=
    config_prepare f.store endings
  have hledger : Ledger ((f.prepared endings).startRun stages folder)
      ((f.prepared endings).startRun stages folder) :=
    ⟨rfl, rfl, rfl, Status.growing_nil (.refl _)⟩
  have hreturned := Receiver.eq_returned_of_result? hresult
  have hattempted := attempted_of_attempting hledger rfl rfl hattempting
    (by rw [hreturned]; exact Receiver.isUnfinished_of_fatal hfatal)
  refine ⟨hattempted.configs, hattempted.count, ?_, ?_⟩
  · intro hspares hclear hdocument
    rw [← hconfig] at hspares
    have hdurable := durable_of_keeping hledger nofun hspares hclear
      (keeping_of_attempting hattempting)
    have hfirst := (grown_prepare f.store endings).content? hdocument
    have hcontent := hdurable.content
    rw [hconfig] at hcontent
    rw [hcontent, onDisk]
    cases (attempts.find? Prod.snd).map Prod.fst with
    | none => exact hfirst
    | some c => rfl
  · rw [← hconfig]
    exact hattempted.within_iff

/-!
## A record that is refused after a document that could not be written

The first of two members is merged, and its document does not take its place; nothing
would be in the way of another one.  But the second member is recorded already, so
its record ends the run.
-/

def halfRecorded : Fleet Account :=
  let c := FleetConfig.new "demo" "/logs" "/fleetlog.yaml"
  let first := c.status.addInstance "a" ⟨"i-1", "10.0.0.1", ""⟩
  let members := first.addInstance "a" ⟨"i-2", "10.0.0.2", ""⟩
  let config := { c with
    limits := ⟨1000, 100, none⟩
    status := (members.record "a" "i-2" []).toOption.getD members }
  ⟨⟨config, Tree.empty.put ["fleetlog.yaml"] (.file config.bytes false),
    [some (.renaming (.system 21))]⟩, .zero, false⟩

def halfRecordedStart : State Account Float Rate.Millis :=
  (halfRecorded.prepared ["x"]).startRun oneCommand "/logs/demo-logsx"

def halfRecordedMoments : Option (State Account Float Rate.Millis ×
    State Account Float Rate.Millis × State Account Float Rate.Millis) :=
  (halfRecordedStart.steps rehearsed (List.replicate 8 (.work 0))).bind fun before =>
    (before.step rehearsed .receive).bind fun merged =>
      (merged.steps rehearsed (List.replicate 8 (.work 1) ++ [.receive])).bind fun last =>
        some (before, merged, last)

theorem halfRecordedMoments_facts :
    (halfRecordedMoments.map fun (before, merged, last) =>
      ((before.synced.length, before.mishap.isSome, merged.synced.length),
        (last.receiver, last.synced.length, (last.config.sync last.mishap last.tree).1.isOk,
          (last.status.logsFor "a" "i-1").isSome))) =
      some ((0, true, 1),
        (.returned (.error (.duplicateInstance "a" "i-2")), 1, true, true)) := by
  decide +kernel

/-- What became of the only document is known: it did not take its place. -/
theorem exists_halfRecordedLast :
    ∃ last c, halfRecorded.Fetching rehearsed oneCommand ["x"] "/logs/demo-logsx" last ∧
      last.receiver.result? = some (.error (.duplicateInstance "a" "i-2")) ∧
      Attempting rehearsed halfRecordedStart [(c, false)] last ∧
      (last.config.sync last.mishap last.tree).1.isOk = true ∧
      ∃ paths, last.status.logsFor "a" "i-1" = some paths := by
  obtain ⟨⟨before, merged, last⟩, hmoments, hfacts⟩ :=
    Option.map_eq_some_iff.1 halfRecordedMoments_facts
  obtain ⟨a, ha, hmoments⟩ := Option.bind_eq_some_iff.1 hmoments
  obtain ⟨b, hb, hmoments⟩ := Option.bind_eq_some_iff.1 hmoments
  obtain ⟨d, hd, hmoments⟩ := Option.bind_eq_some_iff.1 hmoments
  cases hmoments
  simp only [Prod.mk.injEq] at hfacts
  obtain ⟨⟨hnone, hmishap, hone⟩, hreceiver, hstill, hwritable, hthere⟩ := hfacts
  have hbefore : Attempting rehearsed halfRecordedStart [] before :=
    Attempting.here.of_silent (reaches_of_steps ha) (List.length_eq_zero_iff.1 hnone)
  obtain ⟨mishap, hmishap⟩ := Option.isSome_iff_exists.1 hmishap
  have hwrites : ∃ c, before.Writes c merged := by
    rcases silent_or_writes_of_receive hb with hsilent | hwrites
    · rw [hsilent.synced, hnone] at hone
      cases hone
    · exact hwrites
  obtain ⟨c, hwrites⟩ := hwrites
  have hmerged := hbefore.wrote hb hwrites
  rw [hmishap, FleetConfig.isOk_sync_of_mishap] at hmerged
  have hsame : last.synced = merged.synced := by
    have hsuffix := synced_suffix_of_reaches (reaches_of_steps hd)
    exact (hsuffix.eq_of_length (hone.trans hstill.symm)).symm
  have hlast := hmerged.of_silent (reaches_of_steps hd) hsame
  refine ⟨last, c, ⟨by decide +kernel, reaches_of_attempting hlast⟩, ?_, hlast, hwritable,
    Option.isSome_iff_exists.1 hthere⟩
  rw [hreceiver]
  rfl

theorem keepsClear_halfRecorded : KeepsClear rehearsed halfRecordedStart := by
  have hsound : halfRecorded.store.tree.Sound := Tree.sound_empty.put rfl rfl
  exact keepsClear_of_plain_ids Script.canned.keepsFolders (by decide +kernel) hsound
    (Option.isSome_iff_exists.2 ⟨_, content?_fleetlog _⟩) (by decide +kernel)

theorem complete_iff_retried_halfRecorded :
    ∃ last c, Attempting rehearsed halfRecordedStart [(c, false)] last ∧
      last.receiver.result? = some (.error (.duplicateInstance "a" "i-2")) ∧
      last.tree.content? "/fleetlog.yaml" = some halfRecorded.store.config.bytes ∧
      ¬ last.status.Within halfRecorded.store.config.status := by
  obtain ⟨last, c, hfetching, hresult, hattempting, -, -⟩ := exists_halfRecordedLast
  obtain ⟨-, -, hcontent, hcomplete⟩ :=
    complete_iff_retried (f := halfRecorded) hresult (Or.inr ⟨"a", "i-2", rfl⟩) hattempting
  refine ⟨last, c, hattempting, hresult, ?_, ?_⟩
  · exact hcontent (Script.canned.spares _) keepsClear_halfRecorded (content?_fleetlog _)
  · intro hwithin
    exact absurd (retried_cons_iff.1 (hcomplete.1 hwithin)) Bool.false_ne_true

/--
A run ends with a refused record, and a success that it merged is in memory only.  Its
document did not take its place and was not followed by another one, although nothing
would be in the way of that.
-/
theorem halfRecorded_leaves_success :
    ∃ last c, halfRecorded.Fetching rehearsed oneCommand ["x"] "/logs/demo-logsx" last ∧
      last.receiver.result? = some (.error (.duplicateInstance "a" "i-2")) ∧
      Attempting rehearsed halfRecordedStart [(c, false)] last ∧ ¬ Retried [(c, false)] ∧
      (last.config.sync last.mishap last.tree).1.isOk = true ∧
      last.tree.content? "/fleetlog.yaml" = some halfRecorded.store.config.bytes ∧
      (∃ paths, last.status.logsFor "a" "i-1" = some paths) ∧
      halfRecorded.store.config.status.logsFor "a" "i-1" = none := by
  obtain ⟨last, c, hfetching, hresult, hattempting, hwritable, hthere⟩ := exists_halfRecordedLast
  have hledger : Ledger halfRecordedStart halfRecordedStart :=
    ⟨rfl, rfl, rfl, Status.growing_nil (.refl _)⟩
  have hkept := kept_of_keeping hledger nofun (Script.canned.spares _) keepsClear_halfRecorded
    (keeping_of_attempting hattempting)
  refine ⟨last, c, hfetching, hresult, hattempting, ?_, hwritable, ?_, hthere, by decide +kernel⟩
  · intro hretried
    exact absurd (retried_cons_iff.1 hretried) Bool.false_ne_true
  · exact hkept.content.trans ((grown_prepare _ _).content? (content?_fleetlog _))

end Fleet
end LogHarvest
