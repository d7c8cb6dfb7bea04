import LogHarvest.Proofs.Fleet.Documents
import LogHarvest.Proofs.Run.Artifacts
import LogHarvest.Proofs.Run.Workers
import LogHarvest.Proofs.Run.Ledger

/-!
# The document on disk

While a run goes on, its receiver writes the document of the configuration again and
again; some of these writes fail, and the run may be cut off at any moment.  What the
document's path leads to is then the last document that was written as a whole, or
the next one if that had just taken its place.

`State.Keeping` takes a course together with that last document, and `Durable` says
what is on disk in any state of the course and whenever it is cut off.  It needs two
things of the surroundings: hosts that are asked leave the document alone, and no
output is put where the document stands.
-/

namespace LogHarvest

/-- Whatever is asked of the hosts, the content at a path stays the same. -/
structure Connector.Spares {σ : Type} (connector : Connector σ) (path : Path) : Prop where
  connect : ∀ w i around,
    (connector.connect w i around).after.tree.content? path = around.tree.content? path
  run : ∀ w i line verbose around,
    (connector.run w i line verbose around).after.tree.content? path = around.tree.content? path
  close : ∀ w i around, (connector.close w i around).tree.content? path = around.tree.content? path

namespace Run
namespace State

variable {σ α τ : Type}

def mishap (s : State σ α τ) : Option Mishap :=
  s.aggregation.store.mishaps.head?.join

/-- The second state comes of writing the document of a configuration from the first one. -/
structure Writes (a : State σ α τ) (c : FleetConfig) (b : State σ α τ) : Prop where
  synced : b.synced = c :: a.synced
  config : b.config = c
  tree : b.tree = (c.sync a.mishap a.tree).2
  returned : ∀ outcome, b.receiver = .returned (.ok outcome) → (c.sync a.mishap a.tree).1 = .ok ()

def Replaces (a : State σ α τ) (c : FleetConfig) (b : State σ α τ) : Prop :=
  a.Writes c b ∧ (c.sync a.mishap a.tree).1 = .ok ()

/-- The configuration is the one in memory right after some of the records were merged. -/
def Documented (first s : State σ α τ) (c : FleetConfig) : Prop :=
  ∃ earlier status, earlier <:+ s.merged ∧ first.status.mergeAll earlier = .ok status ∧
    c = { first.config with status := status }

def outputPath (setting : Setting σ) (w : Nat) (c : Collector) (name : String) : Path :=
  c.sink.pathFor (setting.suffix w c.sink.claimed.length) name

structure Silent (s s' : State σ α τ) : Prop where
  synced : s'.synced = s.synced
  config : s'.config = s.config
  tree : s'.tree = s.tree
  returned : ∀ outcome, s'.receiver ≠ .returned (.ok outcome)

/-!
## What the receiver writes
-/

theorem silent_or_writes_of_merge (s : State σ α τ) (channel : List Record) (r : Record)
    {next : Receiver} (hnext : ∀ outcome, next ≠ .returned (.ok outcome)) :
    s.Silent ({ s with channel := channel }.merge r next) ∨
      ∃ c, s.Writes c ({ s with channel := channel }.merge r next) := by
  obtain ⟨group, id, outcome⟩ := r
  unfold merge
  cases outcome with
  | error fault => exact Or.inl ⟨rfl, rfl, rfl, hnext⟩
  | ok paths =>
      cases hrecord : (StatusStore.status s.aggregation.store).record group id paths with
      | error fault =>
          left
          simp only [Aggregation.absorb, hrecord]
          refine ⟨rfl, rfl, rfl, ?_⟩
          intro outcome hreturned
          cases hreturned
      | ok status =>
          right
          simp only [Aggregation.absorb, hrecord]
          refine ⟨_, rfl, rfl, rfl, ?_⟩
          intro outcome hreturned
          exact absurd hreturned (hnext outcome)

theorem writes_finish (s : State σ α τ) (calledOff : Bool) :
    s.Writes s.config (s.finish calledOff) := by
  have hsync : StatusStore.sync s.aggregation.store =
      ((s.config.sync s.mishap s.tree).1, { s.aggregation.store with
        tree := (s.config.sync s.mishap s.tree).2, mishaps := s.aggregation.store.mishaps.tail }) :=
    rfl
  have hfinish : s.aggregation.finish =
      ((s.config.sync s.mishap s.tree).1.map fun _ => s.aggregation.tally,
        { s.aggregation.store with
          tree := (s.config.sync s.mishap s.tree).2
          mishaps := s.aggregation.store.mishaps.tail }) := by
    unfold Aggregation.finish
    rw [hsync]
    cases (s.config.sync s.mishap s.tree).1 <;> rfl
  unfold finish
  rw [hfinish]
  refine ⟨rfl, rfl, rfl, ?_⟩
  intro outcome hreturned
  cases hresult : (s.config.sync s.mishap s.tree).1 with
  | ok _ => rfl
  | error fault =>
      rw [hresult] at hreturned
      cases hreturned

theorem silent_or_writes_of_receive {s s' : State σ α τ} (hreceive : s.receive = some s') :
    s.Silent s' ∨ ∃ c, s.Writes c s' := by
  have hnot : ∀ {receiver : Receiver}, receiver.result? = none →
      ∀ outcome, receiver ≠ .returned (.ok outcome) := by
    rintro receiver hopen outcome rfl
    cases hopen
  rcases cases_of_receive hreceive with ⟨receiver, hopen, rfl⟩ | ⟨channel, r, next, hopen, rfl⟩ |
    ⟨calledOff, rfl⟩
  · exact Or.inl ⟨rfl, rfl, rfl, hnot hopen⟩
  · exact silent_or_writes_of_merge s channel r (hnot hopen)
  · exact Or.inr ⟨_, writes_finish s calledOff⟩

/-!
## What workers leave alone
-/

variable {setting : Setting σ} {path : Path}

theorem content?_save {w : Nat} {sink : Artifact.Sink} {name : String} {data : Text.Bytes}
    {t : Tree} (hother : ∀ place,
      t.target (sink.pathFor (setting.suffix w sink.claimed.length) name) = .ok place →
        t.target path ≠ .ok place) :
    (setting.save w sink name data t).2.content? path = t.content? path := by
  have hwrote := setting.wrote_save w sink name data t
  generalize setting.save w sink name data t = result at hwrote
  have hsame : ∀ {place : Place} {created : Tree},
      t.create (sink.pathFor (setting.suffix w sink.claimed.length) name) = .ok (place, created) →
        created.content? path = t.content? path ∧
          (created.fill place data).content? path = t.content? path := fun hcreate =>
    Tree.content?_create_fill hcreate (hother _ (Tree.target_of_create hcreate)) data
  cases hwrote with
  | refused hcreate => rfl
  | emptied hcreate hflaw => exact (hsame hcreate).1
  | filled hcreate hflaw => exact (hsame hcreate).2

theorem content?_of_answer (hspares : setting.connector.Spares path) {w : Nat} {c : Collector}
    {before after : Surroundings σ} {answer : Response}
    (hother : ∀ name data place, c.request = .save name data →
      before.tree.target (outputPath setting w c name) = .ok place →
        before.tree.target path ≠ .ok place)
    (hanswer : Answer setting w c before answer after) :
    after.tree.content? path = before.tree.content? path := by
  cases hanswer with
  | passed => rfl
  | calledOff => rfl
  | connected _ _ => exact hspares.connect w c.subject before
  | output _ _ => exact hspares.run w c.subject _ _ before
  | saved hrequest => exact content?_save fun place => hother _ _ place hrequest
  | closed _ => exact hspares.close w c.subject before

theorem content?_of_unanswered (hspares : setting.connector.Spares path) {w : Nat} {c : Collector}
    {before after : Surroundings σ} (hnever : Unanswered setting w c before after) :
    after.tree.content? path = before.tree.content? path := by
  cases hnever with
  | connect _ _ => exact hspares.connect w c.subject before
  | run _ _ => exact hspares.run w c.subject _ _ before

theorem around_resume (s : State σ α τ) (w : Nat) (c : Collector) (answer : Response) :
    (s.resume w c answer).around = s.around := by
  rcases cases_of_resume s w c answer with hresume | ⟨r, hresume⟩ <;> rw [hresume]
  all_goals rfl

theorem content?_of_worked (hspares : setting.connector.Spares path) {s s' : State σ α τ} {w : Nat}
    (hother : ∀ c name data place, s.collector? w = some c → c.request = .save name data →
      s.tree.target (outputPath setting w c name) = .ok place → s.tree.target path ≠ .ok place)
    (hworked : Worked setting s w s') :
    s'.around.tree.content? path = s.around.tree.content? path := by
  cases hworked with
  | skipped _ _ => rfl
  | @kept c duty t _ _ _ haround =>
      have hassign : (t.assign w duty).around = t.around := rfl
      rw [hassign, haround]
  | @unanswered c t _ hnever _ =>
      have hassign : (t.assign w (.unanswered c)).around = t.around := rfl
      rw [hassign]
      exact content?_of_unanswered hspares hnever
  | @told c answer t hcollector hanswer _ _ =>
      rw [around_resume]
      refine content?_of_answer hspares ?_ hanswer
      intro name data place hrequest htarget
      exact hother c name data place hcollector hrequest htarget
  | @sent r _ _ _ =>
      rw [around_release]
      rfl
  | dropped _ _ => rw [around_release]

/-!
## What a course comes to
-/

section

variable {first s s' : State σ α τ}

structure Apart (path : Path) (s s' : State σ α τ) : Prop where
  content : s'.tree.content? path = s.tree.content? path
  config : s'.config = s.config
  merged : s.merged <:+ s'.merged
  synced : s'.synced = s.synced
  returned : ∀ outcome, s'.receiver = .returned (.ok outcome) → s.receiver = s'.receiver

theorem merged_of_received (hreceived : Received s s') : s.merged <:+ s'.merged := by
  cases hreceived with
  | took _ _ htook =>
      rw [htook.merged]
      exact List.suffix_cons _ _
  | finished _ hfinished => exact hfinished.merged ▸ List.suffix_refl _
  | _ => exact List.suffix_refl _

structure Kept (first : State σ α τ) (kept : Option FleetConfig) (s : State σ α τ) : Prop where
  content : s.tree.content? first.config.path =
    (kept.map FleetConfig.bytes).or (first.tree.content? first.config.path)
  documented : ∀ c, kept = some c → first.Documented s c
  returned : ∀ outcome, s.receiver = .returned (.ok outcome) → kept = some s.config

theorem Documented.mono {c : FleetConfig} (hdocumented : first.Documented s c)
    (hmerged : s.merged <:+ s'.merged) : first.Documented s' c := by
  obtain ⟨earlier, status, hearlier, hstatus, hc⟩ := hdocumented
  exact ⟨earlier, status, hearlier.trans hmerged, hstatus, hc⟩

theorem documented_config (hledger : Ledger first s) : first.Documented s s.config :=
  ⟨s.merged, s.status, List.suffix_refl _, hledger.status, hledger.config⟩

theorem Kept.of_apart {kept : Option FleetConfig} (hkept : Kept first kept s)
    (hapart : Apart first.config.path s s') : Kept first kept s' where
  content := hapart.content.trans hkept.content
  documented c hc := (hkept.documented c hc).mono hapart.merged
  returned := by
    intro outcome hreturned
    rw [hapart.config]
    refine hkept.returned outcome ?_
    rw [hapart.returned outcome hreturned]
    exact hreturned

theorem Kept.of_failed {kept : Option FleetConfig} {c : FleetConfig} (hkept : Kept first kept s)
    (hpath : c.path = first.config.path) (hwrites : s.Writes c s')
    (hmerged : s.merged <:+ s'.merged) (hfailed : ¬ s.Replaces c s') : Kept first kept s' where
  content := by
    cases hresult : (c.sync s.mishap s.tree).1 with
    | ok _ => exact absurd ⟨hwrites, hresult⟩ hfailed
    | error fault =>
        rw [hwrites.tree, ← hkept.content, ← hpath]
        exact FleetConfig.content?_of_sync_error hresult
  documented c' hc' := (hkept.documented c' hc').mono hmerged
  returned := by
    intro outcome hreturned
    exact absurd ⟨hwrites, hwrites.returned outcome hreturned⟩ hfailed

theorem kept_of_replaces {c : FleetConfig} (hledger : Ledger first s')
    (hreplaces : s.Replaces c s') : Kept first (some c) s' := by
  obtain ⟨hwrites, hok⟩ := hreplaces
  have hpath : first.config.path = c.path := by
    rw [← hwrites.config, hledger.config]
  constructor
  case content =>
    rw [hwrites.tree, hpath]
    exact FleetConfig.content?_of_sync_ok hok
  case documented =>
    intro c' hc'
    cases hc'
    rw [← hwrites.config]
    exact documented_config hledger
  case returned =>
    intro outcome _
    rw [hwrites.config]

end

/-!
## Courses and cuts
-/

variable [Rate.Meter α τ] [LE τ] [DecidableLE τ] {first s s' : State σ α τ}

/-- No worker of the run writes an output to where the document stands. -/
def KeepsClear (setting : Setting σ) (first : State σ α τ) : Prop :=
  ∀ s w c name data place, first.Reaches setting s → s.collector? w = some c →
    c.request = .save name data → s.tree.target (outputPath setting w c name) = .ok place →
    s.tree.target first.config.path ≠ .ok place

/-- A course, with the configuration whose document was the last to take its place. -/
inductive Keeping (setting : Setting σ) (first : State σ α τ) :
    Option FleetConfig → State σ α τ → Prop
  | here : Keeping setting first none first
  | other {kept : Option FleetConfig} {a b : State σ α τ} {m : Move τ}
      (hcourse : Keeping setting first kept a) (hstep : a.step setting m = some b)
      (hnot : ∀ c, ¬ a.Replaces c b) : Keeping setting first kept b
  | replaced {kept : Option FleetConfig} {a b : State σ α τ} {m : Move τ} {c : FleetConfig}
      (hcourse : Keeping setting first kept a) (hstep : a.step setting m = some b)
      (hreplaces : a.Replaces c b) : Keeping setting first (some c) b

/-- The files when a course is cut off, between two moves or in the middle of one. -/
inductive Crash (setting : Setting σ) (s : State σ α τ) : Tree → Prop
  | between : Crash setting s s.tree
  /-- An output is written in part. -/
  | output {w : Nat} {c : Collector} {name : String} {data : Text.Bytes} {place : Place}
      {created : Tree} (hcollector : s.collector? w = some c)
      (hrequest : c.request = .save name data)
      (hcreate : s.tree.create (outputPath setting w c name) = .ok (place, created))
      (written : Nat) : Crash setting s (created.fill place (data.take written))
  /-- A document is being written. -/
  | document {s' : State σ α τ} {c : FleetConfig} {t : Tree}
      (hstep : s.step setting .receive = some s') (hwrites : s.Writes c s')
      (hamid : c.Amid s.tree t) : Crash setting s t

theorem reaches_of_keeping {kept : Option FleetConfig} (hkeeping : Keeping setting first kept s) :
    first.Reaches setting s := by
  induction hkeeping with
  | here => exact .here
  | other _ hstep _ ih => exact ih.move hstep
  | replaced _ hstep _ ih => exact ih.move hstep

theorem exists_keeping (hreaches : first.Reaches setting s) :
    ∃ kept, Keeping setting first kept s := by
  induction hreaches with
  | here => exact ⟨none, .here⟩
  | @move a b m _ hstep ih =>
      obtain ⟨kept, hkeeping⟩ := ih
      by_cases hreplaces : ∃ c, a.Replaces c b
      · obtain ⟨c, hreplaces⟩ := hreplaces
        exact ⟨some c, hkeeping.replaced hstep hreplaces⟩
      · exact ⟨kept, hkeeping.other hstep fun c h => hreplaces ⟨c, h⟩⟩

/-- What is on disk in a state of a run and whenever the run is cut off there. -/
structure Durable (setting : Setting σ) (first : State σ α τ) (kept : Option FleetConfig)
    (s : State σ α τ) : Prop where
  /-- The last document that took its place, or what was there before the run. -/
  content : s.tree.content? first.config.path =
    (kept.map FleetConfig.bytes).or (first.tree.content? first.config.path)
  documented : ∀ c, kept = some c → first.Documented s c
  /-- A cut leaves that, or the document that was just being written. -/
  crash : ∀ t, s.Crash setting t →
    t.content? first.config.path = s.tree.content? first.config.path ∨
      ∃ s' c, s.step setting .receive = some s' ∧ s.Writes c s' ∧ first.Documented s' c ∧
        t.content? first.config.path = some c.bytes
  /-- A write that fails changes nothing; one that succeeds documents all that is merged. -/
  written : ∀ s' c, s.step setting .receive = some s' → s.Writes c s' →
    ((∃ fault, (c.sync s.mishap s.tree).1 = .error fault) →
      s'.tree.content? first.config.path = s.tree.content? first.config.path) ∧
    ((c.sync s.mishap s.tree).1 = .ok () →
      s'.tree.content? first.config.path = some s'.config.bytes ∧
        first.status.mergeAll s'.merged = .ok s'.config.status)
  /-- A run that ended well has documented what it leaves in memory. -/
  returned : ∀ outcome, s.receiver.result? = some (.ok outcome) →
    s.tree.content? first.config.path = some s.config.bytes

theorem apart_or_writes_of_step (hspares : setting.connector.Spares first.config.path)
    (hclear : KeepsClear setting first) {m : Move τ} (hreaches : first.Reaches setting s)
    (hstep : s.step setting m = some s') :
    Apart first.config.path s s' ∨
      ∃ c, s.step setting .receive = some s' ∧ s.Writes c s' ∧ s.merged <:+ s'.merged := by
  rcases cases_of_step hstep with ⟨hbeside, haround⟩ | ⟨w, hworked⟩ | hreceive
  · left
    have htree : s'.tree = s.tree := congrArg Surroundings.tree haround
    have hbooks := hbeside.sameBooks
    refine ⟨by rw [htree], hbooks.config, ?_, hbooks.synced, fun _ _ => hbooks.receiver.symm⟩
    exact hbooks.merged ▸ List.suffix_refl _
  · left
    have hbooks := hworked.sameBooks
    refine ⟨?_, hbooks.config, ?_, hbooks.synced, fun _ _ => hbooks.receiver.symm⟩
    · refine content?_of_worked hspares ?_ hworked
      intro c name data place hcollector hrequest htarget
      exact hclear s w c name data place hreaches hcollector hrequest htarget
    · exact hbooks.merged ▸ List.suffix_refl _
  · have hmerged := merged_of_received (received_of_receive hreceive)
    rcases silent_or_writes_of_receive hreceive with hsilent | ⟨c, hwrites⟩
    · left
      refine ⟨by rw [hsilent.tree], hsilent.config, hmerged, hsilent.synced, ?_⟩
      intro outcome hreturned
      exact absurd hreturned (hsilent.returned outcome)
    · exact Or.inr ⟨c, hreceive, hwrites, hmerged⟩

theorem Ledger.of_reaches (hfirst : Ledger first first) (hreaches : first.Reaches setting s) :
    Ledger first s := by
  induction hreaches with
  | here => exact hfirst
  | move _ hstep ih => exact ih.of_step hstep

theorem path_of_writes (hfirst : Ledger first first) {c : FleetConfig}
    (hreaches : first.Reaches setting s') (hwrites : s.Writes c s') :
    c.path = first.config.path := by
  rw [← hwrites.config, (hfirst.of_reaches hreaches).config]

theorem kept_of_keeping {kept : Option FleetConfig} (hfirst : Ledger first first)
    (hstarted : ∀ outcome, first.receiver ≠ .returned (.ok outcome))
    (hspares : setting.connector.Spares first.config.path) (hclear : KeepsClear setting first)
    (hkeeping : Keeping setting first kept s) : Kept first kept s := by
  induction hkeeping with
  | here => exact ⟨rfl, nofun, fun outcome h => absurd h (hstarted outcome)⟩
  | @other kept a b m hcourse hstep hnot ih =>
      have hreaches := reaches_of_keeping hcourse
      rcases apart_or_writes_of_step hspares hclear hreaches hstep with
        hapart | ⟨c, -, hwrites, hmerged⟩
      · exact ih.of_apart hapart
      · have hpath := path_of_writes hfirst (hreaches.move hstep) hwrites
        exact ih.of_failed hpath hwrites hmerged (hnot c)
  | @replaced kept a b m c hcourse hstep hreplaces ih =>
      exact kept_of_replaces (hfirst.of_reaches ((reaches_of_keeping hcourse).move hstep))
        hreplaces

theorem crash_content {t : Tree} (hfirst : Ledger first first) (hclear : KeepsClear setting first)
    (hreaches : first.Reaches setting s) (hcrash : s.Crash setting t) :
    t.content? first.config.path = s.tree.content? first.config.path ∨
      ∃ s' c, s.step setting .receive = some s' ∧ s.Writes c s' ∧ first.Documented s' c ∧
        t.content? first.config.path = some c.bytes := by
  cases hcrash with
  | between => exact Or.inl rfl
  | @output w c name data place created hcollector hrequest hcreate written =>
      left
      have hother := hclear s w c name data place hreaches hcollector hrequest
        (Tree.target_of_create hcreate)
      exact (Tree.content?_create_fill hcreate hother _).2
  | @document s' c _ hstep hwrites hamid =>
      have hafter := hreaches.move hstep
      have hpath := path_of_writes hfirst hafter hwrites
      rcases hamid.content? with hold | hnew
      · left
        rw [← hpath]
        exact hold
      · right
        refine ⟨s', c, hstep, hwrites, ?_, ?_⟩
        · rw [← hwrites.config]
          exact documented_config (hfirst.of_reaches hafter)
        · rw [← hpath]
          exact hnew

theorem durable_of_keeping {kept : Option FleetConfig} (hfirst : Ledger first first)
    (hstarted : ∀ outcome, first.receiver ≠ .returned (.ok outcome))
    (hspares : setting.connector.Spares first.config.path) (hclear : KeepsClear setting first)
    (hkeeping : Keeping setting first kept s) : Durable setting first kept s := by
  have hkept := kept_of_keeping hfirst hstarted hspares hclear hkeeping
  have hreaches := reaches_of_keeping hkeeping
  refine ⟨hkept.content, hkept.documented, fun t => crash_content hfirst hclear hreaches, ?_, ?_⟩
  · intro s' c hstep hwrites
    have hledger := hfirst.of_reaches (hreaches.move hstep)
    have hpath := path_of_writes hfirst (hreaches.move hstep) hwrites
    constructor
    · rintro ⟨fault, hfault⟩
      rw [hwrites.tree, ← hpath]
      exact FleetConfig.content?_of_sync_error hfault
    · intro hok
      refine ⟨?_, hledger.status⟩
      rw [hwrites.tree, hwrites.config, ← hpath]
      exact FleetConfig.content?_of_sync_ok hok
  · intro outcome hresult
    have hreturned := Receiver.eq_returned_of_result? hresult
    rw [hkept.content, hkept.returned outcome hreturned]
    rfl

end State
end Run

namespace Fleet

variable {σ : Type}

theorem makeFolder_of_makeFirst {t t' : Tree} {base path : Path} {start : String}
    {endings : List String} (hmake : Artifact.makeFirst t base start endings = .ok (path, t')) :
    t.makeFolder path = .ok t' := by
  induction endings with
  | nil => cases hmake
  | cons letters more ih =>
      unfold Artifact.makeFirst at hmake
      dsimp only at hmake
      split at hmake
      · rename_i made hfolder
        cases hmake
        exact hfolder
      · split at hmake
        · exact ih hmake
        · cases hmake

theorem grown_prepare (store : FleetStore) (endings : List String) :
    store.tree.Grown (prepare store endings).2.tree := by
  unfold prepare
  dsimp only
  split
  · exact .same
  · split
    · exact .same
    · have hmade := Tree.grown_makeFolders store.tree store.config.logDir
      split
      · rename_i tree hfault
        rw [hfault] at hmade
        exact hmade
      · rename_i tree hok
        rw [hok] at hmade
        unfold Artifact.allocateFolder
        cases hfirst : Artifact.makeFirst tree (Artifact.absolute tree store.config.logDir)
            (folderStart store.config) endings with
        | error cause => exact hmade
        | ok found => exact hmade.trans (Tree.grown_makeFolder (makeFolder_of_makeFirst hfirst))

end Fleet
end LogHarvest
