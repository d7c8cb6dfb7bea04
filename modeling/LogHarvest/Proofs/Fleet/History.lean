import LogHarvest.Proofs.Run.Driving
import LogHarvest.Proofs.Run.Ledger

/-!
# The history of a fleet

A fleet's store lives through any number of deeds: members are added, logs are
recorded, records are merged, documents are written, logs are fetched, and the
rest of it is changed by others.  `History` tells which documents were written on
the way.

No deed takes an entry away or changes one, so an entry is there for ever, and
every document has the entries of those before it.
-/

namespace LogHarvest

def Aggregation.documented (a : Aggregation FleetStore) (r : Record) : List FleetConfig :=
  match (a.absorb r).1 with
  | .ok () => Run.State.documented r (a.absorb r).2.store.config
  | .error _ => []

namespace FleetStore

/-- A deed, with the configurations whose documents it has written, the latest first. -/
inductive Deed : FleetStore → List FleetConfig → FleetStore → Prop
  | addInstance (s : FleetStore) (group : String) (i : Instance) :
      Deed s [] (s.setStatus (s.config.status.addInstance group i))
  | record {s : FleetStore} {status : Status} {group id : String} {paths : List Path}
      (hrecord : s.config.status.record group id paths = .ok status) :
      Deed s [] (s.setStatus status)
  | absorb (a : Aggregation FleetStore) (r : Record) :
      Deed a.store (a.documented r) (a.absorb r).2.store
  | sync (s : FleetStore) : Deed s [s.config] s.sync.2
  /-- A fetch, up to any state of its run. -/
  | fetch {σ : Type} {setting : Run.Setting σ} {stages : List Protocol.Stage}
      {endings : List String} {f : Fleet σ} {folder : Path}
      {last : Run.State σ Float Rate.Millis}
      (hfetching : f.Fetching setting stages endings folder last) :
      Deed f.store last.synced last.aggregation.store
  /-- A change of anything but the status, by whomever. -/
  | elsewhere {s s' : FleetStore} (hstatus : s'.config.status = s.config.status) : Deed s [] s'

inductive History : FleetStore → List FleetConfig → FleetStore → Prop
  | here (s : FleetStore) : History s [] s
  | next {s t u : FleetStore} {earlier later : List FleetConfig} :
      History s earlier t → Deed t later u → History s (later ++ earlier) u

theorem growing_absorb (a : Aggregation FleetStore) (r : Record) :
    a.store.config.status.Growing ((a.documented r).map FleetConfig.status)
      (a.absorb r).2.store.config.status := by
  have hwithin := Aggregation.within_absorb a r
  unfold Aggregation.documented
  split
  · unfold Run.State.documented
    split
    · exact Status.growing_singleton hwithin
    · exact Status.growing_nil hwithin
  · exact Status.growing_nil hwithin

theorem growing_fetch {σ : Type} {setting : Run.Setting σ} {stages : List Protocol.Stage}
    {endings : List String} {f : Fleet σ} {folder : Path}
    {last : Run.State σ Float Rate.Millis}
    (hfetching : f.Fetching setting stages endings folder last) :
    f.store.config.status.Growing (last.synced.map FleetConfig.status) last.status := by
  have hledger := Run.State.ledger_of_reaches hfetching.reached
  rw [← Fleet.config_prepare f.store endings]
  exact hledger.documents

theorem Deed.growing {s t : FleetStore} {documents : List FleetConfig}
    (hdeed : Deed s documents t) :
    s.config.status.Growing (documents.map FleetConfig.status) t.config.status := by
  cases hdeed with
  | addInstance => exact Status.growing_nil (Status.within_addInstance _ _ _)
  | record hrecord => exact Status.growing_nil (Status.within_of_record hrecord)
  | absorb => exact growing_absorb _ _
  | sync => exact Status.growing_singleton (.refl _)
  | fetch hfetching => exact growing_fetch hfetching
  | elsewhere hstatus =>
      rw [hstatus]
      exact Status.growing_nil (.refl _)

theorem History.growing {s t : FleetStore} {documents : List FleetConfig}
    (hhistory : History s documents t) :
    s.config.status.Growing (documents.map FleetConfig.status) t.config.status := by
  induction hhistory with
  | here => exact Status.growing_nil (.refl _)
  | next _ hdeed ih =>
      rw [List.map_append]
      exact ih.append hdeed.growing

theorem history_of_fetch {σ : Type} (setting : Run.Setting σ) (stages : List Protocol.Stage)
    (endings : List String) (interrupts : Run.State σ Float Rate.Millis → Bool) (f : Fleet σ) :
    ∃ documents, History f.store documents (f.fetch setting stages endings interrupts).2.store := by
  rcases Fleet.cases_of_fetch setting stages endings interrupts f with
    ⟨fault, -, hresult⟩ | ⟨folder, last, hfetching, hafter⟩
  · rw [hresult]
    have hstatus := congrArg FleetConfig.status (Fleet.config_prepare f.store endings)
    exact ⟨_, (History.here f.store).next (.elsewhere hstatus)⟩
  · rw [hafter]
    exact ⟨_, (History.here f.store).next (.fetch hfetching)⟩

/--
An entry stays for ever, and no document has less than one before it.  A run that
takes the record of a success for an instance with an entry ends with a fault; the
record changes neither the configuration nor the counts, and nothing more is written.
-/
theorem recorded_for_ever {s t : FleetStore} {documents : List FleetConfig}
    (hhistory : History s documents t) :
    s.config.status.Within t.config.status ∧
      (∀ c ∈ documents, s.config.status.Within c.status ∧ c.status.Within t.config.status) ∧
      documents.Pairwise (fun later earlier => earlier.status.Within later.status) ∧
      ∀ {σ : Type} (setting : Run.Setting σ) (a : Run.State σ Float Rate.Millis) (r : Record)
        (paths old : List Path),
        a.aggregation.store = t → a.next? = some r → r.outcome = .ok paths →
        s.config.status.logsFor r.group r.id = some old →
        ∃ b, a.step setting .receive = some b ∧
          ∀ last, b.Reaches setting last →
            last.receiver.result? = some (.error (.duplicateInstance r.group r.id)) ∧
            last.config = a.config ∧ last.tally = a.tally ∧ last.synced = a.synced := by
  have hgrowing := hhistory.growing
  refine ⟨hgrowing.within, ?_, List.pairwise_map.1 hgrowing.ascending, ?_⟩
  · intro c hc
    exact hgrowing.between c.status (List.mem_map_of_mem hc)
  · intro σ setting a r paths old hstore hnext hsuccess hold
    -- The run takes the record in a store that the history led to, so the entry is in it.
    have hrecorded : a.status.logsFor r.group r.id = some old := by
      rw [← hstore] at hgrowing
      exact hgrowing.within r.group r.id old hold
    have hrefused : a.status.merge r = .error (.duplicateInstance r.group r.id) := by
      unfold Status.merge
      rw [hsuccess]
      exact Status.record_of_recorded hrecorded paths
    obtain ⟨b, hstep, hreceiver, htally, hconfig, -, hsynced⟩ :=
      Run.State.step_of_refused hnext hrefused
    refine ⟨b, hstep, ?_⟩
    intro last hreaches
    have hsame := Run.State.sameBooks_of_returned hreceiver hreaches
    refine ⟨?_, hsame.config.trans hconfig, hsame.tally.trans htally,
      hsame.synced.trans hsynced⟩
    rw [hsame.receiver, hreceiver]
    rfl

/-!
## A second fetch
-/

def oneMember : FleetStore :=
  let bare : FleetStore := ⟨.new "demo" "/logs" "/fleet.yaml", .empty, []⟩
  bare.setStatus (bare.config.status.addInstance "a" ⟨"i-1", "10.0.0.1", ""⟩)

def oneEntry : FleetStore :=
  ((Aggregation.start oneMember).absorb (.success "a" "i-1" ["/logs/old"])).2.store

def silent : Run.Setting Unit where
  connector := ⟨fun _ _ w => .ok () w, fun _ _ _ _ w => .ok [] w, fun _ _ w => w⟩
  verbose := false
  suffix _ _ := ""
  flaw _ _ := none

def secondRun : Run.State Unit Float Rate.Millis :=
  (⟨(Fleet.prepare oneEntry ["x"]).2, (), false⟩ : Fleet Unit).startRun [] "/logs/demo-logsx"

theorem recorded_for_ever_secondRun :
    ∃ a b, secondRun.Reaches silent a ∧ a.step silent .receive = some b ∧
      b.receiver.result? = some (.error (.duplicateInstance "a" "i-1")) ∧
      b.tally = a.tally := by
  let moves : List (Run.Move Rate.Millis) := List.replicate 5 (.work 0)
  have hmoves : (secondRun.steps silent moves).isSome = true := by decide +kernel
  obtain ⟨a, ha⟩ := Option.isSome_iff_exists.1 hmoves
  have hreaches := Run.State.reaches_of_steps ha
  have hnext : (secondRun.steps silent moves).bind Run.State.next? =
      some (.success "a" "i-1" []) := by decide +kernel
  rw [ha] at hnext
  have hfetching : (⟨oneEntry, (), false⟩ : Fleet Unit).Fetching silent [] ["x"]
      "/logs/demo-logsx" a := ⟨by decide +kernel, hreaches⟩
  have hentry : oneEntry.config.status.logsFor "a" "i-1" = some ["/logs/old"] := by
    decide +kernel
  obtain ⟨-, -, -, hends⟩ :=
    recorded_for_ever ((History.here oneEntry).next (.fetch hfetching))
  obtain ⟨b, hstep, hlast⟩ := hends silent a _ [] ["/logs/old"] rfl hnext rfl hentry
  obtain ⟨hresult, -, htally, -⟩ := hlast b .here
  exact ⟨a, b, hreaches, hstep, hresult, htally⟩

end FleetStore
end LogHarvest
