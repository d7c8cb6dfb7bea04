import LogHarvest.Proofs.Run.Counting
import LogHarvest.Proofs.Run.Hosting
import LogHarvest.Session.Rehearsal

/-!
# A run comes to what its members come to one by one

The workers of a run interleave with each other, with the gate, with the permits, with
the channel, and with the receiver.  If nobody calls the run off, and the members are
filed under their own identifiers and have no entries, none of this makes a difference:
the run ends as if the members were visited one after the other.
-/

namespace LogHarvest
namespace Run

variable {σ : Type}

/-- The records of members that are left alone, one after the other. -/
def oneByOne (hosts : Hosts) (setting : Setting σ) (stages : List Protocol.Stage) (folder : Path)
    (tree : Tree) (roster : List (String × Instance)) : List Record :=
  roster.zipIdx.map fun (m, w) => ⟨m.1, m.2.id, alone hosts setting w m.2 stages folder tree⟩

theorem getElem?_oneByOne (hosts : Hosts) (setting : Setting σ) (stages : List Protocol.Stage)
    (folder : Path) (tree : Tree) (roster : List (String × Instance)) (w : Nat) :
    (oneByOne hosts setting stages folder tree roster)[w]? =
      roster[w]?.map fun m => ⟨m.1, m.2.id, alone hosts setting w m.2 stages folder tree⟩ := by
  simp [oneByOne, List.getElem?_zipIdx, Function.comp_def]

theorem length_oneByOne (hosts : Hosts) (setting : Setting σ) (stages : List Protocol.Stage)
    (folder : Path) (tree : Tree) (roster : List (String × Instance)) :
    (oneByOne hosts setting stages folder tree roster).length = roster.length := by
  simp [oneByOne]

theorem keys_oneByOne (hosts : Hosts) (setting : Setting σ) (stages : List Protocol.Stage)
    (folder : Path) (tree : Tree) (roster : List (String × Instance)) :
    (oneByOne hosts setting stages folder tree roster).map Record.key =
      roster.map fun m => (m.1, m.2.id) := by
  refine List.ext_getElem? ?_
  intro w
  rw [List.getElem?_map, getElem?_oneByOne, List.getElem?_map, Option.map_map]
  rfl

theorem success_mem_oneByOne {hosts : Hosts} {setting : Setting σ} {stages : List Protocol.Stage}
    {folder : Path} {tree : Tree} {roster : List (String × Instance)} {group id : String}
    {paths : List Path} :
    .success group id paths ∈ oneByOne hosts setting stages folder tree roster ↔
      ∃ w i, roster[w]? = some (group, i) ∧ i.id = id ∧
        alone hosts setting w i stages folder tree = .ok paths := by
  rw [List.mem_iff_getElem?]
  constructor
  · rintro ⟨w, hw⟩
    rw [getElem?_oneByOne] at hw
    obtain ⟨⟨name, i⟩, hmember, heq⟩ := Option.map_eq_some_iff.1 hw
    obtain ⟨rfl, hid, halone⟩ := Record.mk.inj heq
    exact ⟨w, i, hmember, hid, halone⟩
  · rintro ⟨w, i, hmember, rfl, halone⟩
    refine ⟨w, ?_⟩
    rw [getElem?_oneByOne, hmember, Option.map_some, halone]
    rfl

/-!
## Records of workers
-/

/-- Every worker handed over the record that a list has for it, up to the fault of a failure. -/
def Matches (records : List Record) (entries : List (Nat × Record)) : Prop :=
  ∀ w r, (w, r) ∈ entries → (records.map Record.brief)[w]? = some r.brief

section Matching

variable {records : List Record} {entries : List (Nat × Record)}

theorem Matches.key (hmatches : Matches records entries) {w : Nat} {r : Record}
    (hmem : (w, r) ∈ entries) : (records.map Record.key)[w]? = some r.key := by
  have hbrief := congrArg (Option.map Prod.fst) (hmatches w r hmem)
  rw [← List.getElem?_map, List.map_map] at hbrief
  exact hbrief

theorem Matches.keys_subset (hmatches : Matches records entries) :
    (entries.map Prod.snd).map Record.key ⊆ records.map Record.key := by
  intro key hkey
  obtain ⟨r, hr, rfl⟩ := List.mem_map.1 hkey
  obtain ⟨⟨w, r⟩, hmem, rfl⟩ := List.mem_map.1 hr
  exact List.mem_of_getElem? (hmatches.key hmem)

theorem Matches.nodup_keys (hmatches : Matches records entries)
    (hdistinct : (records.map Record.key).Nodup) (honce : (entries.map Prod.fst).Nodup) :
    ((entries.map Prod.snd).map Record.key).Nodup := by
  rw [List.map_map, List.Nodup, List.pairwise_map]
  rw [List.Nodup, List.pairwise_map] at honce
  refine honce.imp_of_mem ?_
  rintro ⟨v, r⟩ ⟨w, r'⟩ hv hw hne hsame
  have hr := hmatches.key hv
  have hr' := hmatches.key hw
  have hlength := (List.getElem?_eq_some_iff.1 hr).1
  exact hne ((List.getElem?_inj hlength hdistinct).1
    (hr.trans ((congrArg some hsame).trans hr'.symm)))

theorem Matches.perm (hmatches : Matches records entries)
    (hall : (entries.map Prod.fst).Perm (List.range records.length)) :
    ((entries.map Prod.snd).map Record.brief).Perm (records.map Record.brief) := by
  have hleft : ((entries.map Prod.snd).map Record.brief).map some =
      (entries.map Prod.fst).map fun w => (records.map Record.brief)[w]? := by
    simp only [List.map_map]
    refine List.map_congr_left ?_
    rintro ⟨w, r⟩ hmem
    exact (hmatches w r hmem).symm
  have hright : (records.map Record.brief).map some =
      (List.range records.length).map fun w => (records.map Record.brief)[w]? := by
    refine List.ext_getElem? ?_
    intro w
    by_cases hw : w < records.length
    · simp [hw]
    · simp [hw]
  have hperm := hall.map fun w => (records.map Record.brief)[w]?
  rw [← hleft, ← hright] at hperm
  have hback := hperm.filterMap id
  simpa [List.filterMap_map, Function.comp_def] using hback

end Matching

/-!
## What the receiver merges
-/

namespace State

variable {α τ : Type} {setting : Setting σ} {records : List Record}

theorem exists_merge_of_next? {first s : State σ α τ} {r : Record} (hledger : Ledger first s)
    (hdelivery : Delivery s) (hopen : s.receiver.result? = none)
    (hawaits : first.status.Awaits (records.map Record.key))
    (hmatches : Matches records s.returned) (hnext : s.next? = some r) :
    ∃ status, s.status.merge r = .ok status := by
  obtain ⟨channel, hchannel⟩ := List.head?_eq_some_iff.1 (cases_of_next? hnext).1
  -- It was delivered once, so it cannot have been merged before.
  have hperm : (r :: (s.merged ++ channel)).Perm s.delivered := by
    have haccounted := hdelivery.accounted hopen
    rw [hchannel] at haccounted
    exact (haccounted.trans List.perm_middle).symm
  have hsublist : s.delivered.Sublist (s.returned.map Prod.snd) :=
    List.filter_sublist.map Prod.snd
  have hnext : (r :: s.merged).Sublist (r :: (s.merged ++ channel)) :=
    (List.sublist_append_left _ _).cons_cons r
  have hdistinct : ((r :: s.merged).map Record.key).Nodup := by
    have hkeys := hmatches.nodup_keys hawaits.distinct hdelivery.once
    have hdelivered := hkeys.sublist (hsublist.map Record.key)
    exact ((hperm.symm.map Record.key).nodup hdelivered).sublist (hnext.map Record.key)
  have hsubset : (r :: s.merged).map Record.key ⊆ records.map Record.key := by
    intro key hkey
    refine hmatches.keys_subset ?_
    exact (hsublist.map Record.key).subset
      ((hperm.map Record.key).subset ((hnext.map Record.key).subset hkey))
  obtain ⟨t, hall⟩ := Status.exists_mergeAll (hawaits.of_subset hsubset hdistinct)
  obtain ⟨u, hearlier, hlast⟩ := Status.mergeAll_cons_eq_ok_iff.1 hall
  rw [hledger.status] at hearlier
  cases hearlier
  exact ⟨t, hlast⟩

variable [Rate.Meter α τ] [LE τ] [DecidableLE τ]

theorem merged_of_returned {first last : State σ α τ} {result : Except FleetFault Outcome}
    (hcounting : Counting records.length first) (hdelivery : Delivery first)
    (hopen : first.receiver.result? = none)
    (hawaits : first.status.Awaits (records.map Record.key))
    (hledger : ∀ s, first.Reaches setting s → Ledger first s)
    (hmatches : ∀ s, first.Reaches setting s → s.calledOff = false → Matches records s.returned)
    (hreaches : first.Reaches setting last) (hcalm : last.calledOff = false)
    (hreturned : last.receiver = .returned result) :
    (result = .ok ⟨last.tally, false⟩ ∨ ∃ path cause, result = .error (.sync path cause)) ∧
      (last.merged.map Record.brief).Perm (records.map Record.brief) := by
  obtain ⟨s, hbefore, hafter, hopen', hcases⟩ := cases_of_returned hopen hreaches hreturned
  have hcalm' := calm_of_reaches hafter hcalm
  have hdelivery' := hdelivery.of_reaches hbefore
  have hcounting' := counting_of_reaches hcounting hdelivery hbefore hcalm'
  have hmatches' := hmatches s hbefore hcalm'
  rcases hcases with ⟨calledOff, hfinishing⟩ | ⟨r, fault, hnext, hrefused, -⟩
  · obtain ⟨rfl, -⟩ := hcounting'.finishing calledOff hfinishing
    obtain ⟨hmerged, hall⟩ := merged_of_finishing hcounting' hdelivery' hfinishing
    have hclosing := closing_of_finishing hfinishing hafter
    constructor
    · rcases hclosing.receiver with hstill | hok | ⟨path, cause, hfault⟩
      · rw [hreturned] at hstill
        cases hstill
      · rw [hreturned] at hok
        rw [hclosing.tally]
        exact Or.inl (Receiver.returned.inj hok)
      · rw [hreturned] at hfault
        exact Or.inr ⟨path, cause, Receiver.returned.inj hfault⟩
    · rw [hclosing.merged]
      exact (hmerged.map Record.brief).trans (hmatches'.perm hall)
  · obtain ⟨status, hok⟩ :=
      exists_merge_of_next? (hledger s hbefore) hdelivery' hopen' hawaits hmatches' hnext
    rw [hrefused] at hok
    cases hok

/-- What a run comes to that nobody calls off and whose last document can be written. -/
structure Undisturbed (config : FleetConfig) (records : List Record)
    (result : Except FleetFault Outcome) (last : State σ α τ) : Prop where
  result : result = .ok ⟨Tally.of records, false⟩
  status : config.status.mergeAll records.reverse = .ok last.status
  config : last.config = { config with status := last.status }

theorem undisturbed_of_returned {store : FleetStore} {stages : List Protocol.Stage}
    {folder : Path} {bucket : Rate.Bucket α τ} {now : τ} {calledOff : Bool} {remote : σ}
    {last : State σ α τ} {hosts : Hosts} {view : σ → Sessions → Prop}
    {result : Except FleetFault Outcome} (hkeyed : store.config.status.Keyed)
    (hunrecorded : store.config.status.Unrecorded)
    (hbehind : hosts.Behind setting store.config.status.roster view)
    (hview : view remote fun _ => none)
    (hreaches : (start store stages folder bucket now calledOff remote).Reaches setting last)
    (hreturned : last.receiver = .returned result) (hcalm : last.calledOff = false)
    (hsynced : ∀ path cause, result ≠ .error (.sync path cause)) :
    Undisturbed store.config
      (oneByOne hosts setting stages folder store.tree store.config.status.roster) result last := by
  have hawaits := Status.awaits_roster hkeyed hunrecorded
  rw [← keys_oneByOne hosts setting stages folder store.tree] at hawaits
  have hlength := length_oneByOne hosts setting stages folder store.tree store.config.status.roster
  have hcounting := counting_start store stages folder bucket now calledOff remote
  rw [← hlength] at hcounting
  -- What a worker hands over is what its instance comes to alone, whoever else is at work.
  have hmatches : ∀ s, (start store stages folder bucket now calledOff remote).Reaches setting s →
      s.calledOff = false → Matches
        (oneByOne hosts setting stages folder store.tree store.config.status.roster)
        s.returned := by
    intro s hs hquiet w r hmem
    obtain ⟨⟨w, r, k⟩, hfiled, heq⟩ := List.mem_map.1 hmem
    cases heq
    obtain ⟨i, hmember, hid, houtcome⟩ :=
      outcome_of_filed hbehind (carried_onCourse_start hview) hs hquiet hfiled
    rw [List.getElem?_map, getElem?_oneByOne, hmember, Record.brief, Record.key, hid, houtcome]
    rfl
  have hledger : Ledger (start store stages folder bucket now calledOff remote) last :=
    ledger_of_reaches hreaches
  obtain ⟨hresult, hperm⟩ := merged_of_returned hcounting (delivery_start _ _ _ _ _ _ _) rfl hawaits
    (fun s hs => ledger_of_reaches hs) hmatches hreaches hcalm hreturned
  constructor
  case result =>
    rcases hresult with hok | ⟨path, cause, hfault⟩
    · rw [hok, hledger.tally]
      have htally := hperm.map Prod.snd
      rw [List.map_map, List.map_map] at htally
      rw [Tally.of_perm htally]
    · exact absurd hfault (hsynced path cause)
  case status =>
    -- Records of different instances may be merged in any order: the status is the same.
    have hreverse := List.reverse_perm
      (oneByOne hosts setting stages folder store.tree store.config.status.roster)
    have hkeys := hreverse.map Record.key
    obtain ⟨t, ht⟩ := Status.exists_mergeAll
      (hawaits.of_subset hkeys.subset (hkeys.symm.nodup hawaits.distinct))
    have hsame := Status.mergeAll_eq_of_perm hledger.status ht
      (hperm.trans (hreverse.map Record.brief).symm)
    rw [hsame]
    exact ht
  case config => exact hledger.config

end State
end Run

/-!
## A rehearsal
-/

namespace Script

open Run

def hosts (s : Script) : Hosts where
  connect i :=
    match s.connectFaults.lookup i.id with
    | some fault => .error fault
    | none =>
        if s.refusing.contains i.id then .error (.connect i.target "connection refused")
        else .ok ()
  run i _ line := s.result i line

theorem behind (s : Script) (hcalm : s.callOffOnConnect = none) (setting : Setting Account)
    (hconnector : setting.connector = s.connector) (roster : List (String × Instance)) :
    s.hosts.Behind setting roster fun _ _ => True where
  connect := by
    intro before sessions w group i result _ _ _ hverdict
    refine ⟨?_, trivial⟩
    rw [hconnector] at hverdict
    simp only [connector, connect, hcalm] at hverdict
    unfold hosts
    dsimp only
    cases hfault : s.connectFaults.lookup i.id with
    | some fault =>
        rw [hfault] at hverdict
        cases hverdict
        rfl
    | none =>
        rw [hfault] at hverdict
        dsimp only at hverdict ⊢
        split at hverdict <;> rename_i hrefusing
        · cases hverdict
          rw [if_pos hrefusing]
        · cases hverdict
          rw [if_neg hrefusing]
  run := by
    intro before sessions w group i issued line result _ _ _ hverdict
    refine ⟨?_, trivial⟩
    rw [hconnector] at hverdict
    simp only [connector, run] at hverdict
    split at hverdict
    · cases hverdict
    · cases hverdict
      rfl
  close _ _ _ := trivial
  connectLost _ _ _ _ := ⟨none, trivial⟩
  runLost _ _ _ _ := ⟨none, trivial⟩
  connectFolders w i before := by
    rw [hconnector]
    simp only [connector, connect, hcalm]
    split
    · exact .refl _
    · split <;> exact .refl _
  runFolders w i line before := by
    rw [hconnector]
    simp only [connector, run]
    split <;> exact .refl _
  closeFolders w i before := by
    rw [hconnector]
    exact .refl _

end Script

namespace Fleet

open Run State

variable {σ : Type} {setting : Setting σ} {stages : List Protocol.Stage} {endings : List String}
  {f : Fleet σ} {folder : Path} {last : State σ Float Rate.Millis}

/--
A run that nobody calls off and whose last document can be written ends well, whatever
the order of its moves, and comes to what its members come to one by one.
-/
theorem result_eq_oneByOne {hosts : Hosts} {view : σ → Sessions → Prop}
    {result : Except FleetFault Outcome} (hkeyed : f.store.config.status.Keyed)
    (hunrecorded : f.store.config.status.Unrecorded)
    (hbehind : hosts.Behind setting f.store.config.status.roster view)
    (hview : view f.remote fun _ => none)
    (hfetching : f.Fetching setting stages endings folder last)
    (hresult : last.receiver.result? = some result) (hcalm : last.calledOff = false)
    (hsynced : ∀ path cause, result ≠ .error (.sync path cause)) :
    let status := f.store.config.status
    let tree := (f.prepared endings).store.tree
    let records := oneByOne hosts setting stages folder tree status.roster
    result = .ok ⟨Tally.of records, false⟩ ∧
      (Tally.of records).collected + (Tally.of records).failed =
        ((f.prepared endings).startRun stages folder).workers.length ∧
      status.mergeAll records.reverse = .ok last.status ∧
      last.config = { f.store.config with status := last.status } ∧
      status.SameMembers last.status ∧
      ∀ group id paths, last.status.logsFor group id = some paths ↔
        status.logsFor group id = some paths ∨
          ∃ w i, status.roster[w]? = some (group, i) ∧ i.id = id ∧
            alone hosts setting w i stages folder tree = .ok paths := by
  intro status tree records
  have hconfig : (f.prepared endings).store.config = f.store.config :=
    config_prepare f.store endings
  have hreturned := Receiver.eq_returned_of_result? hresult
  rw [← hconfig] at hkeyed hunrecorded hbehind
  have hundisturbed := undisturbed_of_returned hkeyed hunrecorded hbehind hview hfetching.reached
    hreturned hcalm hsynced
  rw [hconfig] at hundisturbed
  refine ⟨hundisturbed.result, ?_, hundisturbed.status, hundisturbed.config,
    Status.sameMembers_of_mergeAll hundisturbed.status, ?_⟩
  · rw [Tally.collected_add_failed, length_oneByOne, startRun, length_workers_start, hconfig]
  · intro group id paths
    rw [Status.logsFor_of_mergeAll hundisturbed.status, List.mem_reverse, success_mem_oneByOne]

/-!
## One member of two

One of two members refuses connections, and there is a permit for one session only.
-/

def pair : Fleet Account :=
  let c := FleetConfig.new "demo" "/logs" "/fleetlog.yaml"
  let group := c.status.addInstance "a" ⟨"i-1", "10.0.0.1", ""⟩
  let config := { c with
    limits := ⟨1000, 100, some 1⟩
    status := group.addInstance "b" ⟨"i-2", "10.0.0.2", ""⟩ }
  ⟨⟨config, .empty, []⟩, .zero, false⟩

def refusesSecond : Setting Account where
  connector := { Script.canned with refusing := ["i-2"] }.connector
  verbose := false
  suffix _ _ := ""
  flaw _ _ := none

def pairLast : Option (State Account Float Rate.Millis) :=
  ((pair.prepared ["x"]).startRun [.fixed [⟨"uptime", "up.log", none⟩]]
      "/logs/demo-logsx").steps refusesSecond
    (.work 1 :: .work 0 :: List.replicate 3 (.work 1) ++ List.replicate 7 (.work 0) ++
      List.replicate 4 .receive)

theorem pairLast_facts :
    (pairLast.map fun s => (s.receiver, s.calledOff)) =
      some (.returned (.ok ⟨⟨1, 1, 1⟩, false⟩), false) := by
  decide +kernel

theorem result_eq_oneByOne_pair :
    ∃ last, pair.Fetching refusesSecond [.fixed [⟨"uptime", "up.log", none⟩]] ["x"]
        "/logs/demo-logsx" last ∧
      ∀ group id paths, last.status.logsFor group id = some paths ↔
        pair.store.config.status.logsFor group id = some paths ∨
          ∃ w i, pair.store.config.status.roster[w]? = some (group, i) ∧ i.id = id ∧
            alone { Script.canned with refusing := ["i-2"] }.hosts refusesSecond w i
              [.fixed [⟨"uptime", "up.log", none⟩]] "/logs/demo-logsx"
              (pair.prepared ["x"]).store.tree = .ok paths := by
  obtain ⟨last, hlast, hfacts⟩ := Option.map_eq_some_iff.1 pairLast_facts
  obtain ⟨hreceiver, hcalm⟩ := Prod.mk.inj hfacts
  have hfetching : pair.Fetching refusesSecond [.fixed [⟨"uptime", "up.log", none⟩]] ["x"]
      "/logs/demo-logsx" last := ⟨by decide +kernel, reaches_of_steps hlast⟩
  have hresult : last.receiver.result? = some (.ok ⟨⟨1, 1, 1⟩, false⟩) := by
    rw [hreceiver]
    rfl
  have hbehind := Script.behind { Script.canned with refusing := ["i-2"] } rfl refusesSecond rfl
    pair.store.config.status.roster
  have hkeyed : pair.store.config.status.Keyed := (Status.keyed_empty.addInstance _ _).addInstance _ _
  have hunrecorded : pair.store.config.status.Unrecorded := by
    intro group members key i _ _
    refine (Status.logsFor_addInstance _ _ _ group key).trans ?_
    exact Status.logsFor_addInstance _ _ _ group key
  have hends :=
    result_eq_oneByOne hkeyed hunrecorded hbehind trivial hfetching hresult hcalm nofun
  exact ⟨last, hfetching, hends.2.2.2.2.2⟩

end Fleet
end LogHarvest
