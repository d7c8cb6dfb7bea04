import LogHarvest.Proofs.Fleet.Entries
import LogHarvest.Proofs.Fleet.Namesakes
import LogHarvest.Proofs.Fleet.Reloading
import LogHarvest.Proofs.Run.Durability
import LogHarvest.Proofs.Run.Progress
import LogHarvest.Proofs.Run.Settling
import Mathlib.Data.List.Perm.Subperm

/-!
# Runs over fleets without entries

The receiver refuses a record if its group is not there or its instance has an entry.
In a run over a fleet without entries, an entry comes from a record that was merged, and
the records come from different members.  So a record is refused only if two members of
one group have one identifier, under different keys; and then there is a run in which
both succeed, and the second record is refused.
-/

namespace LogHarvest
namespace Run
namespace State

variable {σ : Type}

/-!
## Whose record it is
-/

def Appointed (roster : List (String × Instance)) (_ : Unit) (_ : Surroundings σ) (w : Nat)
    (c : Collector) : Prop :=
  roster[w]? = some (c.group, c.subject)

theorem lasting_appointed (setting : Setting σ) (roster : List (String × Instance)) :
    Lasting setting true (Appointed roster) where
  told := by
    intro _ _ _ w c answer happointed _ _
    have htask := c.sameTask_resume answer
    refine ⟨(), ?_, fun _ _ _ hother => hother⟩
    unfold Appointed
    rw [htask.group, htask.subject]
    exact happointed
  unanswered _ _ := ⟨(), fun _ _ _ hother => hother⟩
  rewritten happointed _ := happointed

variable {α τ : Type}

theorem Delivery.exists_senders {s : State σ α τ} (hdelivery : Delivery s)
    (hopen : s.receiver.result? = none) {r r' : Record} (hmerged : r' ∈ s.merged)
    (hchannel : r ∈ s.channel) (hkey : r'.key = r.key) :
    ∃ v w x y, v ≠ w ∧ (v, x) ∈ s.returned ∧ (w, y) ∈ s.returned ∧ x.key = r.key ∧
      y.key = r.key := by
  have hpair : List.Sublist [r', r] (s.merged ++ s.channel) :=
    (List.singleton_sublist.2 hmerged).append (List.singleton_sublist.2 hchannel)
  obtain ⟨l, hperm, hl⟩ := hpair.subperm.trans (hdelivery.accounted hopen).symm.subperm
  obtain ⟨handed, hsublist, rfl⟩ := List.sublist_map_iff.1 hl
  have hkeys : ∀ e ∈ handed, e.2.key = r.key := by
    intro e he
    have hmem := hperm.mem_iff.1 (List.mem_map_of_mem he)
    rcases List.mem_pair.1 hmem with heq | heq
    · rw [heq, hkey]
    · rw [heq]
  have hreturned := hsublist.trans List.filter_sublist
  have hlength : handed.length = 2 := by
    rw [← List.length_map (f := Prod.snd), hperm.length_eq]
    rfl
  obtain ⟨⟨v, x⟩, ⟨w, y⟩, rfl⟩ := List.length_eq_two.1 hlength
  have hnodup := hdelivery.once.sublist (hreturned.map Prod.fst)
  refine ⟨v, w, x, y, ?_, ?_, ?_, hkeys (v, x) (by simp), hkeys (w, y) (by simp)⟩
  · simpa using hnodup
  · exact hreturned.mem (by simp)
  · exact hreturned.mem (by simp)

theorem mem_channel_of_next? {s : State σ α τ} {r : Record} (hnext : s.next? = some r) :
    r ∈ s.channel :=
  List.mem_of_head? (cases_of_next? hnext).1

/-!
## One worker goes to work
-/

def welcoming (σ : Type) : Setting σ where
  connector := ⟨fun _ _ w => .ok () w, fun _ _ _ _ w => .ok [] w, fun _ _ w => w⟩
  verbose := false
  suffix _ _ := ""
  flaw _ _ := none

/-- A worker was put on a duty; besides, time, tokens and history may have changed. -/
def Serves (s : State σ α τ) (w : Nat) (duty : Duty τ) (s' : State σ α τ) : Prop :=
  ∃ now bucket history,
    s' = { s with
      now := now, bucket := bucket, history := history, workers := s.workers.set w duty }

theorem Serves.trans {s s' s'' : State σ α τ} {w : Nat} {duty duty' : Duty τ}
    (hfirst : Serves s w duty s') (hsecond : Serves s' w duty' s'') : Serves s w duty' s'' := by
  obtain ⟨_, _, _, rfl⟩ := hfirst
  obtain ⟨now, bucket, history, rfl⟩ := hsecond
  exact ⟨now, bucket, history, by rw [List.set_set]⟩

variable {s : State σ Float Rate.Millis} {w : Nat} {c : Collector}

theorem serves_pass (hphase : c.phase = .entering) :
    Serves s w (.active { c with phase := .connecting }) (s.pass w c) := by
  obtain ⟨group, i, stages, sink, phase⟩ := c
  cases hphase
  exact ⟨_, _, _, rfl⟩

theorem exists_passed (hduty : s.workers[w]? = some (.active c)) (hphase : c.phase = .entering)
    (hcalledOff : s.calledOff = false) :
    ∃ s', s.Reaches (welcoming σ) s' ∧
      Serves s w (.active { c with phase := .connecting }) s' := by
  have hw := (List.getElem?_eq_some_iff.1 hduty).1
  have hstep : s.step (welcoming σ) (.work w) = some (s.atGate w c) := by
    simp only [step, work, hduty, act, Collector.request, hphase]
  have hgated := gated_atGate s w c
  generalize s.atGate w c = s' at hstep hgated
  cases hgated with
  | @free bucket _ | @paid _ bucket _ _ _ =>
      exact ⟨_, reaches_of_step hstep, serves_pass (s := { s with bucket := bucket }) hphase⟩
  | refused _ hoff =>
      rw [hcalledOff] at hoff
      cases hoff
  | @owed _ bucket due _ _ _ =>
      -- The clock goes on to the time at which the reservation matures.
      let a := { s with bucket := bucket }.assign w (.waiting c due)
      let later := max s.now due
      have htick : a.step (welcoming σ) (.tick later) = some { a with now := later } :=
        if_pos (Nat.le_max_left s.now due)
      have hmature : { a with now := later }.step (welcoming σ) (.work w) =
          some ({ a with now := later }.pass w c) := by
        have hwaiting : ({ a with now := later }).workers[w]? = some (.waiting c due) :=
          List.getElem?_set_self hw
        simp only [step, work, hwaiting]
        exact if_pos (Nat.le_max_right s.now due)
      refine ⟨_, ((reaches_of_step hstep).move htick).move hmature, ?_⟩
      have hwait : Serves s w (.waiting c due) { a with now := later } := ⟨_, _, _, rfl⟩
      exact hwait.trans (serves_pass hphase)

theorem serves_connect (hduty : s.workers[w]? = some (.active c)) (hphase : c.phase = .connecting)
    (hstages : c.stages = []) :
    ∃ s', s.step (welcoming σ) (.work w) = some s' ∧
      Serves s w (.active { c with phase := .closing (.ok []) }) s' := by
  obtain ⟨group, i, stages, sink, phase⟩ := c
  cases hphase
  cases hstages
  have hstep : s.step (welcoming σ) (.work w) =
      some ((s.note (.opened w)).assign w (.active ⟨group, i, [], sink, .closing (.ok [])⟩)) := by
    simp only [step, work, hduty, act, Collector.request]
    rfl
  exact ⟨_, hstep, _, _, _, rfl⟩

theorem serves_close (hduty : s.workers[w]? = some (.active c))
    (hphase : c.phase = .closing (.ok [])) :
    ∃ s', s.step (welcoming σ) (.work w) = some s' ∧
      Serves s w (.sending (.success c.group c.subject.id [])) s' := by
  obtain ⟨group, i, stages, sink, phase⟩ := c
  cases hphase
  have hstep : s.step (welcoming σ) (.work w) =
      some (((s.note (.closed w)).assign w (.sending (.success group i.id []))).note
        (.returned w (.success group i.id []) sink)) := by
    simp only [step, work, hduty, act, Collector.request]
    rfl
  exact ⟨_, hstep, _, _, _, rfl⟩

theorem exists_sending (hduty : s.workers[w]? = some (.active c)) (hphase : c.phase = .entering)
    (hstages : c.stages = []) (hcalledOff : s.calledOff = false) :
    ∃ s', s.Reaches (welcoming σ) s' ∧
      Serves s w (.sending (.success c.group c.subject.id [])) s' := by
  have hw := (List.getElem?_eq_some_iff.1 hduty).1
  have hassigned : ∀ {duty s'}, Serves s w duty s' → s'.workers[w]? = some duty := by
    rintro duty s' ⟨_, _, _, rfl⟩
    exact List.getElem?_set_self hw
  obtain ⟨a, hpassed, hconnecting⟩ := exists_passed hduty hphase hcalledOff
  obtain ⟨b, hconnect, hclosing⟩ := serves_connect (hassigned hconnecting) rfl hstages
  have hclosing := hconnecting.trans hclosing
  obtain ⟨s', hclose, hsending⟩ := serves_close (hassigned hclosing) rfl
  exact ⟨s', (hpassed.move hconnect).move hclose, hclosing.trans hsending⟩

theorem step_begin {permits : Option Nat} (hduty : s.workers[w]? = some (.unstarted c))
    (hcalledOff : s.calledOff = false) (hfree : s.permits = permits.map (· + 1)) :
    s.step (welcoming σ) (.work w) =
      some ({ s with permits := permits }.assign w (.active c)) := by
  have hopen : ¬ s.calledOff = true := by simp [hcalledOff]
  simp only [step, work, hduty, begin, if_neg hopen]
  obtain ⟨now, bucket, calledOff, free, queue, workers, channel, receiver, aggregation, remote,
    history⟩ := s
  cases permits <;> cases hfree <;> rfl

theorem step_send {permits : Option Nat} {r : Record}
    (hduty : s.workers[w]? = some (.sending r)) (hpermits : s.permits = permits)
    (hqueue : s.queue = []) (hopen : s.receiver.result? = none)
    (hroom : s.channel.length < channelSize) :
    s.step (welcoming σ) (.work w) =
      some ({ s with permits := permits.map (· + 1), channel := s.channel ++ [r] }.assign w
        .ended) := by
  simp only [step, work, hduty, send]
  obtain ⟨now, bucket, calledOff, free, queue, workers, channel, receiver, aggregation, remote,
    history⟩ := s
  cases hpermits
  cases hqueue
  cases receiver with
  | returned result => cases hopen
  | _ =>
      simp only [if_pos hroom]
      cases free <;> rfl

theorem exists_sent {group : String} {i : Instance} {folder : Path}
    (hduty : s.workers[w]? = some (.unstarted (.new group i [] folder)))
    (hcalledOff : s.calledOff = false) (hpermits : s.permits ≠ some 0) (hqueue : s.queue = [])
    (hopen : s.receiver.result? = none) (hroom : s.channel.length < channelSize) :
    ∃ s', s.Reaches (welcoming σ) s' ∧
      Serves { s with channel := s.channel ++ [.success group i.id []] } w .ended s' := by
  have hw := (List.getElem?_eq_some_iff.1 hduty).1
  obtain ⟨permits, hfree⟩ : ∃ permits : Option Nat, s.permits = permits.map (· + 1) := by
    cases hp : s.permits with
    | none => exact ⟨none, rfl⟩
    | some n =>
        rw [hp] at hpermits
        obtain ⟨m, rfl⟩ := Nat.exists_eq_succ_of_ne_zero (fun h => hpermits (congrArg some h))
        exact ⟨some m, rfl⟩
  let a := { s with permits := permits }.assign w (.active (.new group i [] folder))
  have hbegin : s.step (welcoming σ) (.work w) = some a := step_begin hduty hcalledOff hfree
  obtain ⟨b, hreaches, hserves⟩ := exists_sending (s := a) (w := w) (List.getElem?_set_self hw)
    rfl rfl hcalledOff
  have hsending : b.workers[w]? = some (.sending (.success group i.id [])) := by
    obtain ⟨_, _, _, rfl⟩ := hserves
    exact List.getElem?_set_self (by simpa [a, assign] using hw)
  obtain ⟨now, bucket, history, rfl⟩ := hserves
  have hsend := step_send hsending rfl hqueue hopen hroom
  refine ⟨_, ((reaches_of_step hbegin).trans hreaches).move hsend, now, bucket, history, ?_⟩
  simp only [a, assign, List.set_set, hfree]

theorem exists_refused {group id : String} {members : NameMap Instance} {left : Nat}
    (hchannel : s.channel = [.success group id [], .success group id []])
    (hreceiver : s.receiver = .receiving (left + 2)) (hcalledOff : s.calledOff = false)
    (hgroup : s.status.membersOf group = some members) (hfresh : s.status.logsFor group id = none)
    (setting : Setting σ) :
    ∃ last, s.Reaches setting last ∧
      last.receiver = .returned (.error (.duplicateInstance group id)) := by
  obtain ⟨status, hrecord⟩ := Status.exists_record hgroup hfresh []
  have hmerge : s.status.merge (.success group id []) = .ok status := hrecord
  have htook := took_of_merge hchannel hmerge
  have hfirst : s.step setting .receive = some ({ s with channel := [.success group id []] }.merge
      (.success group id []) s.receiver.afterRecord) := by
    simp only [step, receive, hreceiver, hcalledOff, hchannel]
    rfl
  generalize ({ s with channel := [.success group id []] }.merge
      (.success group id []) s.receiver.afterRecord) = a at htook hfirst
  have hsecond : a.channel = [.success group id []] := by
    have hrest := htook.channel
    rw [hchannel] at hrest
    exact (List.cons.inj hrest).2.symm
  have hnext : a.next? = some (.success group id []) := by
    simp [next?, htook.receiver, hreceiver, Receiver.afterRecord, htook.calledOff, hcalledOff,
      hsecond]
  have hrecorded : a.status.logsFor group id = some [] := by
    have hstatus : a.status = status := congrArg FleetConfig.status htook.config
    rw [hstatus, Status.logsFor_of_record hrecord, if_pos ⟨rfl, rfl⟩]
  have hrefused : a.status.merge (.success group id []) =
      .error (.duplicateInstance group id) := Status.record_of_recorded hrecorded []
  obtain ⟨last, hlast, hreturned, -⟩ : ∃ last, a.step setting .receive = some last ∧ _ ∧ _ :=
    step_of_refused hnext hrefused
  exact ⟨last, (reaches_of_step hfirst).move hlast, hreturned⟩

theorem exists_both_sent {v w : Nat} {group id : String} {i j : Instance} {folder : Path}
    (hne : v ≠ w) (hv : s.workers[v]? = some (.unstarted (.new group i [] folder)))
    (hw : s.workers[w]? = some (.unstarted (.new group j [] folder))) (hid : i.id = id)
    (hid' : j.id = id) (hcalledOff : s.calledOff = false) (hpermits : s.permits ≠ some 0)
    (hqueue : s.queue = []) (hopen : s.receiver.result? = none) (hchannel : s.channel = []) :
    ∃ s', s.Reaches (welcoming σ) s' ∧
      s'.channel = [.success group id [], .success group id []] ∧ s'.receiver = s.receiver ∧
      s'.calledOff = false ∧ s'.status = s.status := by
  subst hid
  obtain ⟨a, hfirst, hserves⟩ := exists_sent hv hcalledOff hpermits hqueue hopen
    (by simp [hchannel, channelSize])
  have hstill : a.workers[w]? = some (.unstarted (.new group j [] folder)) := by
    obtain ⟨_, _, _, rfl⟩ := hserves
    exact (List.getElem?_set_ne hne).trans hw
  obtain ⟨now, bucket, history, rfl⟩ := hserves
  obtain ⟨b, hsecond, now, bucket, history, rfl⟩ := exists_sent hstill hcalledOff hpermits hqueue
    hopen (by simp [hchannel, channelSize])
  refine ⟨_, hfirst.trans hsecond, ?_, rfl, hcalledOff, rfl⟩
  simp only [hchannel, hid']
  rfl

end State
end Run

theorem Status.logsFor_of_collected {s : Status} (hfresh : s.collected = 0) (group id : String) :
    s.logsFor group id = none := by
  rw [← length_entries, List.length_eq_zero_iff] at hfresh
  refine Option.eq_none_iff_forall_ne_some.2 ?_
  intro paths hrecorded
  have hentry : (⟨group, id, paths⟩ : Entry) ∈ s.entries := mem_entries_iff.2 hrecorded
  rw [hfresh] at hentry
  cases hentry

namespace Fleet

open Run State

variable {σ : Type} {setting : Setting σ} {stages : List Protocol.Stage} {endings : List String}
  {f : Fleet σ} {folder : Path} {last : State σ Float Rate.Millis}

theorem member_of_returned (hfetching : f.Fetching setting stages endings folder last) {w : Nat}
    {r : Record} (hreturned : (w, r) ∈ last.returned) :
    ∃ i, f.store.config.status.roster[w]? = some (r.group, i) ∧ i.id = r.id := by
  have hstart : Carried (Appointed f.store.config.status.roster)
      ((f.prepared endings).startRun stages folder) := by
    refine carried_start (g := ()) ?_
    intro w group i hmember
    rw [prepared, config_prepare] at hmember
    exact hmember
  have hcarried := hstart.of_reaches (lasting_appointed setting _) (fun _ => rfl)
    hfetching.reached
  obtain ⟨⟨v, x, k⟩, hfiled, heq⟩ := List.mem_map.1 hreturned
  obtain ⟨rfl, rfl⟩ := Prod.mk.inj heq
  obtain ⟨_, _, c, happointed, hrecord, -⟩ := hcarried.filed v x k hfiled
  obtain ⟨-, hgroup, hid⟩ := Collector.record?_eq_some_iff.1 hrecord
  refine ⟨c.subject, ?_, hid.symm⟩
  rw [hgroup]
  exact happointed

theorem status_startRun (f : Fleet σ) (stages : List Protocol.Stage) (endings : List String)
    (folder : Path) :
    ((f.prepared endings).startRun stages folder).status = f.store.config.status :=
  congrArg FleetConfig.status (config_prepare f.store endings)

theorem exists_members_of_returned (hfetching : f.Fetching setting stages endings folder last)
    {w : Nat} {r : Record} (hreturned : (w, r) ∈ last.returned) :
    ∃ members, last.status.membersOf r.group = some members := by
  have hledger : Ledger ((f.prepared endings).startRun stages folder) last :=
    ledger_of_reaches hfetching.reached
  obtain ⟨i, hmember, -⟩ := member_of_returned hfetching hreturned
  obtain ⟨members, key, hmembers, -⟩ := Status.mem_roster_iff.1 (List.mem_of_getElem? hmember)
  refine ⟨members, ?_⟩
  rw [← Status.sameMembers_of_mergeAll hledger.status r.group, status_startRun]
  exact hmembers

theorem mem_merged_of_logsFor (hfresh : f.store.config.status.collected = 0)
    (hfetching : f.Fetching setting stages endings folder last) {group id : String}
    {paths : List Path} (hlogs : last.status.logsFor group id = some paths) :
    .success group id paths ∈ last.merged := by
  have hledger : Ledger ((f.prepared endings).startRun stages folder) last :=
    ledger_of_reaches hfetching.reached
  refine ((Status.logsFor_of_mergeAll hledger.status _ _ _).1 hlogs).resolve_left ?_
  rw [status_startRun, Status.logsFor_of_collected hfresh]
  nofun

theorem namesakes_of_returned (hfetching : f.Fetching setting stages endings folder last)
    {v w : Nat} (hne : v ≠ w) {x y r : Record} (hx : (v, x) ∈ last.returned)
    (hy : (w, y) ∈ last.returned) (hkeyx : x.key = r.key) (hkeyy : y.key = r.key) :
    f.store.config.status.Namesakes r.group r.id := by
  obtain ⟨hgroupx, hidx⟩ := Prod.mk.inj hkeyx
  obtain ⟨hgroupy, hidy⟩ := Prod.mk.inj hkeyy
  obtain ⟨i, hi, hid⟩ := member_of_returned hfetching hx
  obtain ⟨j, hj, hjd⟩ := member_of_returned hfetching hy
  rw [hgroupx] at hi
  rw [hgroupy] at hj
  exact Status.namesakes_iff_roster.2 ⟨v, w, i, j, hne, hi, hj, hid.trans hidx, hjd.trans hidy⟩

theorem namesakes_of_refused (hfresh : f.store.config.status.collected = 0)
    (hfetching : f.Fetching setting stages endings folder last) {fault : FleetFault}
    (hresult : last.receiver.result? = some (.error fault)) (hrefusal : fault.isRefusal = true) :
    ∃ group id, fault = .duplicateInstance group id ∧
      f.store.config.status.Namesakes group id := by
  obtain ⟨s, hbefore, hafter, hopen, hcases⟩ := cases_of_returned rfl hfetching.reached
    (Receiver.eq_returned_of_result? hresult)
  rcases hcases with ⟨calledOff, hfinishing⟩ | ⟨r, fault', hnext, hmerge, hsame⟩
  · -- A receiver that has finished fails when the document cannot be written, and else does not.
    have hreturned := Receiver.eq_returned_of_result? hresult
    rcases (closing_of_finishing hfinishing hafter).receiver with h | h | ⟨path, cause, h⟩
    · cases hreturned.symm.trans h
    · cases hreturned.symm.trans h
    · cases hreturned.symm.trans h
      cases hrefusal
  · cases hsame
    have hearlier : f.Fetching setting stages endings folder s := ⟨hfetching.prepared, hbefore⟩
    have hdelivery : Delivery s := (delivery_start _ _ _ _ _ _ _).of_reaches hbefore
    have hchannel : r ∈ s.channel := mem_channel_of_next? hnext
    obtain ⟨w, hreturned, -⟩ := mem_delivered.1
      ((hdelivery.accounted hopen).mem_iff.2 (List.mem_append_right _ hchannel))
    obtain ⟨members, hgroup⟩ := exists_members_of_returned hearlier hreturned
    obtain ⟨paths, -, hrecord⟩ := Status.merge_eq_error_iff.1 hmerge
    -- The group is there, so the instance has an entry, which comes from a record that was merged.
    cases hlogs : s.status.logsFor r.group r.id with
    | none =>
        obtain ⟨t, hok⟩ := Status.exists_record hgroup hlogs paths
        cases hrecord.symm.trans hok
    | some old =>
        have hmerged := mem_merged_of_logsFor hfresh hearlier hlogs
        obtain ⟨v, w, x, y, hne, hx, hy, hkeyx, hkeyy⟩ :=
          hdelivery.exists_senders hopen hmerged hchannel rfl
        exact ⟨r.group, r.id,
          Except.error.inj (hrecord.symm.trans (Status.record_of_recorded hlogs paths)),
          namesakes_of_returned hearlier hne hx hy hkeyx hkeyy⟩

theorem exists_refused_namesake (hfresh : f.store.config.status.collected = 0)
    (hprepared : (prepare f.store endings).1 = .ok folder) (hcalledOff : f.calledOff = false)
    {group id : String} (hnamesakes : f.store.config.status.Namesakes group id) :
    ∃ last, f.Fetching (welcoming σ) [] endings folder last ∧
      last.receiver.result? = some (.error (.duplicateInstance group id)) := by
  have hconfig : (f.prepared endings).store.config = f.store.config :=
    config_prepare f.store endings
  obtain ⟨v, w, i, j, hne, hv, hw, hid, hid'⟩ := Status.namesakes_iff_roster.1 hnamesakes
  obtain ⟨members, -, -, -, -, hmembers, -⟩ := hnamesakes
  let first := (f.prepared endings).startRun [] folder
  have hduty : ∀ {w : Nat} {i : Instance}, f.store.config.status.roster[w]? = some (group, i) →
      first.workers[w]? = some (.unstarted (.new group i [] folder)) := by
    intro w i hmember
    simp only [first, startRun, start, collectors_eq_map, hconfig, List.getElem?_map, hmember,
      Option.map_some]
  have hpermits : first.permits ≠ some 0 := by
    intro hzero
    obtain ⟨n, hsome, hn⟩ := Option.map_eq_some_iff.1 hzero
    rw [UInt64.toNat_inj.1 (hn.trans UInt64.toNat_zero.symm), hconfig] at hsome
    exact (FleetConfig.validate_eq_ok_iff.1 (validate_of_prepare hprepared)).maxSessions hsome
  obtain ⟨s, hsent, hchannel, hreceiver, hcalledOff', hstatus⟩ :=
    exists_both_sent hne (hduty hv) (hduty hw) hid hid' hcalledOff hpermits rfl rfl rfl
  have hvlength := (List.getElem?_eq_some_iff.1 (hduty hv)).1
  have hwlength := (List.getElem?_eq_some_iff.1 (hduty hw)).1
  obtain ⟨left, hleft⟩ : ∃ left, first.workers.length = left + 2 :=
    ⟨first.workers.length - 2, by omega⟩
  have hreceiving : s.receiver = .receiving (left + 2) := by
    rw [hreceiver, ← hleft]
    rfl
  have hstatus' : s.status = f.store.config.status :=
    hstatus.trans (congrArg FleetConfig.status hconfig)
  rw [← hstatus'] at hmembers
  have hnone : s.status.logsFor group id = none := by
    rw [hstatus']
    exact Status.logsFor_of_collected hfresh group id
  obtain ⟨last, hlast, hrefused⟩ :=
    exists_refused hchannel hreceiving hcalledOff' hmembers hnone (welcoming σ)
  refine ⟨last, ⟨hprepared, hsent.trans hlast⟩, ?_⟩
  rw [hrefused]
  rfl

/--
A run over a fleet without entries ends with a refusal only if two keys of a group file
members with one identifier, whatever the connector does, the order of the moves is, and
whenever the run is called off.  If there are such namesakes, some run does.
-/
theorem refused_iff_namesakes (hfresh : f.store.config.status.collected = 0)
    (hprepared : (prepare f.store endings).1 = .ok folder) :
    (∀ (setting : Setting σ) (stages : List Protocol.Stage) (last : State σ Float Rate.Millis)
        (fault : FleetFault), f.Fetching setting stages endings folder last →
      last.receiver.result? = some (.error fault) → fault.isRefusal = true →
      ∃ group id, fault = .duplicateInstance group id ∧
        f.store.config.status.Namesakes group id) ∧
      ∀ group id, f.calledOff = false → f.store.config.status.Namesakes group id →
        ∃ last, f.Fetching (welcoming σ) [] endings folder last ∧
          last.receiver.result? = some (.error (.duplicateInstance group id)) := by
  constructor
  · intro setting stages last fault hfetching hresult hrefusal
    exact namesakes_of_refused hfresh hfetching hresult hrefusal
  · intro group id hcalledOff hnamesakes
    exact exists_refused_namesake hfresh hprepared hcalledOff hnamesakes

def namesakeConfig : FleetConfig :=
  let c := FleetConfig.new "demo" "/logs" "/fleetlog.yaml"
  let members := NameMap.empty.insert "a" (⟨"i-1", "", "h1"⟩ : Instance)
    |>.insert "b" ⟨"i-1", "", "h2"⟩
  { c with
    limits := ⟨1000, 100, none⟩
    status := ⟨NameMap.empty.insert "g" ⟨members, .empty⟩⟩ }

def namesakes : Fleet Unit :=
  ⟨⟨namesakeConfig, Tree.empty.put ["fleetlog.yaml"] (.file namesakeConfig.bytes false), []⟩,
    (), false⟩

theorem prepared_namesakes : (prepare namesakes.store ["x"]).1 = .ok "/logs/demo-logsx" := by
  decide +kernel

theorem refused_iff_namesakes_two :
    ∃ last, namesakes.Fetching (welcoming Unit) [] ["x"] "/logs/demo-logsx" last ∧
      last.receiver.result? = some (.error (.duplicateInstance "g" "i-1")) := by
  obtain ⟨-, hexists⟩ := refused_iff_namesakes (f := namesakes) rfl prepared_namesakes
  refine hexists "g" "i-1" rfl ⟨_, "a", "b", ⟨"i-1", "", "h1"⟩, ⟨"i-1", "", "h2"⟩, rfl, ?_, ?_, ?_,
    rfl, rfl⟩
  · decide
  · decide +kernel
  · decide +kernel

def namesakesLast : Option (State Unit Float Rate.Millis) :=
  ((namesakes.prepared ["x"]).startRun [] "/logs/demo-logsx").steps (welcoming Unit)
    (List.replicate 5 (.work 0) ++ List.replicate 5 (.work 1) ++ List.replicate 2 .receive)

theorem namesakesLast_facts :
    (namesakesLast.map fun s => (s.receiver.result?, s.calledOff)) =
      some (some (.error (.duplicateInstance "g" "i-1")), false) := by
  decide +kernel

/-- A configuration without entries is loaded, and its first run ends with a refusal. -/
theorem namesakes_refused :
    FleetConfig.load namesakes.store.tree "/fleetlog.yaml" = .ok namesakes.store.config ∧
      namesakes.store.config.status.collected = 0 ∧
      ∃ last, namesakes.Fetching (welcoming Unit) [] ["x"] "/logs/demo-logsx" last ∧
        last.receiver.result? = some (.error (.duplicateInstance "g" "i-1")) := by
  have hload : FleetConfig.load namesakes.store.tree namesakeConfig.path = .ok namesakeConfig :=
    FleetConfig.load_of_content (by decide +kernel) (content?_fleetlog _)
  refine ⟨hload, rfl, ?_⟩
  obtain ⟨last, hlast, hfacts⟩ := Option.map_eq_some_iff.1 namesakesLast_facts
  exact ⟨last, ⟨prepared_namesakes, reaches_of_steps hlast⟩, (Prod.mk.inj hfacts).1⟩

end Fleet
end LogHarvest
