import LogHarvest.Fleet.Store
import LogHarvest.Proofs.Fleet.Entries
import Mathlib.Data.List.Perm.Subperm

/-!
# Who gets an entry

A status is built by calls: members are added, logs are recorded, records are merged.
Calls may be refused, and then they change nothing.  To record logs takes a group that
is there and an instance without an entry, and nothing else: whether the instance is a
member is not asked.  So the entries are those of the calls that were not refused, and
only members have entries if and only if all these calls were about instances that are
added at some time (`onlyMembers_iff`).
-/

namespace LogHarvest

/-!
## Statuses in which only members have entries
-/

namespace Status

def OnlyMembers (s : Status) : Prop :=
  ∀ name g, s.groups.get? name = some g →
    ∀ id, g.logs.contains id = true → g.members.contains id = true

def HasMember (s : Status) (group id : String) : Prop :=
  ∃ members, s.membersOf group = some members ∧ members.contains id = true

theorem onlyMembers_iff_hasMember {s : Status} :
    s.OnlyMembers ↔ ∀ e ∈ s.entries, s.HasMember e.group e.id := by
  constructor
  · intro honly e he
    rw [mem_entries_iff, logsFor_eq] at he
    obtain ⟨g, hgroup, hlogs⟩ := Option.bind_eq_some_iff.1 he
    refine ⟨g.members, ?_, ?_⟩
    · rw [membersOf, hgroup]
      rfl
    · exact honly e.group g hgroup e.id ((NameMap.contains_iff _ _).2 ⟨_, hlogs⟩)
  · intro hmembers name g hgroup id hlogs
    obtain ⟨paths, hpaths⟩ := (NameMap.contains_iff _ _).1 hlogs
    have hentry : (⟨name, id, paths⟩ : Entry) ∈ s.entries := by
      rw [mem_entries_iff, logsFor_eq, hgroup]
      exact hpaths
    obtain ⟨members, hof, hcontains⟩ := hmembers _ hentry
    rw [membersOf, hgroup] at hof
    cases hof
    exact hcontains

theorem size_logs_le {g : Group}
    (honly : ∀ id, g.logs.contains id = true → g.members.contains id = true) :
    g.logs.size ≤ g.members.size := by
  have hsubset : g.logs.names ⊆ g.members.names := by
    intro id hid
    exact NameMap.mem_names_iff.2 (honly id (NameMap.mem_names_iff.1 hid))
  have hle := (g.logs.nodup_names.subperm hsubset).length_le
  simpa [NameMap.names, NameMap.size] using hle

theorem OnlyMembers.collected_le_expected {s : Status} (honly : s.OnlyMembers) :
    s.collected ≤ s.expected := by
  have hgroups : ∀ g ∈ s.groups.values, g.logs.size ≤ g.members.size := by
    intro g hg
    obtain ⟨name, hname⟩ := (NameMap.mem_values_iff _ _).1 hg
    exact size_logs_le (honly name g hname)
  unfold collected expected
  generalize s.groups.values = groups at hgroups
  induction groups with
  | nil => exact Nat.le_refl 0
  | cons g rest ih =>
      obtain ⟨hfirst, hrest⟩ := List.forall_mem_cons.1 hgroups
      exact Nat.add_le_add hfirst (ih hrest)

theorem hasMember_addInstance {s : Status} {group name id : String} {i : Instance} :
    (s.addInstance group i).HasMember name id ↔
      s.HasMember name id ∨ (name = group ∧ i.id = id) := by
  unfold HasMember
  rw [membersOf_addInstance]
  split
  · rename_i hname
    subst hname
    simp only [Option.some.injEq, exists_eq_left', NameMap.contains_insert, true_and,
      @eq_comm _ id i.id]
    cases s.membersOf name with
    | none => simp [NameMap.contains, NameMap.get?, NameMap.empty]
    | some members => simp [or_comm]
  · rename_i hname
    simp [hname]

theorem hasMember_of_record {s t : Status} {group id : String} {paths : List Path}
    (hrecord : s.record group id paths = .ok t) {name other : String} :
    t.HasMember name other ↔ s.HasMember name other := by
  unfold HasMember
  rw [sameMembers_of_record hrecord name]

theorem collected_addInstance (s : Status) (group : String) (i : Instance) :
    (s.addInstance group i).collected = s.collected := by
  have hperm : (s.addInstance group i).entries.Perm s.entries := by
    refine (List.perm_ext_iff_of_nodup (nodup_entries _) (nodup_entries s)).2 ?_
    intro e
    rw [mem_entries_iff, mem_entries_iff, logsFor_addInstance]
  rw [← length_entries, ← length_entries, hperm.length_eq]

theorem mem_entries_of_record {s t : Status} {e e' : Entry}
    (hrecord : s.record e.group e.id e.paths = .ok t) :
    e' ∈ t.entries ↔ e' ∈ s.entries ∨ e = e' := by
  have hmerge : s.mergeAll [.success e.group e.id e.paths] = .ok t :=
    mergeAll_cons_eq_ok_iff.2 ⟨s, rfl, hrecord⟩
  obtain ⟨group, id, paths⟩ := e
  obtain ⟨group', id', paths'⟩ := e'
  rw [mem_entries_iff, mem_entries_iff, logsFor_of_mergeAll hmerge, List.mem_singleton]
  simp [Record.success, eq_comm]

theorem collected_of_record {s t : Status} {group id : String} {paths : List Path}
    (hrecord : s.record group id paths = .ok t) : t.collected = s.collected + 1 := by
  have hmerge : s.mergeAll [.success group id paths] = .ok t :=
    mergeAll_cons_eq_ok_iff.2 ⟨s, rfl, hrecord⟩
  rw [collected_of_mergeAll hmerge, (entriesSince_of_mergeAll hmerge).length_eq]
  rfl

end Status

/-!
## Calls
-/

/-- A store whose status changes only when it is set. -/
class StatusStore.Faithful (σ : Type) [StatusStore σ] : Prop where
  status_setStatus (store : σ) (s : Status) :
    StatusStore.status (StatusStore.setStatus store s) = s
  status_sync (store : σ) :
    StatusStore.status (StatusStore.sync store).2 = StatusStore.status store

instance : StatusStore.Faithful FleetStore := ⟨fun _ _ => rfl, fun _ => rfl⟩

instance : StatusStore.Faithful MemoryStore := ⟨fun _ _ => rfl, fun _ => rfl⟩

inductive StatusCall
  | addInstance (group : String) (i : Instance)
  | record (group id : String) (paths : List Path)
  | absorb (r : Record)

def StatusCall.entry? : StatusCall → Option Entry
  | .addInstance .. => none
  | .record group id paths => some ⟨group, id, paths⟩
  | .absorb r => r.added?

namespace Aggregation

variable {σ : Type} [StatusStore σ]

def status (a : Aggregation σ) : Status :=
  StatusStore.status a.store

@[simp] theorem status_mk (store : σ) (tally : Tally) :
    (⟨store, tally⟩ : Aggregation σ).status = StatusStore.status store := rfl

def perform (a : Aggregation σ) : StatusCall → Except FleetFault Unit × Aggregation σ
  | .addInstance group i =>
      let s := a.status.addInstance group i
      (.ok (), { a with store := StatusStore.setStatus a.store s })
  | .record group id paths =>
      match a.status.record group id paths with
      | .error fault => (.error fault, a)
      | .ok s => (.ok (), { a with store := StatusStore.setStatus a.store s })
  | .absorb r => a.absorb r

def performAll (a : Aggregation σ) : List StatusCall → Aggregation σ
  | [] => a
  | call :: earlier => ((a.performAll earlier).perform call).2

def accepted (a : Aggregation σ) : List StatusCall → List StatusCall
  | [] => []
  | call :: earlier =>
      if ((a.performAll earlier).perform call).1.isOk then call :: a.accepted earlier
      else a.accepted earlier

def acceptedEntries (a : Aggregation σ) (calls : List StatusCall) : List Entry :=
  (a.accepted calls).filterMap StatusCall.entry?

/-- What a call comes to: it is refused, or it adds a member or an entry, or it adds neither. -/
inductive Effect (s : Status) : StatusCall → Except FleetFault Unit → Status → Prop
  | refused {call : StatusCall} {e : Entry} {fault : FleetFault} (hentry : call.entry? = some e)
      (hrecord : s.record e.group e.id e.paths = .error fault) : Effect s call (.error fault) s
  | added (group : String) (i : Instance) :
      Effect s (.addInstance group i) (.ok ()) (s.addInstance group i)
  | recorded {call : StatusCall} {e : Entry} {t : Status} (hentry : call.entry? = some e)
      (hrecord : s.record e.group e.id e.paths = .ok t) : Effect s call (.ok ()) t
  | counted {r : Record} (hentry : r.added? = none) : Effect s (.absorb r) (.ok ()) s

theorem acceptedEntries_cons (a : Aggregation σ) (call : StatusCall) (earlier : List StatusCall) :
    a.acceptedEntries (call :: earlier) =
      (if ((a.performAll earlier).perform call).1.isOk then call.entry?.toList else []) ++
        a.acceptedEntries earlier := by
  rw [acceptedEntries, accepted, acceptedEntries]
  split
  · rw [List.filterMap_cons]
    cases call.entry? <;> rfl
  · rfl

variable [StatusStore.Faithful σ]

theorem effect_perform (a : Aggregation σ) (call : StatusCall) :
    Effect a.status call (a.perform call).1 (a.perform call).2.status := by
  have hset : ∀ s, StatusStore.status (StatusStore.setStatus a.store s) = s :=
    StatusStore.Faithful.status_setStatus a.store
  cases call with
  | addInstance group i =>
      simp only [perform, status_mk, hset]
      exact .added group i
  | record group id paths =>
      unfold perform
      dsimp only
      split
      · rename_i fault hrecord
        exact .refused (e := ⟨group, id, paths⟩) rfl hrecord
      · rename_i t hrecord
        simp only [status_mk, hset]
        exact .recorded (e := ⟨group, id, paths⟩) rfl hrecord
  | absorb r =>
      obtain ⟨group, id, outcome⟩ := r
      cases outcome with
      | error fault => exact .counted rfl
      | ok paths =>
          unfold perform absorb
          dsimp only
          split
          · rename_i fault hrecord
            exact .refused (e := ⟨group, id, paths⟩) rfl hrecord
          · rename_i t hrecord
            simp only [status_mk, StatusStore.Faithful.status_sync, hset]
            exact .recorded (e := ⟨group, id, paths⟩) rfl hrecord

/-!
The entries of a status are those that the calls asked for, and its members those that
the calls added: one call at a time, and then by induction on the calls.
-/

theorem mem_entries_perform (a : Aggregation σ) (call : StatusCall) (e : Entry) :
    e ∈ (a.perform call).2.status.entries ↔
      e ∈ a.status.entries ∨ ((a.perform call).1 = .ok () ∧ call.entry? = some e) := by
  have heffect := effect_perform a call
  generalize (a.perform call).1 = answer, (a.perform call).2.status = t at heffect
  cases heffect with
  | refused hentry hrecord => simp
  | added group i => simp [StatusCall.entry?, Status.mem_entries_iff, Status.logsFor_addInstance]
  | recorded hentry hrecord => simp [Status.mem_entries_of_record hrecord, hentry]
  | counted hentry => simp [StatusCall.entry?, hentry]

theorem hasMember_perform (a : Aggregation σ) (call : StatusCall) (group id : String) :
    (a.perform call).2.status.HasMember group id ↔
      a.status.HasMember group id ∨ ∃ i, call = .addInstance group i ∧ i.id = id := by
  have hnone : ∀ e, call.entry? = some e → ¬ ∃ i, call = .addInstance group i ∧ i.id = id := by
    rintro e hentry ⟨i, rfl, -⟩
    cases hentry
  have heffect := effect_perform a call
  generalize (a.perform call).1 = answer, (a.perform call).2.status = t at heffect
  cases heffect with
  | refused hentry hrecord => simp [hnone _ hentry]
  | added name i =>
      rw [Status.hasMember_addInstance]
      simp [eq_comm]
  | recorded hentry hrecord =>
      rw [Status.hasMember_of_record hrecord]
      simp [hnone _ hentry]
  | counted hentry => simp

theorem collected_perform (a : Aggregation σ) (call : StatusCall) :
    (a.perform call).2.status.collected =
      (if (a.perform call).1.isOk then call.entry?.toList.length else 0) +
        a.status.collected := by
  have heffect := effect_perform a call
  generalize (a.perform call).1 = answer, (a.perform call).2.status = t at heffect
  cases heffect with
  | refused hentry hrecord => exact (Nat.zero_add _).symm
  | added group i => exact (Status.collected_addInstance _ _ _).trans (Nat.zero_add _).symm
  | recorded hentry hrecord =>
      rw [hentry, Status.collected_of_record hrecord]
      exact Nat.add_comm _ _
  | counted hentry =>
      rw [StatusCall.entry?, hentry]
      exact (Nat.zero_add _).symm

theorem mem_entries_performAll (a : Aggregation σ) (calls : List StatusCall) (e : Entry) :
    e ∈ (a.performAll calls).status.entries ↔
      e ∈ a.status.entries ∨ e ∈ a.acceptedEntries calls := by
  induction calls with
  | nil => simp [performAll, acceptedEntries, accepted]
  | cons call earlier ih =>
      rw [performAll, mem_entries_perform, ih, acceptedEntries_cons, List.mem_append]
      cases ((a.performAll earlier).perform call).1 with
      | error fault => simp [Except.isOk, Except.toBool]
      | ok answer =>
          simp only [Except.isOk, Except.toBool, if_true, Option.mem_toList, true_and]
          rw [or_assoc, @or_comm (e ∈ a.acceptedEntries earlier)]

theorem hasMember_performAll (a : Aggregation σ) (calls : List StatusCall) (group id : String) :
    (a.performAll calls).status.HasMember group id ↔
      a.status.HasMember group id ∨ ∃ i, .addInstance group i ∈ calls ∧ i.id = id := by
  induction calls with
  | nil => simp [performAll]
  | cons call earlier ih =>
      rw [performAll, hasMember_perform, ih, or_assoc]
      refine or_congr_right ?_
      rw [← exists_or]
      refine exists_congr ?_
      intro i
      rw [List.mem_cons, or_and_right, or_comm, @eq_comm _ call]

theorem collected_performAll (a : Aggregation σ) (calls : List StatusCall) :
    (a.performAll calls).status.collected =
      (a.acceptedEntries calls).length + a.status.collected := by
  induction calls with
  | nil => exact (Nat.zero_add _).symm
  | cons call earlier ih =>
      rw [performAll, collected_perform, ih, acceptedEntries_cons, List.length_append,
        Nat.add_assoc]
      congr 1
      split <;> rfl

/--
After any calls on a status that was empty, only members have entries if and only if
every call that was not refused is about an instance that is added at some time.  Then
there are no more entries than members.
-/
theorem onlyMembers_iff (store : σ) (calls : List StatusCall) :
    let first := start (StatusStore.setStatus store .empty)
    let last := (first.performAll calls).status
    (last.OnlyMembers ↔
      ∀ e ∈ first.acceptedEntries calls,
        ∃ i, .addInstance e.group i ∈ calls ∧ i.id = e.id) ∧
      (last.OnlyMembers → last.collected ≤ last.expected) ∧
      last.collected = (first.acceptedEntries calls).length := by
  intro first last
  have hempty : first.status = .empty := StatusStore.Faithful.status_setStatus store .empty
  have hentries : ∀ e, e ∈ last.entries ↔ e ∈ first.acceptedEntries calls := by
    intro e
    rw [mem_entries_performAll, hempty]
    exact or_iff_right List.not_mem_nil
  have hmembers : ∀ group id, last.HasMember group id ↔
      ∃ i, .addInstance group i ∈ calls ∧ i.id = id := by
    intro group id
    rw [hasMember_performAll, hempty]
    refine or_iff_right ?_
    rintro ⟨members, hgroup, -⟩
    cases hgroup
  refine ⟨?_, Status.OnlyMembers.collected_le_expected, ?_⟩
  · rw [Status.onlyMembers_iff_hasMember]
    constructor
    · intro honly e he
      exact (hmembers _ _).1 (honly e ((hentries e).2 he))
    · intro hadded e he
      exact (hmembers _ _).2 (hadded e ((hentries e).1 he))
  · rw [collected_performAll, hempty]
    rfl

def bareStore : FleetStore := ⟨.new "demo" "/logs" "/fleet.yaml", .empty, []⟩

def memberCalls : List StatusCall :=
  [.absorb (.success "g" "i-1" []), .record "g" "i-1" ["/x"], .addInstance "g" ⟨"i-1", "", ""⟩]

theorem onlyMembers_iff_memberCalls :
    let last := ((start (StatusStore.setStatus bareStore .empty)).performAll memberCalls).status
    last.OnlyMembers ∧ last.collected ≤ last.expected := by
  obtain ⟨honly, hle, -⟩ := onlyMembers_iff bareStore memberCalls
  have haccepted : (start (StatusStore.setStatus bareStore .empty)).acceptedEntries memberCalls =
      [⟨"g", "i-1", ["/x"]⟩] := by decide +kernel
  rw [haccepted] at honly
  have hmembers := honly.2 (by
    intro e he
    rw [List.mem_singleton.1 he]
    exact ⟨⟨"i-1", "", ""⟩, by simp [memberCalls], rfl⟩)
  exact ⟨hmembers, hle hmembers⟩

def strangerCalls : List StatusCall :=
  [.record "g" "i-9" [], .record "g" "i-8" [], .addInstance "g" ⟨"i-1", "", ""⟩]

/-- There may be more entries than members. -/
theorem strangers_have_entries :
    let last := ((start (StatusStore.setStatus bareStore .empty)).performAll strangerCalls).status
    ¬ last.OnlyMembers ∧ last.expected < last.collected := by
  intro last
  have hcounts : last.expected < last.collected := by decide +kernel
  exact ⟨fun honly => Nat.not_lt.2 honly.collected_le_expected hcounts, hcounts⟩

end Aggregation
end LogHarvest
