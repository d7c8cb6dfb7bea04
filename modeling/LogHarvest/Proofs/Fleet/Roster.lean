import LogHarvest.Proofs.Fleet.Recording

/-!
# The roster of a fleet

The roster lists all members with their groups.  If every member is filed under its
own identifier, group and identifier name a member, and if no member has an entry,
a status takes one record for each member, in whatever order they come.
-/

namespace LogHarvest

namespace Record

def key (r : Record) : String × String :=
  (r.group, r.id)

/-- What matters to a status and to the counts: the fault of a failure does not. -/
def brief (r : Record) : (String × String) × Option (List Path) :=
  (r.key, r.outcome.toOption)

theorem success_mem_iff {records : List Record} {group id : String} {paths : List Path} :
    .success group id paths ∈ records ↔ ((group, id), some paths) ∈ records.map brief := by
  rw [List.mem_map]
  constructor
  · intro hmem
    exact ⟨_, hmem, rfl⟩
  · rintro ⟨⟨name, other, outcome⟩, hmem, heq⟩
    obtain ⟨hkey, houtcome⟩ := Prod.mk.inj heq
    obtain ⟨rfl, rfl⟩ := Prod.mk.inj hkey
    cases outcome with
    | error fault => cases houtcome
    | ok found =>
        cases houtcome
        exact hmem

end Record

namespace Status

/-- The members with their groups, in the order of their workers. -/
def roster (s : Status) : List (String × Instance) :=
  s.groups.entries.flatMap fun (group, g) => g.members.values.map fun i => (group, i)

def Keyed (s : Status) : Prop :=
  ∀ group members key i, s.membersOf group = some members → members.get? key = some i → i.id = key

def Unrecorded (s : Status) : Prop :=
  ∀ group members key i, s.membersOf group = some members → members.get? key = some i →
    s.logsFor group key = none

theorem keyed_empty : empty.Keyed := by
  intro group members key i hmembers
  cases hmembers

theorem Keyed.addInstance {s : Status} (hkeyed : s.Keyed) (group : String) (i : Instance) :
    (s.addInstance group i).Keyed := by
  intro name members key j hmembers hkey
  rw [membersOf_addInstance] at hmembers
  split at hmembers
  · cases hmembers
    rw [NameMap.get?_insert] at hkey
    split at hkey
    · rename_i hsame
      cases hkey
      exact hsame.symm
    · cases hold : s.membersOf group with
      | none =>
          rw [hold] at hkey
          cases hkey
      | some old =>
          rw [hold] at hkey
          exact hkeyed group old key j hold hkey
  · exact hkeyed name members key j hmembers hkey

theorem mem_roster_iff {s : Status} {group : String} {i : Instance} :
    (group, i) ∈ s.roster ↔
      ∃ members key, s.membersOf group = some members ∧ members.get? key = some i := by
  simp only [roster, List.mem_flatMap, List.mem_map]
  constructor
  · rintro ⟨⟨name, g⟩, hgroup, j, hj, heq⟩
    obtain ⟨rfl, rfl⟩ := Prod.mk.inj heq
    obtain ⟨key, hkey⟩ := (NameMap.mem_values_iff g.members j).1 hj
    refine ⟨g.members, key, ?_, hkey⟩
    rw [membersOf, (NameMap.get?_eq_some_iff s.groups name g).2 hgroup]
    rfl
  · rintro ⟨members, key, hmembers, hkey⟩
    obtain ⟨g, hgroup, rfl⟩ := Option.map_eq_some_iff.1 hmembers
    exact ⟨(group, g), (NameMap.get?_eq_some_iff s.groups group g).1 hgroup, i,
      (NameMap.mem_values_iff g.members i).2 ⟨key, hkey⟩, rfl⟩

theorem length_roster (s : Status) : s.roster.length = s.expected := by
  unfold roster expected NameMap.values
  induction s.groups.entries with
  | nil => rfl
  | cons group rest ih =>
      rw [List.flatMap_cons, List.length_append, List.length_map, ih, List.length_map]
      rfl

theorem nodup_roster {s : Status} (hkeyed : s.Keyed) :
    (s.roster.map fun m => (m.1, m.2.id)).Nodup := by
  simp only [roster, List.map_flatMap, List.Nodup, List.pairwise_flatMap]
  constructor
  · rintro ⟨group, g⟩ hgroup
    have hmembers : s.membersOf group = some g.members := by
      rw [membersOf, (NameMap.get?_eq_some_iff s.groups group g).2 hgroup]
      rfl
    simp only [NameMap.values, List.map_map, List.pairwise_map]
    refine g.members.ascending.imp_of_mem ?_
    intro a b ha hb hlt heq
    have hida := hkeyed group _ a.1 a.2 hmembers ((NameMap.get?_eq_some_iff g.members a.1 a.2).2 ha)
    have hidb := hkeyed group _ b.1 b.2 hmembers ((NameMap.get?_eq_some_iff g.members b.1 b.2).2 hb)
    have hsame : a.2.id = b.2.id := congrArg Prod.snd heq
    rw [hida, hidb] at hsame
    rw [hsame] at hlt
    exact String.lt_irrefl _ hlt
  · refine s.groups.ascending.imp ?_
    intro a b hlt x hx y hy heq
    obtain ⟨m, hm, rfl⟩ := List.mem_map.1 hx
    obtain ⟨n, hn, rfl⟩ := List.mem_map.1 hy
    obtain ⟨i, -, rfl⟩ := List.mem_map.1 hm
    obtain ⟨j, -, rfl⟩ := List.mem_map.1 hn
    have hsame : a.1 = b.1 := congrArg (fun key : String × String => key.1) heq
    rw [hsame] at hlt
    exact String.lt_irrefl _ hlt

/-- The status has the groups of different instances, and no entry for any of them. -/
structure Awaits (s : Status) (keys : List (String × String)) : Prop where
  known : ∀ key ∈ keys, ∃ members, s.membersOf key.1 = some members
  fresh : ∀ key ∈ keys, s.logsFor key.1 key.2 = none
  distinct : keys.Nodup

theorem Awaits.of_subset {s : Status} {keys keys' : List (String × String)}
    (hawaits : s.Awaits keys) (hsubset : keys' ⊆ keys) (hdistinct : keys'.Nodup) :
    s.Awaits keys' where
  known key hkey := hawaits.known key (hsubset hkey)
  fresh key hkey := hawaits.fresh key (hsubset hkey)
  distinct := hdistinct

theorem awaits_roster {s : Status} (hkeyed : s.Keyed) (hunrecorded : s.Unrecorded) :
    s.Awaits (s.roster.map fun m => (m.1, m.2.id)) where
  known := by
    intro key hkey
    obtain ⟨⟨group, i⟩, hmember, rfl⟩ := List.mem_map.1 hkey
    obtain ⟨members, -, hmembers, -⟩ := mem_roster_iff.1 hmember
    exact ⟨members, hmembers⟩
  fresh := by
    intro key hkey
    obtain ⟨⟨group, i⟩, hmember, rfl⟩ := List.mem_map.1 hkey
    obtain ⟨members, name, hmembers, hname⟩ := mem_roster_iff.1 hmember
    have hid : i.id = name := hkeyed group members name i hmembers hname
    change s.logsFor group i.id = none
    rw [hid]
    exact hunrecorded group members name i hmembers hname
  distinct := nodup_roster hkeyed

theorem exists_mergeAll {s : Status} {records : List Record}
    (hawaits : s.Awaits (records.map Record.key)) : ∃ t, s.mergeAll records = .ok t := by
  induction records with
  | nil => exact ⟨s, rfl⟩
  | cons r earlier ih =>
      obtain ⟨hnew, hrest⟩ := List.nodup_cons.1 hawaits.distinct
      obtain ⟨u, hearlier⟩ := ih (hawaits.of_subset (List.subset_cons_self _ _) hrest)
      have hmerge : ∃ t, u.merge r = .ok t := by
        obtain ⟨group, id, outcome⟩ := r
        cases outcome with
        | error fault => exact ⟨u, rfl⟩
        | ok paths =>
            obtain ⟨members, hmembers⟩ := hawaits.known _ List.mem_cons_self
            have hnone : s.logsFor group id = none := hawaits.fresh _ List.mem_cons_self
            have hkept : u.membersOf group = some members :=
              (sameMembers_of_mergeAll hearlier group).symm.trans hmembers
            refine exists_record hkept ?_ paths
            cases hrecorded : u.logsFor group id with
            | none => rfl
            | some old =>
                rcases (logsFor_of_mergeAll hearlier group id old).1 hrecorded with hold | hlater
                · rw [hnone] at hold
                  cases hold
                · exact absurd (List.mem_map.2 ⟨_, hlater, rfl⟩) hnew
      obtain ⟨t, hlast⟩ := hmerge
      exact ⟨t, mergeAll_cons_eq_ok_iff.2 ⟨u, hearlier, hlast⟩⟩

/-- The order of records, and the faults of failures, make no difference to a status. -/
theorem mergeAll_eq_of_perm {s t t' : Status} {records others : List Record}
    (hmerge : s.mergeAll records = .ok t) (hmerge' : s.mergeAll others = .ok t')
    (hperm : (records.map Record.brief).Perm (others.map Record.brief)) : t = t' := by
  refine eq_of_sameMembers ?_ ?_
  · intro group
    rw [← sameMembers_of_mergeAll hmerge group, ← sameMembers_of_mergeAll hmerge' group]
  · intro group id
    refine Option.ext ?_
    intro paths
    rw [logsFor_of_mergeAll hmerge, logsFor_of_mergeAll hmerge', Record.success_mem_iff,
      Record.success_mem_iff, hperm.mem_iff]

end Status
end LogHarvest
