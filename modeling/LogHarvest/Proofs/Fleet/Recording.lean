import LogHarvest.Collect.Tally
import LogHarvest.Proofs.Fleet.Lookup

/-!
# What recording does to a status

To record the logs of an instance adds one entry and changes nothing else; it is
refused if the group is not there or the instance has an entry.  So a status only
ever gains entries, and a status to which records were added is known from the
one before and the records.

The main statements are `logsFor_of_mergeAll`, which reads the entries off the
records, and `eq_of_sameMembers`, by which members and entries are all there is to
a status.
-/

namespace LogHarvest
namespace Status

def membersOf (s : Status) (group : String) : Option (NameMap Instance) :=
  (s.groups.get? group).map Group.members

/-- Whatever is recorded in the first status is recorded alike in the second. -/
def Within (s t : Status) : Prop :=
  ∀ group id paths, s.logsFor group id = some paths → t.logsFor group id = some paths

/-- The groups of two statuses are the same but for their logs. -/
def SameMembers (s t : Status) : Prop :=
  ∀ group, s.membersOf group = t.membersOf group

theorem Within.refl (s : Status) : s.Within s := by
  intro group id paths hrecorded
  exact hrecorded

theorem Within.trans {s t u : Status} (hfirst : s.Within t) (hsecond : t.Within u) :
    s.Within u := by
  intro group id paths hrecorded
  exact hsecond group id paths (hfirst group id paths hrecorded)

theorem Within.logsFor_eq_none {s t : Status} (hwithin : s.Within t) {group id : String}
    (hnone : t.logsFor group id = none) : s.logsFor group id = none := by
  refine Option.eq_none_iff_forall_ne_some.2 ?_
  intro paths hrecorded
  rw [hwithin group id paths hrecorded] at hnone
  cases hnone

theorem logsFor_eq (s : Status) (group id : String) :
    s.logsFor group id = (s.groups.get? group).bind fun g => g.logs.get? id := rfl

theorem eq_of_sameMembers {s t : Status} (hmembers : s.SameMembers t)
    (hlogs : ∀ group id, s.logsFor group id = t.logsFor group id) : s = t := by
  have hgroups : s.groups = t.groups := by
    apply NameMap.ext_get?
    intro name
    have hname := hmembers name
    simp only [membersOf] at hname
    cases hs : s.groups.get? name with
    | none =>
        rw [hs] at hname
        cases ht : t.groups.get? name with
        | none => rfl
        | some g =>
            rw [ht] at hname
            cases hname
    | some g =>
        rw [hs] at hname
        cases ht : t.groups.get? name with
        | none =>
            rw [ht] at hname
            cases hname
        | some g' =>
            rw [ht] at hname
            have hlists : g.logs = g'.logs := by
              apply NameMap.ext_get?
              intro id
              have hid := hlogs name id
              simpa [logsFor, hs, ht] using hid
            obtain ⟨members, logs⟩ := g
            obtain ⟨members', logs'⟩ := g'
            have hsame : members = members' := by simpa using hname
            rw [hsame, show logs = logs' from hlists]
  cases s
  cases t
  cases hgroups
  rfl

/-!
## Members
-/

theorem get?_addInstance (s : Status) (group name : String) (i : Instance) :
    (s.addInstance group i).groups.get? name =
      if name = group then
        some { (s.groups.get? group).getD .empty with
          members := ((s.groups.get? group).getD .empty).members.insert i.id i }
      else s.groups.get? name := by
  simp only [addInstance, NameMap.get?_insert]

theorem logsFor_addInstance (s : Status) (group : String) (i : Instance) (name id : String) :
    (s.addInstance group i).logsFor name id = s.logsFor name id := by
  rw [logsFor_eq, logsFor_eq, get?_addInstance]
  split
  · rename_i hsame
    subst hsame
    cases s.groups.get? name <;> rfl
  · rfl

theorem within_addInstance (s : Status) (group : String) (i : Instance) :
    s.Within (s.addInstance group i) := by
  intro name id paths hrecorded
  rw [logsFor_addInstance]
  exact hrecorded

theorem membersOf_addInstance (s : Status) (group : String) (i : Instance) (name : String) :
    (s.addInstance group i).membersOf name =
      if name = group then some (((s.membersOf group).getD .empty).insert i.id i)
      else s.membersOf name := by
  rw [membersOf, get?_addInstance]
  split
  · rw [membersOf]
    cases s.groups.get? group <;> rfl
  · rfl

/-!
## One entry
-/

theorem record_eq_ok_iff {s t : Status} {group id : String} {paths : List Path} :
    s.record group id paths = .ok t ↔
      ∃ g, s.groups.get? group = some g ∧ g.logs.get? id = none ∧
        t = ⟨s.groups.insert group { g with logs := g.logs.insert id paths }⟩ := by
  unfold record
  cases hgroup : s.groups.get? group with
  | none => simp
  | some g =>
      cases hlogs : g.logs.get? id with
      | none => simp [NameMap.contains, hlogs, eq_comm]
      | some old => simp [NameMap.contains, hlogs]

theorem record_of_recorded {s : Status} {group id : String} {old : List Path}
    (hrecorded : s.logsFor group id = some old) (paths : List Path) :
    s.record group id paths = .error (.duplicateInstance group id) := by
  unfold record
  rw [logsFor_eq] at hrecorded
  cases hgroup : s.groups.get? group with
  | none =>
      rw [hgroup] at hrecorded
      cases hrecorded
  | some g =>
      rw [hgroup] at hrecorded
      have hcontained : g.logs.contains id = true :=
        (NameMap.contains_iff g.logs id).2 ⟨old, hrecorded⟩
      simp [hcontained]

theorem exists_record {s : Status} {group id : String} {members : NameMap Instance}
    (hgroup : s.membersOf group = some members) (hfresh : s.logsFor group id = none)
    (paths : List Path) : ∃ t, s.record group id paths = .ok t := by
  obtain ⟨g, hg, -⟩ := Option.map_eq_some_iff.1 hgroup
  rw [logsFor_eq, hg] at hfresh
  exact ⟨_, record_eq_ok_iff.2 ⟨g, hg, hfresh, rfl⟩⟩

theorem logsFor_of_record {s t : Status} {group id : String} {paths : List Path}
    (hrecord : s.record group id paths = .ok t) (name other : String) :
    t.logsFor name other =
      if name = group ∧ other = id then some paths else s.logsFor name other := by
  obtain ⟨g, hgroup, -, rfl⟩ := record_eq_ok_iff.1 hrecord
  rw [logsFor_eq, logsFor_eq, NameMap.get?_insert]
  by_cases hname : name = group
  · subst hname
    rw [if_pos rfl, hgroup]
    simp [NameMap.get?_insert]
  · simp [hname]

theorem logsFor_eq_none_of_record {s t : Status} {group id : String} {paths : List Path}
    (hrecord : s.record group id paths = .ok t) : s.logsFor group id = none := by
  obtain ⟨g, hgroup, hfresh, -⟩ := record_eq_ok_iff.1 hrecord
  rw [logsFor_eq, hgroup]
  exact hfresh

theorem within_of_record {s t : Status} {group id : String} {paths : List Path}
    (hrecord : s.record group id paths = .ok t) : s.Within t := by
  intro name other old hrecorded
  rw [logsFor_of_record hrecord]
  split
  · rename_i hsame
    rw [hsame.1, hsame.2, logsFor_eq_none_of_record hrecord] at hrecorded
    cases hrecorded
  · exact hrecorded

theorem sameMembers_of_record {s t : Status} {group id : String} {paths : List Path}
    (hrecord : s.record group id paths = .ok t) : s.SameMembers t := by
  obtain ⟨g, hgroup, -, rfl⟩ := record_eq_ok_iff.1 hrecord
  intro name
  simp only [membersOf, NameMap.get?_insert]
  by_cases hname : name = group
  · subst hname
    simp [hgroup]
  · simp [hname]

/-!
## Records
-/

def merge (s : Status) (r : Record) : Except FleetFault Status :=
  match r.outcome with
  | .error _ => .ok s
  | .ok paths => s.record r.group r.id paths

def mergeAll (s : Status) : List Record → Except FleetFault Status
  | [] => .ok s
  | r :: earlier => (s.mergeAll earlier).bind fun t => t.merge r

theorem mergeAll_cons_eq_ok_iff {s t : Status} {r : Record} {earlier : List Record} :
    s.mergeAll (r :: earlier) = .ok t ↔
      ∃ u, s.mergeAll earlier = .ok u ∧ u.merge r = .ok t := by
  rw [mergeAll]
  cases s.mergeAll earlier with
  | error fault => simp [Except.bind]
  | ok u => simp [Except.bind]

theorem within_of_merge {s t : Status} {r : Record} (hmerge : s.merge r = .ok t) :
    s.Within t := by
  unfold merge at hmerge
  split at hmerge
  · cases hmerge
    exact .refl s
  · exact within_of_record hmerge

theorem merge_eq_error_iff {s : Status} {r : Record} {fault : FleetFault} :
    s.merge r = .error fault ↔
      ∃ paths, r.outcome = .ok paths ∧ s.record r.group r.id paths = .error fault := by
  unfold merge
  cases r.outcome with
  | error cause => simp
  | ok paths => simp

theorem fault_of_merge {s : Status} {r : Record} {fault : FleetFault}
    (hmerge : s.merge r = .error fault) :
    fault = .unknownGroup r.group ∨ fault = .duplicateInstance r.group r.id := by
  obtain ⟨paths, -, hrecord⟩ := merge_eq_error_iff.1 hmerge
  unfold record at hrecord
  split at hrecord
  · cases hrecord
    exact Or.inl rfl
  · split at hrecord
    · cases hrecord
      exact Or.inr rfl
    · cases hrecord

theorem sameMembers_of_merge {s t : Status} {r : Record} (hmerge : s.merge r = .ok t) :
    s.SameMembers t := by
  unfold merge at hmerge
  split at hmerge
  · cases hmerge
    intro group
    rfl
  · exact sameMembers_of_record hmerge

theorem sameMembers_of_mergeAll {s t : Status} {records : List Record}
    (hmerge : s.mergeAll records = .ok t) : s.SameMembers t := by
  induction records generalizing t with
  | nil =>
      cases hmerge
      intro group
      rfl
  | cons r earlier ih =>
      obtain ⟨u, hearlier, hlast⟩ := mergeAll_cons_eq_ok_iff.1 hmerge
      intro group
      rw [ih hearlier group, sameMembers_of_merge hlast group]

/-- A status holds the old entries and those of the records that were added. -/
theorem logsFor_of_mergeAll {s t : Status} {records : List Record}
    (hmerge : s.mergeAll records = .ok t) (group id : String) (paths : List Path) :
    t.logsFor group id = some paths ↔
      s.logsFor group id = some paths ∨ .success group id paths ∈ records := by
  induction records generalizing t with
  | nil =>
      cases hmerge
      simp
  | cons r earlier ih =>
      obtain ⟨u, hearlier, hlast⟩ := mergeAll_cons_eq_ok_iff.1 hmerge
      obtain ⟨name, other, outcome⟩ := r
      cases outcome with
      | error fault =>
          cases hlast
          rw [ih hearlier]
          simp [Record.success]
      | ok found =>
          have hrecord : u.record name other found = .ok t := hlast
          have hfresh := logsFor_eq_none_of_record hrecord
          rw [logsFor_of_record hrecord, List.mem_cons]
          by_cases hsame : group = name ∧ id = other
          · obtain ⟨rfl, rfl⟩ := hsame
            have hbefore := ih hearlier
            rw [hfresh] at hbefore
            have hnot := not_or.1 (mt hbefore.2 (by simp))
            simp only [and_self, if_true, Option.some.injEq, Record.success, Record.mk.injEq,
              Except.ok.injEq, true_and]
            constructor
            · intro hpaths
              exact Or.inr (Or.inl hpaths.symm)
            · intro hcases
              rcases hcases with hold | hpaths | hlater
              · exact absurd hold hnot.1
              · exact hpaths.symm
              · exact absurd hlater hnot.2
          · rw [if_neg hsame, ih hearlier]
            constructor
            · intro hcases
              exact hcases.imp (fun hold => hold) Or.inr
            · intro hcases
              rcases hcases with hold | hfirst | hlater
              · exact Or.inl hold
              · exact absurd ⟨congrArg Record.group hfirst, congrArg Record.id hfirst⟩ hsame
              · exact Or.inr hlater

theorem logsFor_eq_none_of_mergeAll {s t : Status} {records : List Record}
    (hmerge : s.mergeAll records = .ok t) {group id : String} {paths : List Path}
    (hmem : .success group id paths ∈ records) : s.logsFor group id = none := by
  induction records generalizing t with
  | nil => cases hmem
  | cons r earlier ih =>
      obtain ⟨u, hearlier, hlast⟩ := mergeAll_cons_eq_ok_iff.1 hmerge
      rcases List.mem_cons.1 hmem with rfl | hlater
      · have hfresh : u.logsFor group id = none := logsFor_eq_none_of_record hlast
        cases hold : s.logsFor group id with
        | none => rfl
        | some old =>
            have hkept := (logsFor_of_mergeAll hearlier group id old).2 (Or.inl hold)
            rw [hkept] at hfresh
            cases hfresh
      · exact ih hearlier hlater

/-!
## Statuses one after the other
-/

/-- Statuses between two others, the latest first, none of which loses an entry. -/
structure Growing (low : Status) (statuses : List Status) (high : Status) : Prop where
  within : low.Within high
  between : ∀ s ∈ statuses, low.Within s ∧ s.Within high
  ascending : statuses.Pairwise fun later earlier => earlier.Within later

theorem growing_nil {low high : Status} (hwithin : low.Within high) : Growing low [] high where
  within := hwithin
  between := by simp
  ascending := List.Pairwise.nil

theorem growing_singleton {low high : Status} (hwithin : low.Within high) :
    Growing low [high] high where
  within := hwithin
  between := by
    intro s hs
    rw [List.mem_singleton.1 hs]
    exact ⟨hwithin, .refl high⟩
  ascending := List.pairwise_singleton _ _

theorem Growing.append {low middle high : Status} {earlier later : List Status}
    (hearlier : Growing low earlier middle) (hlater : Growing middle later high) :
    Growing low (later ++ earlier) high where
  within := hearlier.within.trans hlater.within
  between := by
    intro s hs
    rcases List.mem_append.1 hs with hs | hs
    · exact ⟨hearlier.within.trans (hlater.between s hs).1, (hlater.between s hs).2⟩
    · exact ⟨(hearlier.between s hs).1, (hearlier.between s hs).2.trans hlater.within⟩
  ascending := by
    refine List.pairwise_append.2 ⟨hlater.ascending, hearlier.ascending, ?_⟩
    intro s hs t ht
    exact (hearlier.between t ht).2.trans (hlater.between s hs).1

end Status
end LogHarvest
