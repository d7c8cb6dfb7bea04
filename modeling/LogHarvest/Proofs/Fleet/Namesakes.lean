import LogHarvest.Proofs.Fleet.Roster

/-!
# Members that share an identifier

Members are filed under keys, and a key need not be the identifier of its member.  So
one group may hold two members with one identifier, under two keys.  Such namesakes
stand at two places of the roster, and two places of the roster with one group and one
identifier belong to namesakes (`namesakes_iff_roster`).
-/

namespace LogHarvest
namespace Status

/-- Two keys of a group file members with one identifier. -/
def Namesakes (s : Status) (group id : String) : Prop :=
  ∃ members key key' i i', s.membersOf group = some members ∧ key ≠ key' ∧
    members.get? key = some i ∧ members.get? key' = some i' ∧ i.id = id ∧ i'.id = id

structure Filing where
  group : String
  key : String
  member : Instance

def filings (s : Status) : List Filing :=
  s.groups.entries.flatMap fun (group, g) =>
    g.members.entries.map fun (key, i) => ⟨group, key, i⟩

theorem roster_eq_map_filings (s : Status) :
    s.roster = s.filings.map fun x => (x.group, x.member) := by
  simp only [roster, filings, NameMap.values, List.map_flatMap, List.map_map, Function.comp_def]

theorem mem_filings_iff {s : Status} {x : Filing} :
    x ∈ s.filings ↔
      ∃ members, s.membersOf x.group = some members ∧ members.get? x.key = some x.member := by
  obtain ⟨group, key, i⟩ := x
  simp only [filings, List.mem_flatMap, List.mem_map, membersOf, Option.map_eq_some_iff,
    NameMap.get?_eq_some_iff]
  constructor
  · rintro ⟨⟨name, g⟩, hgroup, ⟨other, j⟩, hmember, heq⟩
    cases heq
    exact ⟨g.members, ⟨g, hgroup, rfl⟩, hmember⟩
  · rintro ⟨members, ⟨g, hgroup, rfl⟩, hmember⟩
    exact ⟨(group, g), hgroup, (key, i), hmember, rfl⟩

theorem nodup_filings (s : Status) : s.filings.Nodup := by
  simp only [filings, List.Nodup, List.pairwise_flatMap]
  constructor
  · rintro ⟨group, g⟩ -
    rw [List.pairwise_map]
    refine g.members.ascending.imp ?_
    intro a b hlt heq
    rw [show a.1 = b.1 from congrArg Filing.key heq] at hlt
    exact String.lt_irrefl _ hlt
  · refine s.groups.ascending.imp ?_
    intro a b hlt x hx y hy heq
    obtain ⟨m, -, rfl⟩ := List.mem_map.1 hx
    obtain ⟨n, -, rfl⟩ := List.mem_map.1 hy
    rw [show a.1 = b.1 from congrArg Filing.group heq] at hlt
    exact String.lt_irrefl _ hlt

theorem namesakes_iff_roster {s : Status} {group id : String} :
    s.Namesakes group id ↔
      ∃ (v w : Nat) (i j : Instance), v ≠ w ∧ s.roster[v]? = some (group, i) ∧
        s.roster[w]? = some (group, j) ∧ i.id = id ∧ j.id = id := by
  simp only [roster_eq_map_filings, List.getElem?_map, Option.map_eq_some_iff]
  constructor
  · rintro ⟨members, key, key', i, j, hmembers, hkeys, hi, hj, hid, hid'⟩
    obtain ⟨v, hv⟩ := List.mem_iff_getElem?.1
      (mem_filings_iff.2 ⟨members, hmembers, hi⟩ : (⟨group, key, i⟩ : Filing) ∈ s.filings)
    obtain ⟨w, hw⟩ := List.mem_iff_getElem?.1
      (mem_filings_iff.2 ⟨members, hmembers, hj⟩ : (⟨group, key', j⟩ : Filing) ∈ s.filings)
    refine ⟨v, w, i, j, ?_, ⟨_, hv, rfl⟩, ⟨_, hw, rfl⟩, hid, hid'⟩
    rintro rfl
    exact hkeys (congrArg Filing.key (Option.some.inj (hv.symm.trans hw)))
  · rintro ⟨v, w, i, j, hne, ⟨x, hv, hx⟩, ⟨y, hw, hy⟩, hid, hid'⟩
    obtain ⟨group', key, i'⟩ := x
    obtain ⟨group'', key', j'⟩ := y
    cases hx
    cases hy
    obtain ⟨members, hmembers, hi⟩ := mem_filings_iff.1 (List.mem_of_getElem? hv)
    obtain ⟨members', hmembers', hj⟩ := mem_filings_iff.1 (List.mem_of_getElem? hw)
    cases hmembers.symm.trans hmembers'
    refine ⟨members, key, key', i', j', hmembers, ?_, hi, hj, hid, hid'⟩
    -- With one key it would be one member, which the list has twice.
    intro hkey
    have hkey : key = key' := hkey
    subst hkey
    cases hi.symm.trans hj
    have hvlen := (List.getElem?_eq_some_iff.1 hv).1
    exact hne ((List.getElem?_inj hvlen s.nodup_filings).1 (hv.trans hw.symm))

theorem Keyed.not_namesakes {s : Status} (hkeyed : s.Keyed) (group id : String) :
    ¬ s.Namesakes group id := by
  rintro ⟨members, key, key', i, j, hmembers, hkeys, hi, hj, hid, hid'⟩
  rw [hkeyed group members key i hmembers hi] at hid
  rw [hkeyed group members key' j hmembers hj] at hid'
  exact hkeys (hid.trans hid'.symm)

end Status
end LogHarvest
