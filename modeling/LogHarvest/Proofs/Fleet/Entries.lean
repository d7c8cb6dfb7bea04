import LogHarvest.Proofs.Fleet.Absorbing
import LogHarvest.Proofs.Fleet.Roster

/-!
# The entries of a status

All entries of a status make up one list without repetition, so that entries can be
counted.  After some records were merged, the entries that are new are those of the
successes among the records, and the counts of the records are theirs
(`entriesSince_of_mergeAll`).
-/

namespace LogHarvest

structure Entry where
  group : String
  id : String
  paths : List Path
deriving DecidableEq, Repr

def Record.added? (r : Record) : Option Entry :=
  r.outcome.toOption.map fun paths => ⟨r.group, r.id, paths⟩

theorem Record.added?_eq_some_iff {r : Record} {e : Entry} :
    r.added? = some e ↔ r = .success e.group e.id e.paths := by
  obtain ⟨group, id, outcome⟩ := r
  obtain ⟨group', id', paths'⟩ := e
  cases outcome with
  | error fault => simp [added?, Except.toOption, success]
  | ok paths => simp [added?, Except.toOption, success]

namespace Status

def entries (s : Status) : List Entry :=
  s.groups.entries.flatMap fun (group, g) =>
    g.logs.entries.map fun (id, paths) => ⟨group, id, paths⟩

def entriesSince (s first : Status) : List Entry :=
  s.entries.filter fun e => (first.logsFor e.group e.id).isNone

theorem length_entries (s : Status) : s.entries.length = s.collected := by
  unfold entries collected NameMap.values
  induction s.groups.entries with
  | nil => rfl
  | cons group rest ih =>
      rw [List.flatMap_cons, List.length_append, List.length_map, ih]
      rfl

theorem mem_entries_iff {s : Status} {e : Entry} :
    e ∈ s.entries ↔ s.logsFor e.group e.id = some e.paths := by
  obtain ⟨group, id, paths⟩ := e
  simp only [entries, List.mem_flatMap, List.mem_map, logsFor_eq, Option.bind_eq_some_iff,
    NameMap.get?_eq_some_iff]
  constructor
  · rintro ⟨⟨name, g⟩, hgroup, ⟨other, found⟩, hlogs, heq⟩
    cases heq
    exact ⟨g, hgroup, hlogs⟩
  · rintro ⟨g, hgroup, hlogs⟩
    exact ⟨(group, g), hgroup, (id, paths), hlogs, rfl⟩

/-- Entries come with ascending groups, and those of a group with ascending identifiers. -/
theorem pairwise_entries (s : Status) :
    s.entries.Pairwise fun a b => a.group < b.group ∨ a.group = b.group ∧ a.id < b.id := by
  simp only [entries, List.pairwise_flatMap]
  constructor
  · rintro ⟨group, g⟩ -
    rw [List.pairwise_map]
    exact g.logs.ascending.imp fun hless => Or.inr ⟨rfl, hless⟩
  · refine s.groups.ascending.imp ?_
    intro a b hless x hx y hy
    obtain ⟨m, -, rfl⟩ := List.mem_map.1 hx
    obtain ⟨n, -, rfl⟩ := List.mem_map.1 hy
    exact Or.inl hless

theorem nodup_entries (s : Status) : s.entries.Nodup := by
  refine (pairwise_entries s).imp ?_
  rintro a b (hless | ⟨-, hless⟩) rfl
  · exact String.lt_irrefl _ hless
  · exact String.lt_irrefl _ hless

theorem allPaths_eq (s : Status) : s.allPaths = s.entries.flatMap Entry.paths := by
  unfold allPaths entries NameMap.values
  simp only [List.flatMap_map, List.flatMap_assoc]
  rfl

theorem nodup_of_mergeAll {s t : Status} {records : List Record}
    (hmerge : s.mergeAll records = .ok t) : (records.filterMap Record.added?).Nodup := by
  induction records generalizing t with
  | nil => exact List.nodup_nil
  | cons r earlier ih =>
      obtain ⟨u, hearlier, hlast⟩ := mergeAll_cons_eq_ok_iff.1 hmerge
      cases hentry : r.added? with
      | none =>
          rw [List.filterMap_cons_none hentry]
          exact ih hearlier
      | some e =>
          rw [List.filterMap_cons_some hentry, List.nodup_cons]
          refine ⟨?_, ih hearlier⟩
          intro hagain
          obtain ⟨other, hother, hsame⟩ := List.mem_filterMap.1 hagain
          rw [Record.added?_eq_some_iff] at hentry hsame
          rw [hentry] at hlast
          rw [hsame] at hother
          have hfresh : u.logsFor e.group e.id = none := logsFor_eq_none_of_record hlast
          rw [(logsFor_of_mergeAll hearlier _ _ _).2 (Or.inr hother)] at hfresh
          cases hfresh

theorem entriesSince_of_mergeAll {s t : Status} {records : List Record}
    (hmerge : s.mergeAll records = .ok t) :
    (t.entriesSince s).Perm (records.filterMap Record.added?) := by
  refine (List.perm_ext_iff_of_nodup ?_ (nodup_of_mergeAll hmerge)).2 ?_
  · exact (nodup_entries t).filter _
  · intro e
    rw [entriesSince, List.mem_filter, mem_entries_iff, Option.isNone_iff_eq_none,
      logsFor_of_mergeAll hmerge, List.mem_filterMap]
    simp only [Record.added?_eq_some_iff, exists_eq_right]
    constructor
    · rintro ⟨hold | hnew, hnone⟩
      · rw [hnone] at hold
        cases hold
      · exact hnew
    · intro hnew
      exact ⟨Or.inr hnew, logsFor_eq_none_of_mergeAll hmerge hnew⟩

theorem collected_of_mergeAll {s t : Status} {records : List Record}
    (hmerge : s.mergeAll records = .ok t) :
    t.collected = s.collected + (t.entriesSince s).length := by
  have hkept : (t.entries.filter fun e => !(s.logsFor e.group e.id).isNone).Perm s.entries := by
    refine (List.perm_ext_iff_of_nodup ((nodup_entries t).filter _) (nodup_entries s)).2 ?_
    intro e
    rw [List.mem_filter, mem_entries_iff, mem_entries_iff, Bool.not_eq_true',
      Option.isNone_eq_false_iff]
    constructor
    · rintro ⟨hlast, hsome⟩
      obtain ⟨old, hold⟩ := Option.isSome_iff_exists.1 hsome
      rw [(logsFor_of_mergeAll hmerge _ _ old).2 (Or.inl hold)] at hlast
      rw [hold, hlast]
    · intro hold
      refine ⟨(logsFor_of_mergeAll hmerge _ _ _).2 (Or.inl hold), ?_⟩
      rw [hold]
      rfl
  have hsplit := List.length_eq_countP_add_countP (l := t.entries)
    fun e => (s.logsFor e.group e.id).isNone
  rw [← length_entries, ← length_entries, hsplit, ← hkept.length_eq, Nat.add_comm,
    ← List.countP_eq_length_filter, entriesSince, ← List.countP_eq_length_filter]
  simp only [Bool.not_eq_true, Bool.decide_eq_false]

end Status

namespace Tally

theorem of_eq (records : List Record) :
    Tally.of records =
      { collected := (records.filterMap Record.added?).length
        failed := records.countP fun r => !r.isOk
        totalFiles := ((records.filterMap Record.added?).flatMap fun e => e.paths).length } := by
  induction records with
  | nil => rfl
  | cons r earlier ih =>
      have hcons : Tally.of (r :: earlier) = (Tally.of earlier).add r := rfl
      obtain ⟨group, id, outcome⟩ := r
      rw [hcons, ih]
      cases outcome with
      | error fault =>
          rw [List.filterMap_cons_none rfl]
          simp [add, count, Except.toOption, Record.isOk]
      | ok paths =>
          have hentry : Record.added? ⟨group, id, .ok paths⟩ = some ⟨group, id, paths⟩ := rfl
          rw [List.filterMap_cons_some hentry]
          simp [add, count, Except.toOption, Record.isOk, Nat.add_comm]

end Tally
end LogHarvest
