import LogHarvest.Proofs.Fleet.Membership
import Mathlib.Data.List.Pairwise

/-!
# Merging a list of records

Records are merged one after the other, whatever becomes of each of them.  What that
comes to can be read off the list and the status before it: a success is gained if
its group is there, its instance had no entry, and it is the first success for that
instance.  Everything else that is not a failure is refused and changes nothing.

So the order of records matters only where two successes are for the same instance.
The store is left open, and with it what becomes of the writes.
-/

namespace LogHarvest

def Entry.instanceOf (e : Entry) : String × String := (e.group, e.id)

def entriesOf (records : List Record) : List Entry :=
  records.filterMap Record.added?

def firstEntries : List Entry → List Entry
  | [] => []
  | e :: rest => e :: (firstEntries rest).filter fun later => later.instanceOf != e.instanceOf

def firstPaths? (records : List Record) (group id : String) : Option (List Path) :=
  ((entriesOf records).find? fun e => e.instanceOf == (group, id)).map Entry.paths

namespace Status

def awaits (s : Status) (instanceOf : String × String) : Bool :=
  (s.membersOf instanceOf.1).isSome && (s.logsFor instanceOf.1 instanceOf.2).isNone

def gained (s : Status) (records : List Record) : List Entry :=
  firstEntries ((entriesOf records).filter fun e => s.awaits e.instanceOf)

end Status

/-!
## First entries
-/

theorem filter_firstEntries (p : String × String → Bool) (entries : List Entry) :
    (firstEntries entries).filter (fun e => p e.instanceOf) =
      firstEntries (entries.filter fun e => p e.instanceOf) := by
  induction entries with
  | nil => rfl
  | cons e rest ih =>
      rw [firstEntries, List.filter_cons, List.filter_cons]
      split
      · rw [firstEntries, ← ih, List.filter_filter, List.filter_filter]
        simp only [Bool.and_comm]
      · rename_i hp
        rw [← ih, List.filter_filter]
        refine List.filter_congr fun later _ => ?_
        by_cases hsame : later.instanceOf = e.instanceOf
        · rw [hsame, (Bool.not_eq_true _).mp hp, Bool.false_and]
        · rw [bne_iff_ne.2 hsame, Bool.and_true]

theorem firstEntries_eq_self {entries : List Entry}
    (hdistinct : entries.Pairwise fun e later => e.instanceOf ≠ later.instanceOf) :
    firstEntries entries = entries := by
  induction hdistinct with
  | nil => rfl
  | @cons e rest hfirst _ ih =>
      rw [firstEntries, ih, List.filter_eq_self.2]
      intro later hlater
      exact bne_iff_ne.2 (hfirst later hlater).symm

/-!
## What a status takes
-/

namespace Status

variable {s t : Status} {e : Entry} {r : Record} {records : List Record}

theorem awaits_iff : s.awaits e.instanceOf = true ↔
    ∃ t, s.record e.group e.id e.paths = .ok t := by
  rw [awaits, Bool.and_eq_true, Option.isSome_iff_exists, Option.isNone_iff_eq_none]
  constructor
  · rintro ⟨⟨members, hmembers⟩, hfresh⟩
    exact exists_record hmembers hfresh e.paths
  · rintro ⟨t, hrecord⟩
    obtain ⟨g, hgroup, -, -⟩ := record_eq_ok_iff.1 hrecord
    refine ⟨⟨g.members, ?_⟩, logsFor_eq_none_of_record hrecord⟩
    rw [Entry.instanceOf, membersOf, hgroup]
    rfl

theorem awaits_eq_false {fault : FleetFault}
    (hrefused : s.record e.group e.id e.paths = .error fault) : s.awaits e.instanceOf = false := by
  rw [← Bool.not_eq_true, awaits_iff]
  rintro ⟨t, hrecord⟩
  rw [hrefused] at hrecord
  cases hrecord

theorem awaits_of_record (hrecord : s.record e.group e.id e.paths = .ok t)
    (instanceOf : String × String) :
    t.awaits instanceOf = (s.awaits instanceOf && instanceOf != e.instanceOf) := by
  rw [awaits, awaits, sameMembers_of_record hrecord, logsFor_of_record hrecord, Bool.and_assoc]
  congr 1
  by_cases hsame : instanceOf = e.instanceOf
  · rw [if_pos ⟨congrArg Prod.fst hsame, congrArg Prod.snd hsame⟩, hsame]
    simp
  · rw [if_neg fun h => hsame (Prod.ext h.1 h.2), bne_iff_ne.2 hsame, Bool.and_true]

theorem gained_of_failure (hentry : r.added? = none) :
    s.gained (r :: records) = s.gained records := by
  rw [gained, entriesOf, List.filterMap_cons_none hentry]
  rfl

theorem gained_of_refused {fault : FleetFault} (hentry : r.added? = some e)
    (hrefused : s.record e.group e.id e.paths = .error fault) :
    s.gained (r :: records) = s.gained records := by
  rw [gained, entriesOf, List.filterMap_cons_some hentry, List.filter_cons,
    awaits_eq_false hrefused]
  rfl

theorem gained_of_record (hentry : r.added? = some e)
    (hrecord : s.record e.group e.id e.paths = .ok t) :
    s.gained (r :: records) = e :: t.gained records := by
  have hawaits := awaits_iff.2 ⟨t, hrecord⟩
  rw [gained, entriesOf, List.filterMap_cons_some hentry, List.filter_cons, if_pos hawaits,
    firstEntries, filter_firstEntries fun instanceOf => instanceOf != e.instanceOf,
    List.filter_filter, gained]
  simp only [awaits_of_record hrecord, Bool.and_comm]
  rfl

end Status

/-!
## Merging
-/

def Tally.gain (t : Tally) (entries : List Entry) : Tally :=
  { t with
    collected := t.collected + entries.length
    totalFiles := t.totalFiles + (entries.flatMap Entry.paths).length }

namespace Aggregation

variable {σ : Type} [StatusStore σ]

def absorbAll (a : Aggregation σ) : List Record → List (Except FleetFault Unit) × Aggregation σ
  | [] => ([], a)
  | r :: rest =>
      let later := (a.absorb r).2.absorbAll rest
      ((a.absorb r).1 :: later.1, later.2)

def write (store : σ) (s : Status) : σ :=
  (StatusStore.sync (StatusStore.setStatus store s)).2

/-- All that merging a record can do. -/
inductive Merges (a : Aggregation σ) (r : Record) :
    Except FleetFault Unit × Aggregation σ → Prop
  | failed (hentry : r.added? = none) :
      Merges a r (.ok (), { a with tally := { a.tally with failed := a.tally.failed + 1 } })
  | gained {e : Entry} {t : Status} (hentry : r.added? = some e)
      (hrecord : a.status.record e.group e.id e.paths = .ok t) :
      Merges a r (.ok (), ⟨write a.store t, a.tally.gain [e]⟩)
  | refused {e : Entry} {fault : FleetFault} (hentry : r.added? = some e)
      (hrecord : a.status.record e.group e.id e.paths = .error fault) :
      Merges a r (.error fault, a)

theorem merges_absorb (a : Aggregation σ) (r : Record) : Merges a r (a.absorb r) := by
  obtain ⟨group, id, outcome⟩ := r
  cases outcome with
  | error fault => exact .failed rfl
  | ok paths =>
      unfold absorb
      dsimp only
      split
      · rename_i fault hrecord
        exact .refused (e := ⟨group, id, paths⟩) rfl hrecord
      · rename_i t hrecord
        have hgained := Merges.gained (r := ⟨group, id, .ok paths⟩) (e := ⟨group, id, paths⟩)
          rfl hrecord
        simpa [Tally.gain, write] using hgained

theorem absorbAll_append (a : Aggregation σ) (front rest : List Record) :
    a.absorbAll (front ++ rest) =
      ((a.absorbAll front).1 ++ ((a.absorbAll front).2.absorbAll rest).1,
        ((a.absorbAll front).2.absorbAll rest).2) := by
  induction front generalizing a with
  | nil => rfl
  | cons r front ih =>
      rw [List.cons_append, absorbAll, ih, absorbAll]
      rfl

theorem length_absorbAll (a : Aggregation σ) (records : List Record) :
    (a.absorbAll records).1.length = records.length := by
  induction records generalizing a with
  | nil => rfl
  | cons r rest ih => exact congrArg (· + 1) (ih _)

theorem absorb_isOk_eq_false_iff (a : Aggregation σ) (r : Record) :
    (a.absorb r).1.isOk = false ↔
      ∃ e, r.added? = some e ∧ a.status.awaits e.instanceOf = false := by
  have hstep := merges_absorb a r
  generalize a.absorb r = step at hstep
  cases hstep with
  | failed hentry => simp [hentry, Except.isOk, Except.toBool]
  | @gained e t hentry hrecord =>
      simp [hentry, Except.isOk, Except.toBool, Status.awaits_iff.2 ⟨t, hrecord⟩]
  | refused hentry hrecord =>
      simp [hentry, Except.isOk, Except.toBool, Status.awaits_eq_false hrecord]

theorem absorb_of_not_isOk {a : Aggregation σ} {r : Record}
    (hrefused : (a.absorb r).1.isOk = false) : (a.absorb r).2 = a := by
  have hstep := merges_absorb a r
  generalize a.absorb r = step at hstep hrefused
  cases hstep with
  | failed _ => cases hrefused
  | gained _ _ => cases hrefused
  | refused _ _ => rfl

variable [StatusStore.Faithful σ]

theorem status_write (store : σ) (s : Status) : StatusStore.status (write store s) = s :=
  (StatusStore.Faithful.status_sync _).trans (StatusStore.Faithful.status_setStatus store s)

theorem sameMembers_absorbAll (a : Aggregation σ) (records : List Record) :
    a.status.SameMembers (a.absorbAll records).2.status := by
  induction records generalizing a with
  | nil => exact fun _ => rfl
  | cons r rest ih =>
      have hrest := ih (a.absorb r).2
      rw [absorbAll]
      have hstep := merges_absorb a r
      generalize a.absorb r = step at hstep hrest ⊢
      cases hstep with
      | failed _ => exact hrest
      | gained _ hrecord =>
          rw [status_mk, status_write] at hrest
          exact fun group => (Status.sameMembers_of_record hrecord group).trans (hrest group)
      | refused _ _ => exact hrest

theorem awaits_absorbAll (a : Aggregation σ) (records : List Record)
    (instanceOf : String × String) :
    (a.absorbAll records).2.status.awaits instanceOf =
      (a.status.awaits instanceOf &&
        !(entriesOf records).any fun e => e.instanceOf == instanceOf) := by
  induction records generalizing a with
  | nil => exact (Bool.and_true _).symm
  | cons r rest ih =>
      rw [absorbAll, ih]
      have hstep := merges_absorb a r
      generalize a.absorb r = step at hstep ⊢
      cases hstep with
      | failed hentry =>
          rw [entriesOf, entriesOf, List.filterMap_cons_none hentry]
          rfl
      | @gained e t hentry hrecord =>
          rw [status_mk, status_write, Status.awaits_of_record hrecord, entriesOf, entriesOf,
            List.filterMap_cons_some hentry, List.any_cons, Bool.not_or, Bool.and_assoc]
          congr 2
          exact bne_comm
      | @refused e fault hentry hrecord =>
          rw [entriesOf, entriesOf, List.filterMap_cons_some hentry, List.any_cons, Bool.not_or]
          by_cases hsame : e.instanceOf = instanceOf
          · rw [← hsame, Status.awaits_eq_false hrecord, Bool.false_and, Bool.false_and]
          · rw [beq_eq_false_iff_ne.2 hsame, Bool.not_false, Bool.true_and]

theorem firstPaths?_of_failure {r : Record} (hentry : r.added? = none) (rest : List Record)
    (group id : String) : firstPaths? (r :: rest) group id = firstPaths? rest group id := by
  rw [firstPaths?, entriesOf, List.filterMap_cons_none hentry]
  rfl

theorem firstPaths?_of_success {r : Record} {e : Entry} (hentry : r.added? = some e)
    (rest : List Record) (group id : String) :
    firstPaths? (r :: rest) group id =
      if e.instanceOf = (group, id) then some e.paths else firstPaths? rest group id := by
  rw [firstPaths?, entriesOf, List.filterMap_cons_some hentry, List.find?_cons]
  by_cases hsame : e.instanceOf = (group, id)
  · rw [beq_iff_eq.2 hsame, if_pos hsame]
    rfl
  · rw [beq_eq_false_iff_ne.2 hsame, if_neg hsame]
    rfl

theorem logsFor_absorbAll (a : Aggregation σ) (records : List Record) (group id : String) :
    (a.absorbAll records).2.status.logsFor group id =
      (a.status.logsFor group id).or
        (if (a.status.membersOf group).isSome then firstPaths? records group id else none) := by
  induction records generalizing a with
  | nil =>
      rw [show firstPaths? [] group id = none from rfl, ite_self, Option.or_none]
      rfl
  | cons r rest ih =>
      rw [absorbAll, ih]
      have hstep := merges_absorb a r
      generalize a.absorb r = step at hstep ⊢
      cases hstep with
      | failed hentry =>
          rw [firstPaths?_of_failure hentry]
          rfl
      | @gained e t hentry hrecord =>
          have hawaits := Status.awaits_iff.2 ⟨t, hrecord⟩
          rw [Status.awaits, Bool.and_eq_true, Option.isNone_iff_eq_none] at hawaits
          rw [firstPaths?_of_success hentry, status_mk, status_write,
            ← Status.sameMembers_of_record hrecord, Status.logsFor_of_record hrecord]
          by_cases hsame : e.instanceOf = (group, id)
          · rw [hsame] at hawaits
            obtain ⟨rfl, rfl⟩ := Prod.mk.inj hsame
            rw [if_pos ⟨rfl, rfl⟩, if_pos hsame, hawaits.2, if_pos hawaits.1, if_pos hawaits.1]
            rfl
          · rw [if_neg hsame, if_neg fun h => hsame (Prod.ext h.1.symm h.2.symm)]
      | @refused e fault hentry hrecord =>
          rw [firstPaths?_of_success hentry]
          by_cases hsame : e.instanceOf = (group, id)
          · -- An instance that is refused has an entry, or its group is not there.
            have hrefused := Status.awaits_eq_false hrecord
            rw [hsame, Status.awaits, Bool.and_eq_false_iff, Option.isNone_eq_false_iff,
              Option.isSome_iff_exists] at hrefused
            rcases hrefused with hunknown | ⟨old, hold⟩
            · rw [hunknown]
              rfl
            · rw [hold]
              rfl
          · rw [if_neg hsame]

theorem tally_absorbAll (a : Aggregation σ) (records : List Record) :
    (a.absorbAll records).2.tally =
      { collected := a.tally.collected + (a.status.gained records).length
        failed := a.tally.failed + records.countP fun r => !r.isOk
        totalFiles :=
          a.tally.totalFiles + ((a.status.gained records).flatMap Entry.paths).length } := by
  induction records generalizing a with
  | nil => rfl
  | cons r rest ih =>
      rw [absorbAll, ih]
      have hok : r.isOk = r.added?.isSome := by
        obtain ⟨group, id, outcome⟩ := r
        cases outcome <;> rfl
      have hstep := merges_absorb a r
      generalize a.absorb r = step at hstep ⊢
      cases hstep with
      | failed hentry =>
          rw [Status.gained_of_failure hentry, List.countP_cons_of_pos (by rw [hok, hentry]; rfl)]
          simp only [status_mk, Tally.mk.injEq]
          exact ⟨rfl, by omega, rfl⟩
      | @gained e t hentry hrecord =>
          rw [Status.gained_of_record hentry hrecord,
            List.countP_cons_of_neg (by rw [hok, hentry]; nofun)]
          simp only [status_mk, status_write, Tally.gain, List.length_cons, List.length_nil,
            List.flatMap_cons, List.flatMap_nil, List.length_append, Tally.mk.injEq]
          exact ⟨by omega, trivial, by omega⟩
      | @refused e fault hentry hrecord =>
          rw [Status.gained_of_refused hentry hrecord,
            List.countP_cons_of_neg (by rw [hok, hentry]; nofun)]

/-!
## Writes

For each entry that is gained there is one write, and it sees the entry.
-/

/-- Statuses between which the entries were gained, one after the other. -/
structure Gains (s : Status) (entries : List Entry) (statuses : List Status) : Prop where
  length : statuses.length = entries.length
  sameMembers : ∀ t ∈ statuses, s.SameMembers t
  logsFor : ∀ (k : Nat) (t : Status), statuses[k]? = some t → ∀ group id paths,
    t.logsFor group id = some paths ↔
      s.logsFor group id = some paths ∨ ⟨group, id, paths⟩ ∈ entries.take (k + 1)

theorem Gains.cons {s t : Status} {e : Entry} {entries : List Entry} {statuses : List Status}
    (hrecord : s.record e.group e.id e.paths = .ok t) (hgains : Gains t entries statuses) :
    Gains s (e :: entries) (t :: statuses) where
  length := congrArg (· + 1) hgains.length
  sameMembers := by
    refine List.forall_mem_cons.2 ⟨Status.sameMembers_of_record hrecord, fun u hu group => ?_⟩
    exact (Status.sameMembers_of_record hrecord group).trans (hgains.sameMembers u hu group)
  logsFor := by
    have hfirst : ∀ group id paths, t.logsFor group id = some paths ↔
        s.logsFor group id = some paths ∨ (⟨group, id, paths⟩ : Entry) = e := by
      intro group id paths
      have hentries : ⟨group, id, paths⟩ ∈ t.entries ↔ _ := Status.mem_entries_of_record hrecord
      rwa [Status.mem_entries_iff, Status.mem_entries_iff, @eq_comm _ e] at hentries
    intro k u hu group id paths
    cases k with
    | zero =>
        cases hu
        rw [hfirst, List.take_succ_cons, List.take_zero, List.mem_singleton]
    | succ k =>
        rw [hgains.logsFor k u hu, hfirst, List.take_succ_cons, List.mem_cons, or_assoc]

theorem exists_gains (a : Aggregation σ) (records : List Record) :
    ∃ statuses, Gains a.status (a.status.gained records) statuses ∧
      (a.absorbAll records).2.store = statuses.foldl write a.store := by
  induction records generalizing a with
  | nil => exact ⟨[], ⟨rfl, List.forall_mem_nil _, nofun⟩, rfl⟩
  | cons r rest ih =>
      obtain ⟨statuses, hgains, hstore⟩ := ih (a.absorb r).2
      rw [absorbAll]
      have hstep := merges_absorb a r
      generalize a.absorb r = step at hstep hgains hstore ⊢
      cases hstep with
      | failed hentry =>
          rw [Status.gained_of_failure hentry]
          exact ⟨statuses, hgains, hstore⟩
      | @gained e t hentry hrecord =>
          rw [status_mk, status_write] at hgains
          rw [Status.gained_of_record hentry hrecord]
          exact ⟨t :: statuses, hgains.cons hrecord, hstore⟩
      | refused hentry hrecord =>
          rw [Status.gained_of_refused hentry hrecord]
          exact ⟨statuses, hgains, hstore⟩

/-!
## Orders
-/

/-- No two successes are for the same instance. -/
def Unrepeated (records : List Record) : Prop :=
  (entriesOf records).Pairwise fun e later => e.instanceOf ≠ later.instanceOf

theorem mem_of_firstPaths? {records : List Record} {group id : String} {paths : List Path}
    (hpaths : firstPaths? records group id = some paths) :
    (⟨group, id, paths⟩ : Entry) ∈ entriesOf records := by
  obtain ⟨e, he, rfl⟩ := Option.map_eq_some_iff.1 hpaths
  have hsame : e.instanceOf = (group, id) := by simpa using List.find?_some he
  obtain ⟨rfl, rfl⟩ := Prod.mk.inj hsame
  exact List.mem_of_find?_eq_some he

theorem firstPaths?_eq_some_iff {records : List Record} (hdistinct : Unrepeated records)
    {group id : String} {paths : List Path} :
    firstPaths? records group id = some paths ↔
      (⟨group, id, paths⟩ : Entry) ∈ entriesOf records := by
  refine ⟨mem_of_firstPaths?, fun hmem => ?_⟩
  have hfound : (firstPaths? records group id).isSome := by
    rw [firstPaths?, Option.isSome_map, List.find?_isSome]
    exact ⟨_, hmem, beq_iff_eq.2 rfl⟩
  obtain ⟨found, hpaths⟩ := Option.isSome_iff_exists.1 hfound
  -- Two entries for one instance are the same entry.
  have hsame : (⟨group, id, found⟩ : Entry) = ⟨group, id, paths⟩ := by
    have hsymm : Std.Symm fun e later : Entry => e.instanceOf ≠ later.instanceOf :=
      ⟨fun _ _ hne => hne.symm⟩
    by_contra hother
    exact hdistinct.forall (mem_of_firstPaths? hpaths) hmem hother rfl
  exact hpaths.trans (congrArg (fun e => some e.paths) hsame)

theorem perm_entriesOf {records others : List Record} (hperm : records.Perm others) :
    (entriesOf records).Perm (entriesOf others) :=
  hperm.filterMap _

theorem Unrepeated.of_perm {records others : List Record} (hdistinct : Unrepeated records)
    (hperm : records.Perm others) : Unrepeated others :=
  (perm_entriesOf hperm).pairwise hdistinct fun hne => hne.symm

theorem gained_of_unrepeated {records : List Record} (hdistinct : Unrepeated records)
    (s : Status) :
    s.gained records = (entriesOf records).filter fun e => s.awaits e.instanceOf :=
  firstEntries_eq_self (hdistinct.filter _)

theorem absorbAll_of_perm (a : Aggregation σ) {records others : List Record}
    (hdistinct : Unrepeated records) (hperm : records.Perm others) :
    (a.absorbAll others).2.status = (a.absorbAll records).2.status ∧
      (a.absorbAll others).2.tally = (a.absorbAll records).2.tally := by
  have hdistinct' := hdistinct.of_perm hperm
  have hentries := perm_entriesOf hperm
  constructor
  · apply Status.eq_of_sameMembers
    · intro group
      rw [← sameMembers_absorbAll a others group, sameMembers_absorbAll a records group]
    · intro group id
      have hfirst : firstPaths? others group id = firstPaths? records group id := by
        apply Option.ext
        intro paths
        rw [firstPaths?_eq_some_iff hdistinct', firstPaths?_eq_some_iff hdistinct,
          hentries.mem_iff]
      rw [logsFor_absorbAll, logsFor_absorbAll, hfirst]
  · have hgained : (a.status.gained records).Perm (a.status.gained others) := by
      rw [gained_of_unrepeated hdistinct, gained_of_unrepeated hdistinct']
      exact hentries.filter _
    rw [tally_absorbAll, tally_absorbAll, hgained.length_eq, hperm.countP_eq,
      (hgained.flatMap_right _).length_eq]

/-!
## The whole list
-/

/-- What comes of merging records, from the status before it and the records. -/
structure Folds (a : Aggregation σ) (records : List Record) : Prop where
  /-- Only entries are added, -/
  members : a.status.SameMembers (a.absorbAll records).2.status
  /-- in a known group those of the first successes for instances without an entry. -/
  entries : ∀ group id, (a.absorbAll records).2.status.logsFor group id =
    (a.status.logsFor group id).or
      (if (a.status.membersOf group).isSome then firstPaths? records group id else none)
  tally : (a.absorbAll records).2.tally =
    { collected := a.tally.collected + (a.status.gained records).length
      failed := a.tally.failed + records.countP fun r => !r.isOk
      totalFiles := a.tally.totalFiles + ((a.status.gained records).flatMap Entry.paths).length }
  /-- A success is refused if its group is unknown or its instance has an entry by then. -/
  refusals : ∀ front r rest, records = front ++ r :: rest →
    ∃ result, (a.absorbAll records).1[front.length]? = some result ∧
      (result.isOk = false ↔ ∃ e, r.added? = some e ∧
        (a.status.membersOf e.group = none ∨ (a.status.logsFor e.group e.id).isSome ∨
          ∃ earlier ∈ entriesOf front, earlier.instanceOf = e.instanceOf)) ∧
      (result.isOk = false → (a.absorbAll (front ++ [r])).2 = (a.absorbAll front).2)
  /-- There is one write for each entry that is gained, with the entries up to then. -/
  writes : ∃ statuses, Gains a.status (a.status.gained records) statuses ∧
    (a.absorbAll records).2.store = statuses.foldl write a.store
  /-- The order makes no difference if no two successes are for the same instance. -/
  orders : Unrepeated records → ∀ others, records.Perm others →
    (a.absorbAll others).2.status = (a.absorbAll records).2.status ∧
      (a.absorbAll others).2.tally = (a.absorbAll records).2.tally

theorem refused_iff (a : Aggregation σ) (front : List Record) (r : Record) :
    ((a.absorbAll front).2.absorb r).1.isOk = false ↔ ∃ e, r.added? = some e ∧
      (a.status.membersOf e.group = none ∨ (a.status.logsFor e.group e.id).isSome ∨
        ∃ earlier ∈ entriesOf front, earlier.instanceOf = e.instanceOf) := by
  rw [absorb_isOk_eq_false_iff]
  refine exists_congr fun e => and_congr_right fun _ => ?_
  rw [awaits_absorbAll, Status.awaits, Bool.and_eq_false_iff, Bool.and_eq_false_iff,
    Option.isSome_eq_false_iff, Option.isNone_iff_eq_none, Option.isNone_eq_false_iff,
    Bool.not_eq_false', List.any_eq_true, or_assoc]
  simp only [beq_iff_eq]
  rfl

/-- Merging a list of records does what `Folds` says, whatever the store does. -/
theorem folds_absorbAll (a : Aggregation σ) (records : List Record) : Folds a records where
  members := sameMembers_absorbAll a records
  entries := logsFor_absorbAll a records
  tally := tally_absorbAll a records
  refusals := by
    rintro front r rest rfl
    have hresults : (a.absorbAll (front ++ r :: rest)).1[front.length]? =
        some ((a.absorbAll front).2.absorb r).1 := by
      rw [absorbAll_append, List.getElem?_append_right (Nat.le_of_eq (length_absorbAll a front)),
        length_absorbAll, Nat.sub_self]
      rfl
    refine ⟨_, hresults, refused_iff a front r, fun hrefused => ?_⟩
    rw [absorbAll_append]
    exact absorb_of_not_isOk hrefused
  writes := exists_gains a records
  orders := fun hdistinct others hperm => absorbAll_of_perm a hdistinct hperm

def halfDone : MemoryStore :=
  let s := (Status.empty.addInstance "g" ⟨"i-1", "", ""⟩).addInstance "h" ⟨"i-2", "", ""⟩
  ⟨(s.record "g" "i-0" ["/old"]).toOption.getD s, [2], []⟩

def mixedRecords : List Record :=
  [.success "g" "i-1" ["/a"], .failure "h" "i-3" (.cancelled "i-3"), .success "x" "i-1" ["/b"],
    .success "g" "i-1" ["/c"], .success "g" "i-0" ["/d"], .success "h" "i-2" ["/e", "/f"]]

theorem folds_mixedRecords :
    let last := (start halfDone).absorbAll mixedRecords
    last.1.map Except.isOk = [true, true, false, false, false, true] ∧
      last.2.tally = ⟨2, 1, 3⟩ ∧ last.2.store.syncs = 2 ∧
      Folds (start halfDone) mixedRecords := by
  refine ⟨?_, ?_, ?_, folds_absorbAll (start halfDone) mixedRecords⟩
  · decide +kernel
  · decide +kernel
  · decide +kernel

end Aggregation
end LogHarvest
