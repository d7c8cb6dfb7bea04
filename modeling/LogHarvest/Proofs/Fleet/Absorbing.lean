import LogHarvest.Fleet.Store
import LogHarvest.Proofs.Fleet.Recording

/-!
# What merging does to a store

To merge a record into a store adds it to the status, as `Status.merge` does, and
counts it.  A record that the status refuses leaves the store and the counts alone.
Whether the document gets written makes no difference to either.
-/

namespace LogHarvest

def Tally.count (t : Tally) : Option (List Path) → Tally
  | none => { t with failed := t.failed + 1 }
  | some paths =>
      { t with collected := t.collected + 1, totalFiles := t.totalFiles + paths.length }

def Tally.add (t : Tally) (r : Record) : Tally :=
  t.count r.outcome.toOption

def Tally.of (records : List Record) : Tally :=
  records.foldr (fun r t => t.add r) .zero

/-- Neither the order of records nor the faults of failures make a difference. -/
theorem Tally.of_perm {records others : List Record}
    (hperm : (records.map fun r => r.outcome.toOption).Perm
      (others.map fun r => r.outcome.toOption)) :
    Tally.of records = Tally.of others := by
  have hcount : ∀ rs : List Record, Tally.of rs =
      (rs.map fun r => r.outcome.toOption).foldr (fun o t => Tally.count t o) .zero := by
    intro rs
    rw [List.foldr_map]
    rfl
  rw [hcount, hcount]
  refine hperm.foldr_eq' ?_ Tally.zero
  intro o _ o' _ t
  cases o <;> cases o' <;> simp [Tally.count, Nat.add_right_comm]

theorem Tally.collected_add_failed (records : List Record) :
    (Tally.of records).collected + (Tally.of records).failed = records.length := by
  induction records with
  | nil => rfl
  | cons r earlier ih =>
      have hcons : Tally.of (r :: earlier) = (Tally.of earlier).count r.outcome.toOption := rfl
      rw [hcons, List.length_cons, ← ih]
      cases r.outcome.toOption with
      | none => exact (Nat.add_assoc _ _ _).symm
      | some paths => exact Nat.add_right_comm _ _ _

namespace FleetConfig

inductive Written (c : FleetConfig) (t : Tree) :
    Option Mishap → Except FleetFault Unit × Tree → Prop
  | untouched {mishap : Option Mishap} (cause : IoFault) :
      Written c t mishap (.error (.sync c.path cause), t)
  | drafted {mishap : Option Mishap} {place : Place} {created : Tree}
      (hcreate : t.create c.draftPath = .ok (place, created)) (cause : IoFault) (written : Nat) :
      Written c t mishap (.error (.sync c.path cause), created.fill place (c.bytes.take written))
  | replaced {place : Place} {created renamed : Tree}
      (hcreate : t.create c.draftPath = .ok (place, created))
      (hrename : (created.fill place c.bytes).rename c.draftPath c.path = .ok renamed) :
      Written c t none (.ok (), renamed)

theorem written_sync (c : FleetConfig) (mishap : Option Mishap) (t : Tree) :
    c.Written t mishap (c.sync mishap t) := by
  unfold sync
  cases hcreate : t.create c.draftPath with
  | error cause => exact .untouched cause
  | ok result =>
      obtain ⟨place, created⟩ := result
      have hwhole : ∀ {mishap : Option Mishap} (cause : IoFault),
          c.Written t mishap (.error (.sync c.path cause), created.fill place c.bytes) := by
        intro mishap cause
        have hdrafted : c.Written t mishap _ := .drafted hcreate cause c.bytes.length
        rwa [List.take_length] at hdrafted
      rcases mishap with _ | cause | ⟨cause, written⟩ | cause
      · dsimp only
        split
        · exact hwhole _
        · rename_i renamed hrename
          exact .replaced hcreate hrename
      · exact .untouched cause
      · exact .drafted hcreate cause written
      · exact hwhole cause

theorem result_sync (c : FleetConfig) (mishap : Option Mishap) (t : Tree) :
    (c.sync mishap t).1 = .ok () ∨ ∃ cause, (c.sync mishap t).1 = .error (.sync c.path cause) := by
  have hwritten := c.written_sync mishap t
  generalize c.sync mishap t = result at hwritten
  cases hwritten with
  | untouched cause => exact .inr ⟨cause, rfl⟩
  | drafted hcreate cause written => exact .inr ⟨cause, rfl⟩
  | replaced hcreate hrename => exact .inl rfl

theorem isOk_sync_of_mishap (c : FleetConfig) (mishap : Mishap) (t : Tree) :
    (c.sync (some mishap) t).1.isOk = false := by
  have hwritten := c.written_sync (some mishap) t
  generalize c.sync (some mishap) t = result at hwritten
  cases hwritten <;> rfl

end FleetConfig

def Rewritten (t t' : Tree) : Prop :=
  t' = t ∨ ∃ (c : FleetConfig) (mishap : Option Mishap), t' = (c.sync mishap t).2

namespace Aggregation

theorem config_finish (a : Aggregation FleetStore) :
    a.finish.2.config = a.store.config := by
  unfold finish
  split
  · rename_i hsync
    exact (congrArg (fun p => p.2.config) hsync).symm
  · rename_i hsync
    exact (congrArg (fun p => p.2.config) hsync).symm

theorem result_finish (a : Aggregation FleetStore) :
    a.finish.1 = .ok a.tally ∨
      ∃ cause, a.finish.1 = .error (.sync a.store.config.path cause) := by
  have hsync : (StatusStore.sync a.store).1 = .ok () ∨
      ∃ cause, (StatusStore.sync a.store).1 = .error (.sync a.store.config.path cause) :=
    FleetConfig.result_sync a.store.config a.store.mishaps.head?.join a.store.tree
  unfold finish
  split
  · exact Or.inl rfl
  · rename_i fault store hfailed
    rw [hfailed] at hsync
    rcases hsync with hok | ⟨cause, hcause⟩
    · cases hok
    · cases hcause
      exact Or.inr ⟨cause, rfl⟩

theorem absorb_of_ok {a : Aggregation FleetStore} {r : Record} {status : Status}
    (hmerge : a.store.config.status.merge r = .ok status) :
    (a.absorb r).1 = .ok () ∧ (a.absorb r).2.tally = a.tally.add r ∧
      (a.absorb r).2.store.config = { a.store.config with status := status } := by
  obtain ⟨group, id, outcome⟩ := r
  cases outcome with
  | error fault =>
      cases hmerge
      exact ⟨rfl, rfl, rfl⟩
  | ok paths =>
      have hrecord : (StatusStore.status a.store).record group id paths = .ok status := hmerge
      simp only [absorb, hrecord]
      exact ⟨trivial, rfl, rfl⟩

theorem absorb_of_error {a : Aggregation FleetStore} {r : Record} {fault : FleetFault}
    (hmerge : a.store.config.status.merge r = .error fault) :
    a.absorb r = (.error fault, a) := by
  obtain ⟨group, id, outcome⟩ := r
  cases outcome with
  | error cause => cases hmerge
  | ok paths =>
      have hrecord : (StatusStore.status a.store).record group id paths = .error fault := hmerge
      simp only [absorb, hrecord]

theorem rewritten_absorb (a : Aggregation FleetStore) (r : Record) :
    Rewritten a.store.tree (a.absorb r).2.store.tree := by
  obtain ⟨group, id, outcome⟩ := r
  cases outcome with
  | error fault => exact Or.inl rfl
  | ok paths =>
      cases hrecord : (StatusStore.status a.store).record group id paths with
      | error fault =>
          simp only [absorb, hrecord]
          exact Or.inl rfl
      | ok status =>
          simp only [absorb, hrecord]
          exact Or.inr ⟨_, _, rfl⟩

theorem rewritten_finish (a : Aggregation FleetStore) :
    Rewritten a.store.tree a.finish.2.tree := by
  unfold finish
  split
  · rename_i hsync
    exact Or.inr ⟨_, _, (congrArg (fun p => p.2.tree) hsync).symm⟩
  · rename_i hsync
    exact Or.inr ⟨_, _, (congrArg (fun p => p.2.tree) hsync).symm⟩

theorem within_absorb (a : Aggregation FleetStore) (r : Record) :
    a.store.config.status.Within (a.absorb r).2.store.config.status := by
  cases hmerge : a.store.config.status.merge r with
  | error fault =>
      rw [absorb_of_error hmerge]
      exact .refl _
  | ok status =>
      rw [(absorb_of_ok hmerge).2.2]
      exact Status.within_of_merge hmerge

end Aggregation
end LogHarvest
